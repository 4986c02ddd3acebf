/-
  `rts-threaded/src/leaderboard.rs` and `rts-async/src/leaderboard.rs`: the actor that counts edits.

  The two actors differ in their channels only.  The `HashMap` is an association list with one entry
  for a key; nothing is assumed of the order in which it is iterated, and the sort of a snapshot is
  not stable, so a snapshot may be any arrangement of the entries by non-increasing count.
-/
import Mathlib.Data.List.AList
import Mathlib.Data.UInt
import RtsPipeline.Lib.Arrangement

namespace RtsPipeline

open Lib

/-- The actor's `counts`. -/
structure Leaderboard where
  counts : AList fun _ : String => UInt64

namespace Leaderboard

/-- `Leaderboard::new`. -/
def new : Leaderboard := { counts := ∅ }

/-- `LbCmd::Update(wiki)`: `*self.counts.entry(wiki).or_insert(0) += 1`. -/
def update (l : Leaderboard) (wiki : String) : Leaderboard :=
  { counts := l.counts.insert wiki ((l.counts.lookup wiki).getD 0 + 1) }

/-- The entries of the map, in some order. -/
def entries (l : Leaderboard) : List (String × UInt64) := l.counts.entries.map fun e => (e.1, e.2)

/-- `LbCmd::Snapshot`: what `reply.send` may be given. -/
def Snapshot (l : Leaderboard) (reply : List (String × UInt64)) : Prop :=
  Arranges Prod.snd l.entries reply

instance (l : Leaderboard) (reply : List (String × UInt64)) : Decidable (l.Snapshot reply) :=
  inferInstanceAs (Decidable (reply.Perm l.entries ∧ reply.Pairwise fun a b => b.2 ≤ a.2))

/-- A snapshot can always be given. -/
theorem answerable (l : Leaderboard) : ∃ reply, l.Snapshot reply :=
  exists_arranges Prod.snd l.entries

/-! ## What the counts say

`Tallies` relates the map to the list of the wikis counted so far: a wiki is a key exactly if it
was counted, with the number of times. -/

/-- The counts are those of these updates. -/
def Tallies (l : Leaderboard) (seen : List String) : Prop :=
  ∀ wiki, l.counts.lookup wiki =
    if wiki ∈ seen then some (UInt64.ofNat (seen.count wiki)) else none

theorem tallies_new : new.Tallies [] := fun _ => rfl

theorem Tallies.update {l : Leaderboard} {seen : List String} (h : l.Tallies seen)
    (wiki : String) : (l.update wiki).Tallies (seen ++ [wiki]) := by
  intro w
  by_cases hw : w = wiki
  · subst hw
    rw [if_pos (List.mem_append_right _ (List.mem_singleton.mpr rfl))]
    show (l.counts.insert w _).lookup w = _
    rw [AList.lookup_insert, h w, List.count_append, List.count_singleton_self,
      UInt64.ofNat_add]
    by_cases hs : w ∈ seen
    · rw [if_pos hs]; rfl
    · rw [if_neg hs, List.count_eq_zero_of_not_mem hs]; rfl
  · show (l.counts.insert wiki _).lookup w = _
    rw [AList.lookup_insert_ne hw, h w, List.count_append]
    simp [hw, Ne.symm hw]

/-- **A snapshot** of counts that tally: each wiki seen once, with how often it was seen, by
    non-increasing count. -/
theorem Snapshot.exact {l : Leaderboard} {seen : List String} {reply : List (String × UInt64)}
    (h : l.Snapshot reply) (ht : l.Tallies seen) :
    (reply.map Prod.fst).Nodup ∧
      (∀ wiki n, (wiki, n) ∈ reply ↔ wiki ∈ seen ∧ n = UInt64.ofNat (seen.count wiki)) ∧
      reply.Pairwise fun a b => b.2 ≤ a.2 := by
  -- the reply has the entries of the map, whose keys are all different
  obtain ⟨hperm, hsorted⟩ := h
  refine ⟨?_, fun wiki n => ?_, hsorted⟩
  · rw [(hperm.map _).nodup_iff]
    have hkeys : l.entries.map Prod.fst = l.counts.keys := by
      simp [entries, AList.keys, List.keys]
    rw [hkeys]
    exact l.counts.keys_nodup
  -- an entry is a count that is looked up, and the tally says which it is
  · have hmem : (wiki, n) ∈ l.entries ↔ n ∈ l.counts.lookup wiki := by
      rw [AList.mem_lookup_iff]
      unfold entries
      rw [List.mem_map]
      constructor
      · rintro ⟨⟨k, c⟩, he, heq⟩
        obtain ⟨rfl, rfl⟩ := Prod.mk.inj heq
        exact he
      · exact fun he => ⟨⟨wiki, n⟩, he, rfl⟩
    rw [hperm.mem_iff, hmem, ht wiki]
    by_cases hs : wiki ∈ seen
    · simp [hs, eq_comm]
    · simp [hs]

end Leaderboard

end RtsPipeline
