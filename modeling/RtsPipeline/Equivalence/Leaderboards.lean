/-
  The leaderboard and the order of its updates: both actors, over every interleaving of the workers.

  An actor counts its `Update` commands in a `HashMap` and answers a `Snapshot` with the entries
  sorted by descending count, and by nothing else.  What is counted does not depend on the order of
  the updates.  How wikis with equal counts are ordered depends on the iteration order of the map,
  which the program leaves open.

  1. `Leaderboard.run` — the actor; `Answers` — what a `Snapshot` after some commands may be
     answered.
  2. `entries_perm` — permuted updates leave the same entries.
  3. `leaderboards_agree` — hence the same counts in the same order, and the same list exactly when
     no two wikis have the same count.
-/
import RtsPipeline.Async.Run
import RtsPipeline.Lib.Arrangement
import RtsPipeline.Threaded.Pipeline

namespace RtsPipeline

open Lib

/-- The commands of a leaderboard actor: the wiki of an `Update`, nothing for a `Snapshot`. -/
class LeaderboardCmd (κ : Type) where
  wiki? : κ → Option String

instance : LeaderboardCmd Threaded.LbCmd where
  wiki? := Threaded.LbCmd.wiki?

instance : LeaderboardCmd Async.LbCmd where
  wiki? := Async.LbCmd.wiki?

namespace Leaderboard

variable {κ κ' : Type} [LeaderboardCmd κ] [LeaderboardCmd κ']

/-- One command: an `Update` is counted; a `Snapshot` changes nothing. -/
def serve (l : Leaderboard) (cmd : κ) : Leaderboard :=
  match LeaderboardCmd.wiki? cmd with
  | some wiki => l.update wiki
  | none => l

/-- `Leaderboard::run`, until it has received these commands. -/
def run (l : Leaderboard) (cmds : List κ) : Leaderboard := cmds.foldl serve l

/-- The wikis of the updates, in order. -/
def updates (cmds : List κ) : List String := cmds.filterMap LeaderboardCmd.wiki?

/-- What a `Snapshot` after these commands may be answered. -/
def Answers (cmds : List κ) (reply : List (String × UInt64)) : Prop :=
  (Leaderboard.new.run cmds).Snapshot reply

instance (cmds : List κ) (reply : List (String × UInt64)) : Decidable (Answers cmds reply) :=
  inferInstanceAs (Decidable (Snapshot _ _))

/-! ## What was counted

The map after some updates is a function of how often each wiki occurs in them, so their order is
forgotten. -/

/-- **Run lemma** for the tallies.  A `Snapshot` changes nothing, and an update counts one wiki. -/
theorem tallies_run (cmds : List κ) : ∀ {l : Leaderboard} {seen : List String}, l.Tallies seen →
    (l.run cmds).Tallies (seen ++ updates cmds) := by
  induction cmds with
  | nil =>
    intro l seen h
    rw [updates, List.filterMap_nil, List.append_nil]
    exact h
  | cons cmd cmds ih =>
    intro l seen h
    show ((l.serve cmd).run cmds).Tallies (seen ++ List.filterMap _ (cmd :: cmds))
    cases hcmd : LeaderboardCmd.wiki? cmd with
    | none =>
      have hserve : l.serve cmd = l := by rw [serve, hcmd]
      rw [List.filterMap_cons_none hcmd, hserve]
      exact ih h
    | some wiki =>
      have hserve : l.serve cmd = l.update wiki := by rw [serve, hcmd]
      rw [List.filterMap_cons_some hcmd, hserve, List.append_cons]
      exact ih (h.update wiki)

/-- The entries are what tallies. -/
theorem mem_entries {l : Leaderboard} {seen : List String} (h : l.Tallies seen) {wiki : String}
    {n : UInt64} : (wiki, n) ∈ l.entries ↔ wiki ∈ seen ∧ n = UInt64.ofNat (seen.count wiki) := by
  obtain ⟨reply, hreply⟩ := exists_arranges Prod.snd l.entries
  rw [← hreply.1.mem_iff]
  exact (Snapshot.exact hreply h).2.1 wiki n

theorem nodup_entries {l : Leaderboard} {seen : List String} (h : l.Tallies seen) :
    l.entries.Nodup := by
  obtain ⟨reply, hreply⟩ := exists_arranges Prod.snd l.entries
  exact hreply.1.nodup_iff.mp (Snapshot.exact hreply h).1.of_map

/-- The same updates in another order leave the same entries. -/
theorem entries_perm {cmds : List κ} {cmds' : List κ'}
    (hperm : (updates cmds).Perm (updates cmds')) :
    (new.run cmds').entries.Perm (new.run cmds).entries := by
  have h := tallies_run cmds tallies_new
  have h' := tallies_run cmds' tallies_new
  rw [List.nil_append] at h h'
  rw [List.perm_ext_iff_of_nodup (nodup_entries h') (nodup_entries h)]
  rintro ⟨wiki, n⟩
  rw [mem_entries h, mem_entries h', hperm.mem_iff, hperm.count_eq]

/-! ## What is answered

A reply is the entries in some order by count.  If no two counts are equal there is one such order;
otherwise there are several, and nothing in the code picks one. -/

/-- No two wikis have the same count, a `u64`. -/
def Distinct (seen : List String) : Prop :=
  ∀ v ∈ seen, ∀ w ∈ seen, UInt64.ofNat (seen.count v) = UInt64.ofNat (seen.count w) → v = w

instance (seen : List String) : Decidable (Distinct seen) :=
  inferInstanceAs (Decidable (∀ v ∈ seen, ∀ w ∈ seen, _ → v = w))

theorem distinct_iff {l : Leaderboard} {seen : List String} (h : l.Tallies seen) :
    (∀ a ∈ l.entries, ∀ b ∈ l.entries, a.2 = b.2 → a = b) ↔ Distinct seen := by
  constructor
  · intro hinj v hv w hw hcount
    have ha := (mem_entries h).mpr ⟨hv, rfl⟩
    have hb := (mem_entries h).mpr ⟨hw, rfl⟩
    exact (Prod.mk.inj (hinj _ ha _ hb hcount)).1
  · rintro hdistinct ⟨v, m⟩ ha ⟨w, n⟩ hb rfl
    obtain ⟨hv, hm⟩ := (mem_entries h).mp ha
    obtain ⟨hw, hn⟩ := (mem_entries h).mp hb
    rw [hdistinct v hv w hw (hm.symm.trans hn)]

/-- **The leaderboard and the order of its updates.**  Two command sequences, of the same actor or
    of both, whose updates are permutations of one another, each followed by a `Snapshot`, and any
    iteration orders of the maps:

    * the replies have the same entries, and the same counts in the same order;
    * the replies are sure to be the same list exactly when no two wikis have the same count.

    The map after the updates depends on how often each wiki occurs, and a reply is an arrangement
    of its entries by count.  Two arrangements can differ exactly where two keys are equal. -/
theorem leaderboards_agree (cmds : List κ) (cmds' : List κ')
    (hperm : (updates cmds).Perm (updates cmds')) :
    (∀ reply reply', Answers cmds reply → Answers cmds' reply' →
      reply.Perm reply' ∧ reply.map Prod.snd = reply'.map Prod.snd) ∧
    ((∀ reply reply', Answers cmds reply → Answers cmds' reply' → reply = reply') ↔
      Distinct (updates cmds)) := by
  have hentries := entries_perm hperm
  have htallies : (new.run cmds).Tallies (updates cmds) := tallies_run cmds tallies_new
  -- a reply of the second actor is an arrangement of the entries of the first
  have hother : ∀ reply, Answers cmds' reply ↔
      Arranges Prod.snd (new.run cmds).entries reply := fun reply =>
    ⟨fun h => Arranges.perm h hentries, fun h => Arranges.perm h hentries.symm⟩
  constructor
  · intro reply reply' h h'
    have h' := (hother reply').mp h'
    exact ⟨h.1.trans h'.1.symm, Arranges.keys_eq h h'⟩
  · rw [← distinct_iff htallies, ← arranges_unique_iff (nodup_entries htallies)]
    refine forall_congr' fun reply => forall_congr' fun reply' => ?_
    rw [hother reply']
    rfl

/-- Three edits of two wikis: the threaded actor and the async one give the same list. -/
theorem leaderboards_agree_three :
    Answers [Threaded.LbCmd.update "a", .update "b", .update "a"] [("a", 2), ("b", 1)] ∧
    ∀ reply reply', Answers [Threaded.LbCmd.update "a", .update "b", .update "a"] reply →
      Answers [Async.LbCmd.update "b", .update "a", .update "a"] reply' → reply = reply' :=
  ⟨by decide, (leaderboards_agree [Threaded.LbCmd.update "a", .update "b", .update "a"]
    [Async.LbCmd.update "b", .update "a", .update "a"] (by decide)).2.mpr (by decide)⟩

/-- One edit each of two wikis: either may come first, in both actors. -/
theorem leaderboards_disagree :
    (¬ ∀ (cmds cmds' : List Threaded.LbCmd) (reply reply' : List (String × UInt64)),
      (updates cmds).Perm (updates cmds') → Answers cmds reply → Answers cmds' reply' →
      reply = reply') ∧
    ¬ ∀ (cmds cmds' : List Async.LbCmd) (reply reply' : List (String × UInt64)),
      (updates cmds).Perm (updates cmds') → Answers cmds reply → Answers cmds' reply' →
      reply = reply' := by
  constructor
  · intro h
    have := h [.update "a", .update "b"] [.update "a", .update "b"] [("a", 1), ("b", 1)]
      [("b", 1), ("a", 1)] (List.Perm.refl _) (by decide) (by decide)
    exact absurd this (by decide)
  · intro h
    have := h [.update "a", .update "b"] [.update "a", .update "b"] [("a", 1), ("b", 1)]
      [("b", 1), ("a", 1)] (List.Perm.refl _) (by decide) (by decide)
    exact absurd this (by decide)

end Leaderboard

end RtsPipeline
