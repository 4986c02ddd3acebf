/-
  A list put in order by a key alone, by a sort that says nothing of elements with one key.

  `Arranges key l r` says that `r` is one of the lists such a sort may give for `l`, the greatest
  keys first.  It is what can be relied on when the elements come out of a hash map: a stable sort
  would keep the order of ties, but that order was nobody's choice.

  1. `Arranges.keys_eq` — the keys come in one order only.
  2. `arranges_unique_iff` — the elements do too exactly when no two of them share a key.
-/
import Mathlib.Data.List.Sort
import Mathlib.Logic.Equiv.Basic

namespace RtsPipeline.Lib

universe u v

variable {α : Type u} {κ : Type v} [LE κ]

/-- `r` has the elements of `l`, by non-increasing key. -/
def Arranges (key : α → κ) (l r : List α) : Prop :=
  r.Perm l ∧ r.Pairwise fun a b => key b ≤ key a

variable {key : α → κ} {l l' r r' : List α}

theorem Arranges.perm (h : Arranges key l r) (hl : l.Perm l') : Arranges key l' r :=
  ⟨h.1.trans hl, h.2⟩

/-- Two elements of one key may change places. -/
theorem Arranges.swap [DecidableEq α] {a b : α} (h : Arranges key l r) (hl : l.Nodup)
    (ha : a ∈ l) (hb : b ∈ l) (hkey : key a = key b) :
    Arranges key l (r.map (Equiv.swap a b)) := by
  have hnodup : r.Nodup := h.1.nodup_iff.mpr hl
  have hsame : ∀ x, key (Equiv.swap a b x) = key x := by
    intro x
    rw [Equiv.swap_apply_def]
    split
    · rename_i hx; rw [hx, hkey]
    · split
      · rename_i hx; rw [hx, hkey]
      · rfl
  constructor
  · refine List.Perm.trans ?_ h.1
    rw [List.perm_ext_iff_of_nodup (hnodup.map (Equiv.swap a b).injective) hnodup]
    intro x
    have hmem : x ∈ r.map (Equiv.swap a b) ↔ Equiv.swap a b x ∈ r := by
      rw [List.mem_map]
      constructor
      · rintro ⟨y, hy, rfl⟩
        rwa [Equiv.swap_apply_self]
      · exact fun hx => ⟨_, hx, Equiv.swap_apply_self a b x⟩
    rw [hmem, Equiv.swap_apply_def]
    split
    · rename_i hx; exact iff_of_true (h.1.mem_iff.mpr hb) (hx ▸ h.1.mem_iff.mpr ha)
    · split
      · rename_i hx; exact iff_of_true (h.1.mem_iff.mpr ha) (hx ▸ h.1.mem_iff.mpr hb)
      · rfl
  · rw [List.pairwise_map]
    exact h.2.imp fun {x y} hxy => by rw [hsame, hsame]; exact hxy

variable [Std.IsLinearOrder κ]

theorem Arranges.keys_eq (h : Arranges key l r) (h' : Arranges key l r') :
    r.map key = r'.map key := by
  have hsort : (r.map key).Pairwise fun a b => b ≤ a := List.pairwise_map.mpr h.2
  have hsort' : (r'.map key).Pairwise fun a b => b ≤ a := List.pairwise_map.mpr h'.2
  refine List.Perm.eq_of_pairwise ?_ hsort hsort' ((h.1.trans h'.1.symm).map key)
  exact fun a b _ _ hab hba => Std.le_antisymm hba hab

/-- Something is arranged, whatever the list. -/
theorem exists_arranges [DecidableLE κ] (key : α → κ) (l : List α) : ∃ r, Arranges key l r := by
  refine ⟨l.mergeSort fun a b => decide (key b ≤ key a), List.mergeSort_perm _ _, ?_⟩
  refine (List.pairwise_mergeSort ?_ ?_ l).imp of_decide_eq_true
  · intro a b c hab hbc
    exact decide_eq_true (Std.le_trans (of_decide_eq_true hbc) (of_decide_eq_true hab))
  · intro a b
    rw [Bool.or_eq_true, decide_eq_true_iff, decide_eq_true_iff]
    exact Std.le_total

/-- **Uniqueness.**  The order of the elements is determined exactly when no two share a key. -/
theorem arranges_unique_iff [DecidableEq α] [DecidableLE κ] (hl : l.Nodup) :
    (∀ r r', Arranges key l r → Arranges key l r' → r = r') ↔
      ∀ a ∈ l, ∀ b ∈ l, key a = key b → a = b := by
  constructor
  · intro hunique a ha b hb hkey
    obtain ⟨r, h⟩ := exists_arranges key l
    have hfixed := hunique r _ h (h.swap hl ha hb hkey)
    have hid : ∀ x ∈ r, id x = Equiv.swap a b x :=
      List.map_inj_left.mp ((List.map_id r).trans hfixed)
    exact (hid a (h.1.mem_iff.mpr ha)).trans (Equiv.swap_apply_left a b)
  · intro hinj r r' h h'
    refine List.Perm.eq_of_pairwise ?_ h.2 h'.2 (h.1.trans h'.1.symm)
    intro a b ha hb hab hba
    exact hinj a (h.1.mem_iff.mp ha) b (h'.1.mem_iff.mp hb) (Std.le_antisymm hba hab)

end RtsPipeline.Lib
