/-
  The value of a given rank in a list that need not be sorted.

  `IsRanked l k v` counts instead of sorting: at most `k` elements are below `v`, and more than `k`
  are at or below it.  So the place of an element in the list does not matter, and lists that grow
  element by element are easy to compare.

  1. `IsRanked.mem` — a ranked value is one of the elements.
  2. `IsRanked.mono` — when every element grows, so does the value of each rank.
  3. `isRanked_of_sorted` — in a sorted list it is the element at that position.
-/
import Mathlib.Data.List.Forall2

namespace RtsPipeline.Lib

universe u v

/-! ## Counting in two lists at once

Two lists whose entries are related one by one: what is counted of the one bounds what is counted
of the other. -/

/-- Elementwise related lists, seen through predicates that go back along the relation. -/
theorem countP_le_of_forall₂ {α : Type u} {β : Type v} {R : α → β → Prop} {p : α → Bool}
    {q : β → Bool} (hpq : ∀ a b, R a b → q b = true → p a = true) {l : List α} {l' : List β}
    (h : List.Forall₂ R l l') : l'.countP q ≤ l.countP p := by
  induction h with
  | nil => exact Nat.le_refl _
  | cons hR _ ih =>
    rw [List.countP_cons, List.countP_cons]
    have := hpq _ _ hR
    split
    · rename_i hb
      rw [if_pos (this hb)]
      omega
    · omega

/-! ## Ranks

Both counts are needed: the first says that `v` is not too great, the second that it is not too
small.  If `v` is a ranked value of the lesser list and `v'` of the greater, more than `k` elements
of the greater list are at or below `v'`; so are the elements they came from, and they cannot all
be below `v`. -/

variable {α : Type u} [LE α] [LT α] [DecidableLE α] [DecidableLT α]

/-- `v` is the value of rank `k`, the smallest element having rank `0`. -/
def IsRanked (l : List α) (k : Nat) (v : α) : Prop :=
  l.countP (fun x => decide (x < v)) ≤ k ∧ k < l.countP (fun x => decide (x ≤ v))

theorem IsRanked.perm {l l' : List α} {k : Nat} {v : α} (h : IsRanked l k v) (hp : l.Perm l') :
    IsRanked l' k v := by
  rw [IsRanked, ← hp.countP_eq, ← hp.countP_eq]
  exact h

variable [Std.IsLinearOrder α] [Std.LawfulOrderLT α]

theorem IsRanked.mem {l : List α} {k : Nat} {v : α} (h : IsRanked l k v) : v ∈ l := by
  by_contra hv
  -- nothing equals `v`, so the two counts are of the same elements
  have hsame : l.countP (fun x => decide (x ≤ v)) = l.countP (fun x => decide (x < v)) := by
    refine List.countP_congr fun x hx => ?_
    rw [decide_eq_true_iff, decide_eq_true_iff]
    constructor
    · intro hle
      exact Std.not_le.mp fun hge => hv (Std.le_antisymm hge hle ▸ hx)
    · exact Std.le_of_lt
  have := h.1
  have := h.2
  omega

/-- Ranks are monotone. -/
theorem IsRanked.mono {l l' : List α} {k : Nat} {v v' : α} (h : IsRanked l k v)
    (h' : IsRanked l' k v') (hle : List.Forall₂ (· ≤ ·) l l') : v ≤ v' := by
  by_contra hlt
  have hlt : v' < v := Std.not_le.mp hlt
  -- what is at or below `v'` in the greater list comes from below `v`
  have hcount := countP_le_of_forall₂ (p := fun x => decide (x < v))
    (q := fun x => decide (x ≤ v'))
    (fun a b hab hb => decide_eq_true
      (Std.lt_of_le_of_lt (Std.le_trans hab (of_decide_eq_true hb)) hlt)) hle
  have := h.1
  have := h'.2
  omega

/-- What stands between the smaller elements and the greater ones.  Nothing behind it is less, and
    all before it, with itself, are one more than its position. -/
theorem isRanked_between {before after : List α} {v : α} (hb : ∀ x ∈ before, x ≤ v)
    (ha : ∀ x ∈ after, v ≤ x) : IsRanked (before ++ v :: after) before.length v := by
  constructor
  · have hnone : (v :: after).countP (fun x => decide (x < v)) = 0 := by
      refine List.countP_eq_zero.mpr fun x hx => ?_
      rw [decide_eq_true_iff, Std.not_lt]
      rcases List.mem_cons.mp hx with rfl | hx
      · exact Std.le_refl _
      · exact ha x hx
    rw [List.countP_append, hnone, Nat.add_zero]
    exact List.countP_le_length
  · have hall : before.countP (fun x => decide (x ≤ v)) = before.length :=
      List.countP_eq_length.mpr fun x hx => decide_eq_true (hb x hx)
    have hself : 0 < (v :: after).countP (fun x => decide (x ≤ v)) :=
      List.countP_pos_iff.mpr ⟨v, List.mem_cons_self, decide_eq_true (Std.le_refl v)⟩
    rw [List.countP_append, hall]
    omega

/-- The element at position `k` of a sorted list has rank `k`. -/
theorem isRanked_of_sorted {l : List α} (hs : l.Pairwise (· ≤ ·)) {k : Nat} (hk : k < l.length) :
    IsRanked l k l[k] := by
  have hsplit : l.take k ++ l[k] :: l.drop (k + 1) = l := by
    rw [← List.drop_eq_getElem_cons hk, List.take_append_drop]
  have hparts := hs
  rw [← hsplit, List.pairwise_append, List.pairwise_cons] at hparts
  obtain ⟨_, ⟨hafter, _⟩, hbefore⟩ := hparts
  have hranked := isRanked_between (fun x hx => hbefore x hx _ List.mem_cons_self) hafter
  rw [hsplit, List.length_take_of_le (Nat.le_of_lt hk)] at hranked
  exact hranked

end RtsPipeline.Lib
