/-
  What a finite number of parties hold, as one list.

  Each of `n` parties has one slot, empty or holding an item.  `held` lists the items with their
  holders, and the two lemmas say what it becomes when one slot is filled or emptied: an accounting
  proof over a permutation needs no more.  Where only their number matters, `tally` counts the
  parties in a state of some kind, and one lemma says what it becomes when one of them moves.
-/
import Mathlib.Algebra.BigOperators.Fin
import Mathlib.Algebra.Order.BigOperators.Group.Finset
import Mathlib.Data.List.FinRange
import Mathlib.Logic.Function.Basic

namespace RtsPipeline.Lib

universe u

variable {α : Type u} {n : Nat}

/-- The items held, with their holders. -/
def held (slots : Fin n → Option α) : List (Fin n × α) :=
  (List.finRange n).filterMap fun i => (slots i).map fun x => (i, x)

@[simp] theorem held_empty : held (fun _ : Fin n => (none : Option α)) = [] := by
  simp [held]

/-- Filling a slot adds its item. -/
theorem held_fill {slots : Fin n → Option α} {i : Fin n} (x : α) (h : slots i = none) :
    (held (Function.update slots i (some x))).Perm ((i, x) :: held slots) := by
  obtain ⟨before, after, hsplit⟩ := List.append_of_mem (List.mem_finRange i)
  have hnd : (before ++ i :: after).Nodup := hsplit ▸ List.nodup_finRange n
  have hi : i ∉ before ∧ i ∉ after := by
    have := (List.nodup_cons.mp (List.perm_middle.nodup_iff.mp hnd)).1
    exact ⟨fun hb => this (List.mem_append_left _ hb), fun ha => this (List.mem_append_right _ ha)⟩
  -- the other slots are as before
  have hsame : ∀ l : List (Fin n), i ∉ l →
      (l.filterMap fun j => (Function.update slots i (some x) j).map fun y => (j, y)) =
        l.filterMap fun j => (slots j).map fun y => (j, y) := by
    intro l hl
    refine List.filterMap_congr fun j hj => ?_
    rw [Function.update_of_ne]
    rintro rfl
    exact hl hj
  unfold held
  rw [hsplit, List.filterMap_append, List.filterMap_append, hsame before hi.1,
    List.filterMap_cons_some (b := (i, x)) (by rw [Function.update_self]; rfl),
    List.filterMap_cons_none (by rw [h]; rfl), hsame after hi.2]
  exact List.perm_middle

/-- Emptying a slot removes its item. -/
theorem held_empty_slot {slots : Fin n → Option α} {i : Fin n} {x : α} (h : slots i = some x) :
    (held slots).Perm ((i, x) :: held (Function.update slots i none)) := by
  have hfree : Function.update slots i none i = none := Function.update_self ..
  have hfill := held_fill x hfree
  rw [Function.update_idem, ← h, Function.update_eq_self] at hfill
  exact hfill

/-! ## How many

Where parties differ in what they count for, a sum of weights takes the place of the tally.  Both
change by one party at a time, and the lemmas are equations between sums, as the difference of two
natural numbers would be cut off. -/

/-- How many of the parties are in a state that meets `p`. -/
def tally (p : α → Bool) (f : Fin n → α) : Nat := (List.finRange n).countP fun i => p (f i)

/-- One party moves. -/
theorem tally_update (p : α → Bool) (f : Fin n → α) (i : Fin n) (x : α) :
    tally p (Function.update f i x) + (p (f i)).toNat = tally p f + (p x).toNat := by
  obtain ⟨before, after, hsplit⟩ := List.append_of_mem (List.mem_finRange i)
  have hnd : (before ++ i :: after).Nodup := hsplit ▸ List.nodup_finRange n
  have hi : i ∉ before ++ after := (List.nodup_cons.mp (List.perm_middle.nodup_iff.mp hnd)).1
  -- the others are counted as before
  have hsame : ∀ l : List (Fin n), i ∉ l →
      (l.countP fun j => p (Function.update f i x j)) = l.countP fun j => p (f j) := by
    intro l hl
    refine List.countP_congr fun j hj => ?_
    rw [Function.update_of_ne]
    rintro rfl
    exact hl hj
  have hone : ∀ b : Bool, (if b = true then 1 else 0) = b.toNat := fun b => by cases b <;> rfl
  unfold tally
  rw [hsplit, List.countP_append, List.countP_append, List.countP_cons, List.countP_cons,
    hsame before fun hb => hi (List.mem_append_left _ hb),
    hsame after fun ha => hi (List.mem_append_right _ ha), Function.update_self, hone, hone]
  omega

theorem tally_le (p : α → Bool) (f : Fin n → α) : tally p f ≤ n := by
  have := List.countP_le_length (p := fun i => p (f i)) (l := List.finRange n)
  rwa [List.length_finRange] at this

theorem tally_eq_zero {p : α → Bool} {f : Fin n → α} : tally p f = 0 ↔ ∀ i, p (f i) = false := by
  rw [tally, List.countP_eq_zero]
  exact ⟨fun h i => Bool.eq_false_iff.mpr (h i (List.mem_finRange i)),
    fun h i _ => Bool.eq_false_iff.mp (h i)⟩

theorem tally_eq_all {p : α → Bool} {f : Fin n → α} : tally p f = n ↔ ∀ i, p (f i) = true := by
  have hlen : (List.finRange n).length = n := List.length_finRange
  rw [tally]
  conv_lhs => rhs; rw [← hlen]
  rw [List.countP_eq_length]
  exact ⟨fun h i => h i (List.mem_finRange i), fun h i _ => h i⟩

/-- What the parties weigh together, when one of them moves. -/
theorem sum_update (weight : α → Nat) (f : Fin n → α) (i : Fin n) (x : α) :
    ∑ j, weight (Function.update f i x j) + weight (f i) = ∑ j, weight (f j) + weight x := by
  have hcomp : (fun j => weight (Function.update f i x j)) =
      Function.update (fun j => weight (f j)) i (weight x) :=
    Function.comp_update weight f i x
  rw [hcomp, Finset.sum_update_of_mem (Finset.mem_univ i),
    ← Finset.add_sum_erase Finset.univ (fun j => weight (f j)) (Finset.mem_univ i),
    Finset.sdiff_singleton_eq_erase]
  omega

theorem sum_le {weight : α → Nat} {f : Fin n → α} {k : Nat} (h : ∀ i, weight (f i) ≤ k) :
    ∑ i, weight (f i) ≤ n * k := by
  have hsum := Finset.sum_le_card_nsmul Finset.univ (fun i => weight (f i)) k fun i _ => h i
  rwa [Finset.card_univ, Fintype.card_fin, smul_eq_mul] at hsum

end RtsPipeline.Lib
