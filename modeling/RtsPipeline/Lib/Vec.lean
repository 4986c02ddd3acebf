/-
  Two operations of a vector and its iterator, as a systems language has them: the last greatest
  element under a comparison (`max_by`) and the removal that fills the gap with the last element
  (`swap_remove`).

  `max_by` knows nothing of orders, it is given a comparison.  What it returns is greatest for every
  preorder that the comparison decides in the one direction it uses: greater when it says so, and
  not smaller when it does not.  Which of several greatest elements it returns is in the definition,
  and no result here depends on it.
-/
import Mathlib.Data.List.Perm.Basic

namespace RtsPipeline.Lib

universe u

variable {α : Type u}

/-- `Iterator::max_by`: fold with the comparison, keeping the later of two equal elements. -/
def maxBy (cmp : α → α → Ordering) : List α → Option α
  | [] => none
  | x :: xs => some (xs.foldl (fun m y => if cmp m y = .gt then m else y) x)

@[simp] theorem maxBy_eq_none {cmp : α → α → Ordering} {l : List α} :
    maxBy cmp l = none ↔ l = [] := by
  cases l <;> simp [maxBy]

/-- The fold behind `maxBy`: its result dominates the start and every element.  By induction on the
    list, for every start, as the start is the best element met so far. -/
theorem foldl_max_spec {cmp : α → α → Ordering} {R : α → α → Prop}
    (hgt : ∀ a b, cmp a b = .gt → R a b) (hle : ∀ a b, cmp a b ≠ .gt → R b a)
    (hrefl : ∀ a, R a a) (htrans : ∀ {a b c}, R a b → R b c → R a c) :
    ∀ (l : List α) (x : α),
      (l.foldl (fun m y => if cmp m y = .gt then m else y) x ∈ x :: l) ∧
      ∀ y ∈ x :: l, R (l.foldl (fun m y => if cmp m y = .gt then m else y) x) y := by
  intro l
  induction l with
  | nil =>
    intro x
    refine ⟨List.mem_cons_self, fun y hy => ?_⟩
    rw [List.mem_singleton] at hy
    exact hy ▸ hrefl x
  | cons z l ih =>
    intro x
    rw [List.foldl_cons]
    by_cases h : cmp x z = .gt
    · rw [if_pos h]
      obtain ⟨hmem, hdom⟩ := ih x
      refine ⟨?_, fun y hy => ?_⟩
      · rcases List.mem_cons.mp hmem with he | he
        · rw [he]; exact List.mem_cons_self
        · exact List.mem_cons_of_mem _ (List.mem_cons_of_mem _ he)
      · rcases List.mem_cons.mp hy with rfl | hy
        · exact hdom _ List.mem_cons_self
        · rcases List.mem_cons.mp hy with rfl | hy
          · exact htrans (hdom x List.mem_cons_self) (hgt _ _ h)
          · exact hdom y (List.mem_cons_of_mem _ hy)
    · rw [if_neg h]
      obtain ⟨hmem, hdom⟩ := ih z
      refine ⟨List.mem_cons_of_mem _ hmem, fun y hy => ?_⟩
      rcases List.mem_cons.mp hy with rfl | hy
      · exact htrans (hdom z List.mem_cons_self) (hle _ _ h)
      · exact hdom y hy

/-- **`max_by` returns a greatest element**, for any preorder `R` the comparison decides. -/
theorem maxBy_spec {cmp : α → α → Ordering} {R : α → α → Prop}
    (hgt : ∀ a b, cmp a b = .gt → R a b) (hle : ∀ a b, cmp a b ≠ .gt → R b a)
    (hrefl : ∀ a, R a a) (htrans : ∀ {a b c}, R a b → R b c → R a c)
    {l : List α} {m : α} (h : maxBy cmp l = some m) : m ∈ l ∧ ∀ y ∈ l, R m y := by
  cases l with
  | nil => exact nomatch h
  | cons x xs =>
    obtain rfl := Option.some.inj h
    exact foldl_max_spec hgt hle hrefl htrans xs x

/-- `Vec::swap_remove`: the last element takes the place of the removed one. -/
def swapRemove (a : Array α) (i : Nat) (h : i < a.size) : Array α :=
  (a.swap i (a.size - 1) h (by omega)).pop

theorem swapRemove_perm (a : Array α) (i : Nat) (h : i < a.size) :
    a.toList.Perm (a[i] :: (swapRemove a i h).toList) := by
  have hs : (a.swap i (a.size - 1) h (by omega)).toList.Perm a.toList :=
    (Array.swap_perm _ _).toList
  have hne : (a.swap i (a.size - 1) h (by omega)).toList ≠ [] := by
    intro he
    have := congrArg List.length he
    rw [Array.length_toList, Array.size_swap, List.length_nil] at this
    omega
  have hlast : (a.swap i (a.size - 1) h (by omega)).toList.getLast hne = a[i] := by
    simp [List.getLast_eq_getElem]
  have hsplit := List.dropLast_append_getLast hne
  rw [hlast, ← Array.toList_pop] at hsplit
  rw [← hsplit] at hs
  exact hs.symm.trans (List.perm_append_singleton _ _)

end RtsPipeline.Lib
