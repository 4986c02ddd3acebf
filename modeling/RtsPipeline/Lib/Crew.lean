/-
  A crew of workers that go through the same script for every item they take.

  A worker's hands are empty or hold an item and the calls of the script that are still to be made
  for it.  Three things happen: a free worker takes an item, a worker makes its next call, a worker
  with nothing left to do puts the item down.

  `Balance` is the invariant: for each call of the script, the items taken are those for which it
  was made and those whose workers still owe it.  When nobody holds anything, each call was made
  for every item exactly once.
-/
import Mathlib.Data.List.Perm.Basic
import RtsPipeline.Lib.Slots

namespace RtsPipeline.Lib

universe u v

open scoped List

variable {α : Type u} {β : Type v} {n : Nat}

/-- What each worker holds, and the calls it still has to make for it. -/
abbrev Hands (α : Type u) (β : Type v) (n : Nat) := Fin n → Option (α × List β)

/-- One step of the crew: what was taken and which call was made. -/
inductive CrewStep (script : List β) (h : Hands α β n) :
    List α → List (β × α) → Hands α β n → Prop
  | idle : CrewStep script h [] [] h
  | take (i : Fin n) (x : α) (free : h i = none) :
      CrewStep script h [x] [] (Function.update h i (some (x, script)))
  | call (i : Fin n) (x : α) (b : β) (todo : List β) (at_ : h i = some (x, b :: todo)) :
      CrewStep script h [] [(b, x)] (Function.update h i (some (x, todo)))
  | done (i : Fin n) (x : α) (at_ : h i = some (x, [])) :
      CrewStep script h [] [] (Function.update h i none)

/-! ## What is made and what is owed

For a call `b` there are the items it was made for and the items whose workers still owe it.  Both
are lists, and the invariant compares them with the list of the items taken, up to order: it is
blind to who took which item and when. -/

/-- The calls left in changed hands are pairwise different if they were so everywhere else. -/
theorem once_update {h : Hands α β n} (hold : ∀ i x todo, h i = some (x, todo) → todo.Nodup)
    {i : Fin n} {w : Option (α × List β)} (hw : ∀ x todo, w = some (x, todo) → todo.Nodup) :
    ∀ j x todo, Function.update h i w j = some (x, todo) → todo.Nodup := by
  intro j x todo hj
  by_cases hji : j = i
  · subst hji
    rw [Function.update_self] at hj
    exact hw x todo hj
  · rw [Function.update_of_ne hji] at hj
    exact hold j x todo hj

variable [DecidableEq β]

/-- The items for which the call `b` was made. -/
def madeFor (b : β) (made : List (β × α)) : List α :=
  (made.filter fun c => c.1 = b).map Prod.snd

/-- The item for which a worker still has to make the call `b`. -/
def debt (b : β) : Option (α × List β) → Option α
  | some (x, todo) => if b ∈ todo then some x else none
  | none => none

/-- The items for which the call `b` is still to be made. -/
def owing (b : β) (h : Hands α β n) : List α := (held fun i => debt b (h i)).map Prod.snd

theorem madeFor_append (b : β) (made more : List (β × α)) :
    madeFor b (made ++ more) = madeFor b made ++ madeFor b more := by
  rw [madeFor, List.filter_append, List.map_append]
  rfl

theorem madeFor_single (b c : β) (x : α) :
    madeFor b [(c, x)] = if c = b then [x] else [] := by
  by_cases hc : c = b
  · rw [if_pos hc, madeFor, List.filter_cons_of_pos (by simpa using hc)]
    rfl
  · rw [if_neg hc, madeFor, List.filter_cons_of_neg (by simpa using hc)]
    rfl

/-- For each call of the script, an item was taken exactly if the call was made or is owed.  `once`
    carries the induction: a call that was just made is not still to come, so what is made leaves
    what is owed. -/
structure Balance (script : List β) (h : Hands α β n) (taken : List α) (made : List (β × α)) :
    Prop where
  once : ∀ i x todo, h i = some (x, todo) → todo.Nodup
  each : ∀ b ∈ script, taken.Perm (madeFor b made ++ owing b h)

theorem owing_none (b : β) {h : Hands α β n} (hnone : ∀ i, h i = none) : owing b h = [] := by
  have hslots : (fun i => debt b (h i)) = fun _ => none := funext fun i => by rw [hnone i, debt]
  rw [owing, hslots, held_empty]
  rfl

theorem balance_start (script : List β) {h : Hands α β n} (hnone : ∀ i, h i = none) :
    Balance script h [] [] where
  once := fun i x todo hi => absurd ((hnone i).symm.trans hi) (by simp)
  each := fun b _ => by
    rw [owing_none b hnone]
    exact List.Perm.refl []

/-- Whose hands changed changed what they owe. -/
theorem debt_update (b : β) (h : Hands α β n) (i : Fin n) (w : Option (α × List β)) :
    (fun j => debt b (Function.update h i w j)) =
      Function.update (fun j => debt b (h j)) i (debt b w) := by
  funext j
  by_cases hj : j = i
  · subst hj; rw [Function.update_self, Function.update_self]
  · rw [Function.update_of_ne hj, Function.update_of_ne hj]

theorem owing_kept {b : β} {h : Hands α β n} {i : Fin n} {w : Option (α × List β)}
    (hw : debt b w = debt b (h i)) : owing b (Function.update h i w) = owing b h := by
  unfold owing
  rw [debt_update, hw]
  exact congrArg (fun slots => (held slots).map Prod.snd)
    (Function.update_eq_self i fun j => debt b (h j))

theorem owing_more {b : β} {h : Hands α β n} {i : Fin n} {w : Option (α × List β)} {x : α}
    (hfree : debt b (h i) = none) (hw : debt b w = some x) :
    (owing b (Function.update h i w)).Perm (x :: owing b h) := by
  unfold owing
  rw [debt_update, hw]
  have hslot : (fun j => debt b (h j)) i = none := hfree
  exact (held_fill x hslot).map Prod.snd

theorem owing_less {b : β} {h : Hands α β n} {i : Fin n} {w : Option (α × List β)} {x : α}
    (hold : debt b (h i) = some x) (hw : debt b w = none) :
    (owing b h).Perm (x :: owing b (Function.update h i w)) := by
  unfold owing
  rw [debt_update, hw]
  have hslot : (fun j => debt b (h j)) i = some x := hold
  exact (held_empty_slot hslot).map Prod.snd

/-- **Step lemma** for `Balance`. -/
theorem Balance.step {script : List β} (hnd : script.Nodup) {h h' : Hands α β n}
    {taken more : List α} {made calls : List (β × α)} (hB : Balance script h taken made)
    (hs : CrewStep script h more calls h') :
    Balance script h' (taken ++ more) (made ++ calls) := by
  cases hs with
  | idle => simpa using hB
  | take i x free =>
    refine ⟨once_update hB.once ?_, fun b hb => ?_⟩
    · rintro y todo ⟨⟩
      exact hnd
    · have hmore := owing_more (b := b) (h := h) (i := i) (w := some (x, script)) (x := x)
        (by rw [free, debt]) (if_pos hb)
      rw [List.append_nil]
      calc taken ++ [x]
        _ ~ x :: taken := List.perm_append_singleton x taken
        _ ~ x :: (madeFor b made ++ owing b h) := (hB.each b hb).cons x
        _ ~ madeFor b made ++ (x :: owing b h) := List.perm_middle.symm
        _ ~ _ := hmore.symm.append_left _
  | call i x c todo at_ =>
    have hc := List.nodup_cons.mp (hB.once i x _ at_)
    refine ⟨once_update hB.once ?_, fun b hb => ?_⟩
    · rintro y rest ⟨⟩
      exact hc.2
    · rw [List.append_nil, madeFor_append, madeFor_single]
      by_cases hcb : c = b
      · -- the call moves from the worker's debts to the calls made
        subst hcb
        rw [if_pos rfl, List.append_assoc]
        refine (hB.each c hb).trans ((owing_less ?_ ?_).append_left _)
        · rw [at_, debt, if_pos List.mem_cons_self]
        · rw [debt, if_neg hc.1]
      · rw [if_neg hcb, List.append_nil, owing_kept]
        · exact hB.each b hb
        · rw [at_, debt, debt]
          simp only [List.mem_cons, Ne.symm hcb, false_or]
  | done i x at_ =>
    refine ⟨once_update hB.once (fun _ _ hw => nomatch hw), fun b hb => ?_⟩
    rw [List.append_nil, List.append_nil, owing_kept]
    · exact hB.each b hb
    · rw [at_, debt, debt, if_neg List.not_mem_nil]

/-- **When nobody holds anything**, each call was made for every item taken. -/
theorem Balance.settled {script : List β} {h : Hands α β n} {taken : List α}
    {made : List (β × α)} (hB : Balance script h taken made) (hnone : ∀ i, h i = none) {b : β}
    (hb : b ∈ script) : taken.Perm (madeFor b made) := by
  have := hB.each b hb
  rwa [owing_none b hnone, List.append_nil] at this

end RtsPipeline.Lib
