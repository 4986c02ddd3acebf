/-
  A bounded bag: the reference for every queue that loses items when it is full.

  `serves bag x` says that `x` may be taken from the bag next, `evicts bag x` that it may be given
  up for a new item.  A step of the bag is a relation, as both leave a choice.  What holds of every
  run follows from the relation alone: the bound, and that every item is served, evicted or still
  there.

  What is shown by a step is in the relation and not read off the states, so that a queue that
  refines the bag has to show what it did, and cannot serve one item and answer with another.
-/
import Mathlib.Algebra.Order.Group.Multiset
import Mathlib.Data.Multiset.AddSub
import Mathlib.Tactic.Abel

namespace RtsPipeline.Lib

universe u

/-- An operation on the bag. -/
inductive BagOp (α : Type u)
  | push (x : α)
  | pop

/-- What an operation shows. -/
inductive BagShow (α : Type u)
  | pushed (evicted : Option α)
  | popped (served : Option α)

variable {α : Type u} (serves evicts : Multiset α → α → Prop) (C : Nat)

/-- One step of a bag of capacity `C`. -/
inductive BagStep : Multiset α → BagOp α → BagShow α → Multiset α → Prop
  | room (bag : Multiset α) (x : α) (lt : bag.card < C) :
      BagStep bag (.push x) (.pushed none) (x ::ₘ bag)
  | full (rest : Multiset α) (x v : α) (le : C ≤ (v ::ₘ rest).card)
      (worst : evicts (v ::ₘ rest) v) :
      BagStep (v ::ₘ rest) (.push x) (.pushed (some v)) (x ::ₘ rest)
  | serve (rest : Multiset α) (x : α) (next : serves (x ::ₘ rest) x) :
      BagStep (x ::ₘ rest) .pop (.popped (some x)) rest
  | idle : BagStep 0 .pop (.popped none) 0

/-- A run of the bag. -/
inductive BagRun : Multiset α → List (BagOp α) → List (BagShow α) → Multiset α → Prop
  | nil (bag : Multiset α) : BagRun bag [] [] bag
  | cons {bag bag' bag'' : Multiset α} {op : BagOp α} {out : BagShow α} {ops : List (BagOp α)}
      {outs : List (BagShow α)} (head : BagStep serves evicts C bag op out bag')
      (tail : BagRun bag' ops outs bag'') : BagRun bag (op :: ops) (out :: outs) bag''

variable {serves evicts C}

/-- The item pushed. -/
def BagOp.pushed : BagOp α → Option α
  | push x => some x
  | pop => none

/-- The item served. -/
def BagShow.served : BagShow α → Option α
  | .popped x => x
  | .pushed _ => none

/-- The item given up. -/
def BagShow.evicted : BagShow α → Option α
  | .pushed x => x
  | .popped _ => none

/-- A step keeps the bound. -/
theorem BagStep.card_le {bag bag' : Multiset α} {op : BagOp α} {out : BagShow α}
    (h : BagStep serves evicts C bag op out bag') (hle : bag.card ≤ C) : bag'.card ≤ C := by
  cases h with
  | room _ x lt => rw [Multiset.card_cons]; exact lt
  | full rest x v le worst => rw [Multiset.card_cons] at hle ⊢; exact hle
  | serve _ x next =>
    rw [Multiset.card_cons] at hle
    exact Nat.le_of_succ_le hle
  | idle => exact hle

/-- A run keeps the bound. -/
theorem BagRun.card_le {bag bag' : Multiset α} {ops : List (BagOp α)} {outs : List (BagShow α)}
    (h : BagRun serves evicts C bag ops outs bag') (hle : bag.card ≤ C) : bag'.card ≤ C := by
  induction h with
  | nil => exact hle
  | cons head _ ih => exact ih (head.card_le hle)

/-- What a step takes in is what it gives out and what it keeps. -/
theorem BagStep.conserve {bag bag' : Multiset α} {op : BagOp α} {out : BagShow α}
    (h : BagStep serves evicts C bag op out bag') :
    (op.pushed.toList : Multiset α) + bag =
      (out.served.toList : Multiset α) + (out.evicted.toList : Multiset α) + bag' := by
  cases h with
  | room _ x lt => exact (zero_add _).symm
  | full rest x v le worst =>
    show {x} + (v ::ₘ rest) = 0 + {v} + (x ::ₘ rest)
    rw [zero_add, Multiset.singleton_add, Multiset.singleton_add, Multiset.cons_swap]
  | serve _ x next =>
    show 0 + (x ::ₘ bag') = {x} + 0 + bag'
    rw [zero_add, add_zero, Multiset.singleton_add]
  | idle => rfl

/-- **Conservation**: every item pushed is served, evicted or in the bag, once. -/
theorem BagRun.conserve {bag bag' : Multiset α} {ops : List (BagOp α)}
    {outs : List (BagShow α)} (h : BagRun serves evicts C bag ops outs bag') :
    (ops.filterMap BagOp.pushed : Multiset α) + bag =
      (outs.filterMap BagShow.served : Multiset α) +
        (outs.filterMap BagShow.evicted : Multiset α) + bag' := by
  -- an option at the head of a filtered list
  have hcons : ∀ {β : Type u} (f : β → Option α) (x : β) (xs : List β),
      (((x :: xs).filterMap f : List α) : Multiset α) =
        ((f x).toList : Multiset α) + (xs.filterMap f : Multiset α) := by
    intro β f x xs
    cases hf : f x with
    | none => rw [List.filterMap_cons_none hf]; exact (zero_add _).symm
    | some y => rw [List.filterMap_cons_some hf]; rfl
  induction h with
  | nil bag => exact (congrArg (· + bag) (zero_add 0)).symm
  | @cons bag bag' bag'' op out ops outs head _ ih =>
    have hstep := head.conserve
    rw [hcons, hcons, hcons]
    calc (op.pushed.toList : Multiset α) + (ops.filterMap BagOp.pushed : Multiset α) + bag
        = (op.pushed.toList : Multiset α) + bag + (ops.filterMap BagOp.pushed : Multiset α) := by
          rw [add_assoc, add_assoc, add_comm bag]
      _ = (out.served.toList : Multiset α) + (out.evicted.toList : Multiset α) +
            ((ops.filterMap BagOp.pushed : Multiset α) + bag') := by
          rw [hstep, add_assoc, add_comm bag']
      _ = _ := by
          rw [ih]
          abel

end RtsPipeline.Lib
