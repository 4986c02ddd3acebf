/-
  A one-permit notification with a first-in first-out list of waiters.

  Each waiter holds a future, and the notification never sees more than one future of a waiter:

  * `notifyOne` wakes the longest-registered waiter, or stores one permit when there is none;
  * the first poll of a future consumes a stored permit (`consume`), or registers the waiter
    (`register`);
  * a later poll is ready only if the waiter was woken in between (`acknowledge`);
  * `dropFuture` unregisters, and passes a wake-up that was delivered but never polled on.

  A permit and a registered waiter exclude each other, and the structure carries that as a field.
  The rest of the file is the algebra a liveness argument needs: which operation keeps which
  wake-up, in the two readings "somebody is going to look" (`Pending`) and "how many are going to
  look" (`wakeups`).
-/
import Mathlib.Data.List.Basic

namespace RtsPipeline.Lib

universe u

/-- A notification for the waiters `ι`: a stored permit, the registered waiters, oldest first, and
    the waiters that were woken and have not polled since. -/
structure Notify (ι : Type u) where
  permit : Bool
  waiters : List ι
  notified : List ι
  exclusive : permit = true → waiters = []

namespace Notify

variable {ι : Type u}

/-- No permit, nobody waiting. -/
def new : Notify ι := { permit := false, waiters := [], notified := [], exclusive := fun _ => rfl }

/-- Wake the longest-registered waiter, or store the permit. -/
def notifyOne (n : Notify ι) : Notify ι :=
  match n.waiters with
  | [] => { permit := true, waiters := [], notified := n.notified, exclusive := fun _ => rfl }
  | w :: ws =>
    { permit := false, waiters := ws, notified := n.notified ++ [w]
      exclusive := fun h => nomatch h }

/-- The first poll of a future finds a permit and consumes it. -/
def consume (n : Notify ι) : Notify ι := { n with permit := false, exclusive := fun h => nomatch h }

/-- The first poll of a future finds no permit and registers. -/
def register (n : Notify ι) (i : ι) : Notify ι :=
  { n with permit := false, waiters := n.waiters ++ [i], exclusive := fun h => nomatch h }

variable [DecidableEq ι]

/-- A woken future is polled and becomes ready. -/
def acknowledge (n : Notify ι) (i : ι) : Notify ι := { n with notified := n.notified.erase i }

/-- Drop the future of `i`, in whatever state it is. -/
def dropFuture (n : Notify ι) (i : ι) : Notify ι :=
  if i ∈ n.notified then (n.acknowledge i).notifyOne
  else
    { n with
      waiters := n.waiters.erase i
      exclusive := fun h => by rw [n.exclusive h]; rfl }

/-! ## Whose future is registered or woken

A wake-up moves a waiter from one list to the other, so the two together change only when a waiter
comes or goes. -/

/-- The waiters with a registered or a woken future. -/
def futures (n : Notify ι) : List ι := n.waiters ++ n.notified

omit [DecidableEq ι] in
theorem futures_notifyOne (n : Notify ι) : n.notifyOne.futures.Perm n.futures := by
  unfold notifyOne
  split
  · rename_i hw; simp [futures, hw]
  · rename_i w ws hw
    simp only [futures, hw]
    rw [← List.append_assoc]
    exact List.perm_append_singleton w (ws ++ n.notified)

omit [DecidableEq ι] in
theorem futures_register (n : Notify ι) (i : ι) : (n.register i).futures.Perm (i :: n.futures) := by
  show ((n.waiters ++ [i]) ++ n.notified).Perm (i :: (n.waiters ++ n.notified))
  rw [List.append_assoc]
  exact List.perm_middle

theorem futures_acknowledge {n : Notify ι} {i : ι} (h : i ∈ n.notified) :
    n.futures.Perm (i :: (n.acknowledge i).futures) :=
  ((List.perm_cons_erase h).append_left n.waiters).trans List.perm_middle

/-- Dropping a future leaves everybody else's registered or woken. -/
theorem mem_futures_dropFuture {n : Notify ι} {i j : ι} (hij : j ≠ i) (h : j ∈ n.futures) :
    j ∈ (n.dropFuture i).futures := by
  rw [dropFuture]
  split
  · rename_i hi
    rw [(futures_notifyOne _).mem_iff]
    exact (List.mem_cons.mp ((futures_acknowledge hi).mem_iff.mp h)).resolve_left hij
  · rcases List.mem_append.mp h with hw | hn
    · exact List.mem_append_left _ ((List.mem_erase_of_ne hij).mpr hw)
    · exact List.mem_append_right _ hn

/-- Dropping a future takes it away, and no other. -/
theorem futures_dropFuture (n : Notify ι) (i : ι) :
    (n.dropFuture i).futures.Perm (n.futures.erase i) := by
  rw [dropFuture]
  split
  · rename_i hi
    have herase := (futures_acknowledge hi).erase i
    rw [List.erase_cons_head] at herase
    exact (futures_notifyOne _).trans herase.symm
  · rename_i hi
    show (n.waiters.erase i ++ n.notified).Perm ((n.waiters ++ n.notified).erase i)
    by_cases hw : i ∈ n.waiters
    · rw [List.erase_append_left _ hw]
    · rw [List.erase_append_right _ hw, List.erase_of_not_mem hw, List.erase_of_not_mem hi]

/-! ## Who is going to look

For the question whether anybody will look at all, a stored permit is as good as a waiter that was
woken: the next one to come will find it. -/

/-- A wake-up is on its way: a permit is stored, or somebody was woken and has not polled. -/
def Pending (n : Notify ι) : Prop := n.permit = true ∨ ∃ i, i ∈ n.notified

omit [DecidableEq ι] in
theorem permit_eq_false {n : Notify ι} {i : ι} (h : i ∈ n.waiters) : n.permit = false := by
  cases hp : n.permit with
  | false => rfl
  | true => rw [n.exclusive hp] at h; exact absurd h List.not_mem_nil

omit [DecidableEq ι] in
/-- With nobody waiting, a permit is left. -/
theorem permit_notifyOne {n : Notify ι} (h : n.waiters = []) : n.notifyOne.permit = true := by
  unfold notifyOne
  split
  · rfl
  · rename_i w ws hw
    exact absurd (h.symm.trans hw) (List.cons_ne_nil w ws).symm

omit [DecidableEq ι] in
theorem pending_notifyOne (n : Notify ι) : n.notifyOne.Pending := by
  unfold notifyOne
  split
  · exact Or.inl rfl
  · rename_i w ws _
    exact Or.inr ⟨w, List.mem_append_right _ List.mem_cons_self⟩

omit [DecidableEq ι] in
theorem mem_notified_notifyOne {n : Notify ι} {j : ι} (h : j ∈ n.notified) :
    j ∈ n.notifyOne.notified := by
  unfold notifyOne
  split
  · exact h
  · exact List.mem_append_left _ h

theorem mem_notified_acknowledge {n : Notify ι} {i j : ι} (hij : j ≠ i) (h : j ∈ n.notified) :
    j ∈ (n.acknowledge i).notified := (List.mem_erase_of_ne hij).mpr h

/-- Dropping a future keeps everybody else's wake-up. -/
theorem mem_notified_dropFuture {n : Notify ι} {i j : ι} (hij : j ≠ i) (h : j ∈ n.notified) :
    j ∈ (n.dropFuture i).notified := by
  rw [dropFuture]
  split
  · exact mem_notified_notifyOne (mem_notified_acknowledge hij h)
  · exact h

/-- Dropping a future wakes one other at most. -/
theorem mem_notified_dropFuture_iff (n : Notify ι) (i : ι) :
    ∃ k, ∀ j, j ≠ i → j ≠ k → (j ∈ (n.dropFuture i).notified ↔ j ∈ n.notified) := by
  rw [dropFuture]
  split
  · rw [notifyOne]
    split
    · exact ⟨i, fun j hj _ => List.mem_erase_of_ne hj⟩
    · rename_i k ks _
      refine ⟨k, fun j hj hk => ?_⟩
      show j ∈ n.notified.erase i ++ [k] ↔ _
      rw [List.mem_append, List.mem_singleton, List.mem_erase_of_ne hj, or_iff_left hk]
  · exact ⟨i, fun _ _ _ => Iff.rfl⟩

/-! ## How many are going to look

For the question whether enough will look, the wake-ups are counted, and here the single permit
shows: of two notifications without a waiter the second adds nothing. -/

/-- The wake-ups on their way. -/
def wakeups (n : Notify ι) : Nat := n.permit.toNat + n.notified.length

omit [DecidableEq ι] in
@[simp] theorem wakeups_register {n : Notify ι} (i : ι) (h : n.permit = false) :
    (n.register i).wakeups = n.wakeups := by simp [wakeups, register, h]

omit [DecidableEq ι] in
theorem wakeups_consume {n : Notify ι} (h : n.permit = true) :
    n.consume.wakeups + 1 = n.wakeups := by simp [wakeups, consume, h]; omega

theorem wakeups_acknowledge {n : Notify ι} {i : ι} (h : i ∈ n.notified) :
    (n.acknowledge i).wakeups + 1 = n.wakeups := by
  have hpos := List.length_pos_of_mem h
  simp only [wakeups, acknowledge, List.length_erase_of_mem h]
  omega

omit [DecidableEq ι] in
theorem wakeups_le_notifyOne (n : Notify ι) : n.wakeups ≤ n.notifyOne.wakeups := by
  unfold notifyOne
  split
  · have := n.permit.toNat_le
    simp only [wakeups, Bool.toNat_true]
    omega
  · rename_i w ws hw
    have := permit_eq_false (n := n) (i := w) (by rw [hw]; exact List.mem_cons_self)
    simp [wakeups, this]

omit [DecidableEq ι] in
/-- A notification is counted unless it finds a permit stored. -/
theorem wakeups_notifyOne {n : Notify ι} (h : n.permit = false) :
    n.notifyOne.wakeups = n.wakeups + 1 := by
  unfold notifyOne
  split
  · simp [wakeups, h]; omega
  · simp [wakeups, h]

omit [DecidableEq ι] in
theorem wakeups_notifyOne_le (n : Notify ι) : n.notifyOne.wakeups ≤ n.wakeups + 1 := by
  unfold notifyOne
  split
  · simp only [wakeups, Bool.toNat_true]
    omega
  · simp [wakeups]

/-- Dropping a future passes its wake-up on at most. -/
theorem wakeups_dropFuture_le (n : Notify ι) (i : ι) : (n.dropFuture i).wakeups ≤ n.wakeups := by
  unfold dropFuture
  split
  · rename_i hi
    have := wakeups_acknowledge hi
    have := wakeups_notifyOne_le (n.acknowledge i)
    omega
  · exact Nat.le_refl _

end Notify

end RtsPipeline.Lib
