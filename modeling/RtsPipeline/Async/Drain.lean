/-
  The worker pool, left alone.

  That the workers are never all asleep in front of a task does not say that they ever come to rest:
  a stored permit makes a pop look once more, a woken worker may find the lane empty, and a wake-up
  in a dropped pop goes to another worker.  But each of these is paid for: a wake-up is used up by
  the pop that looks, and a task by the worker that takes it.

  The measure is a sum with three prices.  A worker pays for its polls until both of its pops are
  registered; the numbers in `Worker.ahead` grow with the pops that a poll still has to bring there,
  and with what comes first in the order of the polls, `hi` and then `lo`.  A wake-up costs three,
  the most that a woken pop starts over.  A queued task costs thirty-one, the longest way of the
  worker that takes it: to the pop, through its calls, and back to two registered pops.  A sleeping
  worker that is polled, which the runtime may do at any time, changes nothing; these steps are not
  counted, and without them every step is one less.

  That the end is the right one is another matter.  All workers asleep means only that no step
  changes anything.  That nothing is queued then follows from `covered_of_reachable`: a lane that is
  not empty has a wake-up on its way, or a pop that is about to look.  That every task was worked
  through is the account of the tasks, as nobody who sleeps holds one.

  1. `weigh` — what a worker has before it until it sleeps, with the wake-ups on their way to it.
  2. `toRest` — what all have before them; a wake-up pays for a look, a task for an iteration.
  3. `nearer` — every step is one less, but for the polls of a worker that sleeps.
  4. `drains` — so all tasks are worked through, whatever the schedule.
-/
import RtsPipeline.Async.Completion

namespace RtsPipeline.Async

open Lib

/-! ## What a worker has before it

The measure that makes the pool come to rest.  Unlike at the shutdown no worker leaves, so it is the
way to sleep that is counted: what a worker does until both its pops are registered, and what a
wake-up makes it do again. -/

/-- What is left of a pop until it is registered. -/
def popAhead : PopPc → Nat
  | .create => 3
  | .check => 2
  | .arm => 1
  | .parked => 0

/-- What a worker does until both pops are registered, an iteration included that it is in. -/
def Worker.ahead {α : Type} (w : Worker α) : Nat :=
  match w.focus with
  | .suspended => 2 * popAhead (w.pops .hi) + 3 * popAhead (w.pops .lo)
  | .polling .hi => popAhead (w.pops .hi) + 2 * popAhead (w.pops .lo)
  | .polling .lo => 3 * popAhead (w.pops .hi) + popAhead (w.pops .lo)
  | .won _ _ => 30
  | .body _ todo => todo.length + 21
  | .leaving _ | .exited => 0

/-- How far a worker is from its next look at the wake-up of a lane. -/
def Focus.away {α : Type} : Lane → Focus α → Nat
  | .hi, .suspended => 2
  | .hi, .polling .hi => 1
  | .hi, .polling .lo => 3
  | .lo, .suspended => 3
  | .lo, .polling .hi => 2
  | .lo, .polling .lo => 1
  | _, _ => 0

/-- What a worker has before it, when it was woken or not on each lane. -/
def Worker.weigh {α : Type} (w : Worker α) (hi lo : Bool) : Nat :=
  w.ahead + (hi.toNat * w.focus.away .hi + lo.toNat * w.focus.away .lo)

theorem popAhead_le (pc : PopPc) : popAhead pc ≤ 3 := by
  cases pc <;> decide

theorem popAhead_eq_zero {pc : PopPc} : popAhead pc = 0 ↔ pc = .parked := by
  cases pc <;> decide

namespace Pool

variable {α : Type} {m : Nat} {s s' : Pool α m} {i : Fin m}

/-- The worker was woken on the lane and has not polled since. -/
def woken (s : Pool α m) (lane : Lane) (i : Fin m) : Bool :=
  decide (i ∈ (s.lanes lane).notify.notified)

/-- What a worker has before it. -/
def before (s : Pool α m) (i : Fin m) : Nat :=
  (s.workers i).weigh (s.woken .hi i) (s.woken .lo i)

/-- The tasks in the lanes. -/
def queued (s : Pool α m) : Nat := (s.lanes .hi).len + (s.lanes .lo).len

/-- What all have before them. -/
def toRest (s : Pool α m) : Nat := ∑ i, s.before i + 3 * s.wakeups + 31 * s.queued

/-- The worker sleeps: neither pop has anything to do, and polling them again changes nothing. -/
def dormant (s : Pool α m) (i : Fin m) : Bool :=
  match (s.workers i).focus with
  | .suspended | .polling _ =>
    decide (s.pops .hi i = .parked ∧ s.pops .lo i = .parked) && !s.woken .hi i && !s.woken .lo i
  | _ => false

/-- A worker in its poll that does not sleep has something before it.  With nothing before it both
    pops would be parked and not woken, and that is to be dormant. -/
theorem awake_pos (h : s.dormant i = false)
    (hf : (s.workers i).focus = .suspended ∨ ∃ lane, (s.workers i).focus = .polling lane) :
    1 ≤ popAhead (s.pops .hi i) + popAhead (s.pops .lo i) + (s.woken .hi i).toNat +
      (s.woken .lo i).toNat := by
  have hnot : (decide (s.pops .hi i = .parked ∧ s.pops .lo i = .parked) && !s.woken .hi i &&
      !s.woken .lo i) = false := by
    rcases hf with hf | ⟨lane, hf⟩
    · simpa only [dormant, hf] using h
    · simpa only [dormant, hf] using h
  by_contra hzero
  have hhi : s.pops .hi i = .parked := popAhead_eq_zero.mp (by omega)
  have hlo : s.pops .lo i = .parked := popAhead_eq_zero.mp (by omega)
  have hwhi : s.woken .hi i = false := by
    cases hw : s.woken .hi i with
    | false => rfl
    | true => rw [hw, Bool.toNat_true] at hzero; omega
  have hwlo : s.woken .lo i = false := by
    cases hw : s.woken .lo i with
    | false => rfl
    | true => rw [hw, Bool.toNat_true] at hzero; omega
  rw [hwhi, hwlo, decide_eq_true ⟨hhi, hlo⟩] at hnot
  cases hnot

/-! ## What a step takes away

  A step of one worker changes its own term of the sum, and one lane's wake-ups and tasks.  The
  frame lemmas below reduce each case of `nearer` to an inequality between these few numbers. -/

/-- All but one have no more before them, and that one less. -/
theorem sum_moved {f g : Fin m → Nat} {a b : Nat} (hothers : ∀ j, j ≠ i → f j ≤ g j)
    (hone : f i + a ≤ g i + b) : ∑ j, f j + a ≤ ∑ j, g j + b := by
  rw [← Finset.add_sum_erase Finset.univ f (Finset.mem_univ i),
    ← Finset.add_sum_erase Finset.univ g (Finset.mem_univ i)]
  have hrest := Finset.sum_le_sum fun j (hj : j ∈ Finset.univ.erase i) =>
    hothers j (Finset.ne_of_mem_erase hj)
  omega

/-- One worker moves, and the others' wake-ups stay where they are. -/
theorem toRest_moved {w : Worker α} {k : Nat} (hw : s'.workers = Function.update s.workers i w)
    (hothers : ∀ lane j, j ≠ i → s'.woken lane j = s.woken lane j)
    (hless : w.weigh (s'.woken .hi i) (s'.woken .lo i) + 3 * s'.wakeups + 31 * s'.queued + k ≤
      s.before i + 3 * s.wakeups + 31 * s.queued) : s'.toRest + k ≤ s.toRest := by
  have hi : s'.before i = w.weigh (s'.woken .hi i) (s'.woken .lo i) := by
    rw [before, hw, Function.update_self]
  have hsum := sum_moved (f := s'.before) (g := s.before) (i := i)
    (a := 3 * s'.wakeups + 31 * s'.queued + k) (b := 3 * s.wakeups + 31 * s.queued)
    (fun j hj => by
      rw [before, before, hw, Function.update_of_ne hj, hothers .hi j hj, hothers .lo j hj])
    (by rw [hi]; omega)
  rw [toRest, toRest]
  omega

/-- A worker moves that keeps its wake-ups, and the lanes stay. -/
theorem toRest_kept {w : Worker α} {k : Nat} (hw : s'.workers = Function.update s.workers i w)
    (hl : s'.lanes = s.lanes)
    (hless : w.weigh (s.woken .hi i) (s.woken .lo i) + k ≤ s.before i) :
    s'.toRest + k ≤ s.toRest := by
  have hwoken : ∀ lane j, s'.woken lane j = s.woken lane j := fun lane j => by
    rw [woken, woken, hl]
  refine toRest_moved hw (fun lane j _ => hwoken lane j) ?_
  rw [hwoken, hwoken, wakeups, wakeups, queued, queued, hl]
  omega

/-- A worker moves that takes something from a lane. -/
theorem toRest_lane {w : Worker α} {lane : Lane} {r : DropOldestRing α (Fin m)}
    (hw : s'.workers = Function.update s.workers i w)
    (hl : s'.lanes = Function.update s.lanes lane r)
    (hothers : ∀ j, j ≠ i → (j ∈ r.notify.notified ↔ j ∈ (s.lanes lane).notify.notified))
    (hless : w.weigh (s'.woken .hi i) (s'.woken .lo i) + 3 * r.notify.wakeups + 31 * r.len + 1 ≤
      s.before i + 3 * (s.lanes lane).notify.wakeups + 31 * (s.lanes lane).len) :
    s'.toRest + 1 ≤ s.toRest := by
  -- the other workers weigh what they weighed, as nobody was woken
  refine toRest_moved hw (fun k j hj => ?_) ?_
  · rw [woken, woken, hl]
    by_cases hk : k = lane
    · rw [hk, Function.update_self]
      exact decide_eq_decide.mpr (hothers j hj)
    · rw [Function.update_of_ne hk]
  · have hset := s.wakeups_setLane lane r
    have hsame : s'.wakeups = (s.setLane lane r).wakeups := by
      rw [wakeups, wakeups, hl, setLane_lanes]
    have hqueue : s'.queued + (s.lanes lane).len = s.queued + r.len := by
      rw [queued, queued, hl]
      cases lane with
      | hi =>
        show r.len + (s.lanes .lo).len + _ = _ + _ + _
        omega
      | lo =>
        show (s.lanes .hi).len + r.len + _ = _ + _ + _
        omega
    omega

/-- Where a worker is woken depends on the lanes. -/
theorem woken_lane (s : Pool α m) (lane : Lane) {r : DropOldestRing α (Fin m)}
    (hl : s'.lanes = Function.update s.lanes lane r) (k : Lane) (j : Fin m) :
    s'.woken k j = if k = lane then decide (j ∈ r.notify.notified) else s.woken k j := by
  rw [woken, hl]
  by_cases hk : k = lane
  · rw [if_pos hk, hk, Function.update_self]
  · rw [if_neg hk, Function.update_of_ne hk, woken]

/-- A wake-up more weighs three at most. -/
theorem weigh_wake (w : Worker α) (hi hi' lo lo' : Bool) (h : hi' = hi ∨ lo' = lo) :
    w.weigh hi' lo' ≤ w.weigh hi lo + 3 := by
  have haway : ∀ lane, w.focus.away lane ≤ 3 := fun lane => by
    unfold Focus.away
    split <;> decide
  have hone : ∀ (b : Bool) lane, b.toNat * w.focus.away lane ≤ 3 := fun b lane =>
    (Nat.mul_le_mul_right _ b.toNat_le).trans (by rw [Nat.one_mul]; exact haway lane)
  have := hone hi' .hi
  have := hone lo' .lo
  unfold Worker.weigh
  rcases h with rfl | rfl <;> omega

/-- A worker drops its pop of a lane and goes on to its iteration: the wake-up in it may go to
    another worker. -/
theorem toRest_drop {lane : Lane} {task : α} (pops : Lane → PopPc)
    (hf : (s.workers i).focus = .won lane.other task)
    (hw : s'.workers = Function.update s.workers i ⟨.body task iteration, pops⟩)
    (hl : s'.lanes = Function.update s.lanes lane ((s.lanes lane).cancelPop i)) :
    s'.toRest + 1 ≤ s.toRest := by
  -- the wake-up is passed on to one other worker at most, who then has more to do
  obtain ⟨k, hk⟩ := (s.lanes lane).notify.mem_notified_dropFuture_iff i
  have hsame : ∀ l, l ≠ lane → ∀ j, s'.woken l j = s.woken l j := fun l hne j => by
    rw [woken, woken, hl, Function.update_of_ne hne]
  have hdrop : ∀ j, j ≠ i → j ≠ k → s'.woken lane j = s.woken lane j := fun j hj hjk => by
    rw [woken, woken, hl, Function.update_self]
    exact decide_eq_decide.mpr (hk j hj hjk)
  have hothers : ∀ j, j ≠ i → s'.before j ≤ s.before j + if j = k then 3 else 0 := by
    intro j hj
    rw [before, before, hw, Function.update_of_ne hj]
    by_cases hjk : j = k
    · rw [if_pos hjk]
      apply weigh_wake
      cases lane with
      | hi => exact Or.inr (hsame .lo (by decide) j)
      | lo => exact Or.inl (hsame .hi (by decide) j)
    · rw [if_neg hjk]
      cases lane with
      | hi => rw [hdrop j hj hjk, hsame .lo (by decide) j]; exact Nat.le_refl _
      | lo => rw [hdrop j hj hjk, hsame .hi (by decide) j]; exact Nat.le_refl _
  have hmore : ∑ j, (s.before j + if j = k then 3 else 0) + 0 ≤ ∑ j, s.before j + 3 := by
    refine sum_moved (i := k) (fun j hj => ?_) ?_
    · rw [if_neg hj]
      exact Nat.le_refl _
    · rw [if_pos rfl]
  -- the worker itself is past its poll, which is worth more than the wake-up
  have hown : s'.before i + 4 ≤ s.before i := by
    rw [before, before, hw, Function.update_self, Worker.weigh, Worker.weigh, Worker.ahead,
      Worker.ahead, hf]
    simp only [Focus.away, Nat.mul_zero]
    exact Nat.le_refl _
  have hless := sum_moved (f := s'.before) (i := i) (a := 4) (b := 0) hothers
    (Nat.le_trans hown (Nat.le_add_right _ _))
  have hqueue : s'.queued = s.queued := by
    have hlen : ∀ l, (s'.lanes l).len = (s.lanes l).len := fun l => by
      rw [hl]
      exact congrArg List.length (lane_kept ((s.lanes lane).notify.dropFuture i) l).1
    rw [queued, queued, hlen, hlen]
  have hset := s.wakeups_setLane lane ((s.lanes lane).cancelPop i)
  have hwake := (s.lanes lane).notify.wakeups_dropFuture_le i
  have hsameWake : s'.wakeups = (s.setLane lane ((s.lanes lane).cancelPop i)).wakeups := by
    rw [wakeups, wakeups, hl, setLane_lanes]
  change _ = _ + ((s.lanes lane).notify.dropFuture i).wakeups at hset
  rw [toRest, toRest, hqueue]
  omega

/-- **Step lemma**: every step of a worker that does not sleep is one less, and a sleeping worker
    that is polled stays asleep. -/
theorem nearer (hsingle : ∀ k, Single (s.lanes k) (s.pops k)) (hclear : s.cancel = false)
    (hstays : ∀ lane, (s.workers i).focus ≠ .leaving lane) (h : s.work i = some s') :
    s'.toRest + (!s.dormant i).toNat ≤ s.toRest := by
  have hbefore : ∀ {f : Focus α}, (s.workers i).focus = f →
      s.before i = Worker.weigh ⟨f, (s.workers i).pops⟩ (s.woken .hi i) (s.woken .lo i) := by
    rintro f rfl
    rfl
  -- only a parked pop was woken
  have hfree : ∀ lane, (s.workers i).pops lane ≠ .parked → s.woken lane i = false := by
    intro lane hpc
    refine decide_eq_false fun hmem => hpc ?_
    exact (hsingle lane).2 i (List.mem_append_right _ hmem)
  have hawake := s.dormant i |>.not.toNat_le
  have hone : s'.toRest + 1 ≤ s.toRest → s'.toRest + (!s.dormant i).toNat ≤ s.toRest := by
    intro hle
    omega
  cases step_eq_some.mp (show s.step (.work i) = some s' from h) with
  | leave i focus fired =>
    rw [hclear] at fired
    cases fired
  | leaveHi i focus => exact absurd focus (hstays .hi)
  | leaveLo i focus => exact absurd focus (hstays .lo)
  | begin i focus fired =>
    refine toRest_kept rfl rfl ?_
    rw [hbefore focus]
    cases hd : s.dormant i with
    | true =>
      simp only [Worker.weigh, Worker.ahead, Focus.away, Bool.not_true, Bool.toNat_false]
      omega
    | false =>
      have hpos := awake_pos hd (Or.inl focus)
      simp only [Worker.weigh, Worker.ahead, Focus.away, Bool.not_false, Bool.toNat_true, pops]
        at hpos ⊢
      omega
  | create i lane focus pc =>
    refine hone (toRest_kept rfl rfl ?_)
    rw [hbefore focus]
    cases lane <;>
      simp only [Worker.weigh, Worker.ahead, Function.update_self, pc, popAhead, ne_eq,
        reduceCtorEq, not_false_eq_true, Function.update_of_ne] <;> omega
  | empty i lane focus pc queue =>
    refine hone (toRest_kept rfl rfl ?_)
    rw [hbefore focus]
    cases lane <;>
      simp only [Worker.weigh, Worker.ahead, Function.update_self, pc, popAhead, ne_eq,
        reduceCtorEq, not_false_eq_true, Function.update_of_ne] <;> omega
  | pop i lane task rest focus pc queue =>
    refine hone (toRest_lane rfl rfl (fun _ _ => Iff.rfl) ?_)
    rw [hbefore focus]
    have hlen : (s.lanes lane).len = rest.length + 1 := by
      rw [DropOldestRing.len, queue, List.length_cons]
    rw [hlen]
    simp only [Worker.weigh, Worker.ahead, Focus.away, DropOldestRing.len, Nat.mul_zero]
    omega
  | permit i lane focus pc permit =>
    -- the poll starts over, and the permit is gone
    refine hone (toRest_lane rfl rfl (fun _ _ => Iff.rfl) ?_)
    rw [hbefore focus, woken_lane s lane rfl .hi i,
      woken_lane s lane rfl .lo i]
    have hw := Notify.wakeups_consume permit
    have hsame : decide (i ∈ (s.lanes lane).notify.consume.notified) = s.woken lane i := rfl
    have hlen : DropOldestRing.len { s.lanes lane with notify := (s.lanes lane).notify.consume } =
      (s.lanes lane).len := rfl
    rw [hsame, hlen]
    cases lane <;>
      simp only [Worker.weigh, Worker.ahead, Function.update_self, pc, popAhead, ne_eq,
        reduceCtorEq, not_false_eq_true, Function.update_of_ne, if_true, if_false] <;> omega
  | register i lane focus pc permit =>
    refine hone (toRest_lane rfl rfl (fun _ _ => Iff.rfl) ?_)
    rw [hbefore focus, woken_lane s lane rfl .hi i,
      woken_lane s lane rfl .lo i, Notify.wakeups_register i permit]
    have hsame : decide (i ∈ ((s.lanes lane).notify.register i).notified) = s.woken lane i := rfl
    have hlen : DropOldestRing.len
      { s.lanes lane with notify := (s.lanes lane).notify.register i } = (s.lanes lane).len := rfl
    have hasleep := hfree lane (by rw [pc]; decide)
    rw [hsame, hlen]
    cases lane <;>
      simp only [Worker.weigh, Worker.ahead, afterPending, Focus.away, Function.update_self, pc,
        popAhead, ne_eq, reduceCtorEq, not_false_eq_true, Function.update_of_ne, if_true, if_false,
        hasleep, Bool.toNat_false] <;> omega
  | woken i lane focus pc notified =>
    -- the poll starts over, and the wake-up is used up
    refine hone (toRest_lane rfl rfl (fun j hj => List.mem_erase_of_ne hj) ?_)
    rw [hbefore focus, woken_lane s lane rfl .hi i,
      woken_lane s lane rfl .lo i]
    have hw := Notify.wakeups_acknowledge notified
    have hnd : (s.lanes lane).notify.notified.Nodup :=
      (List.nodup_append.mp (hsingle lane).1).2.1
    have hgone : decide (i ∈ ((s.lanes lane).notify.acknowledge i).notified) = false :=
      decide_eq_false fun hmem => (hnd.mem_erase_iff.mp hmem).1 rfl
    have hlen : DropOldestRing.len
        { s.lanes lane with notify := (s.lanes lane).notify.acknowledge i } =
      (s.lanes lane).len := rfl
    have hwas : s.woken lane i = true := decide_eq_true notified
    rw [hgone, hlen]
    cases lane <;>
      simp only [Worker.weigh, Worker.ahead, Focus.away, Function.update_self, pc, popAhead, ne_eq,
        reduceCtorEq, not_false_eq_true, Function.update_of_ne, if_true, if_false, hwas,
        Bool.toNat_true, Bool.toNat_false] <;> omega
  | still i lane focus pc notified =>
    refine toRest_kept rfl rfl ?_
    rw [hbefore focus]
    have hasleep : s.woken lane i = false := decide_eq_false notified
    cases hd : s.dormant i with
    | true =>
      cases lane <;>
        simp only [Worker.weigh, Worker.ahead, afterPending, Focus.away, Bool.not_true,
          Bool.toNat_false, pc, popAhead, hasleep] <;> omega
    | false =>
      have hpos := awake_pos hd (Or.inr ⟨lane, focus⟩)
      cases lane <;>
        simp only [Worker.weigh, Worker.ahead, afterPending, Focus.away, Bool.not_false,
          Bool.toNat_true, Bool.toNat_false, pops, pc, popAhead, hasleep] at hpos ⊢ <;> omega
  | lose i lane task focus =>
    have hother : lane.other.other = lane := by cases lane <;> rfl
    exact hone (toRest_drop _ (by rw [hother]; exact focus) rfl rfl)
  | call i task b todo focus =>
    refine hone (toRest_kept rfl rfl ?_)
    rw [hbefore focus]
    simp only [Worker.weigh, Worker.ahead, Focus.away, List.length_cons]
    omega
  | finish i task focus =>
    refine hone (toRest_kept rfl rfl ?_)
    rw [hbefore focus]
    have hhi := popAhead_le ((s.workers i).pops .hi)
    have hlo := popAhead_le ((s.workers i).pops .lo)
    have hwhi := (s.woken .hi i).toNat_le
    have hwlo := (s.woken .lo i).toNat_le
    simp only [Worker.weigh, Worker.ahead, Focus.away, List.length_nil]
    omega

/-! ## The pool comes to rest

At the end of the measure all workers sleep.  That nothing is queued then is not in the measure; it
follows from the wake-ups, as in `no_stranded_task`, and from the account of the tasks it follows
that every one that was not evicted is finished. -/

/-- No worker leaves before the cancellation.  The pool at rest before it is then a pool of
    sleepers: a worker that is not about to move has nowhere else to be. -/
def Staying (s : Pool α m) : Prop :=
  s.cancel = false → ∀ i, (s.workers i).focus ≠ .exited ∧
    ∀ lane, (s.workers i).focus ≠ .leaving lane

/-- A worker moves to where it is not on its way out. -/
theorem Staying.move (h : Staying s) {w : Worker α}
    (hw : s'.workers = Function.update s.workers i w) (hc : s'.cancel = s.cancel)
    (hstays : s.cancel = false → w.focus ≠ .exited ∧ ∀ lane, w.focus ≠ .leaving lane) :
    Staying s' := by
  intro hclear j
  rw [hc] at hclear
  rw [hw]
  by_cases hj : j = i
  · rw [hj, Function.update_self]
    exact hstays hclear
  · rw [Function.update_of_ne hj]
    exact h hclear j

/-- **Step lemma** for `Staying`.  The one way out is a token that fired. -/
theorem Staying.step {e : PoolEvent α m} (h : Staying s) (hs : Stepped s e s') : Staying s' := by
  cases hs with
  | push lane task => exact h
  | cancel => exact fun hclear => by cases hclear
  | leave i focus fired =>
    refine h.move (i := i) rfl rfl fun hclear => ?_
    rw [fired] at hclear
    cases hclear
  | leaveHi i focus => exact h.move (i := i) rfl rfl fun hclear => absurd focus ((h hclear i).2 .hi)
  | leaveLo i focus => exact h.move (i := i) rfl rfl fun hclear => absurd focus ((h hclear i).2 .lo)
  | register i lane focus pc permit =>
    refine h.move (i := i) rfl rfl fun _ => ?_
    cases lane <;> exact ⟨by simp [afterPending], by simp [afterPending]⟩
  | still i lane focus pc notified =>
    refine h.move (i := i) rfl rfl fun _ => ?_
    cases lane <;> exact ⟨by simp [afterPending], by simp [afterPending]⟩
  | _ => exact h.move rfl rfl fun _ => ⟨by simp, by simp⟩

theorem staying_of_reachable {C : Nat} (h : Reachable step (start α m C) s) : Staying s := by
  refine h.invariant (I := Staying) (fun _ i => ?_) fun _ _ _ hI hs => hI.step (step_eq_some.mp hs)
  exact ⟨by simp [start, Worker.fresh], by simp [start, Worker.fresh]⟩

/-- The pool is at rest: all workers sleep, nothing is queued, and every task was worked through
    that was not evicted. -/
structure Rested (s : Pool α m) : Prop where
  asleep : ∀ i, s.dormant i = true
  empty : ∀ lane, (s.lanes lane).queue = []
  given : ∀ lane, (s.log.pushed lane).Perm (s.log.evicted lane ++ s.log.dequeuedFrom lane)
  worked : s.log.taken.Perm s.log.finished

/-- A sleeping worker holds no task, and both pops are parked and were not woken. -/
theorem dormant_spec (h : s.dormant i = true) : s.slots i = none ∧
    ∀ lane, s.pops lane i = .parked ∧ i ∉ (s.lanes lane).notify.notified := by
  have hparts : ∀ {p : Prop} [Decidable p], (decide p && !s.woken .hi i && !s.woken .lo i) = true →
      p ∧ i ∉ (s.lanes .hi).notify.notified ∧ i ∉ (s.lanes .lo).notify.notified := by
    intro p _ hp
    simpa [woken, and_assoc] using hp
  have hlanes : s.pops .hi i = .parked ∧ s.pops .lo i = .parked →
      i ∉ (s.lanes .hi).notify.notified ∧ i ∉ (s.lanes .lo).notify.notified →
      ∀ lane, s.pops lane i = .parked ∧ i ∉ (s.lanes lane).notify.notified := by
    rintro ⟨hhi, hlo⟩ ⟨hnhi, hnlo⟩ lane
    cases lane with
    | hi => exact ⟨hhi, hnhi⟩
    | lo => exact ⟨hlo, hnlo⟩
  unfold dormant at h
  split at h
  next hf =>
    obtain ⟨hpops, hn⟩ := hparts h
    exact ⟨by rw [slots, hf]; rfl, hlanes hpops hn⟩
  next lane hf =>
    obtain ⟨hpops, hn⟩ := hparts h
    exact ⟨by rw [slots, hf]; rfl, hlanes hpops hn⟩
  next => cases h

/-- When all workers sleep, nothing is left to do. -/
theorem rested_of_dormant {C : Nat} (hm : 0 < m) (hC : 0 < C)
    (h : Reachable step (start α m C) s) (hall : ∀ i, s.dormant i = true) : Rested s := by
  have hacc := accounted_of_reachable hC h
  -- a queued task would be covered, and none of the three ways to be covered suits a pool of
  -- sleepers
  have hempty : ∀ lane, (s.lanes lane).queue = [] := by
    intro lane
    by_contra hne
    rcases covered_of_reachable h lane hne with (hp | ⟨i, hi⟩) | ⟨i, hi⟩
    · -- a stored permit excludes waiters, and a sleeping worker is one
      obtain ⟨hpc, hn⟩ := (dormant_spec (hall ⟨0, hm⟩)).2 lane
      have hfuture := registered_of_reachable h lane _ hpc
      rw [Notify.futures, (s.lanes lane).notify.exclusive hp] at hfuture
      exact hn hfuture
    · exact ((dormant_spec (hall i)).2 lane).2 hi
    · have hpc := ((dormant_spec (hall i)).2 lane).1
      rcases hi with hi | hi <;> rw [hpc] at hi <;> cases hi
  refine ⟨hall, hempty, fun lane => ?_, ?_⟩
  · have hlane := hacc.lane lane
    rw [hempty lane, List.append_nil] at hlane
    exact hlane
  · have hnone : s.slots = fun _ => none := funext fun i => (dormant_spec (hall i)).1
    have hcarried := hacc.carried
    rw [hnone, held_empty, List.append_nil] at hcarried
    exact hcarried

/-- Left alone, a pool that was not cancelled winds down. -/
theorem winds_down (m C : Nat) : WindsDown work
    (fun s : Pool α m => Reachable step (start α m C) s ∧ s.cancel = false)
    (fun s i => !s.dormant i) toRest (fun s => ∀ i, s.dormant i = true) where
  kept s i s' h hs := by
    have hstep : s.step (.work i) = some s' := hs
    refine ⟨h.1.tail hstep, ?_⟩
    cases step_eq_some.mp hstep with
    | _ => exact h.2
  nearer s i s' h hs :=
    nearer (single_of_reachable h.1) h.2 (staying_of_reachable h.1 h.2 i).2 hs
  able s h := by
    by_cases hall : ∀ i, s.dormant i = true
    · exact Or.inl hall
    · obtain ⟨i, hi⟩ := not_forall.mp hall
      obtain ⟨s', hs'⟩ := able_work s (staying_of_reachable h.1 h.2 i).1
      exact Or.inr ⟨i, s', by rw [Bool.eq_false_iff.mpr hi]; rfl, hs'⟩

/-- What all have before them, at most.  A worker has before it the longest way from one sleep to
    the next at most. -/
theorem toRest_le {C : Nat} (h : Reachable step (start α m C) s) :
    s.toRest ≤ 36 * m + 6 + 31 * s.queued := by
  have hworker : ∀ i, s.before i ≤ 30 := by
    intro i
    have hhi := popAhead_le ((s.workers i).pops .hi)
    have hlo := popAhead_le ((s.workers i).pops .lo)
    have hwhi := (s.woken .hi i).toNat_le
    have hwlo := (s.woken .lo i).toNat_le
    rw [before, Worker.weigh, Worker.ahead]
    cases hf : (s.workers i).focus with
    | polling lane => cases lane <;> simp only [Focus.away] <;> omega
    | body task todo =>
      have : todo.length ≤ 5 := short_of_reachable h i task todo hf
      simp only [Focus.away]
      omega
    | _ =>
      simp only [Focus.away]
      omega
  have hsum := Finset.sum_le_card_nsmul Finset.univ (fun i => s.before i) 30 fun i _ => hworker i
  rw [Finset.card_univ, Fintype.card_fin, smul_eq_mul] at hsum
  have hhi := (single_of_reachable h .hi).wakeups_le
  have hlo := (single_of_reachable h .lo).wakeups_le
  rw [toRest, wakeups]
  omega

/-- **Left alone, the pool works everything off**: from any state a run has come to without being
    cancelled, however the workers are scheduled, all come to sleep with both lanes empty and every
    task worked through; until then fewer steps are made than 36 for each worker, 31 for each queued
    task and six, not counting the polls of a worker that sleeps, and some worker can go on.

    `Lib.WindDown` with the measure `toRest`; at its end all workers sleep, and `rested_of_dormant`
    says what that means for the tasks. -/
theorem drains (m C : Nat) (hm : 0 < m) (hC : 0 < C) (ls : List (PoolEvent α m)) (s : Pool α m)
    (h : run step (start α m C) ls = some s) (hclear : s.cancel = false) (ms : List (Fin m))
    (s' : Pool α m) (hms : run work s ms = some s') :
    Rested s' ∨ Lib.moves work (fun u i => !u.dormant i) s ms < 36 * m + 6 + 31 * s.queued ∧
      ∃ i s'', s'.dormant i = false ∧ s'.work i = some s'' := by
  have hreach : Reachable step (start α m C) s := ⟨ls, h⟩
  have hwinds := winds_down (α := α) m C
  have hend := (hwinds.bounded ms s s' ⟨hreach, hclear⟩ hms).1
  rcases hwinds.ends ⟨hreach, hclear⟩ hms with hdone | ⟨hmoves, i, s'', hawake, hwork⟩
  · exact Or.inl (rested_of_dormant hm hC hend.1 hdone)
  · refine Or.inr ⟨Nat.lt_of_lt_of_le hmoves (toRest_le hreach), i, s'', ?_, hwork⟩
    simpa using hawake

/-- One worker takes both tasks, and the other finds a permit and nothing else. -/
theorem drains_two :
    ∃ s s' : Pool Nat 2, run step (start Nat 2 2) [.push .lo 5, .push .hi 6] = some s ∧
      run work s (List.replicate 36 0 ++ List.replicate 7 1) = some s' ∧ Rested s' ∧
      s'.log.finished = [(0, 6), (0, 5)] := by
  obtain ⟨s, hs, hend⟩ := Option.map_eq_some_iff.mp
    (show (run step (start Nat 2 2) [.push .lo 5, .push .hi 6]).map (fun s : Pool Nat 2 =>
      (s.cancel, (run work s (List.replicate 36 0 ++ List.replicate 7 1)).map fun s' =>
        (decide (∀ i, s'.dormant i = true), s'.log.finished))) =
      some (false, some (true, [(0, 6), (0, 5)])) from by decide +kernel)
  obtain ⟨hclear, hrun⟩ := Prod.mk.inj hend
  obtain ⟨s', hs', hstate⟩ := Option.map_eq_some_iff.mp hrun
  obtain ⟨hall, hfinished⟩ := Prod.mk.inj hstate
  refine ⟨s, s', hs, hs', ?_, hfinished⟩
  rcases drains 2 2 (by decide) (by decide) _ s hs hclear _ s' hs' with hrest | ⟨_, i, _, hi, _⟩
  · exact hrest
  · rw [of_decide_eq_true hall i] at hi
    cases hi

end Pool

end RtsPipeline.Async
