/-
  Where every task of the worker pool is.

  A task has one way through the pool: a lane, a worker, done.  What the code does not keep, the
  logs of the model do: what was pushed to a lane, what a full lane gave up, what was dequeued by
  whom, and what was finished.  The account is two equations between these and the state, up to the
  order of the elements; each step moves one task from one term to the next, and the poll steps,
  which are most of the steps, move none.  So the step lemma is three small lemmas, one for a push,
  one for a pop and one for the end of an iteration, and a frame lemma for all the rest.

  1. `Laned`, `Accounted` — the tasks pushed to a lane are the evicted, the queued and the dequeued
     ones of that lane; the dequeued tasks are the finished ones and those a worker holds.  The logs
     are lists with multiplicity, so `Perm` says "exactly once".
  2. `left` — how many steps a worker that holds a task still has to make.  Its own steps count
     down, nobody else's step and no cancellation touches it (`held_run`).
  3. `Stepped.crew` — the workers are a crew that goes through the body of the loop for every task.
-/
import Mathlib.Data.List.Count
import RtsPipeline.Async.Scheduler
import RtsPipeline.Lib.Crew

namespace RtsPipeline.Async

open Lib

/-- The task a worker has dequeued and not finished. -/
def Focus.task? {α : Type} : Focus α → Option α
  | .won _ task => some task
  | .body task _ => some task
  | _ => none

/-- The steps until the worker has finished its task: one for each call, one for the end of the
    iteration, and one to enter it. -/
def Focus.left {α : Type} : Focus α → Nat
  | .won _ _ => iteration.length + 2
  | .body _ todo => todo.length + 1
  | _ => 0

theorem Focus.left_pos {α : Type} {f : Focus α} {task : α} (h : f.task? = some task) :
    0 < f.left := by
  cases f with
  | won lane t => exact Nat.succ_pos _
  | body t todo => exact Nat.succ_pos _
  | _ => exact nomatch h

/-- The tasks dequeued from one lane, by whichever worker. -/
def PoolLog.dequeuedFrom {α : Type} {m : Nat} (log : PoolLog α m) (k : Lane) : List α :=
  (log.dequeued.filter fun d => d.2.1 = k).map fun d => d.2.2

/-- The dequeued tasks with their workers. -/
def PoolLog.taken {α : Type} {m : Nat} (log : PoolLog α m) : List (Fin m × α) :=
  log.dequeued.map fun d => (d.1, d.2.2)

open scoped List

namespace Pool

variable {α : Type} {m : Nat}

/-- What each worker holds. -/
def slots (s : Pool α m) (i : Fin m) : Option α := (s.workers i).focus.task?

/-- The tasks pushed to a lane are the evicted, the queued and the dequeued ones of that lane.  The
    two lanes do not share anything here, and neither does it matter which worker took the task: an
    equation for each lane, kept by a push, a pop and every other step for its own reason. -/
def Laned (s : Pool α m) : Prop := ∀ k, (s.log.pushed k).Perm
  (s.log.evicted k ++ (s.lanes k).queue ++ s.log.dequeuedFrom k)

theorem laned_start (C : Nat) : Laned (start α m C) := fun _ => List.Perm.refl []

/-- Every task is in one place.  `lane` is the equation of the lanes and `carried` that of the
    workers; `capacity` is what lets a push speak of the eviction, and `overflow` says that the
    ring's own counter counts what was evicted. -/
structure Accounted (C : Nat) (s : Pool α m) : Prop where
  capacity : ∀ k, (s.lanes k).capacity = C
  lane : ∀ k, (s.log.pushed k).Perm
    (s.log.evicted k ++ (s.lanes k).queue ++ s.log.dequeuedFrom k)
  overflow : ∀ k, (s.lanes k).overflow = UInt64.ofNat (s.log.evicted k).length
  carried : s.log.taken.Perm (s.log.finished ++ held s.slots)

theorem accounted_start (C : Nat) : Accounted C (start α m C) where
  capacity := fun _ => rfl
  lane := laned_start C
  overflow := fun _ => rfl
  carried := by
    have hslots : (start α m C).slots = fun _ => none := rfl
    rw [hslots, held_empty]
    exact List.Perm.refl []

/-! ## Frames

  Most steps of a poll change a lane's wake-ups or a worker's place in its poll.  Neither shows in
  the account: the lanes are looked at through their tasks and counters, the workers through the
  task they hold. -/

/-- A lane replaced by one with the same tasks and counters. -/
theorem ring_kept {β : Type} {lanes : Lane → DropOldestRing α (Fin m)} {lane : Lane}
    {r : DropOldestRing α (Fin m)} (view : DropOldestRing α (Fin m) → β)
    (hr : view r = view (lanes lane)) (k : Lane) :
    view (Function.update lanes lane r k) = view (lanes k) := by
  by_cases hk : k = lane
  · subst hk; rw [Function.update_self]; exact hr
  · rw [Function.update_of_ne hk]

/-- A worker that moves changes its own slot. -/
theorem slots_moved {s s' : Pool α m} {i : Fin m} {w : Worker α}
    (hw : s'.workers = Function.update s.workers i w) :
    s'.slots = Function.update s.slots i w.focus.task? := by
  funext j
  unfold slots
  rw [hw]
  by_cases hj : j = i
  · subst hj; rw [Function.update_self, Function.update_self]
  · rw [Function.update_of_ne hj, Function.update_of_ne hj]

/-- A worker that keeps its task leaves the slots as they are. -/
theorem slots_kept {s s' : Pool α m} {i : Fin m} {w : Worker α}
    (hw : s'.workers = Function.update s.workers i w)
    (ht : w.focus.task? = (s.workers i).focus.task?) : s'.slots = s.slots := by
  rw [slots_moved hw, ht]
  exact Function.update_eq_self i s.slots

/-- A step that moves no task. -/
theorem Laned.frame {s s' : Pool α m} (h : Laned s)
    (hl : ∀ k, (s'.lanes k).queue = (s.lanes k).queue)
    (hp : s'.log.pushed = s.log.pushed) (he : s'.log.evicted = s.log.evicted)
    (hd : s'.log.dequeued = s.log.dequeued) : Laned s' := by
  intro k
  rw [hp, he, hl k, PoolLog.dequeuedFrom, hd]
  exact h k

theorem Accounted.frame {C : Nat} {s s' : Pool α m} (h : Accounted C s)
    (hl : ∀ k, (s'.lanes k).queue = (s.lanes k).queue ∧
      (s'.lanes k).capacity = (s.lanes k).capacity ∧ (s'.lanes k).overflow = (s.lanes k).overflow)
    (hp : s'.log.pushed = s.log.pushed) (he : s'.log.evicted = s.log.evicted)
    (hd : s'.log.dequeued = s.log.dequeued) (hf : s'.log.finished = s.log.finished)
    (hs : s'.slots = s.slots) : Accounted C s' where
  capacity := fun k => (hl k).2.1.trans (h.capacity k)
  lane := Laned.frame h.lane (fun k => (hl k).1) hp he hd
  overflow := fun k => by
    rw [(hl k).2.2, he]
    exact h.overflow k
  carried := by
    rw [hf, hs, PoolLog.taken, hd]
    exact h.carried

/-- A lane replaced by one that differs in its wake-ups only. -/
theorem lane_kept {lanes : Lane → DropOldestRing α (Fin m)} {lane : Lane} (n : Notify (Fin m))
    (k : Lane) :
    (Function.update lanes lane { lanes lane with notify := n } k).queue = (lanes k).queue ∧
      (Function.update lanes lane { lanes lane with notify := n } k).capacity =
        (lanes k).capacity ∧
      (Function.update lanes lane { lanes lane with notify := n } k).overflow =
        (lanes k).overflow :=
  ⟨ring_kept (r := { lanes lane with notify := n }) (·.queue) rfl k,
    ring_kept (r := { lanes lane with notify := n }) (·.capacity) rfl k,
    ring_kept (r := { lanes lane with notify := n }) (·.overflow) rfl k⟩

/-! ## Every task is accounted for

Two equations, one for the lanes and one for the workers.  They meet at the dequeued tasks, which
are what has left the lanes and what has come to a worker. -/

/-- A pushed task is in its lane, and what the lane gave up for it is evicted. -/
theorem Laned.push {s : Pool α m} (h : Laned s) (lane : Lane) (task : α) :
    Laned (s.push lane task) := by
  intro k
  by_cases hk : k = lane
  · subst hk
    show (Function.update s.log.pushed k _ k).Perm
      (Function.update s.log.evicted k _ k ++ (Function.update s.lanes k _ k).queue ++
        s.log.dequeuedFrom k)
    rw [Function.update_self, Function.update_self, Function.update_self]
    have hcons := (s.lanes k).push_conserve task
    have hlane := (h k).append_right [task]
    rw [List.append_assoc (s.log.evicted k), ← hcons]
    simp only [List.append_assoc] at hlane ⊢
    exact hlane.trans ((List.perm_append_comm.append_left _).append_left _)
  · show (Function.update s.log.pushed lane _ k).Perm
      (Function.update s.log.evicted lane _ k ++ (Function.update s.lanes lane _ k).queue ++
        s.log.dequeuedFrom k)
    rw [Function.update_of_ne hk, Function.update_of_ne hk, Function.update_of_ne hk]
    exact h k

/-- A popped task is a dequeued one. -/
theorem Laned.pop {s s' : Pool α m} (h : Laned s) {i : Fin m} {lane : Lane} {task : α}
    {rest : List α} (hqueue : (s.lanes lane).queue = task :: rest)
    (hl : s'.lanes = Function.update s.lanes lane { s.lanes lane with queue := rest })
    (hlog : s'.log = { s.log with dequeued := s.log.dequeued ++ [(i, lane, task)] }) :
    Laned s' := by
  intro k
  rw [hl, hlog]
  by_cases hk : k = lane
  · subst hk
    have hd : PoolLog.dequeuedFrom { s.log with dequeued := s.log.dequeued ++ [(i, k, task)] } k =
        s.log.dequeuedFrom k ++ [task] := by simp [PoolLog.dequeuedFrom]
    rw [hd, Function.update_self]
    have hlane := h k
    rw [hqueue] at hlane
    apply hlane.trans
    simp only [List.append_assoc, List.cons_append]
    apply List.Perm.append_left
    exact List.perm_middle.symm.trans
      (List.Perm.append_left _ (List.perm_append_singleton _ _).symm)
  · have hd : PoolLog.dequeuedFrom
        { s.log with dequeued := s.log.dequeued ++ [(i, lane, task)] } k =
        s.log.dequeuedFrom k := by simp [PoolLog.dequeuedFrom, Ne.symm hk]
    rw [hd, Function.update_of_ne hk]
    exact h k

/-- **Step lemma** for `Laned`, whatever the capacity. -/
theorem Laned.step {s s' : Pool α m} {e : PoolEvent α m} (h : Laned s) (hs : Stepped s e s') :
    Laned s' := by
  cases hs with
  | push lane task => exact h.push lane task
  | pop i lane task rest focus pc queue => exact h.pop queue rfl rfl
  | permit i lane focus pc permit =>
    exact h.frame (fun k => (lane_kept _ k).1) rfl rfl rfl
  | register i lane focus pc permit =>
    exact h.frame (fun k => (lane_kept _ k).1) rfl rfl rfl
  | woken i lane focus pc notified =>
    exact h.frame (fun k => (lane_kept _ k).1) rfl rfl rfl
  | lose i lane task focus =>
    exact h.frame (fun k => (lane_kept _ k).1) rfl rfl rfl
  | leaveHi i focus =>
    exact h.frame (fun k => (lane_kept _ k).1) rfl rfl rfl
  | leaveLo i focus =>
    exact h.frame (fun k => (lane_kept _ k).1) rfl rfl rfl
  | _ => exact h.frame (fun _ => rfl) rfl rfl rfl

theorem Accounted.push {C : Nat} (hC : 0 < C) {s : Pool α m} (h : Accounted C s) (lane : Lane)
    (task : α) : Accounted C (s.push lane task) := by
  have hcap : 0 < (s.lanes lane).capacity := (h.capacity lane).symm ▸ hC
  refine ⟨fun k => ?_, Laned.push h.lane lane task, fun k => ?_, h.carried⟩
  · rw [← h.capacity k]
    exact ring_kept (·.capacity) (DropOldestRing.push_capacity _ task) k
  · by_cases hk : k = lane
    · subst hk
      show (Function.update s.lanes k _ k).overflow =
        UInt64.ofNat (Function.update s.log.evicted k _ k).length
      rw [Function.update_self, Function.update_self, DropOldestRing.push_overflow _ _ hcap,
        h.overflow k, List.length_append, UInt64.ofNat_add]
    · show (Function.update s.lanes lane _ k).overflow =
        UInt64.ofNat (Function.update s.log.evicted lane _ k).length
      rw [Function.update_of_ne hk, Function.update_of_ne hk]
      exact h.overflow k

/-- A pop moves the task from its lane to the worker. -/
theorem Accounted.pop {C : Nat} {s s' : Pool α m} (h : Accounted C s) {i : Fin m} {lane : Lane}
    {task : α} {rest : List α} {w : Worker α}
    (hfree : (s.workers i).focus.task? = none) (hw : s'.workers = Function.update s.workers i w)
    (ht : w.focus.task? = some task) (hqueue : (s.lanes lane).queue = task :: rest)
    (hl : s'.lanes = Function.update s.lanes lane { s.lanes lane with queue := rest })
    (hlog : s'.log = { s.log with dequeued := s.log.dequeued ++ [(i, lane, task)] }) :
    Accounted C s' := by
  refine ⟨fun k => ?_, Laned.pop h.lane hqueue hl hlog, fun k => ?_, ?_⟩
  · rw [← h.capacity k, hl]
    exact ring_kept (r := { s.lanes lane with queue := rest }) (·.capacity) rfl k
  · rw [hl, hlog]
    rw [ring_kept (r := { s.lanes lane with queue := rest }) (·.overflow) rfl k]
    exact h.overflow k
  · have hslots : s'.slots = Function.update s.slots i (some task) := by
      rw [slots_moved hw, ht]
    have htaken : s'.log.taken = s.log.taken ++ [(i, task)] := by
      rw [hlog]; simp [PoolLog.taken]
    have hfin : s'.log.finished = s.log.finished := by rw [hlog]
    rw [htaken, hfin, hslots]
    calc s.log.taken ++ [(i, task)]
      _ ~ s.log.finished ++ held s.slots ++ [(i, task)] := h.carried.append_right _
      _ ~ s.log.finished ++ ((i, task) :: held s.slots) := by
        rw [List.append_assoc]
        exact (List.perm_append_singleton _ _).append_left _
      _ ~ s.log.finished ++ held (Function.update s.slots i (some task)) :=
        (held_fill task hfree).symm.append_left _

/-- A finished iteration moves the task from the worker to the finished ones. -/
theorem Accounted.finish {C : Nat} {s s' : Pool α m} (h : Accounted C s) {i : Fin m} {task : α}
    {w : Worker α} (hheld : (s.workers i).focus.task? = some task)
    (hw : s'.workers = Function.update s.workers i w) (ht : w.focus.task? = none)
    (hl : s'.lanes = s.lanes)
    (hlog : s'.log = { s.log with finished := s.log.finished ++ [(i, task)] }) :
    Accounted C s' := by
  refine ⟨fun k => ?_, fun k => ?_, fun k => ?_, ?_⟩
  · rw [hl]; exact h.capacity k
  · rw [hl, hlog]; exact h.lane k
  · rw [hl, hlog]; exact h.overflow k
  · have hslots : s'.slots = Function.update s.slots i none := by rw [slots_moved hw, ht]
    have htaken : s'.log.taken = s.log.taken := by rw [hlog]; rfl
    have hfin : s'.log.finished = s.log.finished ++ [(i, task)] := by rw [hlog]
    rw [htaken, hfin, hslots]
    calc s.log.taken
      _ ~ s.log.finished ++ held s.slots := h.carried
      _ ~ s.log.finished ++ ((i, task) :: held (Function.update s.slots i none)) :=
        (held_empty_slot hheld).append_left _
      _ = s.log.finished ++ [(i, task)] ++ held (Function.update s.slots i none) := by
        rw [List.append_assoc]; rfl

/-- **Step lemma** for `Accounted`. -/
theorem Accounted.step {C : Nat} (hC : 0 < C) {s s' : Pool α m} {e : PoolEvent α m}
    (h : Accounted C s) (hs : Stepped s e s') : Accounted C s' := by
  -- most steps touch neither the contents of a lane nor what a worker holds
  have hsame : ∀ k, (s.lanes k).queue = (s.lanes k).queue ∧
      (s.lanes k).capacity = (s.lanes k).capacity ∧ (s.lanes k).overflow = (s.lanes k).overflow :=
    fun _ => ⟨rfl, rfl, rfl⟩
  cases hs with
  | push lane task => exact h.push hC lane task
  | cancel => exact h.frame hsame rfl rfl rfl rfl rfl
  | leave i focus fired =>
    exact h.frame hsame rfl rfl rfl rfl (slots_kept rfl (by rw [focus]; rfl))
  | begin i focus fired =>
    exact h.frame hsame rfl rfl rfl rfl (slots_kept rfl (by rw [focus]; rfl))
  | create i lane focus pc =>
    exact h.frame hsame rfl rfl rfl rfl (slots_kept rfl (by rw [focus]))
  | pop i lane task rest focus pc queue =>
    exact h.pop (by rw [focus]; rfl) rfl rfl queue rfl rfl
  | empty i lane focus pc queue =>
    exact h.frame hsame rfl rfl rfl rfl (slots_kept rfl (by rw [focus]))
  | permit i lane focus pc permit =>
    exact h.frame (lane_kept _) rfl rfl rfl rfl (slots_kept rfl (by rw [focus]))
  | register i lane focus pc permit =>
    exact h.frame (lane_kept _) rfl rfl rfl rfl
      (slots_kept rfl (by rw [focus]; cases lane <;> rfl))
  | woken i lane focus pc notified =>
    exact h.frame (lane_kept _) rfl rfl rfl rfl (slots_kept rfl (by rw [focus]))
  | still i lane focus pc notified =>
    exact h.frame hsame rfl rfl rfl rfl (slots_kept rfl (by rw [focus]; cases lane <;> rfl))
  | lose i lane task focus =>
    exact h.frame (lane_kept _) rfl rfl rfl rfl (slots_kept rfl (by rw [focus]; rfl))
  | call i task b todo focus =>
    exact h.frame hsame rfl rfl rfl rfl (slots_kept rfl (by rw [focus]; rfl))
  | finish i task focus => exact h.finish (by rw [focus]; rfl) rfl rfl rfl rfl
  | leaveHi i focus =>
    exact h.frame (lane_kept _) rfl rfl rfl rfl (slots_kept rfl (by rw [focus]; rfl))
  | leaveLo i focus =>
    exact h.frame (lane_kept _) rfl rfl rfl rfl (slots_kept rfl (by rw [focus]; rfl))

theorem accounted_of_reachable {C : Nat} (hC : 0 < C) {s : Pool α m}
    (h : Reachable step (start α m C) s) : Accounted C s :=
  h.invariant (accounted_start C) fun _ _ _ hI hs => hI.step hC (step_eq_some.mp hs)

/-! ## A task that was dequeued is processed to the end

  No branch of the loop gives a task up once a pop has returned it: the cancellation is looked at
  before a pop only.  So a worker that holds a task counts down to the end of its iteration by its
  own steps, and the steps of all others are frames for it. -/

/-- The event is a step of this worker. -/
def moves (i : Fin m) : PoolEvent α m → Bool
  | .work j => j = i
  | _ => false

theorem moves_iff {i : Fin m} {e : PoolEvent α m} : moves i e = true ↔ e = .work i := by
  cases e with
  | work j => simp [moves]
  | push lane task => simp [moves]
  | cancel => simp [moves]

/-- Nothing finished is forgotten. -/
theorem Stepped.finished_subset {s s' : Pool α m} {e : PoolEvent α m} (h : Stepped s e s') :
    s.log.finished ⊆ s'.log.finished := by
  cases h with
  | finish i task focus => exact List.subset_append_left _ _
  | _ => exact List.Subset.refl _

/-- The worker's own step brings its task nearer to the end. -/
theorem Stepped.own_left {s s' : Pool α m} {i : Fin m} {task : α} (h : Stepped s (.work i) s')
    (ht : s.slots i = some task) :
    (i, task) ∈ s'.log.finished ∨
      (s'.slots i = some task ∧ (s'.workers i).focus.left + 1 = (s.workers i).focus.left) := by
  unfold slots at ht
  -- a worker that holds a task has won or is in the body; elsewhere it has none
  cases h with
  | lose _ lane task' focus =>
    rw [focus] at ht
    refine Or.inr ⟨?_, ?_⟩
    · simpa [slots, Focus.task?] using ht
    · simp [focus, Focus.left]
  | call _ task' b todo focus =>
    rw [focus] at ht
    refine Or.inr ⟨?_, ?_⟩
    · simpa [slots, Focus.task?] using ht
    · simp [focus, Focus.left]
  | finish _ task' focus =>
    rw [focus] at ht
    obtain rfl : task' = task := Option.some.inj ht
    exact Or.inl (List.mem_append_right _ (List.mem_singleton.mpr rfl))
  | leave _ focus fired => rw [focus] at ht; exact nomatch ht
  | begin _ focus fired => rw [focus] at ht; exact nomatch ht
  | create _ lane focus pc => rw [focus] at ht; exact nomatch ht
  | pop _ lane task' rest focus pc queue => rw [focus] at ht; exact nomatch ht
  | empty _ lane focus pc queue => rw [focus] at ht; exact nomatch ht
  | permit _ lane focus pc permit => rw [focus] at ht; exact nomatch ht
  | register _ lane focus pc permit => rw [focus] at ht; exact nomatch ht
  | woken _ lane focus pc notified => rw [focus] at ht; exact nomatch ht
  | still _ lane focus pc notified => rw [focus] at ht; exact nomatch ht
  | leaveHi _ focus => rw [focus] at ht; exact nomatch ht
  | leaveLo _ focus => rw [focus] at ht; exact nomatch ht

/-- **Run lemma**: whatever else happens, the worker counts down to the end of its iteration. -/
theorem held_run {i : Fin m} {task : α} : ∀ (ls : List (PoolEvent α m)) {s s' : Pool α m},
    s.slots i = some task → run step s ls = some s' →
    (i, task) ∈ s'.log.finished ∨ (s'.slots i = some task ∧
      (s'.workers i).focus.left + ls.countP (moves i) = (s.workers i).focus.left) := by
  have hkeep : ∀ (ls : List (PoolEvent α m)) {s s' : Pool α m}, (i, task) ∈ s.log.finished →
      run step s ls = some s' → (i, task) ∈ s'.log.finished := fun ls s s' =>
    run_invariant (I := fun s : Pool α m => (i, task) ∈ s.log.finished)
      (fun _ _ _ hI hs => (step_eq_some.mp hs).finished_subset hI) ls s s'
  intro ls
  induction ls with
  | nil =>
    intro s s' ht hr
    obtain rfl := Option.some.inj hr
    exact Or.inr ⟨ht, rfl⟩
  | cons e ls ih =>
    intro s s' ht hr
    obtain ⟨t, hstep, hrest⟩ := run_cons_some.mp hr
    have hs := step_eq_some.mp hstep
    -- only the worker's own steps count, and nobody else moves it
    by_cases he : e = .work i
    · subst he
      rcases hs.own_left ht with hfin | ⟨ht', hleft⟩
      · exact Or.inl (hkeep ls hfin hrest)
      · refine (ih ht' hrest).imp_right (And.imp_right fun hcount => ?_)
        rw [List.countP_cons_of_pos (moves_iff.mpr rfl)]
        omega
    · have hw := hs.workers_of_ne he
      have ht' : t.slots i = some task := by unfold slots at ht ⊢; rw [hw]; exact ht
      refine (ih ht' hrest).imp_right (And.imp_right fun hcount => ?_)
      rw [List.countP_cons_of_neg (fun hm => he (moves_iff.mp hm)), ← hw]
      exact hcount

/-- A worker that holds a task can always move. -/
theorem work_of_held {s : Pool α m} {i : Fin m} {task : α} (ht : s.slots i = some task) :
    s.step (.work i) ≠ none := by
  unfold slots at ht
  rw [step, work]
  cases hf : (s.workers i).focus with
  | won lane task => simp
  | body task todo => cases todo <;> simp
  | suspended => rw [hf] at ht; cases ht
  | polling lane => rw [hf] at ht; cases ht
  | leaving lane => rw [hf] at ht; cases ht
  | exited => rw [hf] at ht; cases ht

end Pool

/-! ## The workers are a crew

  Both pipelines have workers that take a task and make the same calls for it in the same order.
  What follows from that alone is in `Lib.Crew`; here the pool is shown to be one, whatever of a
  task is looked at (`view`). -/

/-- The call a worker makes next, in the body of its loop. -/
def Focus.call? {α : Type} : Focus α → Option (α × BodyStep)
  | .body task (b :: _) => some (task, b)
  | _ => none

/-- What a worker holds, and the calls it still has to make for it. -/
def Focus.hands {α γ : Type} (view : α → γ) : Focus α → Option (γ × List BodyStep)
  | .won _ task => some (view task, iteration)
  | .body task todo => some (view task, todo)
  | _ => none

theorem Focus.hands_eq_none {α γ : Type} {view : α → γ} {f : Focus α} :
    f.hands view = none ↔ f.task? = none := by
  cases f <;> simp [hands, task?]

namespace Pool

variable {α γ : Type} {m : Nat}

/-- What every worker holds. -/
def hands (view : α → γ) (s : Pool α m) : Hands γ BodyStep m :=
  fun i => (s.workers i).focus.hands view

/-- The tasks dequeued so far. -/
def taken (view : α → γ) (s : Pool α m) : List γ := s.log.dequeued.map fun d => view d.2.2

/-- The call a step makes. -/
def called (view : α → γ) (s : Pool α m) : PoolEvent α m → List (BodyStep × γ)
  | .work i => ((s.workers i).focus.call?.map fun c => (c.2, view c.1)).toList
  | _ => []

theorem hands_moved {view : α → γ} {s s' : Pool α m} {i : Fin m} {w : Worker α}
    (hw : s'.workers = Function.update s.workers i w) :
    s'.hands view = Function.update (s.hands view) i (w.focus.hands view) := by
  unfold hands
  rw [hw]
  exact Function.comp_update (fun w : Worker α => w.focus.hands view) s.workers i w

/-- A worker's step is one of the crew when it is one for its hands. -/
theorem crew_moved {view : α → γ} {s s' : Pool α m} {i : Fin m} {w : Worker α} {more : List γ}
    {made : List (BodyStep × γ)} (hw : s'.workers = Function.update s.workers i w)
    (hstep : CrewStep iteration (s.hands view) more made
      (Function.update (s.hands view) i (w.focus.hands view))) :
    CrewStep iteration (s.hands view) more made (s'.hands view) := by
  rw [hands_moved hw]
  exact hstep

/-- A worker whose hands stay as they are. -/
theorem crew_idle {view : α → γ} {s s' : Pool α m} {i : Fin m} {w : Worker α}
    (hw : s'.workers = Function.update s.workers i w)
    (hh : w.focus.hands view = (s.workers i).focus.hands view) :
    CrewStep iteration (s.hands view) [] [] (s'.hands view) := by
  have hsame : Function.update (s.hands view) i ((s.workers i).focus.hands view) =
      s.hands view := Function.update_eq_self i (s.hands view)
  apply crew_moved hw
  rw [hh, hsame]
  exact .idle

/-- **The pool is a crew** that goes through the body of the loop. -/
theorem Stepped.crew (view : α → γ) {s s' : Pool α m} {e : PoolEvent α m} (h : Stepped s e s') :
    ∃ more, s'.taken view = s.taken view ++ more ∧
      CrewStep iteration (s.hands view) more (s.called view e) (s'.hands view) := by
  -- only a pop takes an item, and only a step in the body makes a call
  have hkept : s.taken view = s.taken view ++ [] := (List.append_nil _).symm
  cases h with
  | push lane task => exact ⟨[], hkept, .idle⟩
  | cancel => exact ⟨[], hkept, .idle⟩
  | leave i focus fired =>
    rw [called, focus]
    exact ⟨[], hkept, crew_idle rfl (by rw [focus]; rfl)⟩
  | begin i focus fired =>
    rw [called, focus]
    exact ⟨[], hkept, crew_idle rfl (by rw [focus]; rfl)⟩
  | create i lane focus pc =>
    rw [called, focus]
    exact ⟨[], hkept, crew_idle rfl (by rw [focus])⟩
  | pop i lane task rest focus pc queue =>
    rw [called, focus]
    refine ⟨[view task], List.map_append, crew_moved rfl ?_⟩
    apply CrewStep.take
    rw [hands, focus]
    rfl
  | empty i lane focus pc queue =>
    rw [called, focus]
    exact ⟨[], hkept, crew_idle rfl (by rw [focus])⟩
  | permit i lane focus pc permit =>
    rw [called, focus]
    exact ⟨[], hkept, crew_idle rfl (by rw [focus])⟩
  | register i lane focus pc permit =>
    rw [called, focus]
    exact ⟨[], hkept, crew_idle rfl (by rw [focus]; cases lane <;> rfl)⟩
  | woken i lane focus pc notified =>
    rw [called, focus]
    exact ⟨[], hkept, crew_idle rfl (by rw [focus])⟩
  | still i lane focus pc notified =>
    rw [called, focus]
    exact ⟨[], hkept, crew_idle rfl (by rw [focus]; cases lane <;> rfl)⟩
  | lose i lane task focus =>
    rw [called, focus]
    exact ⟨[], hkept, crew_idle rfl (by rw [focus]; rfl)⟩
  | call i task b todo focus =>
    rw [called, focus]
    refine ⟨[], hkept, crew_moved rfl ?_⟩
    apply CrewStep.call
    rw [hands, focus]
    rfl
  | finish i task focus =>
    rw [called, focus]
    refine ⟨[], hkept, crew_moved rfl ?_⟩
    apply CrewStep.done
    rw [hands, focus]
    rfl
  | leaveHi i focus =>
    rw [called, focus]
    exact ⟨[], hkept, crew_idle rfl (by rw [focus]; rfl)⟩
  | leaveLo i focus =>
    rw [called, focus]
    exact ⟨[], hkept, crew_idle rfl (by rw [focus]; rfl)⟩

end Pool

end RtsPipeline.Async
