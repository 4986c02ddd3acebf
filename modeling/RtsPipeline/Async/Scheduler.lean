/-
  `rts-async/src/scheduler.rs`: a pool of workers over the two priority lanes.

  Each worker loops over a biased `select!` of three futures: `cancelled()`, `hi.pop_async()` and
  `lo.pop_async()`.  A poll of the `select!` polls them in this order; the first one that is ready
  wins, the other two are dropped in whatever state they are, and the body of the loop runs.  If
  none is ready the worker is suspended with both pops registered, and the next poll takes them up
  where they stood: a registered `pop_async` looks at its own wake-up only, not at the queue.

  A step of a worker is one access to what the workers share, a look at a queue under its lock or at
  a `Notify`, together with the moves of the worker's own that lie around it.  So anything may
  happen between the two looks of one poll, and between winning a task and dropping the other pop,
  which is where the orders of the lanes and the wake-ups can go wrong.  What the body of the loop
  calls is kept as a list of the calls to come; what they do is up to the modules that need it.

  1. `Pool` — the lanes, the workers and the cancellation flag, with a log of what happened.
  2. `step` — one atomic step of an interleaving: a push, a step of a worker, the cancellation.
  3. `Stepped` — what a step can do, said once; every invariant here and in the modules above is
     read off it.
-/
import Mathlib.Logic.Function.Basic
import RtsPipeline.Core.Iteration
import RtsPipeline.Core.Ring
import RtsPipeline.Lib.Run

namespace RtsPipeline.Async

open Lib

/-- The two lanes: `hi` for Human tasks, `lo` for Bot tasks. -/
inductive Lane
  | hi
  | lo
deriving DecidableEq, Repr

/-- The branch of the `select!` that loses when this lane wins. -/
def Lane.other : Lane → Lane
  | hi => lo
  | lo => hi

/-- Where a worker stands in its loop. -/
inductive Focus (α : Type)
  | suspended                 -- the `select!` is not being polled
  | polling (lane : Lane)     -- in a poll, at the pop of this lane
  | won (lane : Lane) (task : α)    -- this lane's pop returned; the other is about to be dropped
  | body (task : α) (todo : List BodyStep)
  | leaving (lane : Lane)     -- `cancelled()` won; this lane's pop is about to be dropped
  | exited
deriving DecidableEq, Repr

/-- A worker: its focus, and where its two pops stand. -/
structure Worker (α : Type) where
  focus : Focus α
  pops : Lane → PopPc

/-- A worker at the top of its loop, with two fresh pops. -/
def Worker.fresh {α : Type} : Worker α := { focus := .suspended, pops := fun _ => .create }

/-- What happened so far.  No step depends on it: it is there for the statements, which speak of
    every task that was ever pushed, where the code keeps only those it still has to serve. -/
structure PoolLog (α : Type) (m : Nat) where
  pushed : Lane → List α
  evicted : Lane → List α
  dequeued : List (Fin m × Lane × α)
  finished : List (Fin m × α)
  began : Fin m → List α      -- what `hi` held when the worker's last poll began

/-- The lanes, the workers and the cancellation flag. -/
structure Pool (α : Type) (m : Nat) where
  lanes : Lane → DropOldestRing α (Fin m)
  workers : Fin m → Worker α
  cancel : Bool
  log : PoolLog α m

/-- One atomic step of an interleaving. -/
inductive PoolEvent (α : Type) (m : Nat)
  | push (lane : Lane) (task : α)
  | work (i : Fin m)
  | cancel

namespace Pool

variable {α : Type} {m : Nat}

/-- Two empty lanes, every worker at the top of its loop. -/
def start (α : Type) (m capacity : Nat) : Pool α m :=
  { lanes := fun _ => DropOldestRing.new capacity
    workers := fun _ => .fresh
    cancel := false
    log :=
      { pushed := fun _ => []
        evicted := fun _ => []
        dequeued := []
        finished := []
        began := fun _ => [] } }

/-- Replace one lane. -/
def setLane (s : Pool α m) (lane : Lane) (r : DropOldestRing α (Fin m)) : Pool α m :=
  { s with lanes := Function.update s.lanes lane r }

/-- Replace one worker. -/
def setWorker (s : Pool α m) (i : Fin m) (w : Worker α) : Pool α m :=
  { s with workers := Function.update s.workers i w }

/-- Move one worker on. -/
def setFocus (s : Pool α m) (i : Fin m) (f : Focus α) : Pool α m :=
  s.setWorker i { s.workers i with focus := f }

/-- Move one worker's pop of one lane on. -/
def setPop (s : Pool α m) (i : Fin m) (lane : Lane) (pc : PopPc) : Pool α m :=
  s.setWorker i
    { s.workers i with pops := Function.update (s.workers i).pops lane pc }

/-- A task arrives in a lane. -/
def push (s : Pool α m) (lane : Lane) (task : α) : Pool α m :=
  { s.setLane lane ((s.lanes lane).push task).1 with
    log :=
      { s.log with
        pushed := Function.update s.log.pushed lane (s.log.pushed lane ++ [task])
        evicted := Function.update s.log.evicted lane
          (s.log.evicted lane ++ (s.lanes lane).dropped.toList) } }

/-- Drop a worker's pop of one lane. -/
def dropPop (s : Pool α m) (i : Fin m) (lane : Lane) : Pool α m :=
  (s.setLane lane ((s.lanes lane).cancelPop i)).setPop i lane .create

/-- What the poll does after a pop was pending. -/
def afterPending : Lane → Focus α
  | .hi => .polling .lo
  | .lo => .suspended

/-- The next step of one worker; `none` when it has exited. -/
def work (s : Pool α m) (i : Fin m) : Option (Pool α m) :=
  match (s.workers i).focus with
  | .suspended =>
    -- `cancelled()` is polled first
    if s.cancel then some (s.setFocus i (.leaving .hi))
    else some { s.setFocus i (.polling .hi) with
      log := { s.log with began := Function.update s.log.began i (s.lanes .hi).queue } }
  | .polling lane =>
    match (s.lanes lane).popAsync i ((s.workers i).pops lane) with
    | (.goto pc, r) => some ((s.setLane lane r).setPop i lane pc)
    | (.pending, r) =>
      some (((s.setLane lane r).setPop i lane .parked).setFocus i (afterPending lane))
    | (.ready task, r) =>
      some { ((s.setLane lane r).setPop i lane .create).setFocus i (.won lane task) with
        log := { s.log with dequeued := s.log.dequeued ++ [(i, lane, task)] } }
  | .won lane task => some ((s.dropPop i lane.other).setFocus i (.body task iteration))
  | .body task (_ :: todo) => some (s.setFocus i (.body task todo))
  | .body task [] =>
    some { s.setFocus i .suspended with
      log := { s.log with finished := s.log.finished ++ [(i, task)] } }
  | .leaving .hi => some ((s.dropPop i .hi).setFocus i (.leaving .lo))
  | .leaving .lo => some ((s.dropPop i .lo).setFocus i .exited)
  | .exited => none

/-- One step of an interleaving; `none` when it is not enabled. -/
def step (s : Pool α m) : PoolEvent α m → Option (Pool α m)
  | .push lane task => some (s.push lane task)
  | .work i => s.work i
  | .cancel => some { s with cancel := true }

/-! ## The setters

What is left alone when one thing is replaced. -/

@[simp] theorem setLane_lanes (s : Pool α m) (lane : Lane) (r : DropOldestRing α (Fin m)) :
    (s.setLane lane r).lanes = Function.update s.lanes lane r := rfl

@[simp] theorem setLane_workers (s : Pool α m) (lane : Lane) (r : DropOldestRing α (Fin m)) :
    (s.setLane lane r).workers = s.workers := rfl

@[simp] theorem setWorker_lanes (s : Pool α m) (i : Fin m) (w : Worker α) :
    (s.setWorker i w).lanes = s.lanes := rfl

@[simp] theorem setWorker_workers (s : Pool α m) (i : Fin m) (w : Worker α) :
    (s.setWorker i w).workers = Function.update s.workers i w := rfl

@[simp] theorem setWorker_setWorker (s : Pool α m) (i : Fin m) (v w : Worker α) :
    (s.setWorker i v).setWorker i w = s.setWorker i w := by
  simp [setWorker]

/-! ## What a step can do

All invariants of the pool are derived from this list and not from `step` itself.  A case is named
after what the worker meets: an item, a permit, nothing, a wake-up. -/

/-- What one step can do, and when.  A step of worker `i` is named after what it meets. -/
inductive Stepped (s : Pool α m) : PoolEvent α m → Pool α m → Prop
  | push (lane : Lane) (task : α) : Stepped s (.push lane task) (s.push lane task)
  | cancel : Stepped s .cancel { s with cancel := true }
  -- `cancelled()` is polled first, so a cancelled worker starts no poll
  | leave (i : Fin m) (focus : (s.workers i).focus = .suspended) (fired : s.cancel = true) :
      Stepped s (.work i) (s.setWorker i ⟨.leaving .hi, (s.workers i).pops⟩)
  | begin (i : Fin m) (focus : (s.workers i).focus = .suspended) (fired : s.cancel = false) :
      Stepped s (.work i) { s.setWorker i ⟨.polling .hi, (s.workers i).pops⟩ with
        log := { s.log with began := Function.update s.log.began i (s.lanes .hi).queue } }
  -- `pop_async` from its start: the future of `notified()` is made before the look
  | create (i : Fin m) (lane : Lane) (focus : (s.workers i).focus = .polling lane)
      (pc : (s.workers i).pops lane = .create) :
      Stepped s (.work i)
        (s.setWorker i ⟨.polling lane, Function.update (s.workers i).pops lane .check⟩)
  | pop (i : Fin m) (lane : Lane) (task : α) (rest : List α)
      (focus : (s.workers i).focus = .polling lane) (pc : (s.workers i).pops lane = .check)
      (queue : (s.lanes lane).queue = task :: rest) :
      Stepped s (.work i) { (s.setLane lane { s.lanes lane with queue := rest }).setWorker i
          ⟨.won lane task, Function.update (s.workers i).pops lane .create⟩ with
        log := { s.log with dequeued := s.log.dequeued ++ [(i, lane, task)] } }
  -- it found nothing, and the future is polled: a permit, or a place among the waiters
  | empty (i : Fin m) (lane : Lane) (focus : (s.workers i).focus = .polling lane)
      (pc : (s.workers i).pops lane = .check) (queue : (s.lanes lane).queue = []) :
      Stepped s (.work i)
        (s.setWorker i ⟨.polling lane, Function.update (s.workers i).pops lane .arm⟩)
  | permit (i : Fin m) (lane : Lane) (focus : (s.workers i).focus = .polling lane)
      (pc : (s.workers i).pops lane = .arm) (permit : (s.lanes lane).notify.permit = true) :
      Stepped s (.work i)
        ((s.setLane lane { s.lanes lane with notify := (s.lanes lane).notify.consume }).setWorker i
          ⟨.polling lane, Function.update (s.workers i).pops lane .create⟩)
  | register (i : Fin m) (lane : Lane) (focus : (s.workers i).focus = .polling lane)
      (pc : (s.workers i).pops lane = .arm) (permit : (s.lanes lane).notify.permit = false) :
      Stepped s (.work i)
        ((s.setLane lane
            { s.lanes lane with notify := (s.lanes lane).notify.register i }).setWorker i
          ⟨afterPending lane, Function.update (s.workers i).pops lane .parked⟩)
  -- polled again where it stood: it looks at its own wake-up and not at the queue
  | woken (i : Fin m) (lane : Lane) (focus : (s.workers i).focus = .polling lane)
      (pc : (s.workers i).pops lane = .parked) (notified : i ∈ (s.lanes lane).notify.notified) :
      Stepped s (.work i)
        ((s.setLane lane
            { s.lanes lane with notify := (s.lanes lane).notify.acknowledge i }).setWorker i
          ⟨.polling lane, Function.update (s.workers i).pops lane .create⟩)
  | still (i : Fin m) (lane : Lane) (focus : (s.workers i).focus = .polling lane)
      (pc : (s.workers i).pops lane = .parked) (notified : i ∉ (s.lanes lane).notify.notified) :
      Stepped s (.work i) (s.setWorker i ⟨afterPending lane, (s.workers i).pops⟩)
  -- the other pop is dropped after the task was won, and a wake-up in it goes to the next waiter
  | lose (i : Fin m) (lane : Lane) (task : α) (focus : (s.workers i).focus = .won lane task) :
      Stepped s (.work i)
        ((s.setLane lane.other ((s.lanes lane.other).cancelPop i)).setWorker i
          ⟨.body task iteration, Function.update (s.workers i).pops lane.other .create⟩)
  | call (i : Fin m) (task : α) (b : BodyStep) (todo : List BodyStep)
      (focus : (s.workers i).focus = .body task (b :: todo)) :
      Stepped s (.work i) (s.setWorker i ⟨.body task todo, (s.workers i).pops⟩)
  | finish (i : Fin m) (task : α) (focus : (s.workers i).focus = .body task []) :
      Stepped s (.work i) { s.setWorker i ⟨.suspended, (s.workers i).pops⟩ with
        log := { s.log with finished := s.log.finished ++ [(i, task)] } }
  -- the worker returns, and both pops are dropped
  | leaveHi (i : Fin m) (focus : (s.workers i).focus = .leaving .hi) :
      Stepped s (.work i)
        ((s.setLane .hi ((s.lanes .hi).cancelPop i)).setWorker i
          ⟨.leaving .lo, Function.update (s.workers i).pops .hi .create⟩)
  | leaveLo (i : Fin m) (focus : (s.workers i).focus = .leaving .lo) :
      Stepped s (.work i)
        ((s.setLane .lo ((s.lanes .lo).cancelPop i)).setWorker i
          ⟨.exited, Function.update (s.workers i).pops .lo .create⟩)

/-- The lane is unchanged by being put back. -/
@[simp] theorem setLane_self (s : Pool α m) (lane : Lane) : s.setLane lane (s.lanes lane) = s := by
  simp [setLane]

/-- `Stepped` is exactly `step`. -/
theorem step_eq_some {s s' : Pool α m} {e : PoolEvent α m} :
    s.step e = some s' ↔ Stepped s e s' := by
  constructor
  · intro h
    cases e with
    | push lane task => obtain rfl := Option.some.inj h; exact .push lane task
    | cancel => obtain rfl := Option.some.inj h; exact .cancel
    -- by where the worker stands, and then by where its pop of the lane stands
    | work i =>
      rw [step, work] at h
      split at h
      · rename_i hf
        split at h
        · rename_i hc; obtain rfl := Option.some.inj h; exact .leave i hf hc
        · rename_i hc
          obtain rfl := Option.some.inj h
          exact .begin i hf (Bool.eq_false_iff.mpr hc)
      · rename_i lane hf
        cases hpc : (s.workers i).pops lane with
        | create =>
          simp only [hpc, DropOldestRing.popAsync, setLane_self] at h
          obtain rfl := Option.some.inj h
          simpa [setPop, hf] using Stepped.create i lane hf hpc
        | check =>
          cases hq : (s.lanes lane).queue with
          | nil =>
            simp only [hpc, DropOldestRing.popAsync, DropOldestRing.popFront, hq,
              setLane_self] at h
            obtain rfl := Option.some.inj h
            simpa [setPop, hf] using Stepped.empty i lane hf hpc hq
          | cons task rest =>
            simp only [hpc, DropOldestRing.popAsync, DropOldestRing.popFront, hq] at h
            obtain rfl := Option.some.inj h
            simpa [setPop, setFocus] using Stepped.pop i lane task rest hf hpc hq
        | arm =>
          cases hp : (s.lanes lane).notify.permit with
          | false =>
            simp only [hpc, DropOldestRing.popAsync, hp, Bool.false_eq_true, if_false] at h
            obtain rfl := Option.some.inj h
            simpa [setPop, setFocus] using Stepped.register i lane hf hpc hp
          | true =>
            simp only [hpc, DropOldestRing.popAsync, hp, if_true] at h
            obtain rfl := Option.some.inj h
            simpa [setPop, hf] using Stepped.permit i lane hf hpc hp
        | parked =>
          by_cases hn : i ∈ (s.lanes lane).notify.notified
          · simp only [hpc, DropOldestRing.popAsync, hn, if_true] at h
            obtain rfl := Option.some.inj h
            simpa [setPop, hf] using Stepped.woken i lane hf hpc hn
          · simp only [hpc, DropOldestRing.popAsync, hn, if_false, setLane_self] at h
            obtain rfl := Option.some.inj h
            have hpops : Function.update (s.workers i).pops lane .parked = (s.workers i).pops := by
              rw [← hpc]; exact Function.update_eq_self lane _
            simpa [setPop, setFocus, hpops] using Stepped.still i lane hf hpc hn
      · rename_i lane task hf
        obtain rfl := Option.some.inj h
        simpa [dropPop, setPop, setFocus] using Stepped.lose i lane task hf
      · rename_i task b todo hf; obtain rfl := Option.some.inj h; exact .call i task b todo hf
      · rename_i task hf; obtain rfl := Option.some.inj h; exact .finish i task hf
      · rename_i hf
        obtain rfl := Option.some.inj h
        simpa [dropPop, setPop, setFocus] using Stepped.leaveHi i hf
      · rename_i hf
        obtain rfl := Option.some.inj h
        simpa [dropPop, setPop, setFocus] using Stepped.leaveLo i hf
      · exact nomatch h
  · intro h
    cases h with
    | push lane task => rfl
    | cancel => rfl
    | leave i focus fired => simp [step, work, focus, fired, setFocus]
    | begin i focus fired => simp [step, work, focus, fired, setFocus]
    | create i lane focus pc =>
      simp [step, work, focus, pc, DropOldestRing.popAsync, setPop]
    | pop i lane task rest focus pc queue =>
      simp [step, work, focus, pc, DropOldestRing.popAsync, DropOldestRing.popFront, queue,
        setPop, setFocus]
    | empty i lane focus pc queue =>
      simp [step, work, focus, pc, DropOldestRing.popAsync, DropOldestRing.popFront, queue,
        setPop]
    | permit i lane focus pc permit =>
      simp [step, work, focus, pc, DropOldestRing.popAsync, permit, setPop]
    | register i lane focus pc permit =>
      simp [step, work, focus, pc, DropOldestRing.popAsync, permit, setPop, setFocus]
    | woken i lane focus pc notified =>
      simp [step, work, focus, pc, DropOldestRing.popAsync, notified, setPop]
    | still i lane focus pc notified =>
      have hpops : Function.update (s.workers i).pops lane .parked = (s.workers i).pops := by
        rw [← pc]; exact Function.update_eq_self lane _
      simp [step, work, focus, pc, DropOldestRing.popAsync, notified, setPop, setFocus, hpops]
    | lose i lane task focus => simp [step, work, focus, dropPop, setPop, setFocus]
    | call i task b todo focus => simp [step, work, focus, setFocus]
    | finish i task focus => simp [step, work, focus, setFocus]
    | leaveHi i focus => simp [step, work, focus, dropPop, setPop, setFocus]
    | leaveLo i focus => simp [step, work, focus, dropPop, setPop, setFocus]

/-- A step of another party leaves a worker where it is. -/
theorem Stepped.workers_of_ne {s s' : Pool α m} {e : PoolEvent α m} (h : Stepped s e s')
    {i : Fin m} (he : e ≠ .work i) : s'.workers i = s.workers i := by
  have hne : ∀ j, PoolEvent.work j ≠ PoolEvent.work (α := α) i → i ≠ j := by
    rintro j hj rfl
    exact hj rfl
  cases h with
  | push lane task => rfl
  | cancel => rfl
  | _ => exact Function.update_of_ne (hne _ he) _ _

/-- Workers push nothing. -/
theorem Stepped.pushed_work {s s' : Pool α m} {i : Fin m} (h : Stepped s (.work i) s') :
    s'.log.pushed = s.log.pushed := by
  cases h with
  | _ => rfl

end Pool

end RtsPipeline.Async
