/-
  What the worker threads of `rts-threaded/src/pipeline.rs` write, and what the pushes return.

  1. `nextCall`, `calls`, `pushings` — what an onlooker sees of a step.
  2. `work_spec` — a worker's step is one of the crew, and its call writes the metrics.
  3. `Kept` — in every run the metrics hold what the workers recorded, and every dequeued task is in
     the hands of a worker or was worked through.
-/
import RtsPipeline.Core.Ledger
import RtsPipeline.Threaded.Pipeline

namespace RtsPipeline.Threaded

open Lib

/-- What a worker holds, and the calls it still has to make for it.  Seen so, the threads are a crew
    in the sense of `Lib.Crew`, and its balance of calls made and owed applies. -/
def Worker.hands : Worker → Option (Task × List BodyStep)
  | body task _ _ todo => some (task, todo)
  | _ => none

namespace System

variable {n : Nat}

/-- The call a worker's step makes. -/
def nextCall (s : System n) (i : Fin n) : Option Call :=
  match s.workers i with
  | .body task actualStart total (b :: _) => some ⟨b, task, actualStart, total⟩
  | _ => none

/-- The call a step makes. -/
def calls (s : System n) : SystemEvent n → List Call
  | .work i _ => (s.nextCall i).toList
  | _ => []

/-- The task a step pushes. -/
def pushing? (fromStr : Text → Option Json) (s : System n) : SystemEvent n → Option Task
  | .dispatch raw now _ =>
    match classify fromStr raw s.failsafe.isDegraded now with
    | .admitted task => some task
    | _ => none
  | _ => none

/-- The push a step makes. -/
def pushings (fromStr : Text → Option Json) (s : System n) (e : SystemEvent n) : List Pushing :=
  ((s.pushing? fromStr e).bind fun task => (s.queue.push task).map fun r =>
    { full := decide (s.queue.capacity ≤ s.queue.len), outcome := r.2 }).toList

/-- What every worker holds. -/
def hands (s : System n) : Hands Task BodyStep n := fun i => (s.workers i).hands

/-- The tasks dequeued so far. -/
def taken (s : System n) : List Task := s.log.dequeued.map Prod.snd

/-! ## A step of a worker

A step of a worker is two things at once: to the crew it is a task taken, a call made or a task put
down, and to the store it is the effect of that call.  `work_spec` says both, so that the two halves
of `Kept` can be kept apart in the induction. -/

theorem hands_moved {s s' : System n} {i : Fin n} {w : Worker}
    (hw : s'.workers = Function.update s.workers i w) :
    s'.hands = Function.update s.hands i w.hands := by
  unfold hands
  rw [hw]
  exact Function.comp_update Worker.hands s.workers i w

/-- A worker's step is one of the crew when it is one for its hands. -/
theorem crew_moved {s s' : System n} {i : Fin n} {w : Worker} {more : List Task}
    {made : List (BodyStep × Task)} (hw : s'.workers = Function.update s.workers i w)
    (hstep : CrewStep iteration s.hands more made (Function.update s.hands i w.hands)) :
    CrewStep iteration s.hands more made s'.hands := by
  rw [hands_moved hw]
  exact hstep

/-- What a call does to the metrics, and that it touches nothing else the crew sees. -/
theorem call_spec (high : UInt64) (s : System n) (c : Call) :
    (s.call high c.step c.task c.actualStart c.total).metrics =
        s.metrics.perform deadlineNs high c ∧
      (s.call high c.step c.task c.actualStart c.total).workers = s.workers ∧
      (s.call high c.step c.task c.actualStart c.total).log = s.log := by
  unfold call Metrics.perform Call.drift
  cases c.step with
  | recordMiss => simp only; split <;> exact ⟨rfl, rfl, rfl⟩
  | _ => exact ⟨rfl, rfl, rfl⟩

/-- **A worker's step** is one of the crew, and its call writes the metrics. -/
theorem work_spec {high : UInt64} {s s' : System n} {i : Fin n} {now : Nat}
    (h : s.work high i now = some s') :
    s'.metrics = (s.nextCall i).elim s.metrics (s.metrics.perform deadlineNs high) ∧
      ∃ more, s'.taken = s.taken ++ more ∧
        CrewStep iteration s.hands more ((s.nextCall i).toList.map Call.made) s'.hands := by
  have hkept : s.taken = s.taken ++ [] := (List.append_nil _).symm
  unfold work at h
  cases hw : s.workers i with
  | exited => rw [hw] at h; exact nomatch h
  | popping =>
    have hfree : s.hands i = none := by rw [hands, hw]; rfl
    have hnext : s.nextCall i = none := by rw [nextCall, hw]
    rw [hnext]
    simp only [hw] at h
    split at h
    · obtain rfl := Option.some.inj h
      have hsame : Function.update s.hands i Worker.exited.hands = s.hands :=
        (congrArg (Function.update s.hands i) hfree.symm).trans (Function.update_eq_self i s.hands)
      refine ⟨rfl, [], hkept, crew_moved rfl ?_⟩
      rw [hsame]
      exact .idle
    · rename_i t q _
      obtain rfl := Option.some.inj h
      exact ⟨rfl, [t], List.map_append, crew_moved rfl (.take i t hfree)⟩
    · obtain rfl := Option.some.inj h
      exact ⟨rfl, [], hkept, .idle⟩
  | body task actualStart total todo =>
    have hheld : s.hands i = some (task, todo) := by rw [hands, hw]; rfl
    cases todo with
    | nil =>
      have hnext : s.nextCall i = none := by rw [nextCall, hw]
      rw [hnext]
      simp only [hw] at h
      obtain rfl := Option.some.inj h
      exact ⟨rfl, [], hkept, crew_moved rfl (.done i task hheld)⟩
    | cons b todo =>
      have hnext : s.nextCall i = some ⟨b, task, actualStart, total⟩ := by rw [nextCall, hw]
      rw [hnext]
      simp only [hw] at h
      obtain rfl := Option.some.inj h
      obtain ⟨hm, hwork, hlog⟩ := s.call_spec high ⟨b, task, actualStart, total⟩
      refine ⟨hm, [], ?_, ?_⟩
      · rw [List.append_nil]
        exact congrArg (fun log => List.map Prod.snd log.dequeued) hlog
      · have hmoved : ((s.call high b task actualStart total).setWorker i
            (.body task actualStart (totalAfter b actualStart total now) todo)).workers =
            Function.update s.workers i
              (.body task actualStart (totalAfter b actualStart total now) todo) :=
          congrArg (Function.update · i _) hwork
        exact crew_moved hmoved (.call i task b todo hheld)

/-- A step that is no worker's. -/
theorem Stepped.quiet {fromStr : Text → Option Json} {s s' : System n} {e : SystemEvent n}
    (h : Stepped fromStr s e s') (quiet : ∀ i now, e ≠ .work i now) :
    s'.metrics = s.metrics ∧ s'.taken = s.taken ∧ s'.hands = s.hands := by
  cases h with
  | exit i now at_ => exact absurd rfl (quiet i now)
  | pop i now t q at_ pop => exact absurd rfl (quiet i now)
  | call i now task actualStart total total' b todo metrics silent at_ =>
    exact absurd rfl (quiet i now)
  | send i now task actualStart total total' todo at_ => exact absurd rfl (quiet i now)
  | again i now task actualStart total at_ => exact absurd rfl (quiet i now)
  | _ => exact ⟨rfl, rfl, rfl⟩

/-! ## What the workers recorded

The list of the calls is not in the state: it is what an onlooker writes down while the run goes on,
and `Kept` relates the state to it.  At the end the ledger says what the store holds as a function
of the calls, and the balance, for how many tasks each kind of call was made. -/

/-- The metrics hold what these calls wrote, and a dequeued task is in the hands of a worker or was
    worked through.  Neither half follows from the other: the ledger speaks of the calls that were
    made, whatever they are, and the balance says which calls a task has had by now. -/
structure Kept (high : UInt64) (s : System n) (cs : List Call) : Prop where
  ledger : Ledger deadlineNs high s.metrics cs
  balance : Balance iteration s.hands s.taken (cs.map Call.made)

theorem kept_start {high : UInt64} (C : Nat) : Kept high (start n C) [] where
  ledger := ledger_new
  balance := balance_start iteration fun _ => rfl

/-- **Step lemma** for `Kept`.  A worker's step dequeues a task, makes a call or begins again, and
    nobody else records anything. -/
theorem Kept.step {fromStr : Text → Option Json} {high : UInt64} {s s' : System n}
    {e : SystemEvent n} {cs : List Call} (h : Kept high s cs)
    (hs : s.step fromStr high e = some s') : Kept high s' (cs ++ s.calls e) := by
  by_cases hwork : ∃ i now, e = .work i now
  · obtain ⟨i, now, rfl⟩ := hwork
    obtain ⟨hm, more, htaken, hcrew⟩ := work_spec hs
    have hbal := h.balance.step (by decide) hcrew
    rw [← htaken, ← List.map_append] at hbal
    refine ⟨?_, hbal⟩
    rw [hm, calls]
    cases s.nextCall i with
    | none => exact (List.append_nil cs).symm ▸ h.ledger
    | some c => exact h.ledger.perform c
  · have hquiet : ∀ i now, e ≠ .work i now := fun i now he => hwork ⟨i, now, he⟩
    have hcalls : s.calls e = [] := by
      cases e with
      | work i now => exact absurd rfl (hquiet i now)
      | _ => rfl
    obtain ⟨hm, htaken, hhands⟩ := (stepped_of_step hs).quiet hquiet
    rw [hcalls, List.append_nil]
    refine ⟨hm ▸ h.ledger, ?_⟩
    rw [htaken, hhands]
    exact h.balance

/-- **Run lemma** for `Kept`. -/
theorem kept_of_run {fromStr : Text → Option Json} {high : UInt64} {C : Nat} {s : System n}
    {ls : List (SystemEvent n)} (h : run (step fromStr high) (start n C) ls = some s) :
    Kept high s (observe (step fromStr high) calls (start n C) ls) :=
  run_observe (R := Kept high) (fun _ _ _ _ hK hs => hK.step hs) ls _ s [] (kept_start C) h

/-- No worker is inside an iteration. -/
def Quiet (s : System n) : Prop := ∀ i, (s.workers i).hands = none

/-- A push returns `DroppedOldest` exactly when it finds the queue at capacity. -/
theorem pushings_outcome {fromStr : Text → Option Json} {s : System n} {e : SystemEvent n} :
    ∀ p ∈ s.pushings fromStr e, p.outcome = .droppedOldest ↔ p.full = true := by
  intro p hp
  obtain ⟨task, _, hpush⟩ := Option.bind_eq_some_iff.mp (Option.mem_toList.mp hp)
  obtain ⟨⟨q, o⟩, hr, rfl⟩ := Option.map_eq_some_iff.mp hpush
  have hpushed := PriorityQueue.push_some hr
  generalize s.queue.victim = v at hpushed
  rw [decide_eq_true_iff]
  cases hpushed with
  | room lt _ _ _ => exact ⟨fun h => (nomatch h), fun h => absurd lt (Nat.not_lt.mpr h)⟩
  | full le _ _ _ _ _ _ _ => exact ⟨fun _ => le, fun _ => rfl⟩

/-- **The metrics agree** with what the threads did, when no worker is inside an iteration, exactly
    if no value was beyond the range of the histograms and no push found the queue at capacity. -/
theorem agrees_iff {fromStr : Text → Option Json} {hdr : Hdr} {C : Nat} {s : System n}
    {ls : List (SystemEvent n)} (h : run (step fromStr hdr.high) (start n C) ls = some s)
    (quiet : s.Quiet) :
    Agrees hdr s.metrics s.taken
        (dropped (observe (step fromStr hdr.high) (pushings fromStr) (start n C) ls)) ↔
      (∀ c ∈ observe (step fromStr hdr.high) calls (start n C) ls, c.Fits hdr.high) ∧
        ∀ p ∈ observe (step fromStr hdr.high) (pushings fromStr) (start n C) ls,
          p.full = false := by
  have hkept := kept_of_run h
  have hout := observe_forall (pushings fromStr) (fun _ _ => pushings_outcome) h
  rw [← dropped_eq_zero hout]
  exact hkept.ledger.agrees_iff fun b hb => hkept.balance.settled quiet hb

end System

end RtsPipeline.Threaded
