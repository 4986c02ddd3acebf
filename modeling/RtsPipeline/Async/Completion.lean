/-
  The shutdown of the async pipeline comes to its end.

  When ingest has returned and cancelled, the main task waits for room in the leaderboard's channel
  and then for the actor; the actor waits for every sender to be dropped; and each worker may be
  anywhere in its poll or its iteration.  A poll may take up a wake-up and start over, so what a
  worker has before it depends on the wake-ups on their way, of which the shutdown makes no new
  ones.

  The proof has two halves.  A measure, `left`, goes down with every step of a worker, of the main
  task and of the actor, so no run of them is endless.  And as long as the shutdown is not over, one
  of them can step: if no worker can, all have exited and dropped their senders; if the channel
  holds something, the actor can take it; and if it is empty and nobody can send, the actor stops
  and the main task is given its reply.  `Lib.WindDown` puts the two together.

  The measure has to pay for what one task causes another to do.  An update that a worker sends is a
  message for the actor, so a call counts double in the worker's part.  A worker that leaves a poll
  may pass its wake-up on to a colleague, whose poll then starts over, at most three steps: so a
  wake-up on its way counts three.

  1. `left` — how many steps the tasks have before them at most.
  2. `Closing` — the shutdown has begun.
  3. `async_shutdown_completes` — no task waits for ever: after so many steps, the summary is
     printed.
-/
import RtsPipeline.Async.Run
import RtsPipeline.Async.Wakeups
import RtsPipeline.Lib.Slots
import RtsPipeline.Lib.WindDown

namespace RtsPipeline.Async

open Lib

/-! ## What is left

The measure of the shutdown, for the pool alone.  Every step of a worker has to make it smaller,
also the steps that poll a channel in vain and those that a wake-up sends back to the start of a
poll.  So the wake-ups count as well, each with the three steps that it can make a worker repeat. -/

/-- What is left of a pop's poll, unless a wake-up makes it start over. -/
def popLeft : PopPc → Nat
  | .create => 3
  | .check => 2
  | .arm => 1
  | .parked => 1

/-- What a worker has before it, once cancelled: the rest of its poll, one iteration whose calls
    count double, and its way out.  A worker in its poll is past its look at the cancellation and
    may still win a task, so an iteration counts for it. -/
def Worker.left {α : Type} (w : Worker α) : Nat :=
  match w.focus with
  | .polling .hi => 18 + popLeft (w.pops .hi)
  | .polling .lo => 15 + popLeft (w.pops .lo)
  | .won _ _ => 15
  | .body _ todo => 2 * todo.length + 4
  | .suspended => 3
  | .leaving .hi => 2
  | .leaving .lo => 1
  | .exited => 0

/-- What the main task has before it, the `Snapshot` included. -/
def MainPhase.left : MainPhase → Nat
  | .signalled => 6
  | .requested => 4
  | .released => 3
  | .joined => 2
  | .answered _ => 1
  | _ => 0

theorem popLeft_le (pc : PopPc) : 1 ≤ popLeft pc ∧ popLeft pc ≤ 3 := by
  cases pc <;> decide

/-- The wake-ups on their way in both lanes. -/
def Pool.wakeups {α : Type} {m : Nat} (s : Pool α m) : Nat :=
  (s.lanes .hi).notify.wakeups + (s.lanes .lo).notify.wakeups

/-- What the workers have before them; each wake-up may make one poll start over, which costs the
    three steps of `popLeft`. -/
def Pool.left {α : Type} {m : Nat} (s : Pool α m) : Nat :=
  ∑ i, (s.workers i).left + 3 * s.wakeups

namespace Pool

variable {α : Type} {m : Nat}

/-- A lane's wake-ups change, and the other's stay. -/
theorem wakeups_setLane (s : Pool α m) (lane : Lane) (r : DropOldestRing α (Fin m)) :
    (s.setLane lane r).wakeups + (s.lanes lane).notify.wakeups =
      s.wakeups + r.notify.wakeups := by
  cases lane with
  | hi =>
    show r.notify.wakeups + (s.lanes .lo).notify.wakeups + _ = _ + _ + _
    omega
  | lo =>
    show (s.lanes .hi).notify.wakeups + r.notify.wakeups + _ = _ + _ + _
    omega

/-- One worker moves, and the wake-ups it takes up weigh more than what they start over. -/
theorem left_moved {s s' : Pool α m} {i : Fin m} {w : Worker α}
    (hw : s'.workers = Function.update s.workers i w)
    (hless : w.left + 3 * s'.wakeups + 1 ≤ (s.workers i).left + 3 * s.wakeups) :
    s'.left + 1 ≤ s.left := by
  have hsum := sum_update Worker.left s.workers i w
  rw [left, left, hw]
  omega

/-- A worker's step that changes one lane's wake-ups at most. -/
theorem left_lane {s s' : Pool α m} {i : Fin m} {w : Worker α} (lane : Lane)
    (r : DropOldestRing α (Fin m)) (hw : s'.workers = Function.update s.workers i w)
    (hl : s'.lanes = Function.update s.lanes lane r)
    (hless : w.left + 3 * r.notify.wakeups + 1 ≤
      (s.workers i).left + 3 * (s.lanes lane).notify.wakeups) : s'.left + 1 ≤ s.left := by
  have hset := s.wakeups_setLane lane r
  have hsame : s'.wakeups = (s.setLane lane r).wakeups := by
    rw [wakeups, wakeups, hl, setLane_lanes]
  exact left_moved hw (by omega)

/-- The calls that the next step of a worker makes. -/
def calling (s : Pool α m) (i : Fin m) : Nat := (s.workers i).focus.call?.toList.length

/-- **Step lemma**: once cancelled, every step of a worker is one less, and one that makes a call is
    two less. -/
theorem left_work {s s' : Pool α m} {i : Fin m} (hset : s.cancel = true)
    (h : s.work i = some s') : s'.left + 1 + s.calling i ≤ s.left := by
  have hleft : ∀ {f : Focus α}, (s.workers i).focus = f →
      (s.workers i).left = Worker.left ⟨f, (s.workers i).pops⟩ := by
    rintro f rfl
    rfl
  have hsilent : (s.workers i).focus.call? = none → s'.left + 1 ≤ s.left →
      s'.left + 1 + s.calling i ≤ s.left := by
    intro hnone hle
    rw [calling, hnone]
    exact hle
  cases step_eq_some.mp (show s.step (.work i) = some s' from h) with
  | leave i focus fired =>
    refine hsilent (by rw [focus]; rfl) (left_moved rfl ?_)
    rw [hleft focus]
    show 2 + 3 * s.wakeups + 1 ≤ 3 + 3 * s.wakeups
    omega
  | begin i focus fired =>
    rw [hset] at fired
    cases fired
  | create i lane focus pc =>
    refine hsilent (by rw [focus]; rfl) (left_moved rfl ?_)
    rw [hleft focus]
    show _ + 3 * s.wakeups + 1 ≤ _ + 3 * s.wakeups
    cases lane <;> simp only [Worker.left, Function.update_self, pc, popLeft] <;> omega
  | pop i lane task rest focus pc queue =>
    refine hsilent (by rw [focus]; rfl) (left_lane lane _ rfl rfl ?_)
    rw [hleft focus]
    show 15 + 3 * (s.lanes lane).notify.wakeups + 1 ≤ _ + 3 * (s.lanes lane).notify.wakeups
    cases lane <;> simp only [Worker.left, pc, popLeft] <;> omega
  | empty i lane focus pc queue =>
    refine hsilent (by rw [focus]; rfl) (left_moved rfl ?_)
    rw [hleft focus]
    show _ + 3 * s.wakeups + 1 ≤ _ + 3 * s.wakeups
    cases lane <;> simp only [Worker.left, Function.update_self, pc, popLeft] <;> omega
  | permit i lane focus pc permit =>
    -- the poll starts over, and the permit is gone
    refine hsilent (by rw [focus]; rfl) (left_lane lane _ rfl rfl ?_)
    rw [hleft focus]
    have hw := Notify.wakeups_consume permit
    cases lane <;> simp only [Worker.left, Function.update_self, pc, popLeft] at hw ⊢ <;> omega
  | register i lane focus pc permit =>
    refine hsilent (by rw [focus]; rfl) (left_lane lane _ rfl rfl ?_)
    rw [hleft focus, Notify.wakeups_register i permit]
    have hlo := popLeft_le ((s.workers i).pops .lo)
    have hpc : popLeft ((s.workers i).pops lane) = 1 := by rw [pc]; rfl
    have hne : Lane.lo ≠ Lane.hi := by decide
    cases lane <;> simp only [Worker.left, afterPending, Function.update_of_ne hne] <;> omega
  | woken i lane focus pc notified =>
    refine hsilent (by rw [focus]; rfl) (left_lane lane _ rfl rfl ?_)
    rw [hleft focus]
    have hw := Notify.wakeups_acknowledge notified
    cases lane <;> simp only [Worker.left, Function.update_self, pc, popLeft] at hw ⊢ <;> omega
  | still i lane focus pc notified =>
    refine hsilent (by rw [focus]; rfl) (left_moved rfl ?_)
    rw [hleft focus]
    have hlo := popLeft_le ((s.workers i).pops .lo)
    have hpc : popLeft ((s.workers i).pops lane) = 1 := by rw [pc]; rfl
    show _ + 3 * s.wakeups + 1 ≤ _ + 3 * s.wakeups
    cases lane <;> simp only [Worker.left, afterPending] <;> omega
  | lose i lane task focus =>
    -- the wake-up of the branch that lost is passed on
    refine hsilent (by rw [focus]; rfl) (left_lane lane.other _ rfl rfl ?_)
    rw [hleft focus]
    have hw := (s.lanes lane.other).notify.wakeups_dropFuture_le i
    show (2 * 5 + 4) + 3 * ((s.lanes lane.other).notify.dropFuture i).wakeups + 1 ≤ 15 + _
    omega
  | call i task b todo focus =>
    have hsum := sum_update Worker.left s.workers i ⟨.body task todo, (s.workers i).pops⟩
    rw [hleft focus] at hsum
    simp only [Worker.left, List.length_cons] at hsum
    rw [calling, focus]
    show ∑ j, (Function.update s.workers i _ j).left + 3 * s.wakeups + 1 + 1 ≤ s.left
    rw [left]
    simp only [Worker.left] at hsum ⊢
    omega
  | finish i task focus =>
    refine hsilent (by rw [focus]; rfl) (left_moved rfl ?_)
    rw [hleft focus]
    exact Nat.le_of_eq (Nat.add_right_comm 3 (3 * s.wakeups) 1)
  | leaveHi i focus =>
    refine hsilent (by rw [focus]; rfl) (left_lane .hi _ rfl rfl ?_)
    rw [hleft focus]
    have hw := (s.lanes .hi).notify.wakeups_dropFuture_le i
    show 1 + 3 * ((s.lanes .hi).notify.dropFuture i).wakeups + 1 ≤ 2 + _
    omega
  | leaveLo i focus =>
    refine hsilent (by rw [focus]; rfl) (left_lane .lo _ rfl rfl ?_)
    rw [hleft focus]
    have hw := (s.lanes .lo).notify.wakeups_dropFuture_le i
    show 0 + 3 * ((s.lanes .lo).notify.dropFuture i).wakeups + 1 ≤ 1 + _
    omega

/-- A cancelled pool stays cancelled. -/
theorem cancel_kept {s s' : Pool α m} {e : PoolEvent α m} (hset : s.cancel = true)
    (h : s.step e = some s') : s'.cancel = true := by
  cases step_eq_some.mp h with
  | cancel => rfl
  | _ => exact hset

/-- A worker that has not exited can go on. -/
theorem able_work (s : Pool α m) {i : Fin m} (h : (s.workers i).focus ≠ .exited) :
    ∃ s', s.work i = some s' := by
  unfold work
  cases hf : (s.workers i).focus with
  | exited => exact absurd hf h
  | suspended =>
    simp only
    split <;> exact ⟨_, rfl⟩
  | polling lane =>
    simp only
    split <;> exact ⟨_, rfl⟩
  | won lane task => exact ⟨_, rfl⟩
  | body task todo => cases todo <;> exact ⟨_, rfl⟩
  | leaving lane => cases lane <;> exact ⟨_, rfl⟩

end Pool

/-- A cancelled system stays cancelled. -/
theorem System.cancel_kept {m : Nat} {fromStr : Text → Option Json} {s s' : System m}
    {e : SystemEvent m} (hset : s.pool.cancel = true) (h : s.step fromStr e = some s') :
    s'.pool.cancel = true := by
  obtain ⟨ps, hps, _⟩ := pool_step h
  exact run_invariant (I := fun p : Pool Entry m => p.cancel = true)
    (fun _ _ _ hc hs => Pool.cancel_kept hc hs) ps _ _ hset hps

/-! ## The shutdown

Now the other tasks: what waits in the channel is one step of the actor each, and a call that
sends is counted twice, once as itself and once as the message it may put there. -/

namespace Run

variable {m : Nat} {fromStr : Text → Option Json} {high : UInt64}

/-- The steps that the tasks have before them, at most. -/
def left (s : Run m) : Nat :=
  s.sys.pool.left + s.channel.length + s.main.left + (!s.stopped).toNat

/-- The step is one of the workers, of the main task or of the actor, which stops once. -/
def own (s : Run m) : RunEvent m → Bool
  | .work _ _ | .main | .count | .answer _ => true
  | .stop => !s.stopped
  | _ => false

/-- The `Snapshot` waits, or was answered. -/
def Owed (s : Run m) : Prop := .snapshot ∈ s.channel ∨ ∃ reply, s.reply = some reply

/-- The main task was given what the actor replied. -/
def Given (s : Run m) : Prop :=
  match s.main with
  | .answered entries | .finished entries _ => entries = s.reply
  | _ => True

/-- A `Snapshot` that was sent is answered before the actor ends, and the main task is given the
    answer.  `owed` says it while the message is on its way and after it was answered; that the
    actor never stops in between is what `closed` is for, as it stops on an empty channel only.
    Without the three the measure would still decrease, but the run could end with an `Err` from the
    reply channel and nothing to print. -/
structure Told (s : Run m) : Prop where
  closed : Closed s
  owed : s.main.asked = true → Owed s
  given : Given s

/-- The shutdown has begun: the token is cancelled and the main task is past the ingest loop.  Every
    step keeps this, and from here on every step of the program's own makes `left` smaller. -/
structure Closing (s : Run m) : Prop where
  cancel : s.sys.pool.cancel = true
  begun : s.main ≠ .ingesting ∧ s.main ≠ .failed
  told : Told s

/-- The shutdown is over, and there is a leaderboard to print. -/
def Over (s : Run m) : Prop :=
  (∃ reply metrics, s.main = .finished (some reply) metrics) ∧
    ∀ i, (s.sys.pool.workers i).focus = .exited

theorem length_trySend (s : Run m) (cmd : LbCmd) :
    (s.trySend cmd).length ≤ s.channel.length + 1 := by
  unfold trySend
  split
  · rw [List.length_append, List.length_singleton]
  · exact Nat.le_succ _

/-- A worker's step. -/
theorem left_work {s s' : Run m} {i : Fin m} {now : Nat} (hset : s.sys.pool.cancel = true)
    (h : s.work fromStr high i now = some s') : s'.left + 1 ≤ s.left := by
  obtain ⟨sys, hsys, rfl⟩ := Option.map_eq_some_iff.mp h
  obtain ⟨pool, hpool, rfl⟩ := Option.map_eq_some_iff.mp hsys
  have hless := Pool.left_work hset hpool
  cases hn : s.nextCall i with
  | none =>
    show pool.left + s.channel.length + s.main.left + (!s.stopped).toNat + 1 ≤ s.left
    unfold left
    omega
  | some c =>
    obtain ⟨d, hd, _⟩ := Option.map_eq_some_iff.mp hn
    rw [Pool.calling, hd] at hless
    have hch : (s.call high c).channel.length ≤ s.channel.length + 1 := by
      simp only [call]
      split
      · exact length_trySend s _
      · exact Nat.le_succ _
    change pool.left + 1 + 1 ≤ s.sys.pool.left at hless
    show pool.left + (s.call high c).channel.length + s.main.left + (!s.stopped).toNat + 1 ≤ s.left
    unfold left
    omega

/-- A step of the main task. -/
theorem left_main {s s' : Run m} (h : s.mainStep = some s') : s'.left + 1 ≤ s.left := by
  unfold mainStep at h
  split at h
  · rename_i hm
    obtain ⟨_, rfl⟩ := of_guard h
    simp only [left, hm, MainPhase.left, List.length_append, List.length_singleton]
    omega
  · rename_i hm
    obtain rfl := Option.some.inj h
    simp only [left, hm, MainPhase.left]
    omega
  · rename_i hm
    obtain ⟨_, rfl⟩ := of_guard h
    simp only [left, hm, MainPhase.left]
    omega
  · rename_i hm
    obtain rfl := Option.some.inj h
    simp only [left, hm, MainPhase.left]
    omega
  · rename_i hm
    obtain rfl := Option.some.inj h
    simp only [left, hm, MainPhase.left]
    omega
  · cases h

/-- **Step lemma**: every step of the tasks is one less, and no other step is one more. -/
theorem Closing.nearer {s s' : Run m} {e : RunEvent m} (h : Closing s)
    (hs : s.step fromStr high e = some s') : s'.left + (s.own e).toNat ≤ s.left := by
  -- ingest is over, so what only ingest can do is not done
  have houtside : ∀ {t : Option (Run m)}, (if s.main = .ingesting then t else none) = some s' →
      s'.left + 0 ≤ s.left := by
    intro t ht
    rw [if_neg h.begun.1] at ht
    cases ht
  cases e with
  | dispatch raw now nowNs => exact houtside hs
  | tick p99 =>
    obtain rfl := Option.some.inj hs
    exact Nat.le_refl _
  | cancel =>
    obtain rfl := Option.some.inj hs
    exact Nat.le_refl _
  | work i now => exact left_work h.cancel hs
  | ingestOk => exact houtside hs
  | ingestErr => exact houtside hs
  | main => exact left_main hs
  | count =>
    rw [step] at hs
    split at hs
    · cases hs
    · split at hs
      · rename_i wiki rest hch
        obtain rfl := Option.some.inj hs
        simp only [left, own, hch, List.length_cons, Bool.toNat_true]
        omega
      · cases hs
  | answer reply =>
    rw [step] at hs
    split at hs
    · cases hs
    · split at hs
      · rename_i rest hch
        obtain ⟨_, rfl⟩ := of_guard hs
        simp only [left, own, hch, List.length_cons, Bool.toNat_true]
        omega
      · cases hs
  | stop =>
    rw [step] at hs
    obtain ⟨_, rfl⟩ := of_guard hs
    simp only [left, own, Bool.not_true, Bool.toNat_false]
    omega

/-! ## Nobody waits for ever

A measure that decreases does not help if no step can be made.  Who waits for whom is a chain: the
main task for the actor, the actor for a message or for the last sender, a worker for nobody once
the token is cancelled.  So the chain ends at somebody who can move. -/

/-- A `Snapshot` stays until it is answered, and an answer stays.  A worker's update goes behind it
    or is refused, and the actor takes commands from the front. -/
theorem Owed.step {s s' : Run m} {e : RunEvent m} (h : Owed s)
    (hs : Stepped fromStr high s e s') : Owed s' := by
  cases hs with
  | call i now sys clocks c moved next =>
    refine h.imp_left fun hmem => ?_
    show LbCmd.snapshot ∈ (s.call high c).channel
    simp only [call]
    split
    · unfold trySend
      split
      · exact List.mem_append_left _ hmem
      · exact hmem
    · exact hmem
  | request phase room => exact Or.inl (List.mem_append_right _ (List.mem_singleton.mpr rfl))
  | count wiki rest running waiting =>
    refine h.imp_left fun hmem => ?_
    rw [waiting] at hmem
    exact (List.mem_cons.mp hmem).resolve_left (by simp)
  | answer reply rest running waiting sorted => exact Or.inr ⟨reply, rfl⟩
  | _ => exact h

/-- While the actor runs, nothing was given to the main task yet. -/
theorem Closed.given {s : Run m} (h : Closed s) (hrun : s.stopped = false) : Given s := by
  have hawaited := h.not_awaited hrun
  cases hm : s.main with
  | answered entries => rw [hm] at hawaited; cases hawaited
  | finished entries metrics => rw [hm] at hawaited; cases hawaited
  | _ => rw [Given, hm]; trivial

/-- **Step lemma** for `Told`. -/
theorem Told.step {s s' : Run m} {e : RunEvent m} (h : Told s) (hs : Stepped fromStr high s e s') :
    Told s' := by
  have hclosed := h.closed.step hs
  -- that a reply is owed or given is kept by every step
  have howed : Owed s → Owed s' := fun ho => ho.step hs
  -- what is left is the phase: before the request nothing is owed, and it makes the debt
  cases hs with
  | outside _ l sys inner moved quiet =>
    exact ⟨hclosed, fun ha => howed (h.owed ha), h.given⟩
  | move i now sys clocks moved next => exact ⟨hclosed, fun ha => howed (h.owed ha), h.given⟩
  | call i now sys clocks c moved next => exact ⟨hclosed, fun ha => howed (h.owed ha), h.given⟩
  | ingestOk sys moved phase => exact ⟨hclosed, fun ha => (by cases ha), trivial⟩
  | ingestErr phase => exact ⟨hclosed, fun ha => (by cases ha), trivial⟩
  | request phase room =>
    exact ⟨hclosed, fun _ => Or.inl (List.mem_append_right _ (List.mem_singleton.mpr rfl)), trivial⟩
  | release phase => exact ⟨hclosed, fun _ => howed (h.owed (by rw [phase]; rfl)), trivial⟩
  | join phase stopped => exact ⟨hclosed, fun _ => howed (h.owed (by rw [phase]; rfl)), trivial⟩
  | receive phase => exact ⟨hclosed, fun _ => howed (h.owed (by rw [phase]; rfl)), rfl⟩
  | print entries phase =>
    have hgiven := h.given
    rw [Given, phase] at hgiven
    exact ⟨hclosed, fun _ => howed (h.owed (by rw [phase]; rfl)), hgiven⟩
  | count wiki rest running waiting =>
    exact ⟨hclosed, fun ha => howed (h.owed ha), hclosed.given running⟩
  | answer reply rest running waiting sorted =>
    exact ⟨hclosed, fun ha => howed (h.owed ha), hclosed.given running⟩
  | stop empty exited dropped => exact ⟨hclosed, fun ha => howed (h.owed ha), h.given⟩

theorem told_run {C : Nat} {s : Run m} {ls : List (RunEvent m)}
    (h : run (Run.step fromStr high) (start m C) ls = some s) : Told s :=
  run_invariant (fun _ _ _ hI hs => hI.step (stepped_of_step hs)) ls _ s
    ⟨closed_start C, fun ha => (by cases ha), trivial⟩ h

/-- Once cancelled and past ingest, always so. -/
theorem Closing.kept {s s' : Run m} {e : RunEvent m} (h : Closing s)
    (hs : s.step fromStr high e = some s') : Closing s' := by
  have hstepped := stepped_of_step hs
  have htold := h.told.step hstepped
  cases hstepped with
  | outside _ l sys inner moved quiet => exact ⟨System.cancel_kept h.cancel moved, h.begun, htold⟩
  | move i now sys clocks moved next => exact ⟨System.cancel_kept h.cancel moved, h.begun, htold⟩
  | call i now sys clocks c moved next => exact ⟨System.cancel_kept h.cancel moved, h.begun, htold⟩
  | ingestOk sys moved phase => exact absurd phase h.begun.1
  | ingestErr phase => exact absurd phase h.begun.1
  | request phase room => exact ⟨h.cancel, by simp, htold⟩
  | release phase => exact ⟨h.cancel, by simp, htold⟩
  | join phase stopped => exact ⟨h.cancel, by simp, htold⟩
  | receive phase => exact ⟨h.cancel, by simp, htold⟩
  | print entries phase => exact ⟨h.cancel, by simp, htold⟩
  | _ => exact ⟨h.cancel, h.begun, htold⟩

/-- While a message waits, the actor can go on. -/
theorem able_actor (fromStr : Text → Option Json) (high : UInt64) {s : Run m}
    (hrun : s.stopped = false) (hch : s.channel ≠ []) :
    ∃ e s', s.own e = true ∧ s.step fromStr high e = some s' := by
  cases hc : s.channel with
  | nil => exact absurd hc hch
  | cons cmd rest =>
    cases cmd with
    | update wiki =>
      refine ⟨.count, ?_⟩
      simp only [own, step, hrun, Bool.false_eq_true, if_false, hc, true_and, Option.some.injEq,
        exists_eq']
    | snapshot =>
      obtain ⟨reply, hreply⟩ := s.leaderboard.answerable
      refine ⟨.answer reply, ?_⟩
      simp only [own, step, hrun, Bool.false_eq_true, if_false, hc, if_pos hreply, true_and,
        Option.some.injEq, exists_eq']

/-- A worker that has not exited can go on. -/
theorem able_worker (fromStr : Text → Option Json) (high : UInt64) {s : Run m} {i : Fin m}
    (hi : (s.sys.pool.workers i).focus ≠ .exited) :
    ∃ e s', s.own e = true ∧ s.step fromStr high e = some s' := by
  obtain ⟨pool, hpool⟩ := s.sys.pool.able_work hi
  refine ⟨.work i 0, ?_⟩
  simp only [own, step, work, System.step, Pool.step, hpool, Option.map_some, true_and,
    Option.some.injEq, exists_eq']

/-- **No deadlock**: until the shutdown is over, some task can go on. -/
theorem Closing.able (fromStr : Text → Option Json) (high : UInt64) {s : Run m} (h : Closing s) :
    Over s ∨ ∃ e s', s.own e = true ∧ s.step fromStr high e = some s' := by
  have hmain : ∀ {s' : Run m}, s.mainStep = some s' →
      ∃ e s', s.own e = true ∧ s.step fromStr high e = some s' := fun hs => ⟨.main, _, rfl, hs⟩
  cases hm : s.main with
  | ingesting => exact absurd hm h.begun.1
  | failed => exact absurd hm h.begun.2
  | signalled =>
    -- the main task waits for room
    by_cases hroom : s.channel.length < lbCapacity
    · exact Or.inr (hmain (by rw [mainStep, hm]; exact if_pos hroom))
    · have hrun := h.told.closed.running_of_held (by rw [hm]; rfl)
      refine Or.inr (able_actor fromStr high hrun fun hnil => hroom ?_)
      rw [hnil]
      decide
  | requested => exact Or.inr (hmain (by rw [mainStep, hm]))
  | released =>
    -- the main task waits for the actor, and the actor for the workers
    cases hst : s.stopped with
    | true => exact Or.inr (hmain (by rw [mainStep, hm]; exact if_pos hst))
    | false =>
      by_cases hch : s.channel = []
      · by_cases hexit : ∀ i, (s.sys.pool.workers i).focus = .exited
        · refine Or.inr ⟨.stop, { s with stopped := true }, by rw [own, hst]; rfl, ?_⟩
          rw [step, if_pos ⟨hch, hexit, by rw [hm]; rfl⟩]
        · obtain ⟨i, hi⟩ := not_forall.mp hexit
          exact Or.inr (able_worker fromStr high hi)
      · exact Or.inr (able_actor fromStr high hst hch)
  | joined => exact Or.inr (hmain (by rw [mainStep, hm]))
  | answered entries => exact Or.inr (hmain (by rw [mainStep, hm]))
  | finished entries metrics =>
    have hst := h.told.closed.awaited (by rw [hm]; rfl)
    obtain ⟨hnil, hexit, _⟩ := h.told.closed.stopped hst
    have hgiven := h.told.given
    rw [Given, hm] at hgiven
    rcases h.told.owed (by rw [hm]; rfl) with hmem | ⟨reply, hreply⟩
    · rw [hnil] at hmem
      exact absurd hmem List.not_mem_nil
    · exact Or.inl ⟨⟨reply, metrics, by rw [hm, hgiven, hreply]⟩, hexit⟩

theorem winds_down (fromStr : Text → Option Json) (high : UInt64) :
    WindsDown (Run.step fromStr high) (Closing (m := m)) own left Over where
  kept := fun _ _ _ h hs => h.kept hs
  nearer := fun _ _ _ h hs => h.nearer hs
  able := fun _ h => h.able fromStr high

end Run

/-! ## How many steps that are

For a bound that does not depend on the state, the wake-ups and the iterations are bounded by the
number of workers.  Both need an invariant, as the state type has room for more. -/

section Lane

variable {α : Type} {ι : Type} [DecidableEq ι]

/-- A waiter has one future at most, and its pop is parked.  So a channel has no more futures than
    the pool has workers, which is what bounds the wake-ups that can still come. -/
def Single (r : DropOldestRing α ι) (pcs : ι → PopPc) : Prop :=
  r.notify.futures.Nodup ∧ ∀ i ∈ r.notify.futures, pcs i = .parked

/-- One pop moves, whose future is gone. -/
theorem Single.move {r r' : DropOldestRing α ι} {pcs : ι → PopPc} (h : Single r pcs) {i : ι}
    {pc : PopPc} (hnd : r'.notify.futures.Nodup)
    (hsub : ∀ j ∈ r'.notify.futures, j ∈ r.notify.futures) (hi : i ∉ r'.notify.futures) :
    Single r' (Function.update pcs i pc) := by
  refine ⟨hnd, fun j hj => ?_⟩
  have hji : j ≠ i := by
    rintro rfl
    exact hi hj
  rw [Function.update_of_ne hji]
  exact h.2 j (hsub j hj)

/-- **Step lemma** for `Single`. -/
theorem Single.step {r r' : DropOldestRing α ι} {pcs pcs' : ι → PopPc} (h : Single r pcs)
    (hs : PopStepped r pcs r' pcs') : Single r' pcs' := by
  have hfree : ∀ {i : ι}, pcs i ≠ .parked → i ∉ r.notify.futures := fun hpc hi => hpc (h.2 _ hi)
  cases hs with
  | elsewhere => exact h
  | push task =>
    have hp := Notify.futures_notifyOne r.notify
    unfold Single
    rw [DropOldestRing.push_notify]
    exact ⟨hp.nodup_iff.mpr h.1, fun i hi => h.2 i (hp.mem_iff.mp hi)⟩
  | create i pc => exact h.move h.1 (fun _ hj => hj) (hfree (by rw [pc]; decide))
  | pop i task rest pc queue => exact h.move h.1 (fun _ hj => hj) (hfree (by rw [pc]; decide))
  | empty i pc queue => exact h.move h.1 (fun _ hj => hj) (hfree (by rw [pc]; decide))
  | permit i pc permit => exact h.move h.1 (fun _ hj => hj) (hfree (by rw [pc]; decide))
  | register i pc permit =>
    have hp := Notify.futures_register r.notify i
    refine ⟨hp.nodup_iff.mpr (List.nodup_cons.mpr ⟨hfree (by rw [pc]; decide), h.1⟩), ?_⟩
    intro j hj
    by_cases hji : j = i
    · rw [hji, Function.update_self]
    · rw [Function.update_of_ne hji]
      exact h.2 j ((List.mem_cons.mp (hp.mem_iff.mp hj)).resolve_left hji)
  | woken i pc notified =>
    have hp := Notify.futures_acknowledge notified
    have hnd := List.nodup_cons.mp (hp.nodup_iff.mp h.1)
    exact h.move hnd.2 (fun _ hj => hp.mem_iff.mpr (List.mem_cons_of_mem _ hj)) hnd.1
  | drop i =>
    have hp := r.notify.futures_dropFuture i
    refine h.move (hp.nodup_iff.mpr (h.1.erase i)) (fun j hj => ?_) fun hi => ?_
    · exact List.mem_of_mem_erase (hp.mem_iff.mp hj)
    · exact ((h.1.mem_erase_iff).mp (hp.mem_iff.mp hi)).1 rfl

/-- A lane has a permit and a woken waiter for each worker at most. -/
theorem Single.wakeups_le {m : Nat} {r : DropOldestRing α (Fin m)} {pcs : Fin m → PopPc}
    (h : Single r pcs) : r.notify.wakeups ≤ m + 1 := by
  have hnd : r.notify.notified.Nodup := (List.nodup_append.mp h.1).2.1
  have hlen := hnd.length_le_card
  rw [Fintype.card_fin] at hlen
  have := r.notify.permit.toNat_le
  rw [Notify.wakeups]
  omega

end Lane

namespace Pool

variable {α : Type} {m : Nat}

theorem single_of_reachable {C : Nat} {s : Pool α m} (h : Reachable step (start α m C) s)
    (k : Lane) : Single (s.lanes k) (s.pops k) := by
  refine h.invariant (I := fun s => Single (s.lanes k) (s.pops k)) ?_
    fun _ _ _ hI hs => hI.step ((step_eq_some.mp hs).lane k)
  exact And.intro List.nodup_nil fun _ hi => absurd hi List.not_mem_nil

/-- A worker in the body of its loop has at most its iteration before it.  The model lets `todo` be
    any list of calls; a run only ever builds suffixes of `iteration`, and the bound on `left` needs
    that. -/
def Short (s : Pool α m) : Prop :=
  ∀ i task todo, (s.workers i).focus = .body task todo → todo.length ≤ iteration.length

/-- A worker moves to where it has no more than its iteration before it. -/
theorem Short.move {s s' : Pool α m} (h : Short s) {i : Fin m} {w : Worker α}
    (hw : s'.workers = Function.update s.workers i w)
    (hshort : ∀ task todo, w.focus = .body task todo → todo.length ≤ iteration.length) :
    Short s' := by
  intro j task todo hj
  rw [hw] at hj
  by_cases hji : j = i
  · rw [hji, Function.update_self] at hj
    exact hshort task todo hj
  · rw [Function.update_of_ne hji] at hj
    exact h j task todo hj

/-- **Step lemma** for `Short`.  An iteration begins with the whole of it, and each call leaves one
    less. -/
theorem Short.step {s s' : Pool α m} {e : PoolEvent α m} (h : Short s) (hs : Stepped s e s') :
    Short s' := by
  cases hs with
  | push lane task => exact h
  | cancel => exact h
  | lose i lane task focus =>
    refine h.move (i := i) rfl ?_
    rintro task' todo ⟨⟩
    exact Nat.le_refl _
  | call i task b todo focus =>
    refine h.move (i := i) rfl ?_
    rintro task' todo' ⟨⟩
    exact Nat.le_of_succ_le (h i task _ focus)
  | register i lane focus pc permit =>
    refine h.move (i := i) rfl fun task todo hf => ?_
    cases lane <;> cases hf
  | still i lane focus pc notified =>
    refine h.move (i := i) rfl fun task todo hf => ?_
    cases lane <;> cases hf
  | _ => exact h.move rfl fun task todo hf => by cases hf

theorem short_of_reachable {C : Nat} {s : Pool α m} (h : Reachable step (start α m C) s) :
    Short s :=
  h.invariant (I := Short) (fun _ _ _ hw => by cases hw)
    fun _ _ _ hI hs => hI.step (step_eq_some.mp hs)

/-- A worker has its poll, an iteration and its way out before it at most. -/
theorem left_le {C : Nat} {s : Pool α m} (h : Reachable step (start α m C) s) :
    s.left ≤ 27 * m + 6 := by
  have hshort := short_of_reachable h
  have hworker : ∀ i, (s.workers i).left ≤ 21 := by
    intro i
    have hhi := popLeft_le ((s.workers i).pops .hi)
    have hlo := popLeft_le ((s.workers i).pops .lo)
    cases hf : (s.workers i).focus with
    | suspended => simp [Worker.left, hf]
    | polling lane => cases lane <;> simp only [Worker.left, hf] <;> omega
    | won lane task => simp [Worker.left, hf]
    | body task todo =>
      have : todo.length ≤ 5 := hshort i task todo hf
      simp only [Worker.left, hf]
      omega
    | leaving lane => cases lane <;> simp [Worker.left, hf]
    | exited => simp [Worker.left, hf]
  have hsum : ∑ i, (s.workers i).left ≤ m * 21 := sum_le hworker
  have hhi := (single_of_reachable h .hi).wakeups_le
  have hlo := (single_of_reachable h .lo).wakeups_le
  rw [left, wakeups]
  omega

end Pool

namespace Run

variable {m : Nat} {fromStr : Text → Option Json} {high : UInt64}

/-- A run of the system inside reaches a pool that a run of the pool reaches. -/
theorem pool_reachable {C : Nat} {s : Run m} {ls : List (RunEvent m)}
    (h : run (Run.step fromStr high) (start m C) ls = some s) :
    Reachable Pool.step (Pool.start Entry m C) s.sys.pool := by
  obtain ⟨ps, hps, _⟩ := System.pool_run _ (system_run ls h)
  exact ⟨ps, hps⟩

/-- The main task has cancelled before it waits. -/
theorem cancel_run {C : Nat} {s : Run m} {ls : List (RunEvent m)}
    (h : run (Run.step fromStr high) (start m C) ls = some s)
    (begun : s.main ≠ .ingesting ∧ s.main ≠ .failed) : s.sys.pool.cancel = true := by
  refine run_invariant (I := fun s : Run m =>
    s.main ≠ .ingesting ∧ s.main ≠ .failed → s.sys.pool.cancel = true) ?_ ls _ s ?_ h begun
  · intro s e s' hI hs hbegun
    cases stepped_of_step hs with
    | outside _ l sys inner moved quiet => exact System.cancel_kept (hI hbegun) moved
    | move i now sys clocks moved next => exact System.cancel_kept (hI hbegun) moved
    | call i now sys clocks c moved next => exact System.cancel_kept (hI hbegun) moved
    | ingestOk sys moved phase =>
      obtain rfl := Option.some.inj moved
      rfl
    | ingestErr phase => exact absurd rfl hbegun.2
    | request phase room => exact hI (by simp [phase])
    | release phase => exact hI (by simp [phase])
    | join phase stopped => exact hI (by simp [phase])
    | receive phase => exact hI (by simp [phase])
    | print entries phase => exact hI (by simp [phase])
    | _ => exact hI hbegun
  · exact fun hbegun => absurd rfl hbegun.1

/-- The channel is never beyond its capacity. -/
theorem channel_run {C : Nat} {s : Run m} {ls : List (RunEvent m)}
    (h : run (Run.step fromStr high) (start m C) ls = some s) :
    s.channel.length ≤ lbCapacity := by
  refine run_invariant (I := fun s : Run m => s.channel.length ≤ lbCapacity) ?_ ls _ s
    (Nat.zero_le _) h
  -- both senders test for room, and nobody else lengthens the channel
  intro s e s' hI hs
  cases stepped_of_step hs with
  | call i now sys clocks c moved next =>
    show (s.call high c).channel.length ≤ lbCapacity
    simp only [call]
    split
    · unfold trySend
      split
      · rename_i hroom
        rw [List.length_append]
        exact hroom.2
      · exact hI
    · exact hI
  | request phase room =>
    show (s.channel ++ [LbCmd.snapshot]).length ≤ lbCapacity
    rw [List.length_append]
    exact room
  | count wiki rest running waiting =>
    rw [waiting] at hI
    exact Nat.le_of_succ_le hI
  | answer reply rest running waiting sorted =>
    rw [waiting] at hI
    exact Nat.le_of_succ_le hI
  | _ => exact hI

/-- **The shutdown completes**: from a reachable state on in which ingest has returned, in every run
    the tasks make fewer than `27 * m + 1037` steps, and one of them can go on; or all have come to
    their end and there is a leaderboard to print.

    `Lib.WindDown` again.  The bound is what the pool, the channel, the main task and the actor can
    have before them: `27 * m + 6`, the 1024 messages that there is room for, and seven steps. -/
theorem async_shutdown_completes (fromStr : Text → Option Json) (high : UInt64) (m C : Nat)
    (ls : List (RunEvent m)) (s : Run m)
    (h : run (Run.step fromStr high) (start m C) ls = some s)
    (begun : s.main ≠ .ingesting ∧ s.main ≠ .failed) (ms : List (RunEvent m)) (s' : Run m)
    (hms : run (Run.step fromStr high) s ms = some s') :
    Over s' ∨ moves (Run.step fromStr high) own s ms < 27 * m + 1037 ∧
      ∃ e s'', s'.own e = true ∧ s'.step fromStr high e = some s'' := by
  have hleft : s.left < 27 * m + 1037 + 1 := by
    have hpool := Pool.left_le (pool_reachable h)
    have hch : s.channel.length ≤ 1024 := channel_run h
    have hmain : s.main.left ≤ 6 := by
      cases s.main with
      | _ => simp [MainPhase.left]
    have hst := (!s.stopped).toNat_le
    rw [left]
    omega
  have hclosing : Closing s := ⟨cancel_run h begun, begun, told_run h⟩
  exact ((winds_down fromStr high).ends hclosing hms).imp_right fun hmore =>
    ⟨Nat.lt_of_lt_of_le hmore.1 (Nat.le_of_lt_succ hleft), hmore.2⟩

/-- A worker asleep with both pops registered and one about to look, when ingest returns. -/
theorem async_shutdown_completes_parked :
    let ls : List (RunEvent 2) := List.replicate 7 (.work 0 0) ++ [.work 1 0, .work 1 0, .ingestOk]
    ∃ s, run (Run.step (fun _ => none) 1) (start 2 2) ls = some s ∧
      ∃ e s'', s.own e = true ∧ s.step (fun _ => none) 1 e = some s'' := by
  intro ls
  obtain ⟨s, hs, hm⟩ := Option.map_eq_some_iff.mp
    (show (run (Run.step (fun _ => none) 1) (start 2 2) ls).map Run.main = some .signalled from
      by decide +kernel)
  have hbegun : s.main ≠ .ingesting ∧ s.main ≠ .failed := by
    rw [hm]
    exact ⟨by simp, by simp⟩
  rcases async_shutdown_completes (fun _ => none) 1 2 2 ls s hs hbegun [] s rfl with hover | hable
  · obtain ⟨⟨reply, metrics, hfin⟩, _⟩ := hover
    rw [hm] at hfin
    cases hfin
  · exact ⟨s, hs, hable.2⟩

end Run

end RtsPipeline.Async
