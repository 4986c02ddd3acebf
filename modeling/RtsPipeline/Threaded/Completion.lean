/-
  The shutdown of the threaded pipeline comes to its end.

  When ingest has returned, the main thread waits for the workers, the leaderboard waits for every
  sender to be dropped, and the main thread waits for the leaderboard.  The workers still have the
  rest of their iterations before them, and the channel its updates.

  Three threads that wait for each other in a ring would be a deadlock; here the ring is broken at
  the workers, who wait for nobody once the flag is set.  So `Closing.able` looks for a thread to
  step in the order in which they wait: a worker that has not exited, then the leaderboard while it
  has messages or may stop, then the main thread.  Against an endless run there is the measure
  `left`.  A step of a worker's body counts two, as it may put a message into the channel, and a
  message counts one, the step of the leaderboard that takes it out.

  1. `left` — how many steps the threads have before them at most.
  2. `Closing` — the shutdown has begun.
  3. `threaded_shutdown_completes` — no thread waits for ever: after so many steps, the leaderboard
     is printed.
-/
import RtsPipeline.Lib.WindDown
import RtsPipeline.Threaded.Pipeline

namespace RtsPipeline.Threaded

open Lib

/-- What a worker has before it, once the flag is set.  A step of the body may send an update. -/
def Worker.left : Worker → Nat
  | .popping => 1
  | .body _ _ _ todo => 2 * todo.length + 2
  | .exited => 0

/-- What the main thread has before it, the `Snapshot` included. -/
def MainPhase.left : MainPhase → Nat
  | .joining => 5
  | .requested => 3
  | .released => 2
  | .joined => 1
  | _ => 0

namespace System

variable {n : Nat}

/-- The steps that the threads have before them, at most. -/
def left (s : System n) : Nat :=
  ∑ i, (s.workers i).left + s.channel.length + s.main.left + (!s.stopped).toNat

/-- The step is one of the workers, of the main thread or of the leaderboard, which stops once. -/
def own (s : System n) : SystemEvent n → Bool
  | .work _ _ | .main | .count _ | .answer _ => true
  | .stop => !s.stopped
  | _ => false

/-- The shutdown has begun.  `delivered` is needed at the end of it only: that the main thread is
    given a reply is no matter of steps but of messages. -/
structure Closing (s : System n) : Prop where
  cancel : s.cancel = true
  begun : s.main ≠ .ingesting ∧ s.main ≠ .failed
  delivered : Delivered s

/-- The shutdown is over, and there is a leaderboard to print. -/
def Over (s : System n) : Prop :=
  (∃ reply, s.main = .finished (some reply)) ∧ ∀ i, s.workers i = .exited

/-! ## Every step of the threads is one less

A worker that may still send an update weighs more than it has steps, since the update is a step of
the leaderboard later.  Steps of the others, as a tick or a poll that finds nothing, leave the
measure where it is. -/

theorem length_send (s : System n) (cmd : LbCmd) : (s.send cmd).length ≤ s.channel.length + 1 := by
  unfold send
  split
  · exact Nat.le_succ _
  · rw [List.length_append, List.length_singleton]

/-- One worker moves, and what it sends weighs less than its step. -/
theorem left_moved {s s' : System n} {i : Fin n} {w : Worker}
    (hw : s'.workers = Function.update s.workers i w)
    (hrest : s'.main = s.main ∧ s'.stopped = s.stopped)
    (hless : s'.channel.length + w.left + 1 ≤ s.channel.length + (s.workers i).left) :
    s'.left + 1 ≤ s.left := by
  have hsum := sum_update Worker.left s.workers i w
  rw [left, left, hw, hrest.1, hrest.2]
  omega

/-- A call sends one message at most, and moves nobody. -/
theorem call_sends (high : UInt64) (s : System n) (b : BodyStep) (task : Task)
    (actualStart total : Nat) :
    let s' := s.call high b task actualStart total
    s'.workers = s.workers ∧ s'.main = s.main ∧ s'.stopped = s.stopped ∧
      s'.channel.length ≤ s.channel.length + 1 := by
  cases b with
  | sendUpdate => exact ⟨rfl, rfl, rfl, length_send s _⟩
  | recordMiss =>
    simp only [call]
    split <;> exact ⟨rfl, rfl, rfl, Nat.le_succ _⟩
  | _ => exact ⟨rfl, rfl, rfl, Nat.le_succ _⟩

/-- A worker's step, once the flag is set. -/
theorem left_work {high : UInt64} {s s' : System n} {i : Fin n} {now : Nat}
    (hset : s.cancel = true) (h : s.work high i now = some s') : s'.left + 1 ≤ s.left := by
  cases hw : s.workers i with
  | exited =>
    simp only [work, hw] at h
    cases h
  | popping =>
    simp only [work, hw, PriorityQueue.popBlocking, hset, if_true] at h
    obtain rfl := Option.some.inj h
    refine left_moved rfl ⟨rfl, rfl⟩ ?_
    rw [hw]
    exact Nat.le_refl _
  | body task actualStart total todo =>
    cases todo with
    | nil =>
      simp only [work, hw] at h
      obtain rfl := Option.some.inj h
      refine left_moved rfl ⟨rfl, rfl⟩ ?_
      rw [hw]
      exact Nat.le_refl _
    | cons b todo =>
      simp only [work, hw] at h
      obtain rfl := Option.some.inj h
      -- a call may lengthen the channel by one, and is worth two
      obtain ⟨hworkers, hmain, hst, hch⟩ := call_sends high s b task actualStart total
      refine left_moved (congrArg (Function.update · i _) hworkers) ⟨hmain, hst⟩ ?_
      rw [hw]
      show (s.call high b task actualStart total).channel.length + (2 * todo.length + 2) + 1 ≤
        s.channel.length + (2 * (todo.length + 1) + 2)
      omega

/-- A step of the main thread. -/
theorem left_main {s s' : System n} (h : s.mainStep = some s') : s'.left + 1 ≤ s.left := by
  unfold mainStep at h
  split at h
  · rename_i hm
    obtain ⟨_, rfl⟩ := of_guard h
    have := length_send s .snapshot
    simp only [left, hm, MainPhase.left]
    omega
  · rename_i hm
    obtain rfl := Option.some.inj h
    simp only [left, hm, MainPhase.left]
    omega
  · rename_i hm
    obtain ⟨_, rfl⟩ := of_guard h
    simp only [left, hm, MainPhase.left]
    omega
  · rename_i hm
    obtain rfl := Option.some.inj h
    simp only [left, hm, MainPhase.left]
    omega
  · cases h

/-- **Step lemma**: every step of the threads is one less, and no other step is one more. -/
theorem Closing.nearer {fromStr : Text → Option Json} {high : UInt64} {s s' : System n}
    {e : SystemEvent n} (h : Closing s) (hs : s.step fromStr high e = some s') :
    s'.left + (s.own e).toNat ≤ s.left := by
  -- ingest is over, so what only ingest can do is not done
  have houtside : ∀ {t : Option (System n)}, (if s.main = .ingesting then t else none) = some s' →
      s'.left + 0 ≤ s.left := by
    intro t ht
    rw [if_neg h.begun.1] at ht
    cases ht
  cases e with
  | dispatch raw now nowNs => exact houtside hs
  | tick p99 =>
    obtain rfl := Option.some.inj hs
    exact Nat.le_refl _
  | cancel =>
    obtain rfl := Option.some.inj hs
    exact Nat.le_refl _
  | work i now => exact left_work h.cancel hs
  | ingestOk => exact houtside hs
  | ingestErr => exact houtside hs
  | main => exact left_main hs
  | count k =>
    rw [step] at hs
    split at hs
    · cases hs
    · split at hs
      · rename_i wiki hk
        obtain rfl := Option.some.inj hs
        have hlt := (List.getElem?_eq_some_iff.mp hk).1
        simp only [left, own, List.length_eraseIdx_of_lt hlt, Bool.toNat_true]
        omega
      · cases hs
  | answer reply =>
    rw [step] at hs
    split at hs
    · cases hs
    · split at hs
      · rename_i rest hch
        obtain ⟨_, rfl⟩ := of_guard hs
        simp only [left, own, hch, List.length_cons, Bool.toNat_true]
        omega
      · cases hs
  | stop =>
    rw [step] at hs
    obtain ⟨_, rfl⟩ := of_guard hs
    simp only [left, own, Bool.not_true, Bool.toNat_false]
    omega

/-! ## Nobody waits for ever

The main thread waits for the workers, and then for the leaderboard to end, by which time the reply
is there.  The workers wait for nobody once the flag is set, and the leaderboard waits for a message
or for the last sender to be dropped. -/

/-- The flag is never cleared. -/
theorem cancel_kept {fromStr : Text → Option Json} {high : UInt64} {s s' : System n}
    {e : SystemEvent n} (h : s.step fromStr high e = some s') (hc : s.cancel = true) :
    s'.cancel = true := by
  cases stepped_of_step h with
  | cancel => rfl
  | ingestOk phase => rfl
  | _ => exact hc

theorem Closing.kept {fromStr : Text → Option Json} {high : UInt64} {s s' : System n}
    {e : SystemEvent n} (h : Closing s) (hs : s.step fromStr high e = some s') : Closing s' := by
  have hd := h.delivered.step (stepped_of_step hs)
  cases stepped_of_step hs with
  | cancel => exact ⟨rfl, h.begun, hd⟩
  | ingestOk phase => exact absurd phase h.begun.1
  | ingestErr phase => exact absurd phase h.begun.1
  | request phase exited => exact ⟨h.cancel, by simp, hd⟩
  | release phase => exact ⟨h.cancel, by simp, hd⟩
  | join phase stopped => exact ⟨h.cancel, by simp, hd⟩
  | receive phase => exact ⟨h.cancel, by simp, hd⟩
  | _ => exact ⟨h.cancel, h.begun, hd⟩

/-- Once the workers have exited and no sender is left, the leaderboard can go on until it stops.
    An empty channel without senders ends it, and anything else is a command to serve. -/
theorem able_leaderboard (fromStr : Text → Option Json) (high : UInt64) {s : System n}
    (hrun : s.stopped = false) (hexit : ∀ i, s.workers i = .exited)
    (hdropped : s.main.dropped = true) :
    ∃ e s', s.own e = true ∧ s.step fromStr high e = some s' := by
  cases hch : s.channel with
  | nil =>
    refine ⟨.stop, { s with stopped := true }, by rw [own, hrun]; rfl, ?_⟩
    rw [step, if_pos ⟨hch, hexit, hdropped⟩]
  | cons cmd rest =>
    cases cmd with
    | update wiki =>
      refine ⟨.count 0, ?_⟩
      simp only [own, step, hrun, Bool.false_eq_true, if_false, hch, List.getElem?_cons_zero,
        true_and, Option.some.injEq, exists_eq']
    | snapshot =>
      obtain ⟨reply, hreply⟩ := s.leaderboard.answerable
      refine ⟨.answer reply, ?_⟩
      simp only [own, step, hrun, Bool.false_eq_true, if_false, hch, if_pos hreply, true_and,
        Option.some.injEq, exists_eq']

/-- A worker that has not exited can go on. -/
theorem able_worker (fromStr : Text → Option Json) (high : UInt64) {s : System n}
    (hset : s.cancel = true) {i : Fin n} (hi : s.workers i ≠ .exited) :
    ∃ e s', s.own e = true ∧ s.step fromStr high e = some s' := by
  refine ⟨.work i 0, ?_⟩
  cases hw : s.workers i with
  | exited => exact absurd hw hi
  | popping =>
    simp only [own, step, work, hw, PriorityQueue.popBlocking, hset, if_true, true_and,
      Option.some.injEq, exists_eq']
  | body task actualStart total todo =>
    cases todo with
    | nil => simp only [own, step, work, hw, true_and, Option.some.injEq, exists_eq']
    | cons b todo => simp only [own, step, work, hw, true_and, Option.some.injEq, exists_eq']

/-- **No deadlock**: until the shutdown is over, some thread can go on. -/
theorem Closing.able (fromStr : Text → Option Json) (high : UInt64) {s : System n}
    (h : Closing s) : Over s ∨ ∃ e s', s.own e = true ∧ s.step fromStr high e = some s' := by
  have hmain : ∀ {s' : System n}, s.mainStep = some s' →
      ∃ e s', s.own e = true ∧ s.step fromStr high e = some s' := fun hs => ⟨.main, _, rfl, hs⟩
  have hphase := h.delivered.phase
  cases hm : s.main with
  | ingesting => exact absurd hm h.begun.1
  | failed => exact absurd hm h.begun.2
  | joining =>
    -- the main thread waits for the workers
    by_cases hexit : ∀ i, s.workers i = .exited
    · exact Or.inr (hmain (by rw [mainStep, hm]; exact if_pos hexit))
    · obtain ⟨i, hi⟩ := not_forall.mp hexit
      exact Or.inr (able_worker fromStr high h.cancel hi)
  | requested => exact Or.inr (hmain (by rw [mainStep, hm]))
  | released =>
    -- the main thread waits for the leaderboard
    rw [hm] at hphase
    cases hst : s.stopped with
    | true => exact Or.inr (hmain (by rw [mainStep, hm]; exact if_pos hst))
    | false =>
      exact Or.inr (able_leaderboard fromStr high hst hphase.1 (by rw [hm]; rfl))
  | joined => exact Or.inr (hmain (by rw [mainStep, hm]))
  | finished entries =>
    obtain ⟨reply, rfl, _⟩ := h.delivered.exact hm
    rw [hm] at hphase
    exact Or.inl ⟨⟨reply, hm⟩, hphase.1.1⟩

theorem winds_down (fromStr : Text → Option Json) (high : UInt64) :
    WindsDown (step fromStr high) (Closing (n := n)) own left Over where
  kept := fun _ _ _ h hs => h.kept hs
  nearer := fun _ _ _ h hs => h.nearer hs
  able := fun _ h => h.able fromStr high

/-! ## How many steps that are

The bound of a worker needs that it has no more than its iteration before it. -/

/-- A step leaves no worker with more than its iteration before it. -/
theorem short_step {fromStr : Text → Option Json} {high : UInt64} {s s' : System n}
    {e : SystemEvent n} (hs : s.step fromStr high e = some s')
    (h : ∀ i task a t todo, s.workers i = .body task a t todo → todo.length ≤ iteration.length) :
    ∀ i task a t todo, s'.workers i = .body task a t todo → todo.length ≤ iteration.length := by
  -- of one worker that moves only its own list is to be shown short
  have hmove : ∀ {j : Fin n} {w : Worker},
      (∀ task a t todo, w = .body task a t todo → todo.length ≤ iteration.length) →
      ∀ i task a t todo, Function.update s.workers j w i = .body task a t todo →
        todo.length ≤ iteration.length := by
    intro j w hw i task a t todo hi
    by_cases hij : i = j
    · subst hij
      rw [Function.update_self] at hi
      exact hw task a t todo hi
    · rw [Function.update_of_ne hij] at hi
      exact h i task a t todo hi
  cases System.stepped_of_step hs with
  | exit j now at_ => exact hmove fun _ _ _ _ hw => by cases hw
  | pop j now t q at_ pop =>
    refine hmove ?_
    rintro task a t' todo ⟨⟩
    exact Nat.le_refl _
  | call j now task a t t' b todo metrics silent at_ =>
    refine hmove ?_
    rintro task' a' t'' todo' ⟨⟩
    exact Nat.le_of_succ_le (h j task a t _ at_)
  | send j now task a t t' todo at_ =>
    refine hmove ?_
    rintro task' a' t'' todo' ⟨⟩
    exact Nat.le_of_succ_le (h j task a t _ at_)
  | again j now task a t at_ => exact hmove fun _ _ _ _ hw => by cases hw
  | _ => exact h

theorem short_run {fromStr : Text → Option Json} {high : UInt64} {C : Nat} {s : System n}
    {ls : List (SystemEvent n)} (h : run (step fromStr high) (start n C) ls = some s) :
    ∀ i task a t todo, s.workers i = .body task a t todo → todo.length ≤ iteration.length :=
  run_invariant (I := fun s : System n => ∀ i task a t todo, s.workers i = .body task a t todo →
    todo.length ≤ iteration.length) (fun _ _ _ hI hs => short_step hs hI) ls _ s
    (fun _ _ _ _ _ hw => by cases hw) h

/-- A worker has an iteration, its update and its exit before it at most. -/
theorem left_le {s : System n} (hshort : ∀ i task a t todo, s.workers i = .body task a t todo →
    todo.length ≤ iteration.length) : s.left ≤ 12 * n + s.channel.length + 6 := by
  have hworker : ∀ i, (s.workers i).left ≤ 12 := by
    intro i
    cases hw : s.workers i with
    | exited => exact Nat.zero_le _
    | popping => simp [Worker.left]
    | body task a t todo =>
      have : todo.length ≤ 5 := hshort i task a t todo hw
      simp only [Worker.left]
      omega
  have hsum : ∑ i, (s.workers i).left ≤ n * 12 := sum_le hworker
  have hmain : s.main.left ≤ 5 := by
    cases s.main with
    | _ => simp [MainPhase.left]
  have hst := (!s.stopped).toNat_le
  unfold left
  omega

/-- The main thread has set the flag before it waits. -/
theorem cancel_run {fromStr : Text → Option Json} {high : UInt64} {C : Nat} {s : System n}
    {ls : List (SystemEvent n)} (h : run (step fromStr high) (start n C) ls = some s)
    (begun : s.main ≠ .ingesting ∧ s.main ≠ .failed) : s.cancel = true := by
  refine run_invariant (I := fun s : System n =>
    s.main ≠ .ingesting ∧ s.main ≠ .failed → s.cancel = true) ?_ ls _ s ?_ h begun
  · intro s e s' hI hs hbegun
    cases stepped_of_step hs with
    | cancel => rfl
    | ingestOk phase => rfl
    | ingestErr phase => exact absurd rfl hbegun.2
    | request phase exited => exact hI (by simp [phase])
    | release phase => exact hI (by simp [phase])
    | join phase stopped => exact hI (by simp [phase])
    | receive phase => exact hI (by simp [phase])
    | _ => exact hI hbegun
  · exact fun hbegun => absurd rfl hbegun.1

theorem delivered_run {fromStr : Text → Option Json} {high : UInt64} {C : Nat} {s : System n}
    {ls : List (SystemEvent n)} (h : run (step fromStr high) (start n C) ls = some s) :
    Delivered s :=
  run_invariant (fun _ _ _ hI hs => hI.step (stepped_of_step hs)) ls _ s (delivered_start C) h

/-- **The shutdown completes**: from a reachable state on in which ingest has returned, in every run
    the threads make fewer than `12 * n + 6` steps and one for each waiting message, and one of them
    can go on; or all have come to their end and there is a leaderboard to print.

    `Lib.WindDown` from its two parts: `Closing.nearer`, every step of the threads makes the measure
    smaller, and `Closing.able`, somebody can make one. -/
theorem threaded_shutdown_completes (fromStr : Text → Option Json) (high : UInt64) (n C : Nat)
    (ls : List (SystemEvent n)) (s : System n)
    (h : run (step fromStr high) (start n C) ls = some s)
    (begun : s.main ≠ .ingesting ∧ s.main ≠ .failed) (ms : List (SystemEvent n)) (s' : System n)
    (hms : run (step fromStr high) s ms = some s') :
    Over s' ∨ moves (step fromStr high) own s ms < 12 * n + s.channel.length + 6 ∧
      ∃ e s'', s'.own e = true ∧ s'.step fromStr high e = some s'' := by
  have hclosing : Closing s := ⟨cancel_run h begun, begun, delivered_run h⟩
  have hleft := left_le (short_run h)
  exact ((winds_down fromStr high).ends hclosing hms).imp_right fun hmore =>
    ⟨Nat.lt_of_lt_of_le hmore.1 hleft, hmore.2⟩

/-- A worker between two iterations and one that has just dequeued a task, when ingest returns. -/
theorem threaded_shutdown_completes_two :
    let raw := "\x7b\"user\":\"u\",\"server_name\":\"w\"\x7d".toList
    let fromStr := fun _ => some (Json.obj [("user", .str "u"), ("server_name", .str "w")])
    let ls : List (SystemEvent 2) := [.dispatch raw 1 1, .work 0 3, .ingestOk]
    ∃ s, run (step fromStr 1) (start 2 2) ls = some s ∧
      ∃ e s'', s.own e = true ∧ s.step fromStr 1 e = some s'' := by
  intro raw fromStr ls
  obtain ⟨s, hs, hm⟩ := Option.map_eq_some_iff.mp
    (show (run (step fromStr 1) (start 2 2) ls).map System.main = some .joining from
      by decide +kernel)
  have hbegun : s.main ≠ .ingesting ∧ s.main ≠ .failed := by rw [hm]; decide
  rcases threaded_shutdown_completes fromStr 1 2 2 ls s hs hbegun [] s rfl with hover | hable
  · obtain ⟨⟨reply, hfin⟩, _⟩ := hover
    rw [hm] at hfin
    cases hfin
  · exact ⟨s, hs, hable.2⟩

end System

end RtsPipeline.Threaded
