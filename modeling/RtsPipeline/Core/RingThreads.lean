/-
  Blocking consumers of a `DropOldestRing`, next to async ones.

  `pop_blocking` holds the mutex from its look at the queue until it sleeps, and `wait` gives the
  mutex up in the same step; `push` calls `notify_one` of the condition variable under the mutex.
  So a push comes before the look or finds the consumer asleep.  A consumer that was woken stands at
  the mutex again, and until it has it another one, blocking or async, may take the item; then it
  looks in vain and goes back to sleep.

  1. `RingThreads` and `step` — the ring in use, and where its blocking consumers stand.
  2. `Stepped` — what a step can do, said once; the ring goes through a history of `RingHistory`.
  3. `Covered` — whoever sleeps, there is a consumer at the mutex for every item in the queue.
  4. `pop_blocking_misses_nothing` — so, unlike `pop_async`, `pop_blocking` misses no wake-up.
-/
import RtsPipeline.Core.RingHistory
import RtsPipeline.Lib.Slots

namespace RtsPipeline

open Lib

/-- Where a thread stands that calls `pop_blocking` now and then. -/
inductive ThreadPc
  | outside
  | locking     -- about to have the mutex, at the start or after `wait`
  | asleep      -- in `wait`
deriving DecidableEq, Repr

/-- The ring in use, with its `N` async and its `B` blocking consumers. -/
structure RingThreads (α : Type) (N B : Nat) where
  history : RingHistory α N
  threads : Fin B → ThreadPc

/-- One atomic step of an interleaving. -/
inductive ThreadEvent (α : Type) (N B : Nat)
  | push (item : α) (woken : Option (Fin B))   -- whom `notify_one` of the condition variable wakes
  | call (j : Fin B)
  | look (j : Fin B)
  | poll (i : Fin N)
  | cancel (i : Fin N)

namespace RingThreads

variable {α : Type} {N B : Nat}

/-- An empty ring, and nobody in `pop_blocking`. -/
def start (α : Type) (N B capacity : Nat) : RingThreads α N B :=
  { history := .start α N capacity, threads := fun _ => .outside }

/-- Whom `notify_one` may wake: a sleeper, if there is one. -/
def picks (s : RingThreads α N B) : Option (Fin B) → Bool
  | some j => decide (s.threads j = .asleep)
  | none => decide (∀ j, s.threads j ≠ .asleep)

/-- The thread stands there now. -/
def move (s : RingThreads α N B) (j : Fin B) (pc : ThreadPc) : RingThreads α N B :=
  { s with threads := Function.update s.threads j pc }

/-- A step of the ring's other users. -/
def beside (s : RingThreads α N B) (e : RingCall α N) : Option (RingThreads α N B) :=
  (s.history.step e).map fun history => { s with history := history }

/-- One step of an interleaving; `none` when it is not enabled. -/
def step (s : RingThreads α N B) : ThreadEvent α N B → Option (RingThreads α N B)
  -- `notify_one` wakes a sleeper if there is one, and which one is open
  | .push item woken =>
    if s.picks woken then (woken.elim s fun j => s.move j .locking).beside (.push item) else none
  | .call j => if s.threads j = .outside then some (s.move j .locking) else none
  -- the loop of `pop_blocking`: an item, or back to sleep
  | .look j =>
    if s.threads j = .locking then
      match s.history.ring.popFront with
      | some _ => (s.move j .outside).beside .popBlocking
      | none => some (s.move j .asleep)
    else none
  | .poll i => s.beside (.poll i)
  | .cancel i => s.beside (.cancel i)

/-! ## What a step can do

A blocking pop is three steps: the call, the look under the mutex, and the sleep, which a push ends.
What the async consumers of the same ring do is one case, as none of them adds an item. -/

/-- What one step can do, and when. -/
inductive Stepped (s : RingThreads α N B) : ThreadEvent α N B → RingThreads α N B → Prop
  | push (item : α) (awake : ∀ j, s.threads j ≠ .asleep) :
      Stepped s (.push item none) { s with history := s.history.push item }
  | pushWake (item : α) (j : Fin B) (at_ : s.threads j = .asleep) :
      Stepped s (.push item (some j)) { s.move j .locking with history := s.history.push item }
  | call (j : Fin B) (at_ : s.threads j = .outside) : Stepped s (.call j) (s.move j .locking)
  | pop (j : Fin B) (history : RingHistory α N) (at_ : s.threads j = .locking)
      (moved : s.history.step .popBlocking = some history)
      (taken : history.ring.len + 1 = s.history.ring.len) :
      Stepped s (.look j) { s.move j .outside with history := history }
  | sleep (j : Fin B) (at_ : s.threads j = .locking) (empty : s.history.ring.queue = []) :
      Stepped s (.look j) (s.move j .asleep)
  | async {e : ThreadEvent α N B} (call : RingCall α N) (history : RingHistory α N)
      (none_ : ∀ j, e ≠ .look j) (moved : s.history.step call = some history)
      (fewer : history.ring.len ≤ s.history.ring.len) :
      Stepped s e { s with history := history }

/-- An async consumer lengthens nothing. -/
theorem len_of_moved {s s' : RingHistory α N} {e : RingCall α N} (h : RingHistory.Moved s e s')
    (he : ∀ item, e ≠ .push item) : s'.ring.len ≤ s.ring.len := by
  cases h with
  | push item => exact absurd rfl (he item)
  | popped item rest queue queue' capacity overflow log =>
    rw [DropOldestRing.len, DropOldestRing.len, queue, queue', List.length_cons]
    exact Nat.le_succ _
  | silent queue capacity overflow log =>
    rw [DropOldestRing.len, DropOldestRing.len, queue]

theorem stepped_of_step {s s' : RingThreads α N B} {e : ThreadEvent α N B}
    (h : s.step e = some s') : Stepped s e s' := by
  cases e with
  | push item woken =>
    rw [step] at h
    split at h
    case isFalse => cases h
    case isTrue hpicks =>
      cases woken with
      | none =>
        obtain rfl := Option.some.inj h
        exact .push item (of_decide_eq_true hpicks)
      | some j =>
        obtain rfl := Option.some.inj h
        exact .pushWake item j (of_decide_eq_true hpicks)
  | call j =>
    obtain ⟨at_, rfl⟩ := of_guard h
    exact .call j at_
  -- the look finds the front item or goes to sleep, under one lock
  | look j =>
    rw [step] at h
    split at h
    case isFalse => cases h
    case isTrue at_ =>
      cases hpop : s.history.ring.popFront with
      | none =>
        rw [hpop] at h
        obtain rfl := Option.some.inj h
        refine .sleep j at_ ?_
        unfold DropOldestRing.popFront at hpop
        split at hpop
        · assumption
        · cases hpop
      | some r =>
        obtain ⟨item, ring⟩ := r
        obtain ⟨rest, hqueue, rfl⟩ := RingHistory.popFront_eq_some hpop
        rw [hpop] at h
        obtain ⟨history, hmoved, rfl⟩ := Option.map_eq_some_iff.mp h
        refine .pop j history at_ hmoved ?_
        simp only [move, RingHistory.step, hpop, Option.map_some, Option.some.injEq] at hmoved
        rw [← hmoved, DropOldestRing.len, DropOldestRing.len, hqueue, List.length_cons]
  | poll i =>
    rw [step, beside] at h
    obtain ⟨history, hmoved, rfl⟩ := Option.map_eq_some_iff.mp h
    exact .async (.poll i) history (fun _ he => by cases he) hmoved
      (len_of_moved (RingHistory.moved_of_step hmoved) fun _ he => by cases he)
  | cancel i =>
    rw [step, beside] at h
    obtain ⟨history, hmoved, rfl⟩ := Option.map_eq_some_iff.mp h
    exact .async (.cancel i) history (fun _ he => by cases he) hmoved
      (len_of_moved (RingHistory.moved_of_step hmoved) fun _ he => by cases he)

/-- **Refinement**: the ring goes through a history of its own. -/
theorem history_of_run {C : Nat} {ls : List (ThreadEvent α N B)} {s : RingThreads α N B}
    (h : run step (start α N B C) ls = some s) :
    Reachable RingHistory.step (.start α N C) s.history := by
  refine run_invariant (I := fun s : RingThreads α N B =>
    Reachable RingHistory.step (.start α N C) s.history) ?_ ls _ s (Reachable.refl _) h
  intro s e s' hreach hs
  cases stepped_of_step hs with
  | push item awake => exact hreach.tail (l := .push item) rfl
  | pushWake item j at_ => exact hreach.tail (l := .push item) rfl
  | pop j history at_ moved taken => exact hreach.tail moved
  | async call history none_ moved fewer => exact hreach.tail moved
  | call j at_ => exact hreach
  | sleep j at_ empty => exact hreach

/-! ## Nobody sleeps in front of an item

A condition variable remembers nothing: a `notify_one` that finds nobody asleep is lost.  That does
no harm as long as whoever goes to sleep has just seen an empty queue under the mutex, and whoever
pushes does so under the mutex as well.  The invariant counts: while a thread sleeps, there are as
many threads on their way to the mutex as there are items.  A push adds one to both sides.  A look
takes one from both, if it finds an item; if it finds none, the left side is zero. -/

/-- How many of the threads stand at the mutex. -/
def locking (threads : Fin B → ThreadPc) : Nat := tally (fun pc => decide (pc = .locking)) threads

theorem locking_move (s : RingThreads α N B) (j : Fin B) (pc : ThreadPc) :
    locking (s.move j pc).threads + (decide (s.threads j = .locking)).toNat =
      locking s.threads + (decide (pc = .locking)).toNat :=
  tally_update (fun pc => decide (pc = ThreadPc.locking)) s.threads j pc

/-- If somebody sleeps, there is a thread at the mutex for every item.  A push wakes one sleeper,
    who then stands at the mutex, and a thread that leaves the mutex with an item takes the item
    with it; one that goes to sleep has found the queue empty under the lock. -/
def Covered (s : RingThreads α N B) : Prop :=
  (∃ j, s.threads j = .asleep) → s.history.ring.len ≤ locking s.threads

/-- Who sleeps after a thread has moved elsewhere slept before. -/
theorem asleep_of_move {s : RingThreads α N B} {j : Fin B} {pc : ThreadPc} (hpc : pc ≠ .asleep)
    (h : ∃ i, (s.move j pc).threads i = .asleep) : ∃ i, s.threads i = .asleep := by
  obtain ⟨i, hi⟩ := h
  change Function.update s.threads j pc i = _ at hi
  by_cases hij : i = j
  · rw [hij, Function.update_self] at hi
    exact absurd hi hpc
  · rw [Function.update_of_ne hij] at hi
    exact ⟨i, hi⟩

/-- **Step lemma** for `Covered`. -/
theorem Covered.step {s s' : RingThreads α N B} {e : ThreadEvent α N B} (h : Covered s)
    (hs : Stepped s e s') : Covered s' := by
  intro hsleeper
  cases hs with
  | push item awake =>
    obtain ⟨j, hj⟩ := hsleeper
    exact absurd hj (awake j)
  | pushWake item j at_ =>
    -- one item more, and one thread more at the mutex
    have hcover := h ⟨j, at_⟩
    have hmove := locking_move s j .locking
    have hpush := s.history.ring.push_len_le_succ item
    simp only [at_, reduceCtorEq, decide_false, decide_true, Bool.toNat_false, Bool.toNat_true]
      at hmove
    show (s.history.ring.push item).1.len ≤ locking (s.move j .locking).threads
    omega
  | call j at_ =>
    have hcover := h (asleep_of_move (by decide) hsleeper)
    have hmove := locking_move s j .locking
    simp only [at_, reduceCtorEq, decide_false, decide_true, Bool.toNat_false, Bool.toNat_true]
      at hmove
    show s.history.ring.len ≤ _
    omega
  | pop j history at_ moved taken =>
    have hawake : ThreadPc.outside ≠ .asleep := by decide
    have hcover := h (asleep_of_move hawake hsleeper)
    have hmove := locking_move s j .outside
    simp only [at_, reduceCtorEq, decide_false, decide_true, Bool.toNat_false, Bool.toNat_true]
      at hmove
    show history.ring.len ≤ locking (s.move j .outside).threads
    omega
  | sleep j at_ empty =>
    -- whoever goes to sleep leaves nothing behind
    show s.history.ring.queue.length ≤ _
    rw [empty]
    exact Nat.zero_le _
  | async call history none_ moved fewer => exact Nat.le_trans fewer (h hsleeper)

/-- A look takes a thread away from the mutex. -/
theorem looks_end : ∀ (js : List (Fin B)) (s s' : RingThreads α N B),
    run step s (js.map .look) = some s' →
      js.length + locking s'.threads = locking s.threads := by
  intro js
  -- induction on the looks; each takes its thread away from the mutex, one way or the other
  induction js with
  | nil =>
    intro s s' h
    obtain rfl := Option.some.inj h
    exact Nat.zero_add _
  | cons j js ih =>
    intro s s' h
    obtain ⟨t, ht, hrest⟩ := run_cons_some.mp h
    have hone : locking t.threads + 1 = locking s.threads := by
      cases stepped_of_step ht with
      | pop j history at_ moved taken =>
        have hmove := locking_move s j .outside
        simp only [at_, reduceCtorEq, decide_false, decide_true, Bool.toNat_false, Bool.toNat_true]
          at hmove
        exact hmove
      | sleep j at_ empty =>
        have hmove := locking_move s j .asleep
        simp only [at_, reduceCtorEq, decide_false, decide_true, Bool.toNat_false, Bool.toNat_true]
          at hmove
        exact hmove
      | async call history none_ moved fewer => exact absurd rfl (none_ j)
    have := ih t s' hrest
    rw [List.length_cons]
    omega

/-- **`pop_blocking` misses no wake-up.**  In every run with any numbers of producers and of
    blocking and async consumers, which may also drop their pops:

    * while a thread sleeps, at least as many stand at the mutex as there are items in the queue;
    * these have looked after so many looks, and if somebody sleeps then, nothing is queued;
    * the ring goes through a history of `RingHistory`.

    `Covered` is the count, and `looks_end` empties it: each look takes an item, or a thread from
    the mutex to sleep. -/
theorem pop_blocking_misses_nothing (α : Type) (N B C : Nat) (ls : List (ThreadEvent α N B))
    (s : RingThreads α N B) (h : run step (start α N B C) ls = some s) :
    ((∃ j, s.threads j = .asleep) → s.history.ring.len ≤ locking s.threads) ∧
    (∀ (js : List (Fin B)) s', run step s (js.map .look) = some s' →
      js.length ≤ locking s.threads ∧
        (js.length = locking s.threads → (∃ j, s'.threads j = .asleep) →
          s'.history.ring.queue = [])) ∧
    Reachable RingHistory.step (.start α N C) s.history := by
  have hstart : Covered (start α N B C) := fun ⟨_, hj⟩ => by cases hj
  have hcovered : ∀ ls (s : RingThreads α N B), run step (start α N B C) ls = some s → Covered s :=
    fun ls s hs => run_invariant (fun _ _ _ hI ht => hI.step (stepped_of_step ht)) ls _ s hstart hs
  refine ⟨hcovered ls s h, fun js s' hjs => ?_, history_of_run h⟩
  have hlooks := looks_end js s s' hjs
  refine ⟨by omega, fun hall hsleeper => ?_⟩
  have hcover := hcovered (ls ++ js.map .look) s' (run_append_some.mpr ⟨s, h, hjs⟩) hsleeper
  exact List.length_eq_zero_iff.mp (by rw [DropOldestRing.len] at hcover; omega)

/-- A thread asleep is woken by the first of two items, and the second waits for a thread that comes
    later; an async consumer takes the first. -/
theorem pop_blocking_misses_nothing_two :
    let ls : List (ThreadEvent Nat 1 2) :=
      [.call 0, .look 0, .push 7 (some 0), .push 8 none, .poll 0, .poll 0, .call 1]
    ∃ s, run step (start Nat 1 2 4) ls = some s ∧ s.history.ring.queue = [8] ∧
      ∀ (js : List (Fin 2)) s', run step s (js.map .look) = some s' → js.length ≤ 2 := by
  intro ls
  obtain ⟨s, hs, hqueue, hlocking⟩ : ∃ s, run step (start Nat 1 2 4) ls = some s ∧
      s.history.ring.queue = [8] ∧ locking s.threads = 2 := ⟨_, rfl, rfl, by decide⟩
  refine ⟨s, hs, hqueue, fun js s' hjs => ?_⟩
  have hlooks := (pop_blocking_misses_nothing Nat 1 2 4 ls s hs).2.1 js s' hjs
  exact Nat.le_trans hlooks.1 (Nat.le_of_eq hlocking)

end RingThreads

end RtsPipeline
