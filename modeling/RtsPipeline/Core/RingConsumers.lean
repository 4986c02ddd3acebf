/-
  Consumers asleep on a `DropOldestRing`: which wake-ups `pop_async` can miss.

  `N` consumers each execute one `pop_async` on one ring while `P` items are pushed, in any
  interleaving of the steps of `popAsync` and the pushes.  A consumer that found the queue empty and
  has not polled its future yet is not registered, so a push in that window stores a permit, and a
  second push finds the permit stored and leaves no trace: of two consumers in the window one
  consumes the permit and the other one registers and sleeps, with an item in the queue.

  Wake-ups are counted against items.  An item is safe while a wake-up is on its way or a consumer
  is about to look, for each of these finds an item or finds that somebody else was faster.  The
  count `len ≤ wakeups + lookers` starts at zero on both sides and every step keeps it but one, a
  push that makes the queue longer and adds no wake-up; that is a push that finds a permit, and
  finds the queue neither empty (then the permit alone covers the item) nor full (then the queue
  does not get longer).  In a state without further steps there are no wake-ups and no lookers left,
  so nothing is queued.

  The three cases in which nobody is ever stranded each rule the harmful push out, or make it
  harmless: room for one item leaves no queue between empty and full, one push is not a second one,
  and one consumer that is covered at all is covered for all items, as it takes one and is done.

  1. `RingSystem` — the ring, the consumers and the pushes left, with `step` for an interleaving.
  2. `Registered` — who is registered or woken is exactly who is parked, and only once.
  3. `Accounted` — every queued item is covered by a wake-up or by a consumer about to look.  Every
     step keeps this except a push that lengthens the queue while a permit is stored.
  4. `stranding_run` — with two consumers, two pushes and room for two items, that push happens.
  5. `no_sleeper_iff` — so the ring misses no wake-up exactly for one consumer, one push or
     capacity one.
-/
import Mathlib.Algebra.BigOperators.Group.Finset.Basic
import Mathlib.Data.Fintype.BigOperators
import RtsPipeline.Core.Ring
import RtsPipeline.Lib.Run
import RtsPipeline.Lib.Slots

namespace RtsPipeline

open Lib

/-- A consumer executing one `pop_async`. -/
inductive Consumer (α : Type)
  | popping (pc : PopPc)
  | done (item : α)
deriving DecidableEq, Repr

/-- `1` for a consumer about to look at the queue. -/
def Consumer.looking {α : Type} : Consumer α → Nat
  | .popping .create => 1
  | .popping .check => 1
  | _ => 0

namespace Consumer

variable {α : Type}

@[simp] theorem looking_create : (popping .create : Consumer α).looking = 1 := rfl
@[simp] theorem looking_check : (popping .check : Consumer α).looking = 1 := rfl
@[simp] theorem looking_arm : (popping .arm : Consumer α).looking = 0 := rfl
@[simp] theorem looking_parked : (popping .parked : Consumer α).looking = 0 := rfl
@[simp] theorem looking_done (item : α) : (done item).looking = 0 := rfl

end Consumer

/-- The ring with `N` consumers and the number of pushes still to come. -/
structure RingSystem (α : Type) (N : Nat) where
  ring : DropOldestRing α (Fin N)
  consumers : Fin N → Consumer α
  pushes : Nat

/-- One atomic step: a producer pushes, or a consumer makes its next step. -/
inductive RingEvent (α : Type) (N : Nat)
  | push (item : α)
  | poll (i : Fin N)

namespace RingSystem

variable {α : Type} {N : Nat}

/-- An empty ring, every consumer about to call `pop_async`, `P` pushes to come. -/
def start (α : Type) (N capacity P : Nat) : RingSystem α N :=
  { ring := DropOldestRing.new capacity, consumers := fun _ => .popping .create, pushes := P }

/-- One step of an interleaving; `none` when it is not enabled.  A parked consumer is polled only
    after it was woken. -/
def step (s : RingSystem α N) : RingEvent α N → Option (RingSystem α N)
  | .push item =>
    if s.pushes = 0 then none
    else some { s with ring := (s.ring.push item).1, pushes := s.pushes - 1 }
  | .poll i =>
    match s.consumers i with
    | .done _ => none
    | .popping pc =>
      match s.ring.popAsync i pc with
      | (.goto pc', r) =>
        some { s with ring := r, consumers := Function.update s.consumers i (.popping pc') }
      | (.ready item, r) =>
        some { s with ring := r, consumers := Function.update s.consumers i (.done item) }
      | (.pending, r) =>
        -- tokio polls a parked future only after its waker was called
        if pc = .parked then none
        else
          some { s with ring := r, consumers := Function.update s.consumers i (.popping .parked) }

/-- No step is enabled. -/
def Terminal (s : RingSystem α N) : Prop := ∀ e, s.step e = none

/-- A consumer is parked while an item is queued. -/
def Stranded (s : RingSystem α N) : Prop :=
  (∃ i, s.consumers i = .popping .parked) ∧ s.ring.queue ≠ []

/-- `pop_async` misses no wake-up: no reachable state without an enabled step has a parked consumer
    and a queued item. -/
def NoSleeper (α : Type) (N capacity P : Nat) : Prop :=
  ∀ s : RingSystem α N, Reachable step (start α N capacity P) s → Terminal s → ¬ Stranded s

/-! ## The steps of a consumer

A consumer is one future of `pop_async`, and its places are the places where it can be suspended
or interrupted by the others. -/

/-- What one step can do, and when. -/
inductive Stepped (s : RingSystem α N) : RingEvent α N → RingSystem α N → Prop
  | push (item : α) (left : s.pushes ≠ 0) :
      Stepped s (.push item) { s with ring := (s.ring.push item).1, pushes := s.pushes - 1 }
  | create (i : Fin N) (pc : s.consumers i = .popping .create) :
      Stepped s (.poll i) { s with consumers := Function.update s.consumers i (.popping .check) }
  | pop (i : Fin N) (item : α) (rest : List α) (pc : s.consumers i = .popping .check)
      (queue : s.ring.queue = item :: rest) :
      Stepped s (.poll i) { s with
        ring := { s.ring with queue := rest }
        consumers := Function.update s.consumers i (.done item) }
  | empty (i : Fin N) (pc : s.consumers i = .popping .check) (queue : s.ring.queue = []) :
      Stepped s (.poll i) { s with consumers := Function.update s.consumers i (.popping .arm) }
  | permit (i : Fin N) (pc : s.consumers i = .popping .arm)
      (permit : s.ring.notify.permit = true) :
      Stepped s (.poll i) { s with
        ring := { s.ring with notify := s.ring.notify.consume }
        consumers := Function.update s.consumers i (.popping .create) }
  | park (i : Fin N) (pc : s.consumers i = .popping .arm)
      (permit : s.ring.notify.permit = false) :
      Stepped s (.poll i) { s with
        ring := { s.ring with notify := s.ring.notify.register i }
        consumers := Function.update s.consumers i (.popping .parked) }
  | woken (i : Fin N) (pc : s.consumers i = .popping .parked)
      (notified : i ∈ s.ring.notify.notified) :
      Stepped s (.poll i) { s with
        ring := { s.ring with notify := s.ring.notify.acknowledge i }
        consumers := Function.update s.consumers i (.popping .create) }

/-- `Stepped` is exactly `step`. -/
theorem step_eq_some {s s' : RingSystem α N} {e : RingEvent α N} :
    s.step e = some s' ↔ Stepped s e s' := by
  constructor
  · intro h
    cases e with
    | push item =>
      rw [step] at h
      split at h
      case isTrue => exact nomatch h
      case isFalse hp => obtain rfl := Option.some.inj h; exact .push item hp
    | poll i =>
      simp only [step] at h
      cases hc : s.consumers i with
      | done item => rw [hc] at h; exact nomatch h
      | popping pc =>
        rw [hc] at h
        cases pc with
        | create => obtain rfl := Option.some.inj h; exact .create i hc
        | check =>
          cases hq : s.ring.queue with
          | nil =>
            simp only [DropOldestRing.popAsync, DropOldestRing.popFront, hq] at h
            obtain rfl := Option.some.inj h
            exact .empty i hc hq
          | cons item rest =>
            simp only [DropOldestRing.popAsync, DropOldestRing.popFront, hq] at h
            obtain rfl := Option.some.inj h
            exact .pop i item rest hc hq
        | arm =>
          cases hp : s.ring.notify.permit with
          | false =>
            simp only [DropOldestRing.popAsync, hp, Bool.false_eq_true, if_false,
              reduceCtorEq] at h
            obtain rfl := Option.some.inj h
            exact .park i hc hp
          | true =>
            simp only [DropOldestRing.popAsync, hp, if_true] at h
            obtain rfl := Option.some.inj h
            exact .permit i hc hp
        | parked =>
          by_cases hn : i ∈ s.ring.notify.notified
          · simp only [DropOldestRing.popAsync, hn, if_true] at h
            obtain rfl := Option.some.inj h
            exact .woken i hc hn
          · simp only [DropOldestRing.popAsync, hn, if_false, if_true] at h
            exact nomatch h
  · intro h
    cases h with
    | push item left => rw [step, if_neg left]
    | create i pc => simp only [step, pc, DropOldestRing.popAsync]
    | pop i item rest pc queue =>
      simp only [step, pc, DropOldestRing.popAsync, DropOldestRing.popFront, queue]
    | empty i pc queue =>
      simp only [step, pc, DropOldestRing.popAsync, DropOldestRing.popFront, queue]
    | permit i pc permit => simp only [step, pc, DropOldestRing.popAsync, permit, if_true]
    | park i pc permit =>
      simp only [step, pc, DropOldestRing.popAsync, permit, Bool.false_eq_true, if_false,
        reduceCtorEq]
    | woken i pc notified => simp only [step, pc, DropOldestRing.popAsync, notified, if_true]

/-! ## Who is registered

Tokio keeps a list of waiters, and a waiter that was notified leaves it at once although it has not
run yet.  So a parked consumer is in one of two lists, and it is in no more than one of them. -/

/-- The parked consumers are exactly the registered and the woken ones, each once.  So a consumer
    that sleeps is known to the ring, and the ring wakes nobody who does not sleep. -/
structure Registered (s : RingSystem α N) : Prop where
  nodup : s.ring.notify.futures.Nodup
  iff : ∀ i, s.consumers i = .popping .parked ↔ i ∈ s.ring.notify.futures

theorem registered_start (C P : Nat) : Registered (start α N C P) where
  nodup := List.nodup_nil
  iff i := by simp [start, DropOldestRing.new, Notify.new, Notify.futures]

/-- A consumer that is not parked moves to where it is not parked, and nobody else's future is
    touched. -/
theorem Registered.move {s : RingSystem α N} (h : Registered s) {i : Fin N}
    {r : DropOldestRing α (Fin N)} {c : Consumer α} (hi : s.consumers i ≠ .popping .parked)
    (hc : c ≠ .popping .parked) (hr : r.notify.futures = s.ring.notify.futures) :
    Registered { s with ring := r, consumers := Function.update s.consumers i c } where
  nodup := by rw [hr]; exact h.nodup
  iff j := by
    rw [hr, ← h.iff j]
    by_cases hj : j = i
    · subst hj; simp [hi, hc]
    · simp [Function.update_of_ne hj]

/-- **Step lemma** for `Registered`. -/
theorem Registered.step {s s' : RingSystem α N} {e : RingEvent α N} (h : Registered s)
    (hs : Stepped s e s') : Registered s' := by
  cases hs with
  -- a push moves a future from one list to the other at most
  | push item left =>
    have hp : (s.ring.push item).1.notify.futures.Perm s.ring.notify.futures := by
      rw [DropOldestRing.push_notify]; exact Notify.futures_notifyOne _
    exact ⟨hp.nodup_iff.mpr h.nodup, fun i => (h.iff i).trans hp.mem_iff.symm⟩
  | create i pc => exact h.move (by rw [pc]; simp) (by simp) rfl
  | pop i item rest pc queue => exact h.move (by rw [pc]; simp) (by simp) rfl
  | empty i pc queue => exact h.move (by rw [pc]; simp) (by simp) rfl
  | permit i pc permit => exact h.move (by rw [pc]; simp) (by simp) rfl
  -- who is at `arm` has no future yet
  | park i pc permit =>
    have hp := Notify.futures_register s.ring.notify i
    have hi : i ∉ s.ring.notify.futures := fun hm => by
      have := (h.iff i).mpr hm
      rw [pc] at this
      exact nomatch this
    refine ⟨hp.nodup_iff.mpr (List.nodup_cons.mpr ⟨hi, h.nodup⟩), fun j => ?_⟩
    rw [hp.mem_iff, List.mem_cons, ← h.iff j]
    by_cases hj : j = i
    · subst hj; simp
    · simp [hj]
  | woken i pc notified =>
    have hp := Notify.futures_acknowledge notified
    have hn := List.nodup_cons.mp (hp.nodup_iff.mp h.nodup)
    refine ⟨hn.2, fun j => ?_⟩
    by_cases hj : j = i
    · subst hj; simp [hn.1]
    · have := h.iff j
      rw [hp.mem_iff, List.mem_cons] at this
      simpa [Function.update_of_ne hj, hj] using this

/-! ## Which items are covered

A count, not a set: it does not matter which item somebody is on the way to, as whoever looks
takes the oldest. -/

/-- How many consumers are about to look. -/
def lookers (s : RingSystem α N) : Nat := ∑ i, (s.consumers i).looking

/-- Every queued item is covered: by a stored permit, by a wake-up on its way, or by a consumer
    about to look.  A pop that takes an item uses up one of these and one of the items; a pop that
    finds nothing uses one up at an empty queue, where none is needed.  Only a push can add an item
    without anything that covers it, and it does so when the permit is there already. -/
def Accounted (s : RingSystem α N) : Prop := s.ring.len ≤ s.ring.notify.wakeups + s.lookers

/-- The harmless pushes: unless no permit is stored, the queue is empty or full. -/
def HarmlessPush (s : RingSystem α N) (e : RingEvent α N) : Prop :=
  ∀ item, e = .push item → s.ring.notify.permit = true →
    s.ring.len = 0 ∨ s.ring.len = s.ring.capacity

theorem accounted_start (C P : Nat) : Accounted (start α N C P) := Nat.zero_le _

/-- **Step lemma** for `Accounted`: only a harmful push can break it. -/
theorem Accounted.step {s s' : RingSystem α N} {e : RingEvent α N} (h : Accounted s)
    (hC : 0 < s.ring.capacity) (hharm : HarmlessPush s e) (hs : Stepped s e s') :
    Accounted s' := by
  unfold Accounted lookers at h
  cases hs with
  -- one item more, and one wake-up more, unless the one permit is stored already
  | push item left =>
    show (s.ring.push item).1.len ≤
      (s.ring.push item).1.notify.wakeups + ∑ i, (s.consumers i).looking
    rw [DropOldestRing.push_notify]
    have hlen := s.ring.push_len_le_succ item
    cases hp : s.ring.notify.permit with
    | false => rw [Notify.wakeups_notifyOne hp]; omega
    | true =>
      have hle := s.ring.notify.wakeups_le_notifyOne
      -- then the push is harmless: the permit covers the only item, or an item was dropped
      rcases hharm item rfl hp with h0 | hfull
      · have : 1 ≤ s.ring.notify.wakeups := by simp [Notify.wakeups, hp]
        omega
      · have := s.ring.push_len_le item hC (Nat.le_of_eq hfull)
        rw [DropOldestRing.push_capacity] at this
        omega
  -- from here on the queue is as it was: what one party loses another gains
  | create i pc =>
    have := sum_update Consumer.looking s.consumers i (.popping .check)
    simp only [pc, Consumer.looking_create, Consumer.looking_check] at this
    simp only [Accounted, lookers]
    omega
  | pop i item rest pc queue =>
    have := sum_update Consumer.looking s.consumers i (.done item)
    simp only [pc, Consumer.looking_check, Consumer.looking_done] at this
    simp only [DropOldestRing.len, queue, List.length_cons] at h
    simp only [Accounted, lookers, DropOldestRing.len]
    omega
  | empty i pc queue =>
    simp only [Accounted, DropOldestRing.len, queue, List.length_nil]
    exact Nat.zero_le _
  | permit i pc permit =>
    have := sum_update Consumer.looking s.consumers i (.popping .create)
    simp only [pc, Consumer.looking_arm, Consumer.looking_create] at this
    have hw := Notify.wakeups_consume permit
    simp only [DropOldestRing.len] at h
    simp only [Accounted, lookers, DropOldestRing.len]
    omega
  | park i pc permit =>
    have := sum_update Consumer.looking s.consumers i (.popping .parked)
    simp only [pc, Consumer.looking_arm, Consumer.looking_parked] at this
    have hw := Notify.wakeups_register i permit
    simp only [DropOldestRing.len] at h
    simp only [Accounted, lookers, DropOldestRing.len]
    omega
  | woken i pc notified =>
    have := sum_update Consumer.looking s.consumers i (.popping .create)
    simp only [pc, Consumer.looking_parked, Consumer.looking_create] at this
    have hw := Notify.wakeups_acknowledge notified
    simp only [DropOldestRing.len] at h
    simp only [Accounted, lookers, DropOldestRing.len]
    omega

theorem capacity_step {s s' : RingSystem α N} {e : RingEvent α N} (hs : Stepped s e s') :
    s'.ring.capacity = s.ring.capacity := by
  cases hs with
  | push item left => exact DropOldestRing.push_capacity _ _
  | _ => rfl

/-! ## Terminal states

  A state is terminal when all pushes are made and every consumer is done or sleeps unwoken.  Then
  the right side of the count is zero. -/

/-- Where no step is enabled, a parked consumer means that nothing is on its way. -/
theorem quiet_of_terminal {s : RingSystem α N} (hr : Registered s) (ht : Terminal s) {i : Fin N}
    (hi : s.consumers i = .popping .parked) :
    s.ring.notify.permit = false ∧ s.ring.notify.notified = [] := by
  have hnone : ∀ j, j ∉ s.ring.notify.notified := by
    intro j hj
    have hpc := (hr.iff j).mpr (List.mem_append_right _ hj)
    have := ht (.poll j)
    rw [step_eq_some.mpr (.woken j hpc hj)] at this
    exact nomatch this
  refine ⟨?_, List.eq_nil_iff_forall_not_mem.mpr hnone⟩
  rcases List.mem_append.mp ((hr.iff i).mp hi) with hw | hn
  · exact Notify.permit_eq_false hw
  · exact absurd hn (hnone i)

/-- Where no step is enabled, nobody is about to look. -/
theorem lookers_of_terminal {s : RingSystem α N} (ht : Terminal s) : s.lookers = 0 := by
  refine Finset.sum_eq_zero fun i _ => ?_
  cases hc : s.consumers i with
  | done item => rfl
  | popping pc =>
    cases pc with
    | arm => rfl
    | parked => rfl
    | create =>
      have := ht (.poll i)
      rw [step_eq_some.mpr (.create i hc)] at this
      exact nomatch this
    | check =>
      have := ht (.poll i)
      cases hq : s.ring.queue with
      | nil => rw [step_eq_some.mpr (.empty i hc hq)] at this; exact nomatch this
      | cons item rest => rw [step_eq_some.mpr (.pop i item rest hc hq)] at this; exact nomatch this

theorem not_stranded_of_accounted {s : RingSystem α N} (hr : Registered s) (ha : Accounted s)
    (ht : Terminal s) : ¬ Stranded s := by
  rintro ⟨⟨i, hi⟩, hq⟩
  obtain ⟨hp, hn⟩ := quiet_of_terminal hr ht hi
  have hw : s.ring.notify.wakeups = 0 := by simp [Notify.wakeups, hp, hn]
  rw [Accounted, hw, lookers_of_terminal ht] at ha
  exact hq (List.length_eq_zero_iff.mp (Nat.le_zero.mp ha))

/-- **Runs without a harmful push** strand nobody, whatever the number of consumers and pushes. -/
theorem not_stranded_of_harmless {C P : Nat} (hC : 0 < C) {ls : List (RingEvent α N)}
    {s : RingSystem α N} (hrun : run step (start α N C P) ls = some s)
    (hharm : Along step HarmlessPush (start α N C P) ls) (ht : Terminal s) : ¬ Stranded s := by
  have hinv := run_invariant_along (I := fun s : RingSystem α N =>
      0 < s.ring.capacity ∧ Registered s ∧ Accounted s) (Q := HarmlessPush)
    (fun s e s' h hQ hs => by
      have hs := step_eq_some.mp hs
      exact ⟨by rw [capacity_step hs]; exact h.1, h.2.1.step hs, h.2.2.step h.1 hQ hs⟩)
    ls _ s ⟨hC, registered_start C P, accounted_start C P⟩ hharm hrun
  exact not_stranded_of_accounted hinv.2.1 hinv.2.2 ht

/-! ## One consumer

  A single consumer may well break the count, as one permit may stand for two items.  But it looks
  again before it sleeps if there is a permit, so it takes an item, and that is all it has to do. -/

/-- A queued item is either announced, or somebody looks or has looked.  Weaker than `Accounted`, as
    it counts nothing, and so every push keeps it, the harmful one too.  With one consumer it is
    enough: whoever looks is the one who would otherwise sleep. -/
def Covered (s : RingSystem α N) : Prop :=
  s.ring.queue ≠ [] → s.ring.notify.Pending ∨
    ∃ i, (s.consumers i).looking = 1 ∨ ∃ item, s.consumers i = .done item

/-- A consumer that moves to where it looks or is done covers everything. -/
theorem covered_update {s : RingSystem α N} {r : DropOldestRing α (Fin N)} (i : Fin N)
    {c : Consumer α} (hc : c.looking = 1 ∨ ∃ item, c = .done item) :
    Covered { s with ring := r, consumers := Function.update s.consumers i c } := by
  intro _
  refine Or.inr ⟨i, ?_⟩
  simpa using hc

/-- **Step lemma** for `Covered`: every push announces itself. -/
theorem Covered.step {s s' : RingSystem α N} {e : RingEvent α N} (h : Covered s)
    (hs : Stepped s e s') : Covered s' := by
  cases hs with
  | push item left =>
    intro _
    apply Or.inl
    show (s.ring.push item).1.notify.Pending
    rw [DropOldestRing.push_notify]
    exact Notify.pending_notifyOne _
  | create i pc => exact covered_update i (Or.inl rfl)
  | pop i item rest pc queue => exact covered_update i (Or.inr ⟨item, rfl⟩)
  | empty i pc queue => exact fun hq => absurd queue hq
  | permit i pc permit => exact covered_update i (Or.inl rfl)
  -- there is no permit, and the one who parks was not about to look
  | park i pc permit =>
    intro hq
    rcases h hq with hp | ⟨j, hj⟩
    · rcases hp with hp | hn
      · rw [permit] at hp; cases hp
      · exact Or.inl (Or.inr hn)
    · have hji : j ≠ i := by
        rintro rfl
        rw [pc] at hj
        rcases hj with hj | ⟨_, hj⟩ <;> cases hj
      refine Or.inr ⟨j, ?_⟩
      simpa [Function.update_of_ne hji] using hj
  | woken i pc notified => exact covered_update i (Or.inl rfl)

/-- A single consumer is never stranded. -/
theorem not_stranded_of_single {s : RingSystem α N} (hN : N ≤ 1) (hr : Registered s)
    (hc : Covered s) (ht : Terminal s) : ¬ Stranded s := by
  rintro ⟨⟨i, hi⟩, hq⟩
  obtain ⟨hp, hn⟩ := quiet_of_terminal hr ht hi
  rcases hc hq with hpend | ⟨j, hj⟩
  · rcases hpend with hp' | ⟨k, hk⟩
    · rw [hp] at hp'; cases hp'
    · rw [hn] at hk; exact absurd hk List.not_mem_nil
  · obtain rfl : j = i := Fin.ext (by omega)
    rw [hi] at hj
    rcases hj with hj | ⟨_, hj⟩ <;> cases hj

/-! ## One push, or room for one item

In these two cases no push is harmful, for a simple reason: an item in the queue leaves no room,
or leaves no push. -/

/-- The queue never holds more than its capacity, nor more than was pushed.  A push adds one item at
    most and uses one of the pushes that are left. -/
theorem len_bounds {C P : Nat} (hC : 0 < C) {s : RingSystem α N}
    (h : Reachable step (start α N C P) s) :
    s.ring.capacity = C ∧ s.ring.len ≤ C ∧ s.ring.len + s.pushes ≤ P := by
  refine h.invariant (I := fun s : RingSystem α N =>
    s.ring.capacity = C ∧ s.ring.len ≤ C ∧ s.ring.len + s.pushes ≤ P)
    ⟨rfl, Nat.zero_le _, by simp [start, DropOldestRing.new, DropOldestRing.len]⟩ ?_
  rintro s e s' ⟨hcap, hle, hsum⟩ hs
  have hs := step_eq_some.mp hs
  have hcap' := capacity_step hs
  refine ⟨by rw [hcap', hcap], ?_⟩
  cases hs with
  | push item left =>
    have h1 := s.ring.push_len_le item (by omega) (by omega)
    have h2 := s.ring.push_len_le_succ item
    rw [DropOldestRing.push_capacity] at h1
    exact ⟨by show (s.ring.push item).1.len ≤ C; omega,
      by show (s.ring.push item).1.len + (s.pushes - 1) ≤ P; omega⟩
  | pop i item rest pc queue =>
    simp only [DropOldestRing.len, queue, List.length_cons] at hle hsum
    exact ⟨by show rest.length ≤ C; omega, by show rest.length + s.pushes ≤ P; omega⟩
  | _ => exact ⟨hle, hsum⟩

theorem noSleeper_of_small {C P : Nat} (hC : 0 < C) (h : N ≤ 1 ∨ C ≤ 1 ∨ P ≤ 1) :
    NoSleeper α N C P := by
  intro s hreach ht
  rcases h with hN | hCP
  · have hinv := hreach.invariant (I := fun s : RingSystem α N => Registered s ∧ Covered s)
      ⟨registered_start C P, fun hq => absurd rfl hq⟩
      (fun s e s' h hs => ⟨h.1.step (step_eq_some.mp hs), h.2.step (step_eq_some.mp hs)⟩)
    exact not_stranded_of_single hN hinv.1 hinv.2 ht
  · obtain ⟨ls, hls⟩ := hreach
    refine not_stranded_of_harmless hC hls (along_of_run ?_ hls) ht
    rintro t e t' hr hs item rfl hp
    obtain ⟨hcap, hle, hsum⟩ := len_bounds hC hr
    rcases hCP with h1 | h1
    · omega
    · cases step_eq_some.mp hs with
      | push _ left => omega

/-! ## The run that strands a consumer

  For two or more consumers, pushes and places.  All consumers look and find nothing; all pushes are
  made, which leaves one permit; one consumer takes it up and takes an item; the others register.
  The four lemmas are the four parts of this run, for any number of consumers and pushes. -/

/-- Consumers that look at an empty queue end about to poll their futures. -/
theorem run_arm : ∀ (L : List (Fin N)) (s : RingSystem α N), L.Nodup → s.ring.queue = [] →
    (∀ i ∈ L, s.consumers i = .popping .create) →
    run step s (L.flatMap fun i => [.poll i, .poll i]) =
      some { s with consumers := fun j => if j ∈ L then .popping .arm else s.consumers j } := by
  intro L
  -- induction on the consumers still to come, all of which stand at `create`
  induction L with
  | nil => intro s _ _ _; simp
  | cons i L ih =>
    intro s hnd hq hpc
    obtain ⟨hi, hnd'⟩ := List.nodup_cons.mp hnd
    have h1 := step_eq_some.mpr (Stepped.create i (hpc i List.mem_cons_self))
    have h2 := step_eq_some.mpr (Stepped.empty
      (s := { s with consumers := Function.update s.consumers i (.popping .check) }) i (by simp) hq)
    rw [List.flatMap_cons]
    refine run_append_some.mpr ⟨_, run_cons_some.mpr ⟨_, h1, run_cons_some.mpr ⟨_, h2, rfl⟩⟩, ?_⟩
    refine (ih { s with
      consumers := Function.update (Function.update s.consumers i (.popping .check)) i
        (.popping .arm) } hnd' hq ?_).trans ?_
    · intro j hj
      have hji : j ≠ i := fun he => hi (he ▸ hj)
      simpa [Function.update_of_ne hji] using hpc j (List.mem_cons_of_mem _ hj)
    · congr 2
      funext j
      by_cases hj : j = i
      · subst hj; simp [hi]
      · simp [hj]

/-- Pushes with nobody registered leave one permit. -/
theorem run_push (x : α) : ∀ (k : Nat) (s : RingSystem α N), k ≤ s.pushes →
    s.ring.notify.futures = [] → ∃ r : DropOldestRing α (Fin N),
      run step s (List.replicate k (.push x)) =
        some { s with ring := r, pushes := s.pushes - k } ∧
      min (s.ring.len + k) s.ring.capacity ≤ r.len ∧ r.notify.futures = [] ∧
      (0 < k → r.notify.permit = true) := by
  intro k
  -- induction on the pushes; nobody is registered, so none of them wakes anybody
  induction k with
  | zero =>
    intro s _ hf
    exact ⟨s.ring, rfl, Nat.min_le_left _ _, hf, fun h => absurd h (Nat.lt_irrefl 0)⟩
  | succ k ih =>
    intro s hk hf
    have hfut : (s.ring.push x).1.notify.futures = [] := by
      rw [DropOldestRing.push_notify]
      exact List.Perm.eq_nil (hf ▸ s.ring.notify.futures_notifyOne)
    obtain ⟨r, hrun, hlen, hfr, hperm⟩ :=
      ih { s with ring := (s.ring.push x).1, pushes := s.pushes - 1 }
        (by show k ≤ s.pushes - 1; omega) hfut
    have hstep := step_eq_some.mpr (Stepped.push (s := s) x (by omega))
    refine ⟨r, ?_, ?_, hfr, fun _ => ?_⟩
    · rw [List.replicate_succ]
      refine run_cons_some.mpr ⟨_, hstep, ?_⟩
      rw [hrun]
      congr 2
      show s.pushes - 1 - k = s.pushes - (k + 1)
      omega
    · have hpush := s.ring.le_push_len x
      simp only [DropOldestRing.push_capacity] at hlen
      omega
    · rcases Nat.eq_zero_or_pos k with h0 | h0
      · subst h0
        obtain rfl : r = (s.ring.push x).1 := by
          have := Option.some.inj hrun
          exact (congrArg RingSystem.ring this).symm
        have hw : s.ring.notify.waiters = [] := (List.append_eq_nil_iff.mp hf).1
        rw [DropOldestRing.push_notify]
        exact Notify.permit_notifyOne hw
      · exact hperm h0

/-- Consumers that poll their futures without a permit register and sleep. -/
theorem run_park : ∀ (L : List (Fin N)) (s : RingSystem α N), L.Nodup →
    s.ring.notify.permit = false → (∀ i ∈ L, s.consumers i = .popping .arm) →
    ∃ n : Notify (Fin N), run step s (L.map .poll) =
        some { s with
          ring := { s.ring with notify := n }
          consumers := fun j => if j ∈ L then .popping .parked else s.consumers j } ∧
      n.notified = s.ring.notify.notified := by
  intro L
  -- induction on the consumers still to come; each registers behind those before it
  induction L with
  | nil => intro s _ _ _; exact ⟨s.ring.notify, by simp, rfl⟩
  | cons i L ih =>
    intro s hnd hp hpc
    obtain ⟨hi, hnd'⟩ := List.nodup_cons.mp hnd
    have h1 := step_eq_some.mpr (Stepped.park i (hpc i List.mem_cons_self) hp)
    obtain ⟨n, hrun, hn⟩ := ih { s with
      ring := { s.ring with notify := s.ring.notify.register i }
      consumers := Function.update s.consumers i (.popping .parked) } hnd' rfl (by
        intro j hj
        have hji : j ≠ i := fun he => hi (he ▸ hj)
        simpa [Function.update_of_ne hji] using hpc j (List.mem_cons_of_mem _ hj))
    refine ⟨n, run_cons_some.mpr ⟨_, h1, ?_⟩, hn⟩
    rw [hrun]
    congr 2
    funext j
    by_cases hj : j = i
    · subst hj; simp [hi]
    · simp [hj]

/-- A consumer that polls its future with a permit stored looks again and takes the item. -/
theorem run_take {s : RingSystem α N} {i : Fin N} {item : α} {rest : List α}
    (hpc : s.consumers i = .popping .arm) (hp : s.ring.notify.permit = true)
    (hq : s.ring.queue = item :: rest) :
    run step s [.poll i, .poll i, .poll i] = some { s with
      ring := { s.ring with queue := rest, notify := s.ring.notify.consume }
      consumers := Function.update s.consumers i (.done item) } := by
  have h1 := step_eq_some.mpr (Stepped.permit i hpc hp)
  have h2 := step_eq_some.mpr (Stepped.create (s := { s with
    ring := { s.ring with notify := s.ring.notify.consume }
    consumers := Function.update s.consumers i (.popping .create) }) i (by simp))
  have h3 := step_eq_some.mpr (Stepped.pop (s := { s with
    ring := { s.ring with notify := s.ring.notify.consume }
    consumers := Function.update s.consumers i (.popping .check) }) i item rest (by simp) hq)
  simp only [Function.update_idem] at h2 h3
  exact run_cons_some.mpr ⟨_, h1, run_cons_some.mpr ⟨_, h2, run_cons_some.mpr ⟨_, h3, rfl⟩⟩⟩

/-- **The stranding run**: all consumers find the queue empty, all pushes arrive, one consumer takes
    the permit and its item, the others register and sleep in front of the rest. -/
theorem stranding_run (x : α) {C P : Nat} (hN : 1 < N) (hC : 1 < C) (hP : 1 < P) :
    ∃ s : RingSystem α N, Reachable step (start α N C P) s ∧ Terminal s ∧ Stranded s := by
  obtain ⟨i0, i1, h01⟩ : ∃ i0 i1 : Fin N, i1 ≠ i0 :=
    ⟨⟨0, by omega⟩, ⟨1, hN⟩, fun h => by simpa using congrArg Fin.val h⟩
  have harm := run_arm (List.finRange N) (start α N C P) (List.nodup_finRange N) rfl
    (fun _ _ => rfl)
  simp only [List.mem_finRange, if_true] at harm
  obtain ⟨r, hpush, hlen, hfut, hperm⟩ := run_push x P
    { start α N C P with consumers := fun _ => .popping .arm } (Nat.le_refl _) rfl
  obtain ⟨item, rest, hq⟩ : ∃ item rest, r.queue = item :: rest := by
    cases hq : r.queue with
    | nil =>
      simp only [DropOldestRing.len, hq, List.length_nil, start, DropOldestRing.new] at hlen
      omega
    | cons item rest => exact ⟨item, rest, rfl⟩
  have hrest : rest ≠ [] := by
    rintro rfl
    simp only [DropOldestRing.len, hq, List.length_singleton, List.length_nil, start,
      DropOldestRing.new] at hlen
    omega
  have htake := run_take (s := {
    ring := r, consumers := fun _ => .popping .arm, pushes := P - P }) (i := i0)
    rfl (hperm (by omega)) hq
  obtain ⟨n, hpark, hn⟩ := run_park ((List.finRange N).erase i0) {
    ring := { r with queue := rest, notify := r.notify.consume }
    consumers := Function.update (fun _ => .popping .arm) i0 (.done item)
    pushes := P - P } ((List.nodup_finRange N).erase i0) rfl (by
      intro j hj
      have hj0 : j ≠ i0 := ((List.nodup_finRange N).mem_erase_iff.mp hj).1
      simp [Function.update_of_ne hj0])
  refine ⟨_, ⟨_, run_append_some.mpr ⟨_, harm, run_append_some.mpr ⟨_, hpush,
    run_append_some.mpr ⟨_, htake, hpark⟩⟩⟩⟩, ?_, ?_⟩
  · -- the pushes are used up, `i0` is done and nobody else was woken
    have hn0 : n.notified = [] := hn.trans (List.append_eq_nil_iff.mp hfut).2
    intro e
    cases e with
    | push item => simp [step]
    | poll j =>
      by_cases hj : j = i0
      · subst hj
        simp [step, (List.nodup_finRange N).mem_erase_iff]
      · simp [step, (List.nodup_finRange N).mem_erase_iff, hj, DropOldestRing.popAsync, hn0]
  · refine ⟨⟨i1, ?_⟩, hrest⟩
    simp [(List.nodup_finRange N).mem_erase_iff, h01]

/-! ## When `pop_async` misses no wake-up -/

/-- **Wake-ups of `pop_async`.**  For any number of consumers, positive capacity and number of
    pushes:

    * a run in which no push finds a stored permit together with a queue that is neither empty nor
      full leaves no consumer parked in front of an item;
    * no interleaving at all does, exactly when there is at most one consumer, or room for one
      item, or at most one push.

    Harmless pushes keep the count of `Accounted`.  Of the three exceptions, one consumer is safe by
    `Covered`, and the other two allow no harmful push.  For everything else there is
    `stranding_run`. -/
theorem no_sleeper_iff [Nonempty α] (N C P : Nat) (hC : 0 < C) :
    (∀ ls (s : RingSystem α N), run step (start α N C P) ls = some s →
      Along step HarmlessPush (start α N C P) ls → Terminal s → ¬ Stranded s) ∧
    (NoSleeper α N C P ↔ N ≤ 1 ∨ C ≤ 1 ∨ P ≤ 1) := by
  refine ⟨fun ls s hrun hharm ht => not_stranded_of_harmless hC hrun hharm ht, ?_,
    noSleeper_of_small hC⟩
  intro hno
  by_contra hbig
  obtain ⟨x⟩ := ‹Nonempty α›
  obtain ⟨s, hr, ht, hs⟩ := stranding_run (N := N) (C := C) (P := P) x (by omega) (by omega)
    (by omega)
  exact hno s hr ht hs

theorem no_sleeper_iff_single :
    (∀ ls (s : RingSystem Nat 1), run step (start Nat 1 4 3) ls = some s →
      Along step HarmlessPush (start Nat 1 4 3) ls → Terminal s → ¬ Stranded s) ∧
    (NoSleeper Nat 1 4 3 ↔ 1 ≤ 1 ∨ 4 ≤ 1 ∨ 3 ≤ 1) :=
  no_sleeper_iff 1 4 3 (by decide)

/-- Two consumers, two pushes, room for two: both consumers find the queue empty before either polls
    its future, both items arrive, one consumer takes the first, the other sleeps by the second. -/
theorem two_consumers_stranded : ¬ ∀ N C P : Nat, 0 < C → NoSleeper Nat N C P := by
  intro hall
  obtain ⟨s, hs, hstr⟩ : ∃ s, run step (start Nat 2 2 2)
      [.poll 0, .poll 0, .poll 1, .poll 1, .push 7, .push 8,
        .poll 0, .poll 0, .poll 0, .poll 1] = some s ∧ s.pushes = 0 ∧
        s.consumers 0 = .done 7 ∧ s.consumers 1 = .popping .parked ∧
        s.ring.notify.notified = [] ∧ s.ring.queue = [8] :=
    ⟨_, rfl, rfl, rfl, rfl, rfl, rfl⟩
  obtain ⟨hp, h0, h1, hn, hq⟩ := hstr
  refine hall 2 2 2 (by decide) s ⟨_, hs⟩ ?_ ⟨⟨1, h1⟩, by rw [hq]; exact List.cons_ne_nil _ _⟩
  intro e
  cases e with
  | push item => simp [step, hp]
  | poll i =>
    rcases (by omega : i.val = 0 ∨ i.val = 1) with hi | hi
    · obtain rfl : i = 0 := Fin.ext hi
      simp [step, h0]
    · obtain rfl : i = 1 := Fin.ext hi
      simp [step, h1, DropOldestRing.popAsync, hn]

end RingSystem

end RtsPipeline
