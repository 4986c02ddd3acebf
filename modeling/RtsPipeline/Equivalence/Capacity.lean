/-
  The two bounded queues and the capacities the command line admits.

  No check stands between `--capacity` and `DropOldestRing::new` or `PriorityQueue::new`, so both
  are asked for every history with every capacity, zero included.  The ring tests for fullness with
  `==` and the heap with `>=`; above zero the tests agree.  At zero the first push finds a full
  queue with nothing to give up: the ring reports a loss that did not happen and is past its
  capacity from then on, where `==` never holds again, and the heap panics in its `expect`.

  What is lost is told by the contents alone: an operation puts something in or not, hands something
  out or not, and whatever was there and is neither handed out nor there afterwards is lost.  So the
  promise does not lean on the tests for fullness that it is about.

  1. `Honest` — what the answer to an operation and the counter owe to what was lost.
  2. `RingHonours`, `QueueHonours` — the promise, over the whole of a history.
  3. `honours_iff` — it is kept unless the capacity is zero and something is pushed.
-/
import RtsPipeline.Core.RingHistory
import RtsPipeline.Threaded.History

namespace RtsPipeline.Equivalence

open Lib Threaded

/-- One operation: of what it is given and what was queued `before`, all that is not `taken` out and
    not queued `after` is lost.  `DroppedOldest` is the answer exactly when something is, and the
    counter counts it. -/
def Honest {β : Type} (given taken before after : List β) (answer : Option PushOutcome)
    (counted counted' : UInt64) : Prop :=
  ∃ lost : List β, (given ++ before).Perm (taken ++ lost ++ after) ∧
    (answer = some .droppedOldest ↔ lost ≠ []) ∧ counted' = counted + UInt64.ofNat lost.length

/-- What a call puts into the ring. -/
def ringGiven {α : Type} {N : Nat} : RingCall α N → List α
  | .push item => [item]
  | _ => []

/-- What a call returns to a consumer. -/
def ringTaken {α : Type} {N : Nat} (s : RingHistory α N) : RingCall α N → List α
  | .popBlocking => (s.ring.popFront.map Prod.fst).toList
  | .poll i =>
    match (s.ring.popAsync i (s.pcs i)).1 with
    | .ready item => [item]
    | _ => []
  | _ => []

/-- What a call answers to a producer. -/
def ringAnswer {α : Type} {N : Nat} (s : RingHistory α N) : RingCall α N → Option PushOutcome
  | .push item => some (s.ring.push item).2
  | _ => none

/-- The ring through a history: never more than `C` items, and every call honest. -/
def RingHonours {α : Type} {N : Nat} (C : Nat) (ls : List (RingCall α N)) : Prop :=
  ∀ pre, pre <+: ls → ∀ s, run RingHistory.step (RingHistory.start α N C) pre = some s →
    s.ring.len ≤ C ∧ ∀ call, pre ++ [call] <+: ls → ∀ s', s.step call = some s' →
      Honest (ringGiven call) (ringTaken s call) s.ring.queue s'.ring.queue (ringAnswer s call)
        s.ring.overflowCount s'.ring.overflowCount

/-- What an operation of the heap returns to a worker. -/
def queueTaken : QueueShow → List Task
  | .popped task => task.toList
  | .pushed _ _ => []

/-- What an operation of the heap answers to the producer. -/
def queueAnswer : QueueShow → Option PushOutcome
  | .pushed outcome _ => some outcome
  | .popped _ => none

/-- The heap through a history: no panic, never more than `C` tasks, and every operation honest. -/
def QueueHonours (C : Nat) (ops : List QueueOp) : Prop :=
  ∀ pre, pre <+: ops → ∃ s, run QueueLog.step (QueueLog.start C) pre = some s ∧
    s.queue.len ≤ C ∧ ∀ op, pre ++ [op] <+: ops → ∃ q shown,
      s.queue.perform op = some (q, shown) ∧
      Honest op.pushed.toList (queueTaken shown) s.queue.queued q.queued (queueAnswer shown)
        s.queue.overflowCount q.overflowCount

/-- An operation that only takes something out loses nothing. -/
theorem honest_of_taken {β : Type} {taken before after : List β} {counted counted' : UInt64}
    (contents : before.Perm (taken ++ after)) (same : counted' = counted) :
    Honest [] taken before after none counted counted' := by
  refine ⟨[], ?_, iff_of_false (by simp) (fun h => h rfl), ?_⟩
  · rw [List.append_nil]
    exact contents
  · rw [same]
    exact (UInt64.add_zero counted).symm

/-! ## The ring

With a capacity, `Accounted` of `Core.RingHistory` says that the ring is never over it, and then the
test with `==` is as good as one with `>=`.  Without one, the history up to the first push leaves
the ring empty, and that push is the counterexample. -/

/-- The call is a push. -/
def isRingPush {α : Type} {N : Nat} : RingCall α N → Bool
  | .push _ => true
  | _ => false

/-- A push into a ring with a capacity is honest: the counter counts what the queue gave up. -/
theorem ring_push_honest {α : Type} {N : Nat} (r : DropOldestRing α (Fin N)) (item : α)
    (hC : 0 < r.capacity) :
    Honest [item] [] r.queue (r.push item).1.queue (some (r.push item).2) r.overflowCount
      (r.push item).1.overflowCount := by
  refine ⟨r.dropped.toList, ?_, ?_, r.push_overflow item hC⟩
  · -- the queue keeps its order, and the oldest item is what is given up
    rw [List.nil_append, ← r.push_conserve item]
    exact List.perm_append_comm
  · rw [Option.some.injEq, (r.push_outcome item).1]
    unfold DropOldestRing.dropped DropOldestRing.len
    split
    · rename_i hfull
      refine iff_of_true hfull ?_
      cases hq : r.queue with
      | nil => rw [hq, List.length_nil] at hfull; omega
      | cons x xs => exact List.cons_ne_nil x []
    · rename_i hroom
      exact iff_of_false hroom fun h => h rfl

/-- Every other call is honest, whatever the capacity. -/
theorem ring_other_honest {α : Type} {N : Nat} {s s' : RingHistory α N} {call : RingCall α N}
    (hother : isRingPush call = false) (h : s.step call = some s') :
    Honest (ringGiven call) (ringTaken s call) s.ring.queue s'.ring.queue (ringAnswer s call)
      s.ring.overflowCount s'.ring.overflowCount := by
  cases call with
  | push item => cases hother
  | cancel i =>
    obtain rfl := Option.some.inj h
    exact honest_of_taken (List.Perm.refl _) rfl
  | popBlocking =>
    obtain ⟨⟨item, r⟩, hpop, rfl⟩ := Option.map_eq_some_iff.mp h
    obtain ⟨rest, hq, rfl⟩ := RingHistory.popFront_eq_some hpop
    refine honest_of_taken ?_ rfl
    rw [ringTaken, hpop, hq]
    exact List.Perm.refl _
  | poll i =>
    have hpolled := RingHistory.polled s.ring i (s.pcs i)
    have htaken : ringTaken s (.poll i) =
        match (s.ring.popAsync i (s.pcs i)).1 with
        | .ready item => [item]
        | _ => [] := rfl
    show Honest [] _ _ _ none _ _
    rw [htaken]
    simp only [RingHistory.step] at h
    generalize s.ring.popAsync i (s.pcs i) = x at h hpolled
    obtain ⟨poll, r⟩ := x
    cases hpolled with
    | ready item rest queue =>
      obtain rfl := Option.some.inj h
      refine honest_of_taken ?_ rfl
      rw [queue]
      exact List.Perm.refl _
    | goto pc n => obtain rfl := Option.some.inj h; exact honest_of_taken (List.Perm.refl _) rfl
    | pending n => obtain rfl := Option.some.inj h; exact honest_of_taken (List.Perm.refl _) rfl

theorem ringHonours_of_pos {α : Type} {N C : Nat} (hC : 0 < C) (ls : List (RingCall α N)) :
    RingHonours C ls := by
  intro pre _ s hs
  have ha : RingHistory.Accounted C s := run_invariant
    (fun _ _ _ hI hl => hI.step hC (RingHistory.moved_of_step hl)) pre _ s
    (RingHistory.accounted_start α N C) hs
  have hpos : 0 < s.ring.capacity := by rw [ha.capacity]; exact hC
  refine ⟨ha.bound, fun call _ s' hcall => ?_⟩
  cases call with
  | push item =>
    obtain rfl := Option.some.inj hcall
    exact ring_push_honest s.ring item hpos
  | popBlocking => exact ring_other_honest rfl hcall
  | poll i => exact ring_other_honest rfl hcall
  | cancel i => exact ring_other_honest rfl hcall

/-- Without a push the ring stays empty. -/
theorem ring_idle {α : Type} {N C : Nat} {ls : List (RingCall α N)} {s : RingHistory α N}
    (hnone : ∀ l ∈ ls, isRingPush l = false)
    (h : run RingHistory.step (RingHistory.start α N C) ls = some s) :
    s.ring.queue = [] ∧ s.ring.capacity = C := by
  refine run_invariant_along (I := fun s => s.ring.queue = [] ∧ s.ring.capacity = C)
    (fun s l s' hI hl hs => ?_) ls _ s ⟨rfl, rfl⟩ (along_of_forall hnone) h
  obtain ⟨hq, hc⟩ := hI
  cases RingHistory.moved_of_step hs with
  | push item => exact nomatch hl
  | popped item rest queue _ _ _ _ => exact nomatch hq.symm.trans queue
  | silent queue capacity _ _ => exact ⟨queue.trans hq, capacity.trans hc⟩

/-- A history with a push has a first one. -/
theorem exists_first {ℓ : Type*} {p : ℓ → Bool} {ls : List ℓ} {l : ℓ} (hl : l ∈ ls)
    (hp : p l = true) :
    ∃ pre l' post, ls = pre ++ l' :: post ∧ p l' = true ∧ ∀ x ∈ pre, p x = false := by
  obtain ⟨l', hfind⟩ := Option.isSome_iff_exists.mp (List.find?_isSome.mpr ⟨l, hl, hp⟩)
  obtain ⟨hp', pre, post, hsplit, hpre⟩ := List.find?_eq_some_iff_append.mp hfind
  exact ⟨pre, l', post, hsplit, hp', fun x hx => by simpa using hpre x hx⟩

/-- The first push into a ring of capacity zero reports a loss, and there was nothing to lose. -/
theorem not_ringHonours_zero {α : Type} {N : Nat} {ls : List (RingCall α N)} {s : RingHistory α N}
    (h : run RingHistory.step (RingHistory.start α N 0) ls = some s) {item : α}
    (hmem : .push item ∈ ls) : ¬ RingHonours 0 ls := by
  intro hhonours
  obtain ⟨pre, l, post, rfl, hl, hpre⟩ := exists_first (p := isRingPush) hmem rfl
  obtain ⟨s1, hs1, _⟩ := run_append_some.mp h
  obtain ⟨hq, hc⟩ := ring_idle hpre hs1
  cases l with
  | push item' =>
    have hnext : pre ++ [RingCall.push item'] <+: pre ++ .push item' :: post :=
      ⟨post, by rw [List.append_assoc]; rfl⟩
    obtain ⟨lost, hcontents, hanswer, _⟩ :=
      (hhonours pre (List.prefix_append _ _) s1 hs1).2 _ hnext _ rfl
    have hfull : s1.ring.len = s1.ring.capacity := by rw [DropOldestRing.len, hq, hc]; rfl
    have hlost : lost ≠ [] := hanswer.mp (congrArg some ((s1.ring.push_outcome item').1.mpr hfull))
    -- the ring was empty and now holds the item
    have hlen := hcontents.length_eq
    rw [hq, show (s1.push item').ring.queue = [item'] from s1.ring.push_of_empty item' hq] at hlen
    simp only [ringGiven, ringTaken, List.length_append, List.length_singleton, List.length_nil]
      at hlen
    exact hlost (List.length_eq_zero_iff.mp (by omega))
  | popBlocking => cases hl
  | poll i => cases hl
  | cancel i => cases hl

theorem ringHonours_iff {α : Type} {N C : Nat} {ls : List (RingCall α N)} {s : RingHistory α N}
    (h : run RingHistory.step (RingHistory.start α N C) ls = some s) :
    RingHonours C ls ↔ 0 < C ∨ ∀ item, .push item ∉ ls := by
  constructor
  · intro hhonours
    rcases Nat.eq_zero_or_pos C with rfl | hC
    · exact Or.inr fun item hmem => not_ringHonours_zero h hmem hhonours
    · exact Or.inl hC
  · rintro (hC | hnone)
    · exact ringHonours_of_pos hC ls
    -- without a push the ring is empty all along, whatever its capacity
    · intro pre hpre s1 hs1
      have hno : ∀ l ∈ pre, isRingPush l = false := by
        intro l hl
        cases l with
        | push item => exact absurd (hpre.subset hl) (hnone item)
        | popBlocking => rfl
        | poll i => rfl
        | cancel i => rfl
      refine ⟨?_, fun call hnext s' hcall => ?_⟩
      · rw [DropOldestRing.len, (ring_idle hno hs1).1]
        exact Nat.zero_le C
      · have hmem : call ∈ ls := hnext.subset (List.mem_append_right _ List.mem_cons_self)
        cases call with
        | push item => exact absurd hmem (hnone item)
        | popBlocking => exact ring_other_honest rfl hcall
        | poll i => exact ring_other_honest rfl hcall
        | cancel i => exact ring_other_honest rfl hcall

/-! ## The heap

`Pushed.conserve` says what a push into a heap with a capacity does to the contents, and a pop only
takes something out.  Without a capacity the first push panics, so no state follows it. -/

/-- A pop of the heap is honest, whatever the capacity. -/
theorem queue_pop_honest (q : PriorityQueue) :
    ∃ q' shown, q.perform .pop = some (q', shown) ∧
      Honest [] (queueTaken shown) q.queued q'.queued (queueAnswer shown) q.overflowCount
        q'.overflowCount := by
  cases hpop : q.pop with
  | none =>
    refine ⟨q, .popped none, ?_, honest_of_taken (List.Perm.refl _) rfl⟩
    rw [PriorityQueue.perform, hpop]
  | some r =>
    obtain ⟨t, q'⟩ := r
    obtain ⟨hcontents, _, _, hcount⟩ := PriorityQueue.pop_spec hpop
    refine ⟨q', .popped (some t), ?_, honest_of_taken hcontents hcount⟩
    rw [PriorityQueue.perform, hpop]

/-- A push into a heap with a capacity does not panic and is honest. -/
theorem queue_push_honest (q : PriorityQueue) (t : Task) (hC : 0 < q.capacity) :
    ∃ q' shown, q.perform (.push t) = some (q', shown) ∧
      Honest [t] (queueTaken shown) q.queued q'.queued (queueAnswer shown) q.overflowCount
        q'.overflowCount := by
  obtain ⟨q', o, hpush, hp⟩ := q.push_spec t hC
  refine ⟨q', .pushed o q.victim, ?_, q.victim.toList, hp.conserve, ?_, hp.overflow_eq⟩
  · rw [PriorityQueue.perform, hpush]
    rfl
  · generalize q.victim = victim at hp
    cases hp with
    | room _ _ _ _ => exact iff_of_false (by simp [queueAnswer]) fun h => h rfl
    | full _ _ _ v _ _ _ _ => exact iff_of_true rfl (List.cons_ne_nil v [])

theorem queueHonours_of_pos {C : Nat} (hC : 0 < C) (ops : List QueueOp) : QueueHonours C ops := by
  intro pre _
  obtain ⟨s, hs, hcap, hle⟩ := QueueLog.run_total pre (s := QueueLog.start C) hC (Nat.zero_le C)
  have hcap : s.queue.capacity = C := hcap
  refine ⟨s, hs, by rw [← hcap]; exact hle, fun op _ => ?_⟩
  cases op with
  | pop => exact queue_pop_honest s.queue
  | push t => exact queue_push_honest s.queue t (by rw [hcap]; exact hC)

/-- Without a push the heap stays as it was. -/
theorem queue_idle (C : Nat) {ops : List QueueOp} (hnone : ∀ t, .push t ∉ ops) :
    run QueueLog.step (QueueLog.start C) ops = some (QueueLog.start C) := by
  induction ops with
  | nil => rfl
  | cons op ops ih =>
    cases op with
    | push t => exact absurd List.mem_cons_self (hnone t)
    | pop =>
      have hrest := ih fun t ht => hnone t (List.mem_cons_of_mem _ ht)
      exact run_cons_some.mpr ⟨_, QueueLog.step_pop_none rfl, hrest⟩

/-- The first push into a heap of capacity zero panics. -/
theorem not_queueHonours_zero {ops : List QueueOp} {t : Task} (hmem : .push t ∈ ops) :
    ¬ QueueHonours 0 ops := by
  intro hhonours
  obtain ⟨pre, op, post, rfl, hop, hpre⟩ :=
    exists_first (p := fun op : QueueOp => op.pushed.isSome) hmem rfl
  have hidle : run QueueLog.step (QueueLog.start 0) pre = some (QueueLog.start 0) :=
    queue_idle 0 fun u hu => nomatch hpre _ hu
  cases op with
  | pop => exact nomatch hop
  | push u =>
    obtain ⟨s, hs, _, hpush⟩ := hhonours pre (List.prefix_append _ _)
    obtain rfl := Option.some.inj (hidle.symm.trans hs)
    obtain ⟨q, shown, hpanic, _⟩ := hpush (.push u) ⟨post, by rw [List.append_assoc]; rfl⟩
    exact nomatch hpanic

theorem queueHonours_iff {C : Nat} {ops : List QueueOp} :
    QueueHonours C ops ↔ 0 < C ∨ ∀ t, .push t ∉ ops := by
  constructor
  · intro hhonours
    rcases Nat.eq_zero_or_pos C with rfl | hC
    · exact Or.inr fun t hmem => not_queueHonours_zero hmem hhonours
    · exact Or.inl hC
  · rintro (hC | hnone)
    · exact queueHonours_of_pos hC ops
    · intro pre hpre
      refine ⟨QueueLog.start C, queue_idle C fun t ht => hnone t (hpre.subset ht), Nat.zero_le C, ?_⟩
      intro op hnext
      cases op with
      | push t =>
        exact absurd (hnext.subset (List.mem_append_right _ List.mem_cons_self)) (hnone t)
      | pop => exact queue_pop_honest _

/-! ## Both

The two laws side by side, over the rings and over the heap. -/

/-- **The capacities.**  For every capacity, every interleaving of calls of the ring and every
    history of the heap: no push panics, the length never exceeds the capacity, and of every
    operation `DroppedOldest` is returned and counted exactly when an item is lost by it — if and
    only if the capacity is positive or nothing is ever pushed.

    With a positive capacity every operation is honest, by what a push and a pop do to the contents.
    With none, the first push breaks it, in the ring by a loss that is reported and did not happen,
    in the heap by a panic. -/
theorem honours_iff (α : Type) (N C : Nat) (ls : List (RingCall α N)) (s : RingHistory α N)
    (h : run RingHistory.step (RingHistory.start α N C) ls = some s) (ops : List QueueOp) :
    (RingHonours C ls ↔ 0 < C ∨ ∀ item, .push item ∉ ls) ∧
      (QueueHonours C ops ↔ 0 < C ∨ ∀ t, .push t ∉ ops) :=
  ⟨ringHonours_iff h, queueHonours_iff⟩

/-- Two pushes into a ring of one, and into a heap of one, which then serves what is left. -/
theorem honours_iff_one :
    let person : OwnedEvent := { user := "u", bot := false, serverName := "w" }
    RingHonours 1 ([.push 1, .push 2] : List (RingCall Nat 0)) ∧
    QueueHonours 1 [.push { event := person, priority := .bot, enqueuedAt := 0 },
      .push { event := person, priority := .human, enqueuedAt := 1 }, .pop] := by
  intro person
  obtain ⟨hring, hqueue⟩ := honours_iff Nat 0 1 [.push 1, .push 2] _ rfl
    [.push { event := person, priority := .bot, enqueuedAt := 0 },
      .push { event := person, priority := .human, enqueuedAt := 1 }, .pop]
  exact ⟨hring.mpr (Or.inl (by decide)), hqueue.mpr (Or.inl (by decide))⟩

/-- Capacity zero: two pushes leave the ring with two items, and one is a panic of the heap. -/
theorem honours_zero :
    ¬ RingHonours 0 ([.push 1, .push 2] : List (RingCall Nat 0)) ∧
    ¬ QueueHonours 0 [.push { event := { user := "u", bot := false, serverName := "w" }
                              priority := .human, enqueuedAt := 0 }] := by
  constructor
  · intro hhonours
    obtain ⟨hlen, _⟩ := hhonours _ (List.prefix_refl _) _ rfl
    exact absurd hlen (by decide)
  · intro hhonours
    obtain ⟨s, hs, _⟩ := hhonours _ (List.prefix_refl _)
    exact nomatch hs

end RtsPipeline.Equivalence
