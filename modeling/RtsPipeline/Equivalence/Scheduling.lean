/-
  The two pipelines schedule alike while nothing overflows.

  The async pipeline keeps Human and Bot tasks in two rings and takes the front of `hi`, or else of
  `lo`; the threaded pipeline keeps all of them in one heap ordered by priority and time.  Both are
  run here on the same steps, by one consumer, and every step is observed: what `dispatch` made of a
  payload, and what a dequeue returned.

  A refinement of two structures that keep the same tasks in different ways.  Where a task stands in
  the heap is of no interest; the rings say the order, as in each the tasks stand by their times.  A
  heap that serves a Human before a Bot and an older task before a younger one of its class has then
  one task to serve, and it is the front the rings would serve.  Strictly increasing times are
  needed for that: of two tasks of one time the heap may serve either.  And nothing may overflow, as
  the two do not give up the same tasks.

  1. `Lanes` and `Queue` — the two structures, with `dispatch` and `dequeue` from the source.
  2. `Sim` — the heap holds what the two rings hold, each ring is in order of time.
  3. `schedule_alike` — so the observations are the same.
-/
import Mathlib.Data.List.Infix
import RtsPipeline.Core.Admission
import RtsPipeline.Core.Ring
import RtsPipeline.Threaded.Scheduler

namespace RtsPipeline.Equivalence

open Threaded

/-- One step of a schedule. -/
inductive Step
  | dispatch (raw : Text) (now : Nat)
  | setDegraded (mode : Bool)
  | dequeue

/-- What a step shows. -/
inductive Observation
  | skipped (err : RtsError)
  | shed (event : Event)
  | enqueued (task : Task) (outcome : PushOutcome)
  | mode
  | dequeued (task : Option Task)
deriving DecidableEq

/-- The task a step enqueued. -/
def Observation.enqueued? : Observation → Option Task
  | .enqueued task _ => some task
  | _ => none

/-! ## The async structure

The rings without their wake-ups: here a dequeue is a step of the schedule that takes what is
there. -/

/-- The two rings of the async pipeline and the degraded flag. -/
structure Lanes where
  hi : DropOldestRing Task Unit
  lo : DropOldestRing Task Unit
  degraded : Bool

namespace Lanes

/-- Two empty rings. -/
def new (capacity : Nat) : Lanes :=
  { hi := DropOldestRing.new capacity, lo := DropOldestRing.new capacity, degraded := false }

/-- The number of tasks queued. -/
def total (s : Lanes) : Nat := s.hi.len + s.lo.len

/-- `let ring = if priority == Priority::Human { hi } else { lo }` and `ring.push(task)`. -/
def push (s : Lanes) (task : Task) : Lanes × PushOutcome :=
  if task.priority = .human then ({ s with hi := (s.hi.push task).1 }, (s.hi.push task).2)
  else ({ s with lo := (s.lo.push task).1 }, (s.lo.push task).2)

/-- `dispatch` of `rts-async/src/parser.rs`. -/
def dispatch (fromStr : Text → Option Json) (s : Lanes) (raw : Text) (now : Nat) :
    Lanes × Observation :=
  match classify fromStr raw s.degraded now with
  | .skipped err => (s, .skipped err)
  | .shed event => (s, .shed event)
  | .admitted task => ((s.push task).1, .enqueued task (s.push task).2)

/-- One dequeue: the front of `hi` if there is one, else the front of `lo`. -/
def dequeue (s : Lanes) : Lanes × Observation :=
  match s.hi.popFront with
  | some (task, hi) => ({ s with hi := hi }, .dequeued (some task))
  | none =>
    match s.lo.popFront with
    | some (task, lo) => ({ s with lo := lo }, .dequeued (some task))
    | none => (s, .dequeued none)

/-- One step. -/
def step (fromStr : Text → Option Json) (s : Lanes) : Step → Lanes × Observation
  | .dispatch raw now => s.dispatch fromStr raw now
  | .setDegraded mode => ({ s with degraded := mode }, .mode)
  | .dequeue => s.dequeue

/-- The state and the observations after a schedule. -/
def run (fromStr : Text → Option Json) : Lanes → List Step → Lanes × List Observation
  | s, [] => (s, [])
  | s, e :: es =>
    let r := s.step fromStr e
    let rest := run fromStr r.1 es
    (rest.1, r.2 :: rest.2)

/-- The tasks a schedule enqueues, in order. -/
def enqueued (fromStr : Text → Option Json) (s : Lanes) (es : List Step) : List Task :=
  (s.run fromStr es).2.filterMap Observation.enqueued?

end Lanes

/-! ## The threaded structure

The same interface over the heap. -/

/-- The heap of the threaded pipeline and the degraded flag. -/
structure Queue where
  queue : PriorityQueue
  degraded : Bool

namespace Queue

/-- An empty heap. -/
def new (capacity : Nat) : Queue := { queue := PriorityQueue.new capacity, degraded := false }

/-- `dispatch` of `rts-threaded/src/parser.rs`; `none` when the push panics. -/
def dispatch (fromStr : Text → Option Json) (s : Queue) (raw : Text) (now : Nat) :
    Option (Queue × Observation) :=
  match classify fromStr raw s.degraded now with
  | .skipped err => some (s, .skipped err)
  | .shed event => some (s, .shed event)
  | .admitted task =>
    (s.queue.push task).map fun r => ({ s with queue := r.1 }, .enqueued task r.2)

/-- One dequeue: `pop_blocking`, when it does not wait. -/
def dequeue (s : Queue) : Queue × Observation :=
  match s.queue.pop with
  | some (task, queue) => ({ s with queue := queue }, .dequeued (some task))
  | none => (s, .dequeued none)

/-- One step. -/
def step (fromStr : Text → Option Json) (s : Queue) : Step → Option (Queue × Observation)
  | .dispatch raw now => s.dispatch fromStr raw now
  | .setDegraded mode => some ({ s with degraded := mode }, .mode)
  | .dequeue => some s.dequeue

/-- The state and the observations after a schedule. -/
def run (fromStr : Text → Option Json) : Queue → List Step → Option (Queue × List Observation)
  | s, [] => some (s, [])
  | s, e :: es => do
    let r ← s.step fromStr e
    let rest ← run fromStr r.1 es
    return (rest.1, r.2 :: rest.2)

end Queue

/-! ## The simulation

A ring is ordered by arrival and the heap by time, so the two agree if the times increase.  A full
queue would part them, as each evicts in its own way; the schedules here have room. -/

/-- The heap holds what the rings hold: Human tasks in `hi`, Bot tasks in `lo`, each in order of
    time.  `humans` and `bots` let the class of a task say which ring it is in, and the two orders
    which task of a ring is its front. -/
structure Sim (C : Nat) (s : Lanes) (t : Queue) : Prop where
  degraded : t.degraded = s.degraded
  capacity : s.hi.capacity = C ∧ s.lo.capacity = C ∧ t.queue.capacity = C
  same : t.queue.queued.Perm (s.hi.queue ++ s.lo.queue)
  humans : ∀ x ∈ s.hi.queue, x.priority = .human
  bots : ∀ x ∈ s.lo.queue, x.priority = .bot
  hiOrder : s.hi.queue.Pairwise fun x y => x.enqueuedAt < y.enqueuedAt
  loOrder : s.lo.queue.Pairwise fun x y => x.enqueuedAt < y.enqueuedAt

theorem sim_new (C : Nat) : Sim C (Lanes.new C) (Queue.new C) where
  degraded := rfl
  capacity := ⟨rfl, rfl, rfl⟩
  same := List.Perm.refl []
  humans := fun _ h => absurd h List.not_mem_nil
  bots := fun _ h => absurd h List.not_mem_nil
  hiOrder := List.Pairwise.nil
  loOrder := List.Pairwise.nil

theorem Sim.len {C : Nat} {s : Lanes} {t : Queue} (h : Sim C s t) : t.queue.len = s.total := by
  have := h.same.length_eq
  rw [PriorityQueue.length_queued, List.length_append] at this
  exact this

/-- A younger task goes to the end of its order. -/
theorem pairwise_snoc {l : List Task} {t : Task}
    (h : l.Pairwise fun x y => x.enqueuedAt < y.enqueuedAt)
    (ht : ∀ x ∈ l, x.enqueuedAt < t.enqueuedAt) :
    (l ++ [t]).Pairwise fun x y => x.enqueuedAt < y.enqueuedAt := by
  refine List.pairwise_append.mpr ⟨h, List.pairwise_singleton _ _, fun x hx y hy => ?_⟩
  obtain rfl := List.mem_singleton.mp hy
  exact ht x hx

/-- The oldest task of an order is the first. -/
theorem eq_head_of_le {x y : Task} {l : List Task}
    (h : (y :: l).Pairwise fun x y => x.enqueuedAt < y.enqueuedAt) (hx : x ∈ y :: l)
    (hle : x.enqueuedAt ≤ y.enqueuedAt) : x = y := by
  rcases List.mem_cons.mp hx with rfl | hx
  · rfl
  · exact absurd ((List.pairwise_cons.mp h).1 x hx) (Nat.not_lt.mpr hle)

/-- **Step lemma**, dequeue: the heap serves the task the lanes serve. -/
theorem Sim.dequeue {C : Nat} {s : Lanes} {t : Queue} (h : Sim C s t) :
    t.dequeue.2 = s.dequeue.2 ∧ Sim C s.dequeue.1 t.dequeue.1 := by
  cases hp : t.queue.pop with
  | none =>
    have hsame := h.same.symm
    rw [PriorityQueue.pop_eq_none.mp hp] at hsame
    obtain ⟨hhi, hlo⟩ := List.append_eq_nil_iff.mp hsame.eq_nil
    have hs : s.dequeue = (s, .dequeued none) := by
      simp only [Lanes.dequeue, DropOldestRing.popFront, hhi, hlo]
    have ht : t.dequeue = (t, .dequeued none) := by simp only [Queue.dequeue, hp]
    rw [hs, ht]
    exact ⟨rfl, h⟩
  | some r =>
    obtain ⟨x, q⟩ := r
    obtain ⟨hperm, hfirst, hcap, _⟩ := PriorityQueue.pop_spec hp
    have ht : t.dequeue = ({ t with queue := q }, .dequeued (some x)) := by
      simp only [Queue.dequeue, hp]
    have hx : x ∈ s.hi.queue ++ s.lo.queue :=
      h.same.mem_iff.mp (hperm.mem_iff.mpr List.mem_cons_self)
    have hserved : ∀ y ∈ s.hi.queue ++ s.lo.queue, ServedFirst x y := fun y hy =>
      hfirst y (h.same.mem_iff.mpr hy)
    cases hhi : s.hi.queue with
    | cons y rest =>
      have hs : s.dequeue = ({ s with hi := { s.hi with queue := rest } }, .dequeued (some y)) := by
        simp only [Lanes.dequeue, DropOldestRing.popFront, hhi]
      -- a task served before a Human is a Human, and no younger
      obtain ⟨hpri, hle⟩ : x.priority = .human ∧ x.enqueuedAt ≤ y.enqueuedAt := by
        have hy : y ∈ s.hi.queue := hhi ▸ List.mem_cons_self
        have hyp := h.humans y hy
        rcases hserved y (List.mem_append_left _ hy) with hlt | ⟨heq, hle⟩
        · rw [hyp] at hlt
          exact absurd hlt (not_lt.mpr (Priority.human_le _))
        · exact ⟨heq.trans hyp, hle⟩
      have hxhi : x ∈ y :: rest := by
        rcases List.mem_append.mp hx with hx | hx
        · exact hhi ▸ hx
        · exact absurd (h.bots x hx) (Priority.ne_bot.mpr hpri)
      obtain rfl := eq_head_of_le (hhi ▸ h.hiOrder) hxhi hle
      rw [hs, ht]
      refine ⟨rfl, h.degraded, ⟨h.capacity.1, h.capacity.2.1, hcap.trans h.capacity.2.2⟩, ?_, ?_,
        h.bots, ?_, h.loOrder⟩
      · have hsame := h.same
        rw [hhi, List.cons_append] at hsame
        exact (hperm.symm.trans hsame).cons_inv
      · exact fun z hz => h.humans z (hhi ▸ List.mem_cons_of_mem _ hz)
      · exact (List.pairwise_cons.mp (hhi ▸ h.hiOrder)).2
    | nil =>
      rw [hhi, List.nil_append] at hx hserved
      cases hlo : s.lo.queue with
      | nil => rw [hlo] at hx; exact absurd hx List.not_mem_nil
      | cons y rest =>
        have hs : s.dequeue =
            ({ s with lo := { s.lo with queue := rest } }, .dequeued (some y)) := by
          simp only [Lanes.dequeue, DropOldestRing.popFront, hhi, hlo]
        have hle : x.enqueuedAt ≤ y.enqueuedAt := by
          have hy : y ∈ s.lo.queue := hlo ▸ List.mem_cons_self
          rcases hserved y hy with hlt | ⟨_, hle⟩
          · rw [h.bots x hx, h.bots y hy] at hlt
            exact absurd hlt (lt_irrefl _)
          · exact hle
        obtain rfl := eq_head_of_le (hlo ▸ h.loOrder) (hlo ▸ hx) hle
        rw [hs, ht]
        refine ⟨rfl, h.degraded, ⟨h.capacity.1, h.capacity.2.1, hcap.trans h.capacity.2.2⟩, ?_,
          h.humans, ?_, h.hiOrder, ?_⟩
        · have hsame := h.same
          rw [hhi, List.nil_append, hlo] at hsame
          show q.queued.Perm (s.hi.queue ++ rest)
          rw [hhi, List.nil_append]
          exact (hperm.symm.trans hsame).cons_inv
        · exact fun z hz => h.bots z (hlo ▸ List.mem_cons_of_mem _ hz)
        · exact (List.pairwise_cons.mp (hlo ▸ h.loOrder)).2

/-- A push with room, of a task younger than all queued ones. -/
theorem Sim.push {C : Nat} {s : Lanes} {t : Queue} (h : Sim C s t) {task : Task}
    (hroom : s.total < C)
    (hyoung : ∀ x ∈ s.hi.queue ++ s.lo.queue, x.enqueuedAt < task.enqueuedAt) :
    ∃ q, t.queue.push task = some (q, .ok) ∧ (s.push task).2 = .ok ∧
      Sim C (s.push task).1 { t with queue := q } := by
  obtain ⟨q, o, hpush, hpushed⟩ := t.queue.push_spec task (by rw [h.capacity.2.2]; omega)
  -- with room for it in all, there is room in the lane, and neither side gives anything up
  have hlen := h.len
  obtain ⟨rfl, hqueued⟩ := hpushed.of_room (by rw [h.capacity.2.2]; omega)
  have hcap := hpushed.capacity_eq.trans h.capacity.2.2
  have hq := hqueued.trans (h.same.cons task)
  unfold Lanes.total DropOldestRing.len at hroom
  unfold Lanes.push
  -- the task goes to the end of its lane, and is younger than all there
  by_cases hpri : task.priority = .human
  · rw [if_pos hpri, DropOldestRing.push_of_room (by rw [h.capacity.1]; omega)]
    refine ⟨q, hpush, rfl, h.degraded, ⟨h.capacity.1, h.capacity.2.1, hcap⟩, ?_, ?_, h.bots,
      pairwise_snoc h.hiOrder fun x hx => hyoung x (List.mem_append_left _ hx), h.loOrder⟩
    · show q.queued.Perm (s.hi.queue ++ [task] ++ s.lo.queue)
      rw [List.append_assoc]
      exact hq.trans List.perm_middle.symm
    · intro x hx
      rcases List.mem_append.mp hx with hx | hx
      · exact h.humans x hx
      · rw [List.mem_singleton.mp hx]; exact hpri
  · rw [if_neg hpri, DropOldestRing.push_of_room (by rw [h.capacity.2.1]; omega)]
    refine ⟨q, hpush, rfl, h.degraded, ⟨h.capacity.1, h.capacity.2.1, hcap⟩, ?_, h.humans, ?_,
      h.hiOrder, pairwise_snoc h.loOrder fun x hx => hyoung x (List.mem_append_right _ hx)⟩
    · show q.queued.Perm (s.hi.queue ++ (s.lo.queue ++ [task]))
      rw [← List.append_assoc]
      exact hq.trans (List.perm_append_singleton _ _).symm
    · intro x hx
      rcases List.mem_append.mp hx with hx | hx
      · exact h.bots x hx
      · rw [List.mem_singleton.mp hx]; exact Priority.ne_human.mp hpri

/-- **Step lemma**: with room, and a task younger than all queued ones if one is enqueued. -/
theorem Sim.step {C : Nat} {s : Lanes} {t : Queue} (h : Sim C s t) (fromStr : Text → Option Json)
    (e : Step) (hroom : s.total < C)
    (hyoung : ∀ y, (s.step fromStr e).2.enqueued? = some y →
      ∀ x ∈ s.hi.queue ++ s.lo.queue, x.enqueuedAt < y.enqueuedAt) :
    ∃ t', t.step fromStr e = some (t', (s.step fromStr e).2) ∧ Sim C (s.step fromStr e).1 t' := by
  cases e with
  | setDegraded mode =>
    exact ⟨{ t with degraded := mode }, rfl, rfl, h.capacity, h.same, h.humans, h.bots, h.hiOrder,
      h.loOrder⟩
  | dequeue =>
    obtain ⟨hobs, hsim⟩ := h.dequeue
    refine ⟨t.dequeue.1, ?_, hsim⟩
    show some t.dequeue = some (t.dequeue.1, s.dequeue.2)
    rw [← hobs]
  | dispatch raw now =>
    simp only [Lanes.step, Lanes.dispatch, Queue.step, Queue.dispatch, h.degraded] at hyoung ⊢
    cases ha : classify fromStr raw s.degraded now with
    | skipped err => exact ⟨t, rfl, h⟩
    | shed event => exact ⟨t, rfl, h⟩
    | admitted task =>
      simp only [ha] at hyoung ⊢
      obtain ⟨q, hpush, hok, hsim⟩ := h.push hroom (hyoung task rfl)
      refine ⟨{ t with queue := q }, ?_, hsim⟩
      rw [hpush, hok, h.degraded]
      rfl

/-! ## The same observations

What is compared is what a schedule shows step by step, and not the states. -/

/-- A queued task was there before the step, or is the one it enqueued. -/
theorem mem_step {fromStr : Text → Option Json} {s : Lanes} {e : Step} {x : Task}
    (hx : x ∈ (s.step fromStr e).1.hi.queue ++ (s.step fromStr e).1.lo.queue) :
    x ∈ s.hi.queue ++ s.lo.queue ∨ (s.step fromStr e).2.enqueued? = some x := by
  cases e with
  | setDegraded mode => exact Or.inl hx
  | dequeue =>
    apply Or.inl
    simp only [Lanes.step, Lanes.dequeue, DropOldestRing.popFront] at hx
    cases hhi : s.hi.queue with
    | cons y rest =>
      simp only [hhi] at hx
      exact List.mem_cons_of_mem _ hx
    | nil =>
      cases hlo : s.lo.queue with
      | nil => simp only [hhi, hlo] at hx; exact hx
      | cons y rest =>
        simp only [hhi, hlo, List.nil_append] at hx ⊢
        exact List.mem_cons_of_mem _ hx
  | dispatch raw now =>
    simp only [Lanes.step, Lanes.dispatch] at hx ⊢
    cases ha : classify fromStr raw s.degraded now with
    | skipped err => simp only [ha] at hx; exact Or.inl hx
    | shed event => simp only [ha] at hx; exact Or.inl hx
    | admitted task =>
      simp only [ha, Lanes.push] at hx ⊢
      split at hx
      · rcases List.mem_append.mp hx with hx | hx
        · rcases DropOldestRing.mem_push hx with hx | rfl
          · exact Or.inl (List.mem_append_left _ hx)
          · exact Or.inr rfl
        · exact Or.inl (List.mem_append_right _ hx)
      · rcases List.mem_append.mp hx with hx | hx
        · exact Or.inl (List.mem_append_left _ hx)
        · rcases DropOldestRing.mem_push hx with hx | rfl
          · exact Or.inl (List.mem_append_right _ hx)
          · exact Or.inr rfl

theorem enqueued_cons (fromStr : Text → Option Json) (s : Lanes) (e : Step) (es : List Step) :
    s.enqueued fromStr (e :: es) =
      (s.step fromStr e).2.enqueued?.toList ++ (s.step fromStr e).1.enqueued fromStr es := by
  unfold Lanes.enqueued
  rw [Lanes.run, List.filterMap_cons]
  cases (s.step fromStr e).2.enqueued? <;> rfl

/-- **Run lemma**: from similar states, with room all the way and ever younger tasks. -/
theorem Sim.run {C : Nat} (fromStr : Text → Option Json) :
    ∀ (es : List Step) {s : Lanes} {t : Queue}, Sim C s t →
    (∀ pre ∈ es.inits, (s.run fromStr pre).1.total < C) →
    (s.enqueued fromStr es).Pairwise (fun x y => x.enqueuedAt < y.enqueuedAt) →
    (∀ x ∈ s.hi.queue ++ s.lo.queue, ∀ y ∈ s.enqueued fromStr es, x.enqueuedAt < y.enqueuedAt) →
    ∃ t', t.run fromStr es = some (t', (s.run fromStr es).2) := by
  intro es
  -- induction on the schedule: the tasks still to come are younger than those queued and than each
  -- other
  induction es with
  | nil => intro s t h _ _ _; exact ⟨t, rfl⟩
  | cons e es ih =>
    intro s t h hroom htimes hyoung
    rw [enqueued_cons] at htimes hyoung
    obtain ⟨_, hrest, hcross⟩ := List.pairwise_append.mp htimes
    have hnew : ∀ y, (s.step fromStr e).2.enqueued? = some y →
        y ∈ (s.step fromStr e).2.enqueued?.toList := by
      intro y hy
      rw [hy]
      exact List.mem_singleton.mpr rfl
    obtain ⟨t', hstep, hsim⟩ := h.step fromStr e
      (hroom [] ((List.mem_inits _ _).mpr List.nil_prefix))
      fun y hy x hx => hyoung x hx y (List.mem_append_left _ (hnew y hy))
    have hroom' : ∀ pre ∈ es.inits, ((s.step fromStr e).1.run fromStr pre).1.total < C :=
      fun pre hpre => hroom (e :: pre) ((List.mem_inits _ _).mpr
        (List.cons_prefix_cons.mpr ⟨rfl, (List.mem_inits _ _).mp hpre⟩))
    have hyoung' : ∀ x ∈ (s.step fromStr e).1.hi.queue ++ (s.step fromStr e).1.lo.queue,
        ∀ y ∈ (s.step fromStr e).1.enqueued fromStr es, x.enqueuedAt < y.enqueuedAt := by
      intro x hx y hy
      rcases mem_step hx with hx | hx
      · exact hyoung x hx y (List.mem_append_right _ hy)
      · exact hcross x (hnew x hx) y hy
    obtain ⟨t'', hrun⟩ := ih hsim hroom' hrest hyoung'
    refine ⟨t'', ?_⟩
    simp only [Queue.run, hstep, Option.bind_eq_bind, Option.bind_some, hrun]
    rfl

/-- **The two pipelines schedule alike.**  On every schedule whose tasks get strictly increasing
    times, and during which fewer than `C` tasks are queued, the heap never panics and shows what
    the two rings show at every step: the same payloads skipped, shed and enqueued, the same
    outcomes, and the same tasks dequeued.

    The simulation `Sim` along the schedule: Human tasks in `hi`, Bot tasks in `lo`, each in order
    of time, and together what the heap holds.  Room and increasing times are what a push needs to
    keep it. -/
theorem schedule_alike (fromStr : Text → Option Json) (C : Nat) (es : List Step)
    (hroom : ∀ pre ∈ es.inits, ((Lanes.new C).run fromStr pre).1.total < C)
    (htimes : ((Lanes.new C).enqueued fromStr es).Pairwise
      fun x y => x.enqueuedAt < y.enqueuedAt) :
    ((Queue.new C).run fromStr es).map Prod.snd = some ((Lanes.new C).run fromStr es).2 := by
  obtain ⟨t', ht⟩ := (sim_new C).run fromStr es hroom htimes
    fun x hx => absurd hx List.not_mem_nil
  rw [ht]
  rfl

/-- A Bot payload, a Human payload and two dequeues: the Human task comes first in both. -/
theorem schedule_alike_two :
    let bot := "\x7b\"user\":\"u\",\"bot\":true,\"server_name\":\"w\"\x7d".toList
    let human := "\x7b\"user\":\"u\",\"server_name\":\"w\"\x7d".toList
    let fromStr := fun raw : Text =>
      if raw = human then some (Json.obj [("user", .str "u"), ("server_name", .str "w")])
      else if raw = bot then
        some (Json.obj [("user", .str "u"), ("bot", .bool true), ("server_name", .str "w")])
      else none
    ((Queue.new 3).run fromStr [.dispatch bot 1, .dispatch human 2, .dequeue, .dequeue]).map
        Prod.snd =
      some ((Lanes.new 3).run fromStr
        [.dispatch bot 1, .dispatch human 2, .dequeue, .dequeue]).2 :=
  schedule_alike _ 3 _ (by decide) (by decide)

end RtsPipeline.Equivalence
