/-
  How long a Human task waits in its lane.

  Human tasks do not always come first: a worker may be past its look at `hi` when the task arrives.
  But it can take one Bot task only.  The next `select!` of the worker starts with a fresh pop of
  `hi`, and finds the lane not empty.  The Human tasks ahead are those that arrived before.

  What makes a worker take a Bot task in front of a Human one is a pop of `hi` that does not look at
  the queue when it is polled: it is about to register, or it is registered and was not woken.
  `committed` counts that as one Bot task the worker may still take.  Taking it uses it up, since
  the pop of `hi` is dropped then and the next one is fresh; and while the lane of Human tasks is
  not empty nothing makes it one again, because a fresh pop looks, finds a task and wins.  So it is
  a number that only goes down, and it is one at most to begin with.

  The place of the waiting task in its lane goes down with every Human task dequeued.  A push moves
  it forward, if at all: a full lane gives up its front.

  1. `committed` — the Bot task a worker may still take with a task in `hi`.
  2. `Stepped.waits` — what one step does to that, and to the place of a task in `hi`.
  3. `human_waits_async` — one Bot task for each worker at most, and the Human tasks ahead.
-/
import RtsPipeline.Async.Pipeline
import RtsPipeline.Lib.Timed

namespace RtsPipeline.Async

open Lib

variable {α : Type} {m : Nat}

/-- The pop does not look at the queue when it is polled next. -/
def dozes : PopPc → Bool
  | .arm | .parked => true
  | .create | .check => false

/-- The Bot tasks that a worker may take before it looks at `hi` again, when its pop of `hi` stands
    at `pc`. -/
def Focus.committed (pc : PopPc) : Focus α → Nat
  | .polling .lo => 1
  | .suspended | .polling .hi | .body _ _ | .won .hi _ => (dozes pc).toNat
  | .won .lo _ | .leaving _ | .exited => 0

theorem Focus.committed_le (pc : PopPc) (f : Focus α) : f.committed pc ≤ 1 := by
  unfold committed
  split
  · exact Nat.le_refl _
  all_goals first | exact Bool.toNat_le _ | exact Nat.zero_le _

def Worker.committed (w : Worker α) : Nat := w.focus.committed (w.pops .hi)

/-- A dequeue of a Bot task by this worker. -/
def botBy (i : Fin m) (d : Fin m × Lane × α) : Bool := decide (d.1 = i ∧ d.2.1 = .lo)

/-- A dequeue of a Human task. -/
def fromHi (d : Fin m × Lane × α) : Bool := decide (d.2.1 = .hi)

namespace Pool

variable [DecidableEq α] {s s' : Pool α m} {e : PoolEvent α m} {t : α}

/-- The place of a task in `hi`. -/
def place (s : Pool α m) (t : α) : Nat := (s.lanes .hi).queue.idxOf t

/-- A push behind a task moves it up, if it moves it at all. -/
theorem idxOf_push_le {ι : Type} {r : DropOldestRing α ι} {x : α} (hne : x ≠ t)
    (hnodup : r.queue.Nodup) (ht : t ∈ (r.push x).1.queue) :
    (r.push x).1.queue.idxOf t ≤ r.queue.idxOf t := by
  have hold : t ∈ r.queue := (DropOldestRing.mem_push ht).resolve_right fun he => hne he.symm
  unfold DropOldestRing.push at ht ⊢
  split at ht
  next hfull =>
    rw [if_pos hfull]
    show (r.queue.tail ++ [x]).idxOf t ≤ _
    have htail : t ∈ r.queue.tail :=
      (List.mem_append.mp ht).resolve_right fun he => hne (List.mem_singleton.mp he).symm
    rw [List.idxOf_append_of_mem htail]
    -- the item dropped is another one
    cases hq : r.queue with
    | nil => exact Nat.le_refl _
    | cons v rest =>
      rw [hq] at htail hnodup
      have hv : v ≠ t := fun he => (List.nodup_cons.mp hnodup).1 (he ▸ htail)
      rw [List.idxOf_cons_ne _ hv]
      exact Nat.le_succ _
  next hroom =>
    rw [if_neg hroom]
    exact Nat.le_of_eq (List.idxOf_append_of_mem hold)

/-- One step, a Human task waiting: a Bot task taken was the one its worker was committed to, and a
    Human task taken was ahead.  Stated of two states and not of a step, so that it adds up along a
    run (`Waits.trans`). -/
structure Waits (s s' : Pool α m) (t : α) : Prop where
  taken : ∃ new, s'.log.dequeued = s.log.dequeued ++ new ∧
    (∀ i, new.countP (botBy i) + (s'.workers i).committed ≤ (s.workers i).committed) ∧
    new.countP fromHi + s'.place t ≤ s.place t

/-- A step that dequeues nothing. -/
theorem Waits.idle (hlog : s'.log.dequeued = s.log.dequeued)
    (hplace : s'.place t ≤ s.place t)
    (hworkers : ∀ i, (s'.workers i).committed ≤ (s.workers i).committed) : Waits s s' t where
  taken := ⟨[], by rw [hlog, List.append_nil], fun i => by
    rw [List.countP_nil, Nat.zero_add]
    exact hworkers i, by rw [List.countP_nil, Nat.zero_add]; exact hplace⟩

theorem Waits.trans {u : Pool α m} (h : Waits s u t) (h' : Waits u s' t) : Waits s s' t := by
  obtain ⟨first, hlog, hbots, hplace⟩ := h.taken
  obtain ⟨more, hlog', hbots', hplace'⟩ := h'.taken
  refine ⟨first ++ more, by rw [hlog', hlog, List.append_assoc], fun i => ?_, ?_⟩
  · have := hbots i
    have := hbots' i
    rw [List.countP_append]
    omega
  · rw [List.countP_append]
    omega

omit [DecidableEq α] in
/-- One worker moves. -/
theorem committed_moved {u : Pool α m} {i : Fin m} {w : Worker α} {f : Focus α}
    (hu : u.workers = Function.update s.workers i w) (hf : (s.workers i).focus = f)
    (hw : w.focus.committed (w.pops .hi) ≤ f.committed ((s.workers i).pops .hi)) (j : Fin m) :
    (u.workers j).committed ≤ (s.workers j).committed := by
  rw [hu]
  by_cases hj : j = i
  · subst hj
    rw [Function.update_self, Worker.committed, Worker.committed, hf]
    exact hw
  · rw [Function.update_of_ne hj]

/-- The place depends on the queue of `hi` only. -/
theorem place_setLane {lane : Lane} {r : DropOldestRing α (Fin m)} {u : Pool α m}
    (hu : u.lanes = Function.update s.lanes lane r) (hr : r.queue = (s.lanes lane).queue) :
    u.place t = s.place t := by
  show (u.lanes .hi).queue.idxOf t = _
  rw [hu]
  by_cases hl : Lane.hi = lane
  · subst hl
    rw [Function.update_self, hr]
    rfl
  · rw [Function.update_of_ne hl]
    rfl

/-- **Step lemma** for a task that waits in `hi`. -/
theorem Stepped.waits (h : Stepped s e s') (hin : t ∈ (s.lanes .hi).queue)
    (hin' : t ∈ (s'.lanes .hi).queue) (hnodup : (s.lanes .hi).queue.Nodup)
    (hfresh : ∀ lane x, e = .push lane x → x ≠ t) : Waits s s' t := by
  have hne : (s.lanes .hi).queue ≠ [] := List.ne_nil_of_mem hin
  have hlo : ∀ (pops : Lane → PopPc) (pc : PopPc), Function.update pops .lo pc .hi = pops .hi :=
    fun pops pc => Function.update_of_ne (by decide) ..
  -- a pop of `hi` that is dropped or starts anew commits to nothing
  have hcreate : ∀ (pops : Lane → PopPc) (k : Nat),
      (dozes (Function.update pops .hi .create .hi)).toNat ≤ k := fun pops k => by
    rw [Function.update_self]
    exact Nat.zero_le _
  cases h with
  | push lane x =>
    refine .idle rfl ?_ fun _ => Nat.le_refl _
    show (Function.update s.lanes lane _ .hi).queue.idxOf t ≤ _
    change t ∈ (Function.update s.lanes lane _ .hi).queue at hin'
    by_cases hl : Lane.hi = lane
    · subst hl
      rw [Function.update_self] at hin' ⊢
      exact idxOf_push_le (hfresh _ _ rfl) hnodup hin'
    · rw [Function.update_of_ne hl]
      exact Nat.le_refl _
  | cancel => exact .idle rfl (Nat.le_refl _) fun _ => Nat.le_refl _
  | leave i focus fired =>
    exact .idle rfl (Nat.le_refl _) (committed_moved rfl focus (Nat.zero_le _))
  | begin i focus fired =>
    exact .idle rfl (Nat.le_refl _) (committed_moved rfl focus (Nat.le_refl _))
  | create i lane focus pc =>
    refine .idle rfl (Nat.le_refl _) (committed_moved rfl focus ?_)
    cases lane with
    | hi =>
      show (dozes (Function.update (s.workers i).pops .hi .check .hi)).toNat ≤ _
      rw [Function.update_self]
      exact Nat.zero_le _
    | lo => exact Nat.le_refl _
  | pop i lane task rest focus pc queue =>
    refine ⟨[(i, lane, task)], rfl, fun j => ?_, ?_⟩
    · show _ + (Function.update s.workers i _ j).committed ≤ _
      have hnone : ∀ {l : Lane}, ¬ (i = j ∧ l = .lo) →
          [(i, l, task)].countP (botBy j) = 0 := fun h =>
        List.countP_eq_zero.mpr fun d hd => by
          rw [List.mem_singleton.mp hd]
          simpa [botBy] using h
      by_cases hj : j = i
      · subst hj
        rw [Function.update_self]
        cases lane with
        | hi =>
          rw [hnone (by simp), Nat.zero_add]
          exact hcreate (s.workers j).pops _
        | lo =>
          -- the task it was committed to
          have hone : (s.workers j).committed = 1 := by
            rw [Worker.committed, focus]
            rfl
          rw [hone]
          exact List.countP_le_length
      · rw [Function.update_of_ne hj, hnone fun h => hj h.1.symm, Nat.zero_add]
    · cases lane with
      | hi =>
        have hin' : t ∈ rest := hin'
        rw [queue] at hnodup
        have htask : task ≠ t := fun he => (List.nodup_cons.mp hnodup).1 (he ▸ hin')
        show 1 + rest.idxOf t ≤ (s.lanes .hi).queue.idxOf t
        rw [queue, List.idxOf_cons_ne _ htask]
        omega
      | lo =>
        show 0 + (s.lanes .hi).queue.idxOf t ≤ (s.lanes .hi).queue.idxOf t
        omega
  | empty i lane focus pc queue =>
    refine .idle rfl (Nat.le_refl _) (committed_moved rfl focus ?_)
    cases lane with
    | hi => exact absurd queue hne
    | lo => exact Nat.le_refl _
  | permit i lane focus pc permit =>
    refine .idle rfl (Nat.le_of_eq (place_setLane rfl rfl)) (committed_moved rfl focus ?_)
    cases lane with
    | hi => exact hcreate (s.workers i).pops _
    | lo => exact Nat.le_refl _
  | register i lane focus pc permit =>
    refine .idle rfl (Nat.le_of_eq (place_setLane rfl rfl)) (committed_moved rfl focus ?_)
    cases lane with
    | hi => exact Nat.le_of_eq (congrArg (fun pc => (dozes pc).toNat) pc.symm)
    | lo => exact Focus.committed_le _ _
  | woken i lane focus pc notified =>
    refine .idle rfl (Nat.le_of_eq (place_setLane rfl rfl)) (committed_moved rfl focus ?_)
    cases lane with
    | hi => exact hcreate (s.workers i).pops _
    | lo => exact Nat.le_refl _
  | still i lane focus pc notified =>
    refine .idle rfl (Nat.le_refl _) (committed_moved rfl focus ?_)
    cases lane with
    | hi => exact Nat.le_of_eq (congrArg (fun pc => (dozes pc).toNat) pc.symm)
    | lo => exact Focus.committed_le _ _
  | lose i lane task focus =>
    refine .idle rfl (Nat.le_of_eq (place_setLane rfl rfl)) (committed_moved rfl focus ?_)
    cases lane with
    | hi => exact Nat.le_of_eq (congrArg (fun pc => (dozes pc).toNat)
      (hlo (s.workers i).pops .create))
    | lo => exact hcreate (s.workers i).pops _
  | call i task b todo focus =>
    exact .idle rfl (Nat.le_refl _) (committed_moved rfl focus (Nat.le_refl _))
  | finish i task focus =>
    exact .idle rfl (Nat.le_refl _) (committed_moved rfl focus (Nat.le_refl _))
  | leaveHi i focus =>
    refine .idle rfl (Nat.le_of_eq (place_setLane rfl rfl)) (committed_moved rfl focus ?_)
    exact Nat.zero_le _
  | leaveLo i focus =>
    refine .idle rfl (Nat.le_of_eq (place_setLane rfl rfl)) (committed_moved rfl focus ?_)
    exact Nat.zero_le _

omit [DecidableEq α] in
/-- **Step lemma**: no lane outgrows its capacity. -/
theorem Stepped.roomy {C : Nat} (hC : 0 < C) (h : Stepped s e s')
    (hcap : ∀ k, (s.lanes k).capacity = C) (hlen : ∀ k, (s.lanes k).queue.length ≤ C)
    (k : Lane) : (s'.lanes k).queue.length ≤ C := by
  -- whatever happens to the notification of a lane, its queue is as long as before
  have hkept : ∀ {lane : Lane} (n : Notify (Fin m)),
      (Function.update s.lanes lane { s.lanes lane with notify := n } k).queue.length ≤ C :=
    fun n => (congrArg List.length (lane_kept n k).1).trans_le (hlen k)
  cases h with
  -- only a push lengthens a queue, and a push keeps the bound
  | push lane task =>
    show (Function.update s.lanes lane _ k).queue.length ≤ C
    by_cases hk : k = lane
    · subst hk
      rw [Function.update_self]
      have hroom : 0 < (s.lanes k).capacity := by rw [hcap k]; exact hC
      have hpush := (s.lanes k).push_len_le task hroom (by rw [hcap k]; exact hlen k)
      rw [DropOldestRing.push_capacity, hcap k] at hpush
      exact hpush
    · rw [Function.update_of_ne hk]
      exact hlen k
  | pop i lane task rest focus pc queue =>
    show (Function.update s.lanes lane _ k).queue.length ≤ C
    by_cases hk : k = lane
    · subst hk
      rw [Function.update_self]
      have := hlen k
      rw [queue, List.length_cons] at this
      exact Nat.le_of_succ_le this
    · rw [Function.update_of_ne hk]
      exact hlen k
  | permit | register | woken | lose | leaveHi | leaveLo => exact hkept _
  | _ => exact hlen k

omit [DecidableEq α] in
theorem roomy_of_reachable {C : Nat} (hC : 0 < C) (h : Reachable step (start α m C) s) (k : Lane) :
    (s.lanes k).queue.length ≤ C := by
  have hboth : Accounted C s ∧ ∀ k, (s.lanes k).queue.length ≤ C := by
    refine h.invariant (I := fun s => Accounted C s ∧ ∀ k, (s.lanes k).queue.length ≤ C)
      ⟨accounted_start C, fun _ => Nat.zero_le _⟩ fun u e u' hI hs => ?_
    have hs' := step_eq_some.mp hs
    exact ⟨hI.1.step hC hs', hs'.roomy hC hI.1.capacity hI.2⟩
  exact hboth.2 k

end Pool

/-! ## In a run of the pipeline

The pool's lemma asks for the tasks in `hi` to be told apart.  In the pipeline they are, by their
serial numbers, and this is what a run of the pipeline adds. -/

namespace System

variable {fromStr : Text → Option Json} {s s' : System m} {e : SystemEvent m}

/-- What a step of the system does to the pool; a task pushed is a new one. -/
theorem pool_moved (h : s.step fromStr e = some s') :
    s'.pool = s.pool ∨ ∃ pe, Pool.Stepped s.pool pe s'.pool ∧
      ∀ lane x, pe = .push lane x → x.serial = s.accepted.length := by
  cases stepped_of_step h with
  | dispatch raw now nowNs _ done =>
    cases done with
    | skipped rejected => exact Or.inl rfl
    | shed event now nowNs accepted bot degraded => exact Or.inl rfl
    | pushed event now nowNs accepted =>
      refine Or.inr ⟨_, .push _ _, fun lane x hx => ?_⟩
      obtain ⟨rfl, rfl⟩ := PoolEvent.push.inj hx
      rfl
  | tick p99 => exact Or.inl rfl
  | work i pool moved =>
    exact Or.inr ⟨_, Pool.step_eq_some.mp moved, fun _ _ hx => by cases hx⟩
  | cancel => exact Or.inr ⟨_, .cancel, fun _ _ hx => by cases hx⟩

/-- The entries in `hi` are told apart, they are no more than the capacity, and none of them is the
    next that is dispatched.  Two tasks may be equal in all that the code keeps of them; the serial
    number of an entry is there so that "the place of the task" means one place. -/
structure Told (C : Nat) (s : System m) : Prop where
  nodup : (s.pool.lanes .hi).queue.Nodup
  room : (s.pool.lanes .hi).queue.length ≤ C
  old : ∀ x ∈ (s.pool.lanes .hi).queue, x.serial < s.accepted.length

/-- No entry is in two places, the queue of `hi` is one of these, and an accepted entry's serial
    number is its position. -/
theorem told_of_reachable {C : Nat} (hC : 0 < C)
    (h : Reachable (step fromStr) (start m C) s) : Told C s := by
  obtain ⟨ls, hls⟩ := h
  have hplaced : Placed s :=
    run_invariant (fun _ _ _ hI hs => hI.step hs) ls _ s (placed_start C) hls
  have hreach : Reachable Pool.step (Pool.start Entry m C) s.pool := by
    obtain ⟨ps, hps, _⟩ := pool_run ls hls
    exact ⟨ps, hps⟩
  have hacc := Pool.accounted_of_reachable hC hreach
  have honce := (exactlyOnce_of_placed hplaced hacc).once
  refine ⟨?_, Pool.roomy_of_reachable hC hreach .hi, fun x hx => ?_⟩
  · have hsub : (s.pool.lanes .hi).queue.Sublist s.places := by
      unfold places
      refine List.Sublist.trans ?_ (List.sublist_append_left _ _)
      exact (List.sublist_append_left _ _).trans (List.sublist_append_right _ _)
    exact hsub.nodup honce
  · -- it was pushed, so it was accepted, and the serial numbers are the positions
    have hpushed : x ∈ s.pool.log.pushed .hi :=
      (hacc.lane .hi).mem_iff.mpr (List.mem_append_left _ (List.mem_append_right _ hx))
    have haccepted : x ∈ s.accepted :=
      hplaced.split.mem_iff.mpr (List.mem_append_right _ (List.mem_append_left _ hpushed))
    have hserial := List.mem_map_of_mem (f := Entry.serial) haccepted
    rw [hplaced.serials] at hserial
    exact List.mem_range.mp hserial

/-- **Step lemma** for an entry that waits in `hi`. -/
theorem waits_step {C : Nat} {t : Entry} (h : s.step fromStr e = some s') (told : Told C s)
    (hin : t ∈ (s.pool.lanes .hi).queue) (hin' : t ∈ (s'.pool.lanes .hi).queue) :
    Pool.Waits s.pool s'.pool t := by
  rcases pool_moved h with hsame | ⟨pe, hstep, hserial⟩
  · rw [hsame]
    exact .idle rfl (Nat.le_refl _) fun _ => Nat.le_refl _
  · refine hstep.waits hin hin' told.nodup fun lane x hx he => ?_
    have hold := told.old t hin
    rw [← he, hserial lane x hx] at hold
    exact absurd hold (Nat.lt_irrefl _)

/-- **Run lemma** for an entry that waits in `hi`. -/
theorem waits_run {C : Nat} (hC : 0 < C) {t : Entry} :
    ∀ (ms : List (SystemEvent m)) (s s' : System m), Reachable (step fromStr) (start m C) s →
    Throughout (step fromStr) (fun u => t ∈ (u.pool.lanes .hi).queue) s ms →
    run (step fromStr) s ms = some s' → Pool.Waits s.pool s'.pool t := by
  intro ms
  induction ms with
  | nil =>
    intro s s' _ _ h
    obtain rfl := Option.some.inj h
    exact .idle rfl (Nat.le_refl _) fun _ => Nat.le_refl _
  | cons e ms ih =>
    intro s s' hreach hwaits h
    obtain ⟨u, hs, hr⟩ := run_cons_some.mp h
    have hrest := hwaits.tail hs
    have hone := waits_step hs (told_of_reachable hC hreach) hwaits.head hrest.head
    exact hone.trans (ih u s' (hreach.tail hs) hrest hr)

/-- **A Human task lets one Bot task of each worker pass, and as many Human tasks as are ahead of
    it.**  As long as it is queued, whatever else arrives and however the workers are scheduled, no
    worker dequeues two Bot tasks, and the Human tasks dequeued are no more than its place in the
    lane has gone down by: they are counted, not named.  Its place is below the capacity.

    `Waits` is kept from step to step and chained along the run: the Bot tasks taken are those that
    their workers were committed to, and each Human task taken moves the waiting one forward. -/
theorem human_waits_async (fromStr : Text → Option Json) (m C : Nat) (hC : 0 < C)
    (ls : List (SystemEvent m)) (s : System m) (h : run (step fromStr) (start m C) ls = some s)
    (t : Entry) (ms : List (SystemEvent m)) (s' : System m)
    (waits : Throughout (step fromStr) (fun u => t ∈ (u.pool.lanes .hi).queue) s ms)
    (h' : run (step fromStr) s ms = some s') :
    ∃ served, s'.pool.log.dequeued = s.pool.log.dequeued ++ served ∧
      (∀ i, served.countP (botBy i) ≤ 1) ∧
      served.countP fromHi + s'.pool.place t ≤ s.pool.place t ∧ s.pool.place t < C := by
  have hreach : Reachable (step fromStr) (start m C) s := ⟨ls, h⟩
  obtain ⟨served, hlog, hbots, hplace⟩ := (waits_run hC ms s s' hreach waits h').taken
  refine ⟨served, hlog, fun i => ?_, hplace, ?_⟩
  -- a worker is past `hi` with one poll at most
  · have hone := Focus.committed_le ((s.pool.workers i).pops .hi) (s.pool.workers i).focus
    have hcount := hbots i
    rw [Worker.committed] at hcount
    exact Nat.le_trans (Nat.le_of_add_right_le hcount) hone
  · exact Nat.lt_of_lt_of_le (List.idxOf_lt_length_of_mem waits.head)
      (told_of_reachable hC hreach).room

/-- The only worker has looked at `hi` when the Human task arrives, and takes a Bot task first. -/
theorem human_waits_async_passed :
    let human := "human".toList
    let bot := "bot".toList
    let fromStr := fun raw => some (Json.obj [("user", .str "u"), ("bot", .bool (raw == bot)),
      ("server_name", .str "w")])
    ∃ s s' : System 1,
      run (step fromStr) (start 1 2)
        ([.dispatch bot 1 1] ++ List.replicate 4 (.work 0) ++ [.dispatch human 2 2]) = some s ∧
      run (step fromStr) s [.work 0, .work 0] = some s' ∧
      ∃ served, s'.pool.log.dequeued = s.pool.log.dequeued ++ served ∧
        served.countP (botBy 0) ≤ 1 ∧ served.countP fromHi < 2 := by
  intro human bot fromStr
  let t : Entry :=
    { serial := 1
      task := { event := ⟨"u", false, "w"⟩, priority := .human, enqueuedAt := 2 }
      degraded := false }
  obtain ⟨s, hs, hstate⟩ := Option.map_eq_some_iff.mp
    (show (run (step fromStr) (start 1 2)
        ([.dispatch bot 1 1] ++ List.replicate 4 (.work 0) ++ [.dispatch human 2 2])).map
      (fun s : System 1 => ((run (step fromStr) s [.work 0, .work 0]).isSome,
        decide (Throughout (step fromStr) (fun u => t ∈ (u.pool.lanes .hi).queue) s
          [.work 0, .work 0]))) = some (true, true) from by decide +kernel)
  obtain ⟨hsome, hwaits⟩ := Prod.mk.inj hstate
  obtain ⟨s', hs'⟩ := Option.isSome_iff_exists.mp hsome
  obtain ⟨served, hlog, hbots, hplace, hroom⟩ :=
    human_waits_async fromStr 1 2 (by decide) _ s hs t _ s' (of_decide_eq_true hwaits) hs'
  exact ⟨s, s', hs, hs', served, hlog, hbots 0,
    Nat.lt_of_le_of_lt (Nat.le_of_add_right_le hplace) hroom⟩

end System

end RtsPipeline.Async
