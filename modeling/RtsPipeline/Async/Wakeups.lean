/-
  Which wake-ups the worker pool can miss: none that matters.

  A pop that looks at its wake-up only, a `select!` that drops the losing pop with a wake-up in it,
  and a notification that stores one permit at most: each could leave a task in a lane with every
  worker asleep.  None does, because of one invariant for each lane.

  1. `PopStepped` — all a step of the pool does to one lane and the pops on it.
  2. `Covered` — when the lane holds a task, a wake-up is on its way or some worker's pop is about
     to look.  A push creates the wake-up; a pop that consumes one goes on to look; a dropped pop
     passes its wake-up on.
  3. `Registered` — a pop that is parked is registered or woken.
  4. `no_stranded_task` — so the workers are never all asleep in front of a task.
-/
import RtsPipeline.Async.Scheduler

namespace RtsPipeline.Async

open Lib

/-! ## One lane and the pops on it

The invariants speak of one lane at a time, and a worker has a pop on each.  So a step of the pool
is first cut down to what it does to one lane, and there it is one of nine things.  The other lane's
share of the step is `elsewhere`, or a pop that is dropped. -/

section Lane

variable {α ι : Type} [DecidableEq ι]

/-- What a step does to one ring and to where everybody's pop of it stands. -/
inductive PopStepped (r : DropOldestRing α ι) (pcs : ι → PopPc) :
    DropOldestRing α ι → (ι → PopPc) → Prop
  | elsewhere : PopStepped r pcs r pcs
  | push (task : α) : PopStepped r pcs (r.push task).1 pcs
  | create (i : ι) (pc : pcs i = .create) : PopStepped r pcs r (Function.update pcs i .check)
  | pop (i : ι) (task : α) (rest : List α) (pc : pcs i = .check) (queue : r.queue = task :: rest) :
      PopStepped r pcs { r with queue := rest } (Function.update pcs i .create)
  | empty (i : ι) (pc : pcs i = .check) (queue : r.queue = []) :
      PopStepped r pcs r (Function.update pcs i .arm)
  | permit (i : ι) (pc : pcs i = .arm) (permit : r.notify.permit = true) :
      PopStepped r pcs { r with notify := r.notify.consume } (Function.update pcs i .create)
  | register (i : ι) (pc : pcs i = .arm) (permit : r.notify.permit = false) :
      PopStepped r pcs { r with notify := r.notify.register i } (Function.update pcs i .parked)
  | woken (i : ι) (pc : pcs i = .parked) (notified : i ∈ r.notify.notified) :
      PopStepped r pcs { r with notify := r.notify.acknowledge i } (Function.update pcs i .create)
  | drop (i : ι) : PopStepped r pcs (r.cancelPop i) (Function.update pcs i .create)

/-- A task in the ring has somebody on the way to it: a wake-up that nobody has used yet, or a pop
    that will look at the queue before it goes to sleep.

    A push keeps it, since `notify_one` leaves a wake-up.  A pop that uses a wake-up up is about to
    look from then on.  A pop that takes a task stands at `create` again.  And a pop that goes to
    sleep has seen an empty queue; if a task came after that, its push found nobody waiting and
    stored the permit, and then the pop does not go to sleep. -/
def Covered (r : DropOldestRing α ι) (pcs : ι → PopPc) : Prop :=
  r.queue ≠ [] → r.notify.Pending ∨ ∃ i, pcs i = .create ∨ pcs i = .check

/-- The pops parked at the ring are registered or woken.  With `Covered` this says what a wake-up
    that is on its way is worth: it is at a pop of a worker that can be polled. -/
def Registered (r : DropOldestRing α ι) (pcs : ι → PopPc) : Prop :=
  ∀ i, pcs i = .parked → i ∈ r.notify.futures

/-- Where the step leaves a pop about to look. -/
theorem covered_update (r : DropOldestRing α ι) {pcs : ι → PopPc} (i : ι) {pc : PopPc}
    (h : pc = .create ∨ pc = .check) : Covered r (Function.update pcs i pc) := by
  intro _
  refine Or.inr ⟨i, ?_⟩
  rw [Function.update_self]
  exact h

/-- **Step lemma** for `Covered`. -/
theorem Covered.step {r r' : DropOldestRing α ι} {pcs pcs' : ι → PopPc} (h : Covered r pcs)
    (hs : PopStepped r pcs r' pcs') : Covered r' pcs' := by
  cases hs with
  | elsewhere => exact h
  | push task =>
    intro _
    apply Or.inl
    rw [DropOldestRing.push_notify]
    exact Notify.pending_notifyOne _
  | create i pc => exact covered_update _ i (Or.inr rfl)
  | pop i task rest pc queue => exact covered_update _ i (Or.inl rfl)
  | empty i pc queue => exact fun hq => absurd queue hq
  | permit i pc permit => exact covered_update _ i (Or.inl rfl)
  | register i pc permit =>
    -- the pop that goes to sleep was not about to look, and took no wake-up with it
    intro hq
    rcases h hq with (hp | hn) | ⟨j, hj⟩
    · rw [permit] at hp; cases hp
    · exact Or.inl (Or.inr hn)
    · have hji : j ≠ i := by
        rintro rfl
        rcases hj with hj | hj <;> rw [pc] at hj <;> cases hj
      refine Or.inr ⟨j, ?_⟩
      rw [Function.update_of_ne hji]
      exact hj
  | woken i pc notified => exact covered_update _ i (Or.inl rfl)
  | drop i => exact covered_update _ i (Or.inl rfl)

/-- Where one pop moves to where it is not parked, and nobody else's future goes. -/
theorem Registered.move {r r' : DropOldestRing α ι} {pcs : ι → PopPc} (h : Registered r pcs)
    {i : ι} {pc : PopPc} (hpc : pc ≠ .parked)
    (hf : ∀ j, j ≠ i → j ∈ r.notify.futures → j ∈ r'.notify.futures) :
    Registered r' (Function.update pcs i pc) := by
  intro j hj
  by_cases hji : j = i
  · subst hji
    rw [Function.update_self] at hj
    exact absurd hj hpc
  · rw [Function.update_of_ne hji] at hj
    exact hf j hji (h j hj)

/-- **Step lemma** for `Registered`. -/
theorem Registered.step {r r' : DropOldestRing α ι} {pcs pcs' : ι → PopPc}
    (h : Registered r pcs) (hs : PopStepped r pcs r' pcs') : Registered r' pcs' := by
  cases hs with
  | elsewhere => exact h
  | push task =>
    intro i hi
    rw [DropOldestRing.push_notify, (Notify.futures_notifyOne _).mem_iff]
    exact h i hi
  | create i pc => exact h.move (by simp) fun _ _ hj => hj
  | pop i task rest pc queue => exact h.move (by simp) fun _ _ hj => hj
  | empty i pc queue => exact h.move (by simp) fun _ _ hj => hj
  | permit i pc permit => exact h.move (by simp) fun _ _ hj => hj
  | register i pc permit =>
    intro j hj
    rw [(Notify.futures_register _ i).mem_iff]
    by_cases hji : j = i
    · subst hji; exact List.mem_cons_self
    · rw [Function.update_of_ne hji] at hj
      exact List.mem_cons_of_mem _ (h j hj)
  | woken i pc notified =>
    refine h.move (by simp) fun j hji hj => ?_
    rw [(Notify.futures_acknowledge notified).mem_iff] at hj
    exact (List.mem_cons.mp hj).resolve_left hji
  | drop i => exact h.move (by simp) fun j hji hj => Notify.mem_futures_dropFuture hji hj

end Lane

namespace Pool

variable {α : Type} {m : Nat}

/-- Where everybody's pop of one lane stands. -/
def pops (s : Pool α m) (k : Lane) (i : Fin m) : PopPc := (s.workers i).pops k

/-- A worker moves, and keeps its pops. -/
theorem lane_of_kept {s s' : Pool α m} {i : Fin m} {f : Focus α} (k : Lane)
    (hl : s'.lanes = s.lanes)
    (hw : s'.workers = Function.update s.workers i ⟨f, (s.workers i).pops⟩) :
    PopStepped (s.lanes k) (s.pops k) (s'.lanes k) (s'.pops k) := by
  have hp : s'.pops k = s.pops k := by
    funext j
    unfold pops
    rw [hw]
    by_cases hj : j = i
    · subst hj; rw [Function.update_self]
    · rw [Function.update_of_ne hj]
  rw [hl, hp]
  exact .elsewhere

/-- A worker moves its pop of one lane. -/
theorem lane_of_moved {s s' : Pool α m} {i : Fin m} {f : Focus α} {lane : Lane} {pc : PopPc}
    {r : DropOldestRing α (Fin m)} (k : Lane)
    (hl : s'.lanes = Function.update s.lanes lane r)
    (hw : s'.workers =
      Function.update s.workers i ⟨f, Function.update (s.workers i).pops lane pc⟩)
    (hp : PopStepped (s.lanes lane) (s.pops lane) r (Function.update (s.pops lane) i pc)) :
    PopStepped (s.lanes k) (s.pops k) (s'.lanes k) (s'.pops k) := by
  -- on the lane of the pop it is the step given, on the other one nothing happens
  by_cases hk : k = lane
  · have hpops : s'.pops k = Function.update (s.pops k) i pc := by
      funext j
      unfold pops
      rw [hw, hk]
      by_cases hj : j = i
      · subst hj
        rw [Function.update_self, Function.update_self]
        exact Function.update_self lane pc (s.workers j).pops
      · rw [Function.update_of_ne hj, Function.update_of_ne hj]
    rw [hl, hpops, hk, Function.update_self]
    exact hp
  · have hpops : s'.pops k = s.pops k := by
      funext j
      unfold pops
      rw [hw]
      by_cases hj : j = i
      · subst hj
        rw [Function.update_self]
        exact Function.update_of_ne hk pc (s.workers j).pops
      · rw [Function.update_of_ne hj]
    rw [hl, hpops, Function.update_of_ne hk]
    exact .elsewhere

/-- What a step of the pool does to one lane. -/
theorem Stepped.lane {s s' : Pool α m} {e : PoolEvent α m} (h : Stepped s e s') (k : Lane) :
    PopStepped (s.lanes k) (s.pops k) (s'.lanes k) (s'.pops k) := by
  -- where only a pop moves, the lane is replaced by itself
  have hself : ∀ l, s.lanes = Function.update s.lanes l (s.lanes l) := fun l =>
    (Function.update_eq_self l s.lanes).symm
  cases h with
  | push lane task =>
    show PopStepped (s.lanes k) (s.pops k)
      (Function.update s.lanes lane ((s.lanes lane).push task).1 k) (s.pops k)
    by_cases hk : k = lane
    · rw [hk, Function.update_self]; exact .push task
    · rw [Function.update_of_ne hk]; exact .elsewhere
  | cancel => exact .elsewhere
  | leave i focus fired => exact lane_of_kept k rfl rfl
  | begin i focus fired => exact lane_of_kept k rfl rfl
  | create i lane focus pc => exact lane_of_moved k (hself lane) rfl (.create i pc)
  | pop i lane task rest focus pc queue =>
    exact lane_of_moved k rfl rfl (.pop i task rest pc queue)
  | empty i lane focus pc queue => exact lane_of_moved k (hself lane) rfl (.empty i pc queue)
  | permit i lane focus pc permit => exact lane_of_moved k rfl rfl (.permit i pc permit)
  | register i lane focus pc permit => exact lane_of_moved k rfl rfl (.register i pc permit)
  | woken i lane focus pc notified => exact lane_of_moved k rfl rfl (.woken i pc notified)
  | still i lane focus pc notified => exact lane_of_kept k rfl rfl
  | lose i lane task focus => exact lane_of_moved k rfl rfl (.drop i)
  | call i task b todo focus => exact lane_of_kept k rfl rfl
  | finish i task focus => exact lane_of_kept k rfl rfl
  | leaveHi i focus => exact lane_of_moved k rfl rfl (.drop i)
  | leaveLo i focus => exact lane_of_moved k rfl rfl (.drop i)

/-- The worker is asleep: its pops are registered on both lanes and neither was woken. -/
def Parked (s : Pool α m) (i : Fin m) : Prop :=
  (s.workers i).focus = .suspended ∧
    ∀ lane, s.pops lane i = .parked ∧
      i ∈ (s.lanes lane).notify.waiters ∧ i ∉ (s.lanes lane).notify.notified

/-- Every task of every reachable state is covered. -/
theorem covered_of_reachable {C : Nat} {s : Pool α m} (h : Reachable step (start α m C) s)
    (k : Lane) : Covered (s.lanes k) (s.pops k) :=
  h.invariant (I := fun s => Covered (s.lanes k) (s.pops k)) (fun hq => absurd rfl hq)
    fun _ _ _ hI hs => hI.step ((step_eq_some.mp hs).lane k)

/-- Every parked pop of every reachable state is registered or woken. -/
theorem registered_of_reachable {C : Nat} {s : Pool α m} (h : Reachable step (start α m C) s)
    (k : Lane) : Registered (s.lanes k) (s.pops k) :=
  h.invariant (I := fun s => Registered (s.lanes k) (s.pops k)) (fun _ hi => PopPc.noConfusion hi)
    fun _ _ _ hI hs => hI.step ((step_eq_some.mp hs).lane k)

/-! ## Nobody sleeps in front of a task

If all workers were asleep, `Registered` would have each of them among the waiters of both lanes.
Then no permit is stored, as a permit excludes waiters, and no pop is about to look; of what
`Covered` offers nothing is left but a queue without tasks. -/

/-- **No stranded task.**  Whatever was pushed, polled or cancelled: the workers are never all
    asleep while a lane holds a task.

    By contradiction: all pops parked and none of them woken leaves of `Covered` only a stored
    permit, and by `Registered` there are waiters, which a permit excludes. -/
theorem no_stranded_task (m C : Nat) (hm : 0 < m) (s : Pool α m)
    (h : Reachable step (start α m C) s) :
    ¬ ((∀ i, Parked s i) ∧ ∃ lane, (s.lanes lane).queue ≠ []) := by
  rintro ⟨hparked, lane, hq⟩
  rcases covered_of_reachable h lane hq with (hp | ⟨i, hi⟩) | ⟨i, hi⟩
  · -- a stored permit excludes waiters, and there is a worker
    have hw := ((hparked ⟨0, hm⟩).2 lane).2.1
    rw [(s.lanes lane).notify.exclusive hp] at hw
    exact absurd hw List.not_mem_nil
  · exact ((hparked i).2 lane).2.2 hi
  · have hpc := ((hparked i).2 lane).1
    rcases hi with hi | hi <;> rw [hpc] at hi <;> exact nomatch hi

/-- Two workers go to sleep; a task arrives. -/
theorem no_stranded_task_two :
    ∃ s : Pool Nat 2, run step (start Nat 2 1)
        (List.replicate 7 (.work 0) ++ List.replicate 7 (.work 1) ++ [.push .lo 5]) = some s ∧
      (s.lanes .lo).queue = [5] ∧
      ¬ ((∀ i, Parked s i) ∧ ∃ lane, (s.lanes lane).queue ≠ []) := by
  obtain ⟨s, hs, hq⟩ : ∃ s : Pool Nat 2, run step (start Nat 2 1)
      (List.replicate 7 (.work 0) ++ List.replicate 7 (.work 1) ++ [.push .lo 5]) = some s ∧
      (s.lanes .lo).queue = [5] := ⟨_, rfl, rfl⟩
  exact ⟨s, hs, hq, no_stranded_task 2 1 (by decide) s ⟨_, hs⟩⟩

end Pool

end RtsPipeline.Async
