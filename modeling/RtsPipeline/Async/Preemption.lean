/-
  Which lane a worker takes from: "the human channel is always polled first".

  Polling a pop first is not looking at its lane first.  A worker that went to sleep left both pops
  registered.  When it is polled again for a task in `lo`, its pop of `hi` looks at its own wake-up
  only; if the wake-up of the Human task went to another worker, the poll goes on to `lo` and takes
  the Bot task, with the Human task still in `hi`.

  1. `Inverted` — the next step takes a Bot task over a Human task that was there when the poll
     began.
  2. `Attentive` — a poll that begins on a non-empty `hi` finds its own pop of `hi` fresh or woken.
     `Honest` is the invariant this gives: what was in `hi` when the poll began is gone by the time
     the poll reaches `lo`.
  3. `Attentive` holds of every run of a single worker, because the only wake-up is its own.
  4. `overtaking_run` — two workers asleep, two Bot tasks and a Human task: the worker woken second
     takes a Bot task while the one woken first still owes the Human task.
  5. `human_first_iff` — so Human tasks come first exactly in a pool of one.
-/
import RtsPipeline.Async.Wakeups

namespace RtsPipeline.Async.Pool

open Lib

variable {α : Type} {m : Nat}

/-- The Human tasks that were in `hi` when the poll began are no longer there. -/
def Gone (s : Pool α m) (i : Fin m) : Prop := ∀ h ∈ s.log.began i, h ∉ (s.lanes .hi).queue

/-- The next step of worker `i` takes a task from `lo`, in a poll that began when a Human task was
    in `hi` that is still there. -/
def Inverted (s : Pool α m) (i : Fin m) : Prop :=
  ((s.workers i).focus = .polling .lo ∧ s.pops .lo i = .check ∧ (s.lanes .lo).queue ≠ []) ∧
    ∃ h ∈ s.log.began i, h ∈ (s.lanes .hi).queue

/-- In no run does a worker take a Bot task over a Human task.  The tasks are told apart: no Human
    task is pushed twice. -/
def HumanFirst (α : Type) (m C : Nat) : Prop :=
  ∀ ls (s : Pool α m), run step (start α m C) ls = some s → (s.log.pushed .hi).Nodup →
    ∀ i, ¬ Inverted s i

/-- Unless `hi` is empty, a poll begins with the worker's own pop of `hi` fresh or woken. -/
def Attentive (s : Pool α m) (e : PoolEvent α m) : Prop :=
  ∀ i, e = .work i → (s.workers i).focus = .suspended → s.cancel = false →
    (s.lanes .hi).queue ≠ [] → s.pops .hi i = .parked → i ∈ (s.lanes .hi).notify.notified

/-- What a worker's focus says about `hi`, where its pop of `hi` stands at `pc`: `gone`, that the
    tasks its poll began with are no longer there, and `woken`, that its pop was woken.

    A poll that has reached `lo` must know that the tasks are gone; it learns this when its pop of
    `hi` finds the lane empty.  Before that, its pop is fresh and will look, or is parked and woken
    and will look, or there was nothing to begin with.  The one case that is left out is a pop
    parked and not woken in front of a task, and that is what `Attentive` excludes. -/
def Standing (gone woken : Prop) (pc : PopPc) : Focus α → Prop
  | .suspended => pc = .create ∨ pc = .parked
  | .polling .hi => gone ∨ pc = .create ∨ pc = .check ∨ (pc = .parked ∧ woken)
  | .polling .lo => gone ∧ pc = .parked
  | .won .hi _ => pc = .create
  | .won .lo _ => True
  | .body _ _ => pc = .create
  | .leaving _ => True
  | .exited => True

/-- The worker is where its focus says it is.  Only one of the cases of `Standing` is about
    preemption: a worker that polls `lo` has been told by `hi` that there was nothing, and then all
    that was queued in `hi` when its poll began is gone.  The others say where its pop of `hi`
    stands, which is what one needs to know to come into that case. -/
def Honest (s : Pool α m) (i : Fin m) : Prop :=
  Standing (Gone s i) (i ∈ (s.lanes .hi).notify.notified) ((s.workers i).pops .hi)
    (s.workers i).focus

/-! ## What a step changes

While a worker is inside its poll the others go on.  They can take tasks from `hi`, which helps, and
the producer can push new ones, which do not count since the poll began without them.  They cannot
take this worker's wake-up. -/

/-- A lane replaced by one that holds no more. -/
theorem mem_queue_update {lanes : Lane → DropOldestRing α (Fin m)} {lane k : Lane}
    {r : DropOldestRing α (Fin m)} {x : α} (hx : x ∈ (Function.update lanes lane r k).queue)
    (hr : x ∈ r.queue → x ∈ (lanes lane).queue) : x ∈ (lanes k).queue := by
  by_cases hk : k = lane
  · subst hk
    rw [Function.update_self] at hx
    exact hr hx
  · rw [Function.update_of_ne hk] at hx
    exact hx

/-- A lane replaced by one that keeps a wake-up. -/
theorem mem_notified_update {lanes : Lane → DropOldestRing α (Fin m)} {lane k : Lane}
    {r : DropOldestRing α (Fin m)} {i : Fin m}
    (hr : i ∈ (lanes lane).notify.notified → i ∈ r.notify.notified)
    (hi : i ∈ (lanes k).notify.notified) :
    i ∈ (Function.update lanes lane r k).notify.notified := by
  by_cases hk : k = lane
  · subst hk
    rw [Function.update_self]
    exact hr hi
  · rw [Function.update_of_ne hk]
    exact hi

/-- A task in a lane was there before, unless it was just pushed. -/
theorem Stepped.mem_queue {s s' : Pool α m} {e : PoolEvent α m} (h : Stepped s e s') {k : Lane}
    {x : α} (hx : x ∈ (s'.lanes k).queue) : x ∈ (s.lanes k).queue ∨ e = .push k x := by
  cases h with
  | push lane task =>
    change x ∈ (Function.update s.lanes lane ((s.lanes lane).push task).1 k).queue at hx
    by_cases hk : k = lane
    · subst hk
      rw [Function.update_self] at hx
      rcases DropOldestRing.mem_push hx with hx | hx
      · exact Or.inl hx
      · exact Or.inr (by rw [hx])
    · rw [Function.update_of_ne hk] at hx
      exact Or.inl hx
  | pop i lane task rest focus pc queue =>
    refine Or.inl (mem_queue_update hx fun hr => ?_)
    rw [queue]
    exact List.mem_cons_of_mem _ hr
  | permit i lane focus pc permit => exact Or.inl (mem_queue_update hx fun hr => hr)
  | register i lane focus pc permit => exact Or.inl (mem_queue_update hx fun hr => hr)
  | woken i lane focus pc notified => exact Or.inl (mem_queue_update hx fun hr => hr)
  | lose i lane task focus => exact Or.inl (mem_queue_update hx fun hr => hr)
  | leaveHi i focus => exact Or.inl (mem_queue_update hx fun hr => hr)
  | leaveLo i focus => exact Or.inl (mem_queue_update hx fun hr => hr)
  | _ => exact Or.inl hx

/-- A step of another party leaves what a worker's last poll began with. -/
theorem Stepped.began_of_ne {s s' : Pool α m} {e : PoolEvent α m} (h : Stepped s e s')
    {i : Fin m} (he : e ≠ .work i) : s'.log.began i = s.log.began i := by
  cases h with
  | begin j focus fired =>
    refine Function.update_of_ne ?_ _ _
    rintro rfl
    exact he rfl
  | _ => rfl

/-- A wake-up outlives the steps of other parties.  Only the worker it was for takes it up. -/
theorem Stepped.notified {s s' : Pool α m} {e : PoolEvent α m} (h : Stepped s e s') {i : Fin m}
    (he : e ≠ .work i) {k : Lane} (hi : i ∈ (s.lanes k).notify.notified) :
    i ∈ (s'.lanes k).notify.notified := by
  have hne : ∀ j, PoolEvent.work j ≠ PoolEvent.work (α := α) i → i ≠ j := by
    rintro j hj rfl
    exact hj rfl
  cases h with
  | push lane task =>
    refine mem_notified_update (fun hn => ?_) hi
    rw [DropOldestRing.push_notify]
    exact Notify.mem_notified_notifyOne hn
  | pop j lane task rest focus pc queue => exact mem_notified_update (fun hn => hn) hi
  | permit j lane focus pc permit => exact mem_notified_update (fun hn => hn) hi
  | register j lane focus pc permit => exact mem_notified_update (fun hn => hn) hi
  | woken j lane focus pc notified =>
    exact mem_notified_update (Notify.mem_notified_acknowledge (hne j he)) hi
  | lose j lane task focus =>
    exact mem_notified_update (Notify.mem_notified_dropFuture (hne j he)) hi
  | leaveHi j focus => exact mem_notified_update (Notify.mem_notified_dropFuture (hne j he)) hi
  | leaveLo j focus => exact mem_notified_update (Notify.mem_notified_dropFuture (hne j he)) hi
  | _ => exact hi

/-- What is pushed is logged. -/
theorem Stepped.pushed_push {s s' : Pool α m} {k : Lane} {x : α} (h : Stepped s (.push k x) s') :
    s'.log.pushed k = s.log.pushed k ++ [x] := by
  cases h with
  | push => exact Function.update_self k (s.log.pushed k ++ [x]) s.log.pushed

/-- The log of the pushes only grows. -/
theorem Stepped.pushed_sublist {s s' : Pool α m} {e : PoolEvent α m} (h : Stepped s e s')
    (k : Lane) : (s.log.pushed k).Sublist (s'.log.pushed k) := by
  cases h with
  | push lane task =>
    show (s.log.pushed k).Sublist
      (Function.update s.log.pushed lane (s.log.pushed lane ++ [task]) k)
    by_cases hk : k = lane
    · subst hk
      rw [Function.update_self]
      exact List.sublist_append_left _ _
    · rw [Function.update_of_ne hk]
  | _ => exact List.Sublist.refl _

/-! ## A poll that begins attentively stays honest

`Vigilant` adds to `Honest` that what a worker saw in `hi` was pushed before; with it a task that is
gone cannot come back, since no task is pushed twice.  The steps of the others keep `Honest` by
`Standing.mono`, the worker's own are a case analysis on its focus. -/

theorem Standing.mono {gone gone' woken woken' : Prop} {pc : PopPc} {f : Focus α}
    (h : Standing gone woken pc f) (hg : gone → gone') (hw : woken → woken') :
    Standing gone' woken' pc f := by
  cases f with
  | polling lane =>
    cases lane with
    | hi => exact h.imp hg (Or.imp_right (Or.imp_right (And.imp_right hw)))
    | lo => exact h.imp_left hg
  | won lane task => cases lane <;> exact h
  | suspended => exact h
  | body task todo => exact h
  | leaving lane => trivial
  | exited => trivial

/-- Where a worker moved to. -/
theorem honest_of {s : Pool α m} {i : Fin m} {w : Worker α} (hw : s.workers i = w)
    (h : Standing (Gone s i) (i ∈ (s.lanes .hi).notify.notified) (w.pops .hi) w.focus) :
    Honest s i := by
  unfold Honest
  rw [hw]
  exact h

/-- What is gone stays gone, since no task is pushed twice. -/
theorem Gone.step {s s' : Pool α m} {e : PoolEvent α m} {i : Fin m} (h : Gone s i)
    (hs : Stepped s e s') (hb : s'.log.began i = s.log.began i)
    (hin : ∀ x ∈ s.log.began i, x ∈ s.log.pushed .hi) (hnd : (s'.log.pushed .hi).Nodup) :
    Gone s' i := by
  intro x hx hq
  rw [hb] at hx
  rcases hs.mem_queue hq with hq | he
  · exact h x hx hq
  · subst he
    rw [hs.pushed_push] at hnd
    exact (List.nodup_append.mp hnd).2.2 x (hin x hx) x (List.mem_singleton.mpr rfl) rfl

/-- Nothing is there when the lane is empty. -/
theorem gone_of_empty {s : Pool α m} (h : (s.lanes .hi).queue = []) (i : Fin m) : Gone s i := by
  intro x _ hx
  rw [h] at hx
  exact absurd hx List.not_mem_nil

/-- **Step lemma** for `Honest`, a worker's own steps. -/
theorem Honest.own {s s' : Pool α m} {i : Fin m} (h : Honest s i)
    (hatt : Attentive s (.work i)) (hs : Stepped s (.work i) s')
    (hgone : s'.log.began i = s.log.began i → Gone s i → Gone s' i) : Honest s' i := by
  -- where the worker stands afterwards, and where its pop of each lane
  have hself : ∀ w, Function.update s.workers i w i = w := fun w => Function.update_self ..
  have hlo : ∀ pc, Function.update (s.workers i).pops .lo pc .hi = (s.workers i).pops .hi :=
    fun pc => Function.update_of_ne (by decide) ..
  have hhi : ∀ pc, Function.update (s.workers i).pops .hi pc .hi = pc :=
    fun pc => Function.update_self ..
  unfold Honest at h
  cases hs with
  | leave _ focus fired => exact honest_of (hself _) trivial
  | begin _ focus fired =>
    rw [focus] at h
    refine honest_of (hself _) ?_
    -- the one case in which `Attentive` is needed: the pop of `hi` went to sleep before
    by_cases hq : (s.lanes .hi).queue = []
    · exact Or.inl (gone_of_empty (by exact hq) i)
    · rcases h with hpc | hpc
      · exact Or.inr (Or.inl hpc)
      · exact Or.inr (Or.inr (Or.inr ⟨hpc, hatt i rfl focus fired hq hpc⟩))
  | create _ lane focus pc =>
    rw [focus] at h
    refine honest_of (hself _) ?_
    cases lane with
    | hi => exact Or.inr (Or.inr (Or.inl (hhi .check)))
    | lo => exact ⟨hgone rfl h.1, (hlo .check).trans h.2⟩
  | pop _ lane task rest focus pc queue =>
    refine honest_of (hself _) ?_
    cases lane with
    | hi => exact hhi .create
    | lo => trivial
  -- the pop that finds `hi` empty has seen that the tasks are gone
  | empty _ lane focus pc queue =>
    rw [focus] at h
    refine honest_of (hself _) ?_
    cases lane with
    | hi => exact Or.inl (gone_of_empty (by exact queue) i)
    | lo => exact ⟨hgone rfl h.1, (hlo .arm).trans h.2⟩
  | permit _ lane focus pc permit =>
    rw [focus] at h
    refine honest_of (hself _) ?_
    cases lane with
    | hi => exact Or.inr (Or.inl (hhi .create))
    | lo => exact ⟨hgone rfl h.1, (hlo .create).trans h.2⟩
  -- the pop is at `arm`, so of the reasons it may have to look none is left but that they are gone
  | register _ lane focus pc permit =>
    rw [focus] at h
    refine honest_of (hself _) ?_
    cases lane with
    | hi =>
      refine ⟨hgone rfl (h.resolve_right ?_), hhi .parked⟩
      rw [pc]
      simp
    | lo => exact Or.inr ((hlo .parked).trans h.2)
  | woken _ lane focus pc notified =>
    rw [focus] at h
    refine honest_of (hself _) ?_
    cases lane with
    | hi => exact Or.inr (Or.inl (hhi .create))
    | lo => exact ⟨hgone rfl h.1, (hlo .create).trans h.2⟩
  -- likewise: parked, and not woken
  | still _ lane focus pc notified =>
    rw [focus] at h
    refine honest_of (hself _) ?_
    cases lane with
    | hi =>
      refine ⟨hgone rfl (h.resolve_right ?_), pc⟩
      rw [pc]
      simp [notified]
    | lo => exact Or.inr h.2
  | lose _ lane task focus =>
    rw [focus] at h
    refine honest_of (hself _) ?_
    cases lane with
    | hi => exact (hlo .create).trans h
    | lo => exact hhi .create
  | call _ task b todo focus => rw [focus] at h; exact honest_of (hself _) h
  | finish _ task focus => rw [focus] at h; exact honest_of (hself _) (Or.inl h)
  | leaveHi _ focus => exact honest_of (hself _) trivial
  | leaveLo _ focus => exact honest_of (hself _) trivial

/-- Every worker is honest, and what it saw in `hi` had been pushed there.  `queued` and `began` are
    needed because of what may come back: a task that is pushed again after it was taken would be in
    `hi` and not gone, so the tasks are told apart by their pushes, and a new one is none of those
    the poll began with. -/
structure Vigilant (s : Pool α m) : Prop where
  queued : ∀ x ∈ (s.lanes .hi).queue, x ∈ s.log.pushed .hi
  began : ∀ i, ∀ x ∈ s.log.began i, x ∈ s.log.pushed .hi
  honest : ∀ i, Honest s i

theorem vigilant_start (C : Nat) : Vigilant (start α m C) where
  queued := fun _ hx => absurd hx List.not_mem_nil
  began := fun _ _ hx => absurd hx List.not_mem_nil
  honest := fun _ => Or.inl rfl

/-- **Step lemma** for `Vigilant`. -/
theorem Vigilant.step {s s' : Pool α m} {e : PoolEvent α m} (h : Vigilant s)
    (hatt : Attentive s e) (hs : Stepped s e s') (hnd : (s'.log.pushed .hi).Nodup) :
    Vigilant s' := by
  have hmono : ∀ x, x ∈ s.log.pushed .hi → x ∈ s'.log.pushed .hi := fun _ hx =>
    (hs.pushed_sublist .hi).subset hx
  refine ⟨fun x hx => ?_, fun i x hx => ?_, fun i => ?_⟩
  · rcases hs.mem_queue hx with hx | rfl
    · exact hmono x (h.queued x hx)
    · rw [hs.pushed_push]
      exact List.mem_append_right _ (List.mem_singleton.mpr rfl)
  · -- a poll that begins saw what was queued
    have hold : s'.log.began i = s.log.began i ∨ s'.log.began i = (s.lanes .hi).queue := by
      cases hs with
      | begin j focus fired =>
        by_cases hj : i = j
        · subst hj; exact Or.inr (Function.update_self ..)
        · exact Or.inl (Function.update_of_ne hj _ _)
      | _ => exact Or.inl rfl
    rcases hold with hb | hb <;> rw [hb] at hx
    · exact hmono x (h.began i x hx)
    · exact hmono x (h.queued x hx)
  -- the worker's own step, or a step of another party, which keeps what it began with
  · have hgone : s'.log.began i = s.log.began i → Gone s i → Gone s' i := fun hb hg =>
      hg.step hs hb (h.began i) hnd
    by_cases he : e = .work i
    · subst he
      exact (h.honest i).own hatt hs hgone
    · exact honest_of (hs.workers_of_ne he)
        ((h.honest i).mono (hgone (hs.began_of_ne he)) (hs.notified he))

/-- **Run lemma**: attentive polls are never inverted. -/
theorem not_inverted_of_attentive {C : Nat} {ls : List (PoolEvent α m)} {s : Pool α m}
    (hrun : run step (start α m C) ls = some s) (hatt : Along step Attentive (start α m C) ls)
    (hnd : (s.log.pushed .hi).Nodup) (i : Fin m) : ¬ Inverted s i := by
  have hv : (s.log.pushed .hi).Nodup → Vigilant s := by
    refine run_invariant_along
      (I := fun s : Pool α m => (s.log.pushed .hi).Nodup → Vigilant s) ?_ ls _ s
      (fun _ => vigilant_start C) hatt hrun
    intro s e s' hI hQ hs hnd'
    have hs := step_eq_some.mp hs
    exact (hI (hnd'.sublist (hs.pushed_sublist .hi))).step hQ hs hnd'
  rintro ⟨⟨hf, _, _⟩, x, hx, hq⟩
  have h := (hv hnd).honest i
  unfold Honest at h
  rw [hf] at h
  exact h.1 x hx hq

/-! ## A single worker

Of a single worker every poll is attentive.  A push into `hi` leaves a wake-up, and there is nobody
else it could go to; so a pop that is parked in front of a task has been woken. -/

/-- The only worker there is gets the wake-up. -/
theorem attentive_of_single (hm : m ≤ 1) {C : Nat} {s : Pool α m}
    (h : Reachable step (start α m C) s) (e : PoolEvent α m) : Attentive s e := by
  intro i _ _ _ hq hpc
  rcases List.mem_append.mp (registered_of_reachable h .hi i hpc) with hw | hn
  · rcases covered_of_reachable h .hi hq with (hp | ⟨j, hj⟩) | ⟨j, hj⟩
    · rw [Notify.permit_eq_false hw] at hp
      cases hp
    · obtain rfl : j = i := Fin.ext (by omega)
      exact hj
    · obtain rfl : j = i := Fin.ext (by omega)
      rcases hj with hj | hj <;> rw [hpc] at hj <;> cases hj
  · exact hn

theorem humanFirst_of_single (hm : m ≤ 1) (C : Nat) : HumanFirst α m C := by
  intro ls s hrun hnd
  exact not_inverted_of_attentive hrun
    (along_of_run (fun t e _ ht _ => attentive_of_single hm ht e) hrun) hnd

/-! ## Two workers

The run is put together from the two pieces below, so that it can be had for every number of workers
from two on and every capacity, and not just for one example. -/

/-- Where a fresh worker that finds both lanes empty ends up. -/
def asleep (s : Pool α m) (i : Fin m) : Pool α m :=
  { s with
    lanes := fun l => { s.lanes l with notify := (s.lanes l).notify.register i }
    workers := Function.update s.workers i ⟨.suspended, fun _ => .parked⟩
    log := { s.log with began := Function.update s.log.began i [] } }

theorem run_asleep {s : Pool α m} {i : Fin m} (hc : s.cancel = false)
    (hw : s.workers i = .fresh) (hq : ∀ l, (s.lanes l).queue = [])
    (hp : ∀ l, (s.lanes l).notify.permit = false) :
    run step s (List.replicate 7 (.work i)) = some (s.asleep i) := by
  have hpops : Function.update (Function.update (fun _ : Lane => PopPc.create) .hi .parked) .lo
      .parked = fun _ => .parked := by
    funext l; cases l <;> rfl
  simp [List.replicate, run, step, work, Worker.fresh, hc, hw, hq, hp, DropOldestRing.popAsync,
    DropOldestRing.popFront, setFocus, setPop, setLane, setWorker, afterPending, hpops, asleep]
  funext l
  cases l <;> rfl

/-- A sleeping worker that was woken on `lo` and not on `hi` goes straight on to look at `lo`. -/
theorem run_overtake {s : Pool α m} {i : Fin m} (hc : s.cancel = false)
    (hw : s.workers i = ⟨.suspended, fun _ => .parked⟩)
    (hhi : i ∉ (s.lanes .hi).notify.notified) (hlo : i ∈ (s.lanes .lo).notify.notified) :
    ∃ s', run step s (List.replicate 4 (.work i)) = some s' ∧
      s'.workers i = ⟨.polling .lo, Function.update (fun _ => .parked) .lo .check⟩ ∧
      (∀ l, (s'.lanes l).queue = (s.lanes l).queue) ∧
      s'.log.began i = (s.lanes .hi).queue ∧ s'.log.pushed = s.log.pushed := by
  simp [List.replicate, run, step, work, hc, hw, hhi, hlo, DropOldestRing.popAsync, setFocus,
    setPop, setLane, setWorker, afterPending]
  intro l
  cases l <;> rfl

/-- **The overtaking run**: two workers sleep; two Bot tasks arrive, and wake both on `lo`; a Human
    task arrives, and wakes the first on `hi`; the second is polled and goes straight on to `lo`. -/
theorem overtaking_run (b h : α) (C : Nat) {i0 i1 : Fin m} (h01 : i1 ≠ i0) :
    ∃ ls s, run step (start α m C) ls = some s ∧ s.log.pushed .hi = [h] ∧ Inverted s i1 := by
  have hsleep0 : run step (start α m C) (List.replicate 7 (.work i0)) =
      some ((start α m C).asleep i0) := run_asleep rfl rfl (fun _ => rfl) fun _ => rfl
  have hsleep1 : run step ((start α m C).asleep i0) (List.replicate 7 (.work i1)) =
      some (((start α m C).asleep i0).asleep i1) :=
    run_asleep rfl (Function.update_of_ne h01 _ _) (fun _ => rfl) fun _ => rfl
  -- two pushes to `lo` wake both there; the push to `hi` finds the first waiting first
  obtain ⟨t, ht⟩ : ∃ t, t = ((((start α m C).asleep i0).asleep i1).push .lo b
    |>.push .lo b).push .hi h := ⟨_, rfl⟩
  have hpush : run step (((start α m C).asleep i0).asleep i1)
      [.push .lo b, .push .lo b, .push .hi h] = some t := by rw [ht]; rfl
  have hhi : (t.lanes .hi).notify.notified = [i0] := by
    rw [ht]
    exact congrArg Notify.notified (DropOldestRing.push_notify _ h)
  have hlo : (t.lanes .lo).notify.notified = [i0, i1] := by
    have h1 := DropOldestRing.push_notify ((((start α m C).asleep i0).asleep i1).lanes .lo) b
    have h2 := DropOldestRing.push_notify
      (((((start α m C).asleep i0).asleep i1).lanes .lo).push b).1 b
    rw [ht]
    exact congrArg Notify.notified (h2.trans (congrArg Notify.notifyOne h1))
  have hqhi : (t.lanes .hi).queue = [h] := by
    rw [ht]
    exact DropOldestRing.push_of_empty h rfl
  have hqlo : (t.lanes .lo).queue ≠ [] := by
    rw [ht]
    exact DropOldestRing.push_ne_nil _ b
  -- the second has no wake-up on `hi`, and so does not look there
  obtain ⟨s, hrun, hw, hq, hb, hp⟩ := run_overtake (s := t) (i := i1) (by rw [ht]; rfl)
    (by rw [ht]; exact Function.update_self ..) (by rw [hhi]; simpa using h01)
    (by rw [hlo]; simp)
  refine ⟨_, s, run_append_some.mpr ⟨t, run_append_some.mpr ⟨_, run_append_some.mpr
    ⟨_, hsleep0, hsleep1⟩, hpush⟩, hrun⟩, ?_, ⟨?_, ?_, ?_⟩, h, ?_, ?_⟩
  · rw [hp, ht]; rfl
  · rw [hw]
  · unfold pops; rw [hw]; rfl
  · rw [hq]; exact hqlo
  · rw [hb, hqhi]; exact List.mem_singleton.mpr rfl
  · rw [hq, hqhi]; exact List.mem_singleton.mpr rfl

/-! ## When Human tasks come first

Sufficient is that a poll that begins in front of a Human task finds its pop of `hi` ready to look.
For the other direction there is the overtaking run: two workers sleep, two Bot tasks wake both of
them, and the wake-up of a Human task goes to one while the other is polled. -/

/-- **Human before Bot.**  For any number of workers and any capacity:

    * a run in which no poll begins on a non-empty `hi` with the worker's own pop of `hi` asleep
      takes no Bot task over a Human task that was there when the poll began;
    * no run at all does, exactly when there is at most one worker.

    Attentive polls keep every worker honest, and an honest one that comes to `lo` has been told by
    `hi` that there is nothing.  A single worker is always attentive; with two there is the
    overtaking run. -/
theorem human_first_iff [Nonempty α] (m C : Nat) :
    (∀ ls (s : Pool α m), run step (start α m C) ls = some s →
      Along step Attentive (start α m C) ls → (s.log.pushed .hi).Nodup → ∀ i, ¬ Inverted s i) ∧
    (HumanFirst α m C ↔ m ≤ 1) := by
  refine ⟨fun ls s hrun hatt hnd => not_inverted_of_attentive hrun hatt hnd, ?_,
    fun hm => humanFirst_of_single hm C⟩
  intro hfirst
  by_contra hm
  obtain ⟨x⟩ := ‹Nonempty α›
  have h01 : (⟨1, by omega⟩ : Fin m) ≠ ⟨0, by omega⟩ := by simp
  obtain ⟨ls, s, hrun, hp, hinv⟩ := overtaking_run x x C h01
  refine hfirst ls s hrun ?_ _ hinv
  rw [hp]
  simp

theorem human_first_iff_single :
    (∀ ls (s : Pool Nat 1), run step (start Nat 1 2) ls = some s →
      Along step Attentive (start Nat 1 2) ls → (s.log.pushed .hi).Nodup → ∀ i, ¬ Inverted s i) ∧
    (HumanFirst Nat 1 2 ↔ 1 ≤ 1) :=
  human_first_iff 1 2

/-- Two workers, room for one task in each lane: the Bot task 2 is taken over the Human task 3. -/
theorem bot_over_human : ¬ ∀ m C : Nat, 0 < C → HumanFirst Nat m C := by
  intro hall
  obtain ⟨s, hs, hp, hf, hpc, hlo, hb, hhi⟩ : ∃ s : Pool Nat 2, run step (start Nat 2 1)
      (List.replicate 7 (.work 0) ++ List.replicate 7 (.work 1) ++
        [.push .lo 1, .push .lo 2, .push .hi 3] ++ List.replicate 4 (.work 1)) = some s ∧
      s.log.pushed .hi = [3] ∧ (s.workers 1).focus = .polling .lo ∧ s.pops .lo 1 = .check ∧
      (s.lanes .lo).queue = [2] ∧ s.log.began 1 = [3] ∧ (s.lanes .hi).queue = [3] :=
    ⟨_, rfl, rfl, rfl, rfl, rfl, rfl, rfl⟩
  refine hall 2 1 (by decide) _ s hs (by rw [hp]; decide) 1 ⟨⟨hf, hpc, ?_⟩, 3, ?_, ?_⟩
  · rw [hlo]; decide
  · rw [hb]; decide
  · rw [hhi]; decide

end RtsPipeline.Async.Pool
