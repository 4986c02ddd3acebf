/-
  First in, first out within a class: what the threaded queue owes to its timestamps.

  The scheduling key is `(priority, enqueued_at)` and nothing else.  The tasks of one class that are
  queued form a line in push order, and an eviction leaves a gap in it, nothing more.  A pop takes
  the head of the line when the key tells the head from the others; of two tasks with one key, the
  heap serves the one its shape brings to the root.

  1. `InLine` — the line, what enters it, leaves it and is served from it.
  2. `ClassInLine.step` — one operation; a pop must not meet a tie.
  3. `fifo_within_class` — hence whole histories.
-/
import RtsPipeline.Threaded.History

namespace RtsPipeline.Threaded

open Lib

/-! ## A line

The heap does not say in which order its tasks came, so the line is found beside it: some order of
what is queued that fits behind what was served.  Nobody stores it; it is enough that there is one.
`order` is a sublist and not a prefix, since an evicted task was neither served nor is it queued. -/

/-- What was served, and then the line, are as they came; the line holds what is queued. -/
structure InLine {α : Type} (came served queued line : List α) : Prop where
  perm : line.Perm queued
  order : (served ++ line).Sublist came

namespace InLine

variable {α : Type} {came served queued queued' line : List α} {x : α}

theorem arrive (h : InLine came served queued line) (hq : queued'.Perm (x :: queued)) :
    InLine (came ++ [x]) served queued' (line ++ [x]) where
  perm := (List.perm_append_singleton x line).trans ((h.perm.cons x).trans hq.symm)
  order := by
    rw [← List.append_assoc]
    exact h.order.append_right [x]

theorem leave [DecidableEq α] (h : InLine came served queued line)
    (hq : queued.Perm (x :: queued')) : InLine came served queued' (line.erase x) where
  perm := by
    have hx := ((h.perm.trans hq).erase x)
    rwa [List.erase_cons_head] at hx
  order := (List.erase_sublist.append_left served).trans h.order

theorem serve (h : InLine came served queued (x :: line)) (hq : queued.Perm (x :: queued')) :
    InLine came (served ++ [x]) queued' line where
  perm := (h.perm.trans hq).cons_inv
  order := by
    rw [List.append_assoc]
    exact h.order

end InLine

/-! ## The line of one class

An operation concerns the line of one class at most.  A push and an eviction are easy, whatever the
times.  A pop has to be shown to take the head: the task served is no younger than the head, as the
key orders by time, and the head is no younger than the task served, as it came first and the clock
does not go backwards.  So the two have one time, and then it takes `Untied` to make them equal. -/

/-- The tasks of a class, in order. -/
def ofClass (p : Priority) (l : List Task) : List Task := l.filter fun t => t.priority = p

theorem ofClass_cons_same {p : Priority} {t : Task} (h : t.priority = p) (l : List Task) :
    ofClass p (t :: l) = t :: ofClass p l := List.filter_cons_of_pos (decide_eq_true h)

theorem ofClass_cons_other {p : Priority} {t : Task} (h : t.priority ≠ p) (l : List Task) :
    ofClass p (t :: l) = ofClass p l :=
  List.filter_cons_of_neg (fun he => h (of_decide_eq_true he))

theorem mem_ofClass {p : Priority} {t : Task} {l : List Task} :
    t ∈ ofClass p l ↔ t ∈ l ∧ t.priority = p := by
  rw [ofClass, List.mem_filter, decide_eq_true_iff]

theorem ofClass_append (p : Priority) (l l' : List Task) :
    ofClass p (l ++ l') = ofClass p l ++ ofClass p l' := List.filter_append _ _

/-- Time does not go backwards along the pushes. -/
def NonDecreasing (tasks : List Task) : Prop :=
  tasks.Pairwise fun t u => t.enqueuedAt ≤ u.enqueuedAt

instance (tasks : List Task) : Decidable (NonDecreasing tasks) :=
  inferInstanceAs (Decidable (tasks.Pairwise _))

instance (t u : Task) : Decidable (ServedFirst t u) := inferInstanceAs (Decidable (_ ∨ _))

/-- The operation is no pop, or one that meets no tie: there are no two tasks queued that may both
    be served first. -/
def Untied (s : QueueLog) : QueueOp → Prop
  | .push _ => True
  | .pop => ∀ t ∈ s.queue.queued, ∀ u ∈ s.queue.queued,
      (∀ y ∈ s.queue.queued, ServedFirst t y) → (∀ y ∈ s.queue.queued, ServedFirst u y) → t = u

instance (s : QueueLog) : ∀ op, Decidable (Untied s op)
  | .push _ => isTrue trivial
  | .pop => inferInstanceAs (Decidable (∀ t ∈ s.queue.queued, ∀ u ∈ s.queue.queued,
      (∀ y ∈ s.queue.queued, ServedFirst t y) → (∀ y ∈ s.queue.queued, ServedFirst u y) → t = u))

/-- The class `p` after some pushes: its queued tasks can be lined up behind those it served so that
    they are all as they came, but for the evicted ones, which are missing.  The line itself is not
    in the state; the queue is a heap and keeps no order of arrival, so it is chosen anew after
    every call. -/
def ClassInLine (p : Priority) (came : List Task) (s : QueueLog) : Prop :=
  ∃ line, InLine (ofClass p came) (ofClass p s.popped) (ofClass p s.queue.queued) line

theorem classInLine_start (p : Priority) (C : Nat) : ClassInLine p [] (QueueLog.start C) :=
  ⟨[], List.Perm.refl _, List.Sublist.refl _⟩

/-- A task that joins the queue joins the line of its class. -/
theorem ClassInLine.arrive {p : Priority} {came served queued queued' : List Task} {t : Task}
    (h : ∃ line, InLine (ofClass p came) served (ofClass p queued) line)
    (hq : queued'.Perm (t :: queued)) :
    ∃ line, InLine (ofClass p (came ++ [t])) served (ofClass p queued') line := by
  obtain ⟨line, h⟩ := h
  have hp : (ofClass p queued').Perm (ofClass p (t :: queued)) := hq.filter _
  rw [ofClass_append]
  by_cases ht : t.priority = p
  · rw [ofClass_cons_same ht] at hp ⊢
    exact ⟨_, h.arrive hp⟩
  · rw [ofClass_cons_other ht] at hp ⊢
    refine ⟨line, h.perm.trans hp.symm, ?_⟩
    exact h.order.trans (List.sublist_append_left _ _)

/-- A task that is evicted leaves the line of its class. -/
theorem ClassInLine.leave {p : Priority} {came served queued queued' : List Task} {v : Task}
    (h : ∃ line, InLine came served (ofClass p queued) line) (hq : queued.Perm (v :: queued')) :
    ∃ line, InLine came served (ofClass p queued') line := by
  obtain ⟨line, h⟩ := h
  have hp : (ofClass p queued).Perm (ofClass p (v :: queued')) := hq.filter _
  by_cases hv : v.priority = p
  · rw [ofClass_cons_same hv] at hp
    exact ⟨_, h.leave hp⟩
  · rw [ofClass_cons_other hv] at hp
    exact ⟨line, h.perm.trans hp, h.order⟩

/-- The one task that may be served first is the head of its line. -/
theorem head_of_line {s : QueueLog} {came line : List Task} {t : Task}
    (h : InLine (ofClass t.priority came) (ofClass t.priority s.popped)
      (ofClass t.priority s.queue.queued) line)
    (htime : NonDecreasing came) (hu : Untied s .pop) (ht : t ∈ s.queue.queued)
    (hfirst : ∀ y ∈ s.queue.queued, ServedFirst t y) : ∃ rest, line = t :: rest := by
  have hmem : ∀ y, y ∈ line ↔ y ∈ s.queue.queued ∧ y.priority = t.priority := fun y =>
    h.perm.mem_iff.trans mem_ofClass
  cases line with
  | nil => exact absurd ((hmem t).mpr ⟨ht, rfl⟩) List.not_mem_nil
  | cons u rest =>
    obtain ⟨hu_mem, hu_class⟩ := (hmem u).mp List.mem_cons_self
    -- the head is no younger than the task served, as it came before it
    have hsub : (u :: rest).Sublist came :=
      (List.sublist_append_right _ _).trans (h.order.trans List.filter_sublist)
    have hle : u.enqueuedAt ≤ t.enqueuedAt := by
      rcases List.mem_cons.mp ((hmem t).mpr ⟨ht, rfl⟩) with rfl | htail
      · exact Nat.le_refl _
      · exact (List.pairwise_cons.mp (htime.sublist hsub)).1 t htail
    have hu_first : ∀ y ∈ s.queue.queued, ServedFirst u y := by
      intro y hy
      rcases hfirst y hy with hlt | ⟨he, hty⟩
      · exact Or.inl (hu_class.symm ▸ hlt)
      · exact Or.inr ⟨hu_class.trans he, Nat.le_trans hle hty⟩
    exact ⟨rest, by rw [hu t ht u hu_mem hfirst hu_first]⟩

/-- **Step lemma** for `ClassInLine`. -/
theorem ClassInLine.step {p : Priority} {came : List Task} {s s' : QueueLog} {op : QueueOp}
    (hC : 0 < s.queue.capacity) (htime : NonDecreasing came) (h : ClassInLine p came s)
    (hu : Untied s op) (hs : s.step op = some s') :
    ClassInLine p (came ++ op.pushed.toList) s' := by
  cases op with
  | push t =>
    obtain ⟨q, o, hstep, hp⟩ := s.step_push t hC
    obtain rfl := Option.some.inj (hstep.symm.trans hs)
    generalize s.queue.victim = victim at hp
    cases hp with
    | room _ _ _ queued => exact ClassInLine.arrive h queued
    | full _ _ _ v rest split _ queued => exact ClassInLine.arrive (ClassInLine.leave h split) queued
  | pop =>
    rw [show QueueOp.pop.pushed.toList = [] from rfl, List.append_nil]
    cases hp : s.queue.pop with
    | none =>
      obtain rfl := Option.some.inj ((QueueLog.step_pop_none hp).symm.trans hs)
      exact h
    | some r =>
      obtain ⟨t, q⟩ := r
      obtain rfl := Option.some.inj ((QueueLog.step_pop_some hp).symm.trans hs)
      obtain ⟨hsplit, hfirst, _, _⟩ := PriorityQueue.pop_spec hp
      show ∃ line, InLine _ (ofClass p (s.popped ++ [t])) (ofClass p q.queued) line
      rw [ofClass_append]
      -- what is served is of this class, and then the head of its line, or of the other
      by_cases ht : t.priority = p
      · subst ht
        obtain ⟨line, h⟩ := h
        obtain ⟨rest, rfl⟩ := head_of_line h htime hu (hsplit.mem_iff.mpr List.mem_cons_self) hfirst
        have hq : (ofClass t.priority s.queue.queued).Perm (ofClass t.priority (t :: q.queued)) :=
          hsplit.filter _
        rw [ofClass_cons_same rfl] at hq ⊢
        exact ⟨rest, h.serve hq⟩
      · rw [ofClass_cons_other ht, show ofClass p [] = [] from rfl, List.append_nil]
        exact ClassInLine.leave h hsplit

/-- **Run lemma** for `ClassInLine`. -/
theorem ClassInLine.run {p : Priority} {ops : List QueueOp} :
    ∀ (came : List Task) (s : QueueLog), 0 < s.queue.capacity →
    NonDecreasing (came ++ pushedTasks ops) → ClassInLine p came s →
    Along QueueLog.step Untied s ops →
    ∃ s', run QueueLog.step s ops = some s' ∧ ClassInLine p (came ++ pushedTasks ops) s' := by
  induction ops with
  | nil =>
    intro came s _ _ h _
    rw [pushedTasks_nil, List.append_nil]
    exact ⟨s, rfl, h⟩
  | cons op ops ih =>
    intro came s hC htime h halong
    have hcame : NonDecreasing came := htime.sublist (List.sublist_append_left _ _)
    have hsplit : came ++ pushedTasks (op :: ops) =
        (came ++ op.pushed.toList) ++ pushedTasks ops := by
      rw [List.append_assoc]
      cases op <;> rfl
    obtain ⟨s1, hs, hcap, _⟩ := s.step_total op hC
    rw [hsplit] at htime ⊢
    obtain ⟨s', hr, hline⟩ := ih _ s1 (by rw [hcap]; exact hC) htime
      (h.step hC hcame halong.head hs) (halong.tail hs)
    exact ⟨s', run_cons_some.mpr ⟨s1, hs, hr⟩, hline⟩

/-- **First in, first out within a class.**  In every history with a clock that does not go
    backwards and whose pops meet no tie, the tasks of each class are popped in the order they were
    pushed.

    `ClassInLine` along the history: what is served is the head of its line, since it is the oldest
    of its class and there is no other of the same age. -/
theorem fifo_within_class (C : Nat) (hC : 0 < C) (ops : List QueueOp)
    (htime : NonDecreasing (pushedTasks ops))
    (huntied : Along QueueLog.step Untied (QueueLog.start C) ops) :
    ∃ s, run QueueLog.step (QueueLog.start C) ops = some s ∧
      ∀ p, (ofClass p s.popped).Sublist (ofClass p (pushedTasks ops)) := by
  have hrun := fun p => ClassInLine.run [] (QueueLog.start C) hC htime (classInLine_start p C)
    huntied
  obtain ⟨s, hs, _⟩ := hrun .human
  refine ⟨s, hs, fun p => ?_⟩
  obtain ⟨s', hs', line, hline⟩ := hrun p
  obtain rfl := Option.some.inj (hs.symm.trans hs')
  exact (List.sublist_append_left _ _).trans hline.order

/-- An edit of the given user at the given time. -/
def botTask (user : String) (time : Nat) : Task :=
  { event := { user := user, bot := true, serverName := "w" }, priority := .bot, enqueuedAt := time }

/-- Two Bots of different times. -/
theorem fifo_within_class_two :
    ∃ s, run QueueLog.step (QueueLog.start 2)
        [.push (botTask "a" 1), .push (botTask "b" 2), .pop, .pop] = some s ∧
      ∀ p, (ofClass p s.popped).Sublist
        (ofClass p (pushedTasks [.push (botTask "a" 1), .push (botTask "b" 2), .pop, .pop])) :=
  fifo_within_class 2 (by decide) _ (by decide) (by decide)

/-- Four Bots of one time: the heap serves the first, the third, and then the second. -/
theorem fifo_within_class_tie :
    NonDecreasing [botTask "a" 5, botTask "b" 5, botTask "c" 5, botTask "d" 5] ∧
    ∃ s, run QueueLog.step (QueueLog.start 4)
        [.push (botTask "a" 5), .push (botTask "b" 5), .push (botTask "c" 5),
          .push (botTask "d" 5), .pop, .pop, .pop] = some s ∧
      ¬ (ofClass .bot s.popped).Sublist
        [botTask "a" 5, botTask "b" 5, botTask "c" 5, botTask "d" 5] := by
  refine ⟨by decide, _, rfl, ?_⟩
  decide

end RtsPipeline.Threaded
