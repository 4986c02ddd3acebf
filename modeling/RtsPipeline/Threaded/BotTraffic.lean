/-
  What Bot traffic costs the Human tasks of the threaded priority queue.

  Compare a history of pushes and pops with the one that leaves its Bot pushes out.  The two queues
  hold the same Human tasks, serve them in the same order and evict the same ones, as long as no
  Bot arrives when the queue is full and holds Humans only: `push` chooses the victim among the
  tasks already queued, so on such a queue the incoming Bot evicts the oldest Human.  That Human is
  lost for good, unless the next Human push finds the Bot still queued: it evicts the Bot, while
  without Bots it would have evicted the very same Human.

  This is a simulation with two relations.  In `HumanSim` the Humans of the two queues are the same.
  In `HumanDebt` they are the same but for `v`, which the full history has evicted and the other
  still holds, and the full history holds a Bot in its place.  A debt has one way back, a Human
  push, and one way out, a pop: then `v` is served on one side and gone on the other, and as no task
  is pushed twice the two never agree again.  So the condition speaks of what comes next after each
  Bot that ran up a debt, with any number of Bots between, each of which takes the place of the one
  before.

  1. `HumanSim` relates the queue of the full history to the queue of the Human-only one, and
     `HumanDebt` does so while a Bot sits in the place of the oldest Human.
  2. `HumanSim.push_human`, `push_bot`, `pop` — one operation keeps the simulation, unless it is a
     Bot push on a queue full of Humans; `HumanSim.bot_on_full_humans` — that one runs a debt.
  3. `HumanDebt.push_bot`, `push_human`, `pop` — a Bot push keeps the debt, a Human push settles it,
     a pop makes the loss final.
  4. `bots_harmless_iff` — hence the two histories agree exactly when every debt is settled.
-/
import Mathlib.Data.List.Nodup
import RtsPipeline.Threaded.History

namespace RtsPipeline.Threaded

open Lib

/-- The operation pushes a Bot task. -/
def QueueOp.isBotPush : QueueOp → Bool
  | .push t => !t.isHuman
  | .pop => false

/-- The history with its Bot pushes left out. -/
def dropBots (ops : List QueueOp) : List QueueOp := ops.filter fun op => !op.isBotPush

/-- Two logs are the same to the Humans: the same Humans served in the same order, and the same
    Humans evicted. -/
def SameForHumans (a b : QueueLog) : Prop :=
  a.popped.filter Task.isHuman = b.popped.filter Task.isHuman ∧
    ∀ t, t ∈ a.evicted.filter Task.isHuman ↔ t ∈ b.evicted.filter Task.isHuman

/-- From the logs `m` and `h`, the history `ops` and its Bot-free part end the same to the
    Humans. -/
def AgreeFrom (m h : QueueLog) (ops : List QueueOp) : Prop :=
  ∃ m' h', run QueueLog.step m ops = some m' ∧ run QueueLog.step h (dropBots ops) = some h' ∧
    SameForHumans m' h'

/-- Bot traffic costs the Humans of the history nothing, at the given capacity. -/
def BotsHarmless (capacity : Nat) (ops : List QueueOp) : Prop :=
  AgreeFrom (QueueLog.start capacity) (QueueLog.start capacity) ops

/-- The queue is at capacity and every task in it is Human. -/
def FullOfHumans (q : PriorityQueue) : Prop :=
  q.capacity ≤ q.len ∧ ∀ x ∈ q.queued, x.priority = .human

/-- Past its leading Bot pushes, the history goes on with a Human push: not with a pop, and it does
    not end. -/
def humanNext : List QueueOp → Bool
  | [] => false
  | .pop :: _ => false
  | .push t :: ops => t.isHuman || humanNext ops

/-- Every Bot pushed on a queue full of Humans is followed by a Human push, with at most Bot pushes
    between. -/
def BotsGiveWay (s : QueueLog) (ops : List QueueOp) : Prop :=
  ∀ pre t post, ops = pre ++ .push t :: post → t.priority = .bot →
    ∀ s', run QueueLog.step s pre = some s' → FullOfHumans s'.queue → humanNext post = true

/-! ## Histories and their Bot-free parts, one operation at a time

The conditions of the theorem are about lists of operations; the lemmas unfold them from the
front. -/

theorem dropBots_cons_of_bot {op : QueueOp} (h : op.isBotPush = true) (ops : List QueueOp) :
    dropBots (op :: ops) = dropBots ops := by
  simp [dropBots, h]

theorem dropBots_cons_of_not_bot {op : QueueOp} (h : op.isBotPush = false) (ops : List QueueOp) :
    dropBots (op :: ops) = op :: dropBots ops := by
  simp [dropBots, h]

theorem isBotPush_human {t : Task} (h : t.priority = .human) :
    (QueueOp.push t).isBotPush = false := by
  rw [QueueOp.isBotPush, Task.isHuman_iff.mpr h]; rfl

theorem isBotPush_bot {t : Task} (h : t.priority = .bot) : (QueueOp.push t).isBotPush = true := by
  rw [QueueOp.isBotPush, Task.not_isHuman_iff.mpr h]; rfl

/-- Both histories take an operation that is not a Bot push. -/
theorem agree_cons_both {m m' h h' : QueueLog} {op : QueueOp} {ops : List QueueOp}
    (hop : op.isBotPush = false) (hm : m.step op = some m') (hh : h.step op = some h') :
    AgreeFrom m h (op :: ops) ↔ AgreeFrom m' h' ops := by
  rw [AgreeFrom, AgreeFrom, dropBots_cons_of_not_bot hop, run_cons, run_cons, hm, hh]
  rfl

/-- Only the full history takes a Bot push. -/
theorem agree_cons_bot {m m' h : QueueLog} {op : QueueOp} {ops : List QueueOp}
    (hop : op.isBotPush = true) (hm : m.step op = some m') :
    AgreeFrom m h (op :: ops) ↔ AgreeFrom m' h ops := by
  rw [AgreeFrom, AgreeFrom, dropBots_cons_of_bot hop, run_cons, hm]
  rfl

theorem giveWay_nil (s : QueueLog) : BotsGiveWay s [] := by
  intro pre t post h
  exact absurd h.symm (by simp)

theorem giveWay_cons {s s' : QueueLog} {op : QueueOp} {ops : List QueueOp}
    (hs : s.step op = some s') :
    BotsGiveWay s (op :: ops) ↔
      (op.isBotPush = true → FullOfHumans s.queue → humanNext ops = true) ∧ BotsGiveWay s' ops := by
  constructor
  -- the first operation is met at the start, every other one after it
  · intro h
    refine ⟨fun hb hfull => ?_, fun pre t post he ht u hu => ?_⟩
    · cases op with
      | pop => exact nomatch hb
      | push t =>
        have ht : t.priority = .bot := by
          refine Task.not_isHuman_iff.mp ?_
          rwa [QueueOp.isBotPush, Bool.not_eq_true'] at hb
        exact h [] t ops rfl ht s rfl hfull
    · exact h (op :: pre) t post (by rw [he]; rfl) ht u (run_cons_some.mpr ⟨s', hs, hu⟩)
  · rintro ⟨hhead, htail⟩ pre t post he ht u hu hfull
    cases pre with
    | nil =>
      obtain ⟨rfl, rfl⟩ := List.cons.inj he
      obtain rfl := Option.some.inj hu
      exact hhead (isBotPush_bot ht) hfull
    | cons op' pre =>
      obtain ⟨rfl, rfl⟩ := List.cons.inj he
      obtain ⟨s1, hs1, hr⟩ := run_cons_some.mp hu
      obtain rfl := Option.some.inj (hs.symm.trans hs1)
      exact htail pre t post rfl ht u hr hfull

/-! ## Timestamps

The heap tells two tasks apart by their class and time only.  With strictly increasing times a task
is its timestamp, and the victim of a push is unique. -/

/-- A task younger than every task the log has seen. -/
def Fresh (m : QueueLog) (t : Task) : Prop := ∀ x ∈ m.tasks, x.enqueuedAt < t.enqueuedAt

/-- No two tasks the log has seen have one timestamp. -/
def Distinct (m : QueueLog) : Prop := (m.tasks.map Task.enqueuedAt).Nodup

/-- Two tasks with one timestamp are one task. -/
theorem Distinct.eq {m : QueueLog} (hd : Distinct m) {x y : Task} (hx : x ∈ m.tasks)
    (hy : y ∈ m.tasks) (ht : x.enqueuedAt = y.enqueuedAt) : x = y :=
  List.inj_on_of_nodup_map hd hx hy ht

theorem mem_tasks_of_evicted {m : QueueLog} {x : Task} (hx : x ∈ m.evicted) : x ∈ m.tasks :=
  List.mem_append_right _ (List.mem_append_left _ hx)

theorem mem_tasks_of_queued {m : QueueLog} {x : Task} (hx : x ∈ m.queue.queued) : x ∈ m.tasks :=
  List.mem_append_right _ (List.mem_append_right _ hx)

/-- A task served was not evicted. -/
theorem Distinct.not_popped {m : QueueLog} (hd : Distinct m) {x : Task} (hx : x ∈ m.evicted) :
    x ∉ m.popped := by
  intro hp
  have h := hd.of_map
  exact (List.disjoint_of_nodup_append h) hp (List.mem_append_left _ hx)

/-- The timestamps of a history are all distinct, when its pushes come with fresh ones. -/
theorem distinct_run (ops : List QueueOp) {m m' : QueueLog} (hC : 0 < m.queue.capacity)
    (hinc : Increasing ops) (hf : ∀ t ∈ pushedTasks ops, Fresh m t) (hd : Distinct m)
    (hr : run QueueLog.step m ops = some m') : Distinct m' := by
  have hp := (QueueLog.run_tasks hC hr).map Task.enqueuedAt
  rw [Distinct, hp.nodup_iff, List.map_append]
  refine List.nodup_append.mpr ⟨?_, hd, ?_⟩
  · exact (List.pairwise_map.mpr hinc).imp fun h => Nat.ne_of_lt h
  · intro a ha b hb hab
    obtain ⟨t, ht, rfl⟩ := List.mem_map.mp ha
    obtain ⟨x, hx, rfl⟩ := List.mem_map.mp hb
    have := hf t ht x hx
    omega

/-- What is fresh before an operation and pushed after it is fresh then. -/
theorem fresh_step {m m' : QueueLog} {op : QueueOp} {ops : List QueueOp}
    (hC : 0 < m.queue.capacity) (hinc : Increasing (op :: ops))
    (hf : ∀ t ∈ pushedTasks (op :: ops), Fresh m t) (hs : m.step op = some m') :
    ∀ t ∈ pushedTasks ops, Fresh m' t := by
  intro t ht x hx
  have hx' := (QueueLog.step_tasks hC hs).1.mem_iff.mp hx
  cases op with
  | push u =>
    rcases List.mem_cons.mp hx' with rfl | hx'
    · exact (List.pairwise_cons.mp hinc).1 t ht
    · exact hf t (List.mem_cons_of_mem _ ht) x hx'
  | pop => exact hf t ht x hx'

theorem Increasing.tail {op : QueueOp} {ops : List QueueOp} (h : Increasing (op :: ops)) :
    Increasing ops := by
  cases op with
  | push t => exact (List.pairwise_cons.mp h).2
  | pop => exact h

/-- A fresh push keeps the timestamps distinct. -/
theorem Distinct.push {m m' : QueueLog} {t : Task} (hd : Distinct m) (hC : 0 < m.queue.capacity)
    (hf : Fresh m t) (hs : m.step (.push t) = some m') : Distinct m' := by
  refine distinct_run [.push t] hC (List.pairwise_singleton _ t) (fun u hu => ?_) hd
    (run_cons_some.mpr ⟨m', hs, rfl⟩)
  rw [List.mem_singleton.mp hu]
  exact hf

/-- So does a pop. -/
theorem Distinct.pop {m m' : QueueLog} (hd : Distinct m) (hC : 0 < m.queue.capacity)
    (hs : m.step .pop = some m') : Distinct m' :=
  distinct_run [.pop] hC List.Pairwise.nil (fun _ hu => absurd hu List.not_mem_nil) hd
    (run_cons_some.mpr ⟨m', hs, rfl⟩)

/-! ## The simulation

The full history beside its Bot-free part.  As long as there is a Bot in the queue, or room, a push
costs no Human on one side that it does not cost on the other, as Bots are evicted first. -/

/-- `m` is the log of a history, `h` of its Bot-free part: the same Humans queued, served and
    evicted, at most `capacity` tasks in the queue, and no timestamp twice. -/
structure HumanSim (m h : QueueLog) : Prop where
  pos : 0 < m.queue.capacity
  capacity : h.queue.capacity = m.queue.capacity
  bound : m.queue.len ≤ m.queue.capacity
  humans : (m.queue.queued.filter Task.isHuman).Perm h.queue.queued
  distinct : Distinct m
  popped : m.popped.filter Task.isHuman = h.popped.filter Task.isHuman
  evicted : m.evicted.filter Task.isHuman = h.evicted.filter Task.isHuman

theorem HumanSim.same {m h : QueueLog} (s : HumanSim m h) : SameForHumans m h :=
  ⟨s.popped, fun t => by rw [s.evicted]⟩

theorem humanSim_start {capacity : Nat} (hC : 0 < capacity) :
    HumanSim (QueueLog.start capacity) (QueueLog.start capacity) where
  pos := hC
  capacity := rfl
  bound := Nat.zero_le _
  humans := List.Perm.refl _
  distinct := List.nodup_nil
  popped := rfl
  evicted := rfl

/-- What the Bot-free queue holds, the full one does. -/
theorem HumanSim.mem_queued {m h : QueueLog} (s : HumanSim m h) {x : Task}
    (hx : x ∈ h.queue.queued) : x ∈ m.queue.queued ∧ x.priority = .human := by
  have := s.humans.mem_iff.mpr hx
  exact ⟨List.mem_of_mem_filter this, Task.isHuman_iff.mp (List.of_mem_filter this)⟩

/-- When every queued task is Human the two queues hold the same. -/
theorem HumanSim.perm_of_all_human {m h : QueueLog} (s : HumanSim m h)
    (hall : ∀ y ∈ m.queue.queued, y.priority = .human) :
    m.queue.queued.Perm h.queue.queued := by
  have hid : m.queue.queued.filter Task.isHuman = m.queue.queued :=
    List.filter_eq_self.mpr fun y hy => Task.isHuman_iff.mpr (hall y hy)
  have := s.humans
  rwa [hid] at this

/-- If the victim is Human, every queued task is. -/
theorem all_human_of_evicted {q : PriorityQueue} {v : Task}
    (hworst : ∀ y ∈ q.queued, EvictedFirst v y) (hv : v.priority = .human) :
    ∀ y ∈ q.queued, y.priority = .human := by
  intro y hy
  rcases hworst y hy with h | ⟨h, _⟩
  · exact absurd h (by rw [hv]; exact not_lt_of_ge (Priority.human_le _))
  · rw [← h]; exact hv

/-- A Human push keeps the simulation: what it evicts on one side is a Bot, or the oldest Human on
    both sides. -/
theorem HumanSim.push_human {m h : QueueLog} (s : HumanSim m h) {t : Task}
    (ht : t.priority = .human) (hf : Fresh m t) :
    ∃ m' h', m.step (.push t) = some m' ∧ h.step (.push t) = some h' ∧ HumanSim m' h' := by
  obtain ⟨q, o, hm, hp⟩ := m.step_push t s.pos
  obtain ⟨r, o', hh, hp'⟩ := h.step_push t (by rw [s.capacity]; exact s.pos)
  have hd := s.distinct.push s.pos hf hm
  refine ⟨_, _, hm, hh, ?_⟩
  have hth : t.isHuman = true := Task.isHuman_iff.mpr ht
  have hlen := s.humans.length_eq
  rw [PriorityQueue.length_queued] at hlen
  have hfle : (m.queue.queued.filter Task.isHuman).length ≤ m.queue.len := by
    rw [← PriorityQueue.length_queued]; exact List.length_filter_le _ _
  have hcapm := hp.capacity_eq
  have hcap : r.capacity = q.capacity := by rw [hp'.capacity_eq, hcapm, s.capacity]
  have hpos : 0 < q.capacity := by rw [hcapm]; exact s.pos
  have hbound := hp.len_le s.bound
  generalize m.queue.victim = v at hp hd ⊢
  generalize h.queue.victim = v' at hp' ⊢
  cases hp with
  | room hlt _ _ hq =>
    -- room on the larger side is room on the Human-only side
    cases hp' with
    | full hle' _ _ v' _ _ _ _ => exact absurd hle' (by rw [s.capacity]; omega)
    | room _ _ _ hq' =>
      refine ⟨hpos, hcap, hbound, ?_, hd, s.popped, by simpa using s.evicted⟩
      refine (hq.filter _).trans (List.Perm.trans ?_ hq'.symm)
      rw [List.filter_cons_of_pos hth]
      exact s.humans.cons t
  | full hle _ _ v rest hsplit hworst hq =>
    have hlenm := hsplit.length_eq
    rw [PriorityQueue.length_queued, List.length_cons] at hlenm
    cases hvh : v.isHuman with
    | false =>
      -- the victim is a Bot, so the Humans alone leave room
      have hfil : (m.queue.queued.filter Task.isHuman).Perm (rest.filter Task.isHuman) := by
        have := hsplit.filter Task.isHuman
        rwa [List.filter_cons_of_neg (by rw [hvh]; exact Bool.false_ne_true)] at this
      cases hp' with
      | full hle' _ _ v' _ _ _ _ =>
        have h1 := hfil.length_eq
        have h2 := List.length_filter_le Task.isHuman rest
        have h3 := s.bound
        exact absurd hle' (by rw [s.capacity]; omega)
      | room _ _ _ hq' =>
        refine ⟨hpos, hcap, hbound, ?_, hd, s.popped, ?_⟩
        · refine (hq.filter _).trans (List.Perm.trans ?_ hq'.symm)
          rw [List.filter_cons_of_pos hth]
          exact (hfil.symm.trans s.humans).cons t
        · simpa [hvh] using s.evicted
    | true =>
      -- the victim is Human, so all are, both queues are full and the oldest task is one task
      have hall := all_human_of_evicted hworst (Task.isHuman_iff.mp hvh)
      have hperm := s.perm_of_all_human hall
      cases hp' with
      | room hlt' _ _ _ =>
        have h1 := hperm.length_eq
        rw [PriorityQueue.length_queued, PriorityQueue.length_queued] at h1
        rw [s.capacity] at hlt'
        omega
      | full _ _ _ v' rest' hsplit' hworst' hq' =>
        have hvm : v ∈ m.queue.queued := hsplit.mem_iff.mpr List.mem_cons_self
        have hvm' : v' ∈ m.queue.queued :=
          hperm.mem_iff.mpr (hsplit'.mem_iff.mpr List.mem_cons_self)
        have hvv : v = v' := by
          apply s.distinct.eq (mem_tasks_of_queued hvm) (mem_tasks_of_queued hvm')
          exact (hworst v' hvm').time_eq (hworst' v (hperm.mem_iff.mp hvm))
        subst hvv
        have hrest : rest.Perm rest' :=
          (List.perm_cons v).mp (hsplit.symm.trans (hperm.trans hsplit'))
        have hresth : rest.filter Task.isHuman = rest := by
          refine List.filter_eq_self.mpr fun y hy => Task.isHuman_iff.mpr (hall y ?_)
          exact hsplit.mem_iff.mpr (List.mem_cons_of_mem _ hy)
        refine ⟨hpos, hcap, hbound, ?_, hd, s.popped, ?_⟩
        · refine (hq.filter _).trans (List.Perm.trans ?_ hq'.symm)
          rw [List.filter_cons_of_pos hth, hresth]
          exact hrest.cons t
        · simp [s.evicted]

/-- A Bot push keeps the simulation when the queue is not full of Humans. -/
theorem HumanSim.push_bot {m h : QueueLog} (s : HumanSim m h) {t : Task}
    (ht : t.priority = .bot) (hf : Fresh m t) (hroom : ¬ FullOfHumans m.queue) :
    ∃ m', m.step (.push t) = some m' ∧ HumanSim m' h := by
  obtain ⟨q, o, hm, hp⟩ := m.step_push t s.pos
  have hd := s.distinct.push s.pos hf hm
  refine ⟨_, hm, ?_⟩
  have hth : ¬ t.isHuman = true := by rw [Task.not_isHuman_iff.mpr ht]; exact Bool.false_ne_true
  have hcapm := hp.capacity_eq
  have hpos : 0 < q.capacity := by rw [hcapm]; exact s.pos
  have hcap : h.queue.capacity = q.capacity := by rw [hcapm, s.capacity]
  have hbound := hp.len_le s.bound
  generalize m.queue.victim = v at hp hd ⊢
  cases hp with
  | room _ _ _ hq =>
    refine ⟨hpos, hcap, hbound, ?_, hd, s.popped, by simpa using s.evicted⟩
    refine (hq.filter _).trans ?_
    rw [List.filter_cons_of_neg hth]
    exact s.humans
  | full hle _ _ v rest hsplit hworst hq =>
    have hvb : ¬ v.isHuman = true :=
      fun hvh => hroom ⟨hle, all_human_of_evicted hworst (Task.isHuman_iff.mp hvh)⟩
    refine ⟨hpos, hcap, hbound, ?_, hd, s.popped, by simpa [hvb] using s.evicted⟩
    refine (hq.filter _).trans (List.Perm.trans ?_ s.humans)
    rw [List.filter_cons_of_neg hth]
    have := hsplit.filter Task.isHuman
    rw [List.filter_cons_of_neg hvb] at this
    exact this.symm

/-- A pop keeps the simulation: it serves the same Human on both sides, or a Bot on one. -/
theorem HumanSim.pop {m h : QueueLog} (s : HumanSim m h) :
    ∃ m' h', m.step .pop = some m' ∧ h.step .pop = some h' ∧ HumanSim m' h' := by
  cases hm : m.queue.pop with
  | none =>
    have hnil := PriorityQueue.pop_eq_none.mp hm
    have hh : h.queue.pop = none := by
      refine PriorityQueue.pop_eq_none.mpr (List.Perm.nil_eq ?_).symm
      have := s.humans
      rwa [hnil, List.filter_nil] at this
    exact ⟨m, h, QueueLog.step_pop_none hm, QueueLog.step_pop_none hh, s⟩
  | some r =>
    obtain ⟨t, q⟩ := r
    obtain ⟨hsplit, hfirst, hc, _⟩ := PriorityQueue.pop_spec hm
    have hpos : 0 < q.capacity := by rw [hc]; exact s.pos
    have hbound : q.len ≤ q.capacity := by
      have := PriorityQueue.len_of_pop hm
      have := s.bound
      omega
    have hd := s.distinct.pop s.pos (QueueLog.step_pop_some hm)
    have hfil := hsplit.filter Task.isHuman
    cases hth : t.isHuman with
    | false =>
      -- a Bot leaves the queue only when no Human is in it
      rw [List.filter_cons_of_neg (by rw [hth]; exact Bool.false_ne_true)] at hfil
      have hbots : m.queue.queued.filter Task.isHuman = [] := by
        refine List.filter_eq_nil_iff.mpr fun y hy hyh => ?_
        have hty : t.priority = .bot := Task.not_isHuman_iff.mp hth
        have hyp : y.priority = .human := Task.isHuman_iff.mp hyh
        rcases hfirst y hy with hlt | ⟨he, _⟩
        · rw [hty, hyp] at hlt; exact absurd hlt (by decide)
        · rw [hty, hyp] at he; exact nomatch he
      have hh : h.queue.pop = none := by
        refine PriorityQueue.pop_eq_none.mpr (List.Perm.nil_eq ?_).symm
        have := s.humans
        rwa [hbots] at this
      refine ⟨_, h, QueueLog.step_pop_some hm, QueueLog.step_pop_none hh, ?_⟩
      refine ⟨hpos, by rw [s.capacity]; exact hc.symm, hbound, hfil.symm.trans s.humans, hd, ?_,
        s.evicted⟩
      simpa [hth] using s.popped
    | true =>
      rw [List.filter_cons_of_pos hth] at hfil
      have hmem : t ∈ h.queue.queued :=
        s.humans.mem_iff.mp (hfil.mem_iff.mpr List.mem_cons_self)
      cases hh : h.queue.pop with
      | none => rw [PriorityQueue.pop_eq_none.mp hh] at hmem; exact absurd hmem List.not_mem_nil
      | some r' =>
        obtain ⟨u, r⟩ := r'
        obtain ⟨hsplit', hfirst', hc', _⟩ := PriorityQueue.pop_spec hh
        have hum := (s.mem_queued (hsplit'.mem_iff.mpr List.mem_cons_self)).1
        have htm : t ∈ m.queue.queued := hsplit.mem_iff.mpr List.mem_cons_self
        have htu : t = u := by
          apply s.distinct.eq (mem_tasks_of_queued htm) (mem_tasks_of_queued hum)
          exact (hfirst u hum).time_eq (hfirst' t hmem)
        subst htu
        refine ⟨_, _, QueueLog.step_pop_some hm, QueueLog.step_pop_some hh, ?_⟩
        refine ⟨hpos, by show r.capacity = q.capacity; rw [hc', hc, s.capacity], hbound, ?_, hd, ?_,
          s.evicted⟩
        · exact (List.perm_cons t).mp (hfil.symm.trans (s.humans.trans hsplit'))
        · simp [s.popped]

/-! ## A Bot in the place of a Human

The one step that goes wrong: the queue is full of Humans, a Bot is pushed, and to make room the
oldest Human is evicted.  The Bot now stands in its place, and what comes next decides whether the
loss shows. -/

/-- The queue of `m` is full, with one Bot in the place of `v`, the oldest Human of `h`; `rest` is
    what both hold besides.  `m` has evicted `v`, and otherwise the two logs are the same to the
    Humans. -/
structure HumanDebt (m h : QueueLog) (v : Task) (rest : List Task) : Prop where
  pos : 0 < m.queue.capacity
  capacity : h.queue.capacity = m.queue.capacity
  full : rest.length + 1 = m.queue.capacity
  bot : ∃ b, b.priority = .bot ∧ m.queue.queued.Perm (b :: rest)
  owed : h.queue.queued.Perm (v :: rest)
  humans : ∀ y ∈ v :: rest, y.priority = .human
  oldest : ∀ y ∈ h.queue.queued, EvictedFirst v y
  distinct : Distinct m
  popped : m.popped.filter Task.isHuman = h.popped.filter Task.isHuman
  evicted : m.evicted.filter Task.isHuman = h.evicted.filter Task.isHuman ++ [v]

/-- **The step that runs a debt**: a Bot pushed on a queue full of Humans evicts the oldest, which
    the Bot-free history still holds. -/
theorem HumanSim.bot_on_full_humans {m h : QueueLog} (s : HumanSim m h) {t : Task}
    (ht : t.priority = .bot) (hf : Fresh m t) (hfull : FullOfHumans m.queue) :
    ∃ m' v rest, m.step (.push t) = some m' ∧ HumanDebt m' h v rest := by
  obtain ⟨q, o, hm, hp⟩ := m.step_push t s.pos
  have hd := s.distinct.push s.pos hf hm
  have hperm := s.perm_of_all_human hfull.2
  have hcapm := hp.capacity_eq
  have hbound := hp.len_le s.bound
  generalize m.queue.victim = w at hp hd hm
  cases hp with
  | room hlt _ _ _ => exact absurd hfull.1 (Nat.not_le_of_lt hlt)
  | full _ _ _ v rest hsplit hworst hq =>
    -- the victim is the oldest Human, and the other history still has it
    have hhum : ∀ y ∈ v :: rest, y.priority = .human :=
      fun y hy => hfull.2 y (hsplit.mem_iff.mpr hy)
    refine ⟨_, v, rest, hm, ?_⟩
    constructor
    · show 0 < q.capacity
      rw [hcapm]; exact s.pos
    · show h.queue.capacity = q.capacity
      rw [hcapm, s.capacity]
    · show rest.length + 1 = q.capacity
      have h1 := hsplit.length_eq
      rw [PriorityQueue.length_queued, List.length_cons] at h1
      have h2 := hfull.1
      have h3 := s.bound
      omega
    · exact ⟨t, ht, hq⟩
    · exact hperm.symm.trans hsplit
    · exact hhum
    · exact fun y hy => hworst y (hperm.mem_iff.mpr hy)
    · exact hd
    · exact s.popped
    · show (m.evicted ++ [v]).filter Task.isHuman = _
      have hv : v.isHuman = true := Task.isHuman_iff.mpr (hhum v List.mem_cons_self)
      rw [List.filter_append, s.evicted, List.filter_cons_of_pos hv]
      rfl

/-- Both queues are full. -/
theorem HumanDebt.len_eq {m h : QueueLog} {v : Task} {rest : List Task}
    (d : HumanDebt m h v rest) :
    m.queue.len = m.queue.capacity ∧ h.queue.len = h.queue.capacity := by
  obtain ⟨b, _, hbq⟩ := d.bot
  have h1 := hbq.length_eq
  have h2 := d.owed.length_eq
  rw [PriorityQueue.length_queued, List.length_cons] at h1 h2
  exact ⟨h1.trans d.full, by rw [h2, d.capacity]; exact d.full⟩

/-- While the debt stands, a push on the full history evicts the Bot. -/
theorem HumanDebt.evicts_bot {m h : QueueLog} {v : Task} {rest : List Task}
    (d : HumanDebt m h v rest) {t : Task} {q : PriorityQueue} {o : PushOutcome} {w : Option Task}
    (hp : PriorityQueue.Pushed m.queue t q o w) :
    (m.evicted ++ w.toList).filter Task.isHuman = m.evicted.filter Task.isHuman ∧
      q.queued.Perm (t :: rest) := by
  obtain ⟨b, hb, hbq⟩ := d.bot
  cases hp with
  | room hlt _ _ _ => exact absurd hlt (by rw [d.len_eq.1]; exact Nat.lt_irrefl _)
  | full _ _ _ w rest' hsplit hworst hq =>
    have hw : w.priority = .bot := by
      rcases hworst b (hbq.mem_iff.mpr List.mem_cons_self) with hlt | ⟨he, _⟩
      · exact absurd hlt (by rw [hb]; exact not_lt_of_ge (Priority.le_bot _))
      · rw [he, hb]
    -- the Bot is the only one in the queue
    have hwb : w = b := by
      rcases List.mem_cons.mp (hbq.mem_iff.mp (hsplit.mem_iff.mpr List.mem_cons_self)) with h | h
      · exact h
      · have := d.humans w (List.mem_cons_of_mem _ h)
        rw [hw] at this; exact nomatch this
    subst hwb
    have hrest : rest'.Perm rest := (List.perm_cons w).mp (hsplit.symm.trans hbq)
    refine ⟨?_, hq.trans (hrest.cons t)⟩
    have hwh : ¬ w.isHuman = true := by
      rw [Task.not_isHuman_iff.mpr hw]; exact Bool.false_ne_true
    rw [List.filter_append, Option.toList_some, List.filter_cons_of_neg hwh, List.filter_nil,
      List.append_nil]

/-- The full history has evicted `v`. -/
theorem HumanDebt.owed_mem {m h : QueueLog} {v : Task} {rest : List Task}
    (d : HumanDebt m h v rest) : v ∈ m.evicted := by
  have : v ∈ m.evicted.filter Task.isHuman := by
    rw [d.evicted]; exact List.mem_append_right _ (List.mem_singleton.mpr rfl)
  exact List.mem_of_mem_filter this

/-- Every task the Bot-free queue holds has been seen by the full history. -/
theorem HumanDebt.mem_tasks {m h : QueueLog} {v : Task} {rest : List Task}
    (d : HumanDebt m h v rest) {y : Task} (hy : y ∈ h.queue.queued) : y ∈ m.tasks := by
  obtain ⟨b, _, hbq⟩ := d.bot
  rcases List.mem_cons.mp (d.owed.mem_iff.mp hy) with rfl | hy
  · exact mem_tasks_of_evicted d.owed_mem
  · exact mem_tasks_of_queued (hbq.mem_iff.mpr (List.mem_cons_of_mem _ hy))

/-- A Bot push changes one Bot for another.  The Bot that was queued is evicted and the new one
    takes its place. -/
theorem HumanDebt.push_bot {m h : QueueLog} {v : Task} {rest : List Task}
    (d : HumanDebt m h v rest) {t : Task} (ht : t.priority = .bot) (hf : Fresh m t) :
    ∃ m', m.step (.push t) = some m' ∧ HumanDebt m' h v rest := by
  obtain ⟨q, o, hm, hp⟩ := m.step_push t d.pos
  have hd := d.distinct.push d.pos hf hm
  obtain ⟨hev, hq⟩ := d.evicts_bot hp
  have hcapm := hp.capacity_eq
  refine ⟨_, hm, ?_⟩
  constructor
  · show 0 < q.capacity
    rw [hcapm]; exact d.pos
  · show h.queue.capacity = q.capacity
    rw [hcapm, d.capacity]
  · show rest.length + 1 = q.capacity
    rw [hcapm]; exact d.full
  · exact ⟨t, ht, hq⟩
  · exact d.owed
  · exact d.humans
  · exact d.oldest
  · exact hd
  · exact d.popped
  · exact hev.trans d.evicted

/-- **The step that settles the debt**: a Human push evicts the Bot on one side and `v` on the
    other. -/
theorem HumanDebt.push_human {m h : QueueLog} {v : Task} {rest : List Task}
    (d : HumanDebt m h v rest) {t : Task} (ht : t.priority = .human) (hf : Fresh m t) :
    ∃ m' h', m.step (.push t) = some m' ∧ h.step (.push t) = some h' ∧ HumanSim m' h' := by
  obtain ⟨q, o, hm, hp⟩ := m.step_push t d.pos
  obtain ⟨r, o', hh, hp'⟩ := h.step_push t (by rw [d.capacity]; exact d.pos)
  have hd := d.distinct.push d.pos hf hm
  obtain ⟨hev, hq⟩ := d.evicts_bot hp
  have hcapm := hp.capacity_eq
  have hcaph := hp'.capacity_eq
  have hbound := hp.len_le (Nat.le_of_eq d.len_eq.1)
  refine ⟨_, _, hm, hh, ?_⟩
  -- the Bot-free queue is full too, and its oldest task is `v`
  have hv : h.queue.victim.toList = [v] ∧ r.queued.Perm (t :: rest) := by
    generalize h.queue.victim = w at hp'
    cases hp' with
    | room hlt _ _ _ => exact absurd hlt (by rw [d.len_eq.2]; exact Nat.lt_irrefl _)
    | full _ _ _ w rest' hsplit hworst hqr =>
      have hvq : v ∈ h.queue.queued := d.owed.mem_iff.mpr List.mem_cons_self
      have hwq : w ∈ h.queue.queued := hsplit.mem_iff.mpr List.mem_cons_self
      have hwv : w = v := by
        apply d.distinct.eq (d.mem_tasks hwq) (d.mem_tasks hvq)
        exact (hworst v hvq).time_eq (d.oldest w hwq)
      subst hwv
      have hrest : rest'.Perm rest := (List.perm_cons w).mp (hsplit.symm.trans d.owed)
      exact ⟨rfl, hqr.trans (hrest.cons t)⟩
  have hall : (t :: rest).filter Task.isHuman = t :: rest := by
    refine List.filter_eq_self.mpr fun y hy => Task.isHuman_iff.mpr ?_
    rcases List.mem_cons.mp hy with rfl | hy
    · exact ht
    · exact d.humans y (List.mem_cons_of_mem _ hy)
  constructor
  · show 0 < q.capacity
    rw [hcapm]; exact d.pos
  · show r.capacity = q.capacity
    rw [hcaph, hcapm, d.capacity]
  · exact hbound
  · refine (hq.filter _).trans ?_
    rw [hall]
    exact hv.2.symm
  · exact hd
  · exact d.popped
  · show (m.evicted ++ m.queue.victim.toList).filter Task.isHuman =
      (h.evicted ++ h.queue.victim.toList).filter Task.isHuman
    have hvh : v.isHuman = true := Task.isHuman_iff.mpr (d.humans v List.mem_cons_self)
    rw [hev, d.evicted, hv.1, List.filter_append, List.filter_cons_of_pos hvh]
    rfl

/-- **The step that makes the loss final**: a pop serves `v` without the Bots, and `v` is evicted
    with them. -/
theorem HumanDebt.pop {m h : QueueLog} {v : Task} {rest : List Task} (d : HumanDebt m h v rest) :
    ∃ m' h', m.step .pop = some m' ∧ h.step .pop = some h' ∧ v ∈ m'.evicted ∧ v ∈ h'.popped := by
  have hvq : v ∈ h.queue.queued := d.owed.mem_iff.mpr List.mem_cons_self
  obtain ⟨m', hm⟩ : ∃ m', m.step .pop = some m' := by
    cases hp : m.queue.pop with
    | none => exact ⟨m, QueueLog.step_pop_none hp⟩
    | some r => exact ⟨_, QueueLog.step_pop_some hp⟩
  have hv := (QueueLog.step_grows hm).2.subset d.owed_mem
  cases hh : h.queue.pop with
  | none => rw [PriorityQueue.pop_eq_none.mp hh] at hvq; exact absurd hvq List.not_mem_nil
  | some r =>
    obtain ⟨w, r⟩ := r
    obtain ⟨hsplit, hfirst, _, _⟩ := PriorityQueue.pop_spec hh
    have hwq : w ∈ h.queue.queued := hsplit.mem_iff.mpr List.mem_cons_self
    have hwv : w = v := by
      apply d.distinct.eq (d.mem_tasks hwq) (d.mem_tasks hvq)
      apply (hfirst v hvq).time_eq
      -- all are Human, so the oldest is the first served
      have hw := d.humans w (d.owed.mem_iff.mp hwq)
      have hvp := d.humans v List.mem_cons_self
      rcases d.oldest w hwq with hlt | he
      · exact absurd hlt (by rw [hw, hvp]; exact lt_irrefl _)
      · exact Or.inr he
    subst hwv
    exact ⟨m', _, hm, QueueLog.step_pop_some hh, hv, List.mem_append_right _ (by simp)⟩

/-- A history that ends in debt has evicted `v`, and its Bot-free part has not. -/
theorem HumanDebt.not_same {m h : QueueLog} {v : Task} {rest : List Task}
    (d : HumanDebt m h v rest) : ¬ SameForHumans m h := by
  intro hsame
  have hv : v.isHuman = true := Task.isHuman_iff.mpr (d.humans v List.mem_cons_self)
  have hve : v ∈ h.evicted.filter Task.isHuman :=
    (hsame.2 v).mp (List.mem_filter.mpr ⟨d.owed_mem, hv⟩)
  -- `v` would be twice among the tasks evicted
  have hn : (m.evicted.filter Task.isHuman).Nodup := by
    have h1 : m.tasks.Nodup := d.distinct.of_map
    exact (h1.of_append_right.of_append_left).filter _
  rw [d.evicted] at hn
  exact (List.disjoint_of_nodup_append hn) hve (List.mem_singleton.mpr rfl)

/-! ## Whole histories

The two relations along a history.  While the simulation holds, either side may go on; in debt the
next Human push leads back to it and a pop, or the end, does not. -/

/-- Once `v` is evicted in one history and served in the other they never agree again. -/
theorem not_agree_of_lost {m h : QueueLog} {v : Task} {ops : List QueueOp}
    (hC : 0 < m.queue.capacity) (hinc : Increasing ops) (hf : ∀ t ∈ pushedTasks ops, Fresh m t)
    (hd : Distinct m) (hv : v.priority = .human) (he : v ∈ m.evicted) (hp : v ∈ h.popped) :
    ¬ AgreeFrom m h ops := by
  rintro ⟨m', h', hm, hh, hsame⟩
  have hd' := distinct_run ops hC hinc hf hd hm
  have he' : v ∈ m'.evicted := (QueueLog.run_grows hm).2.subset he
  have hp' : v ∈ h'.popped := (QueueLog.run_grows hh).1.subset hp
  have : v ∈ m'.popped.filter Task.isHuman := by
    rw [hsame.1]
    exact List.mem_filter.mpr ⟨hp', Task.isHuman_iff.mpr hv⟩
  exact hd'.not_popped he' (List.mem_of_mem_filter this)

/-- Two histories that agree so far agree to the end exactly when every Bot pushed on a queue full
    of Humans gives way again; two histories in debt do when the debt is settled as well.  By
    induction on the history, with both relations at once: each operation keeps one or passes to
    the other. -/
theorem agree_iff (ops : List QueueOp) : ∀ m h : QueueLog, Increasing ops →
    (∀ t ∈ pushedTasks ops, Fresh m t) →
    (HumanSim m h → (AgreeFrom m h ops ↔ BotsGiveWay m ops)) ∧
    ∀ v rest, HumanDebt m h v rest →
      (AgreeFrom m h ops ↔ humanNext ops = true ∧ BotsGiveWay m ops) := by
  -- induction on the history, for both situations at once: each step leads from one to the other or
  -- keeps it
  induction ops with
  | nil =>
    intro m h _ _
    refine ⟨fun s => ?_, fun v rest d => ?_⟩
    · exact iff_of_true ⟨m, h, rfl, rfl, s.same⟩ (giveWay_nil m)
    · refine iff_of_false ?_ (fun hn => Bool.false_ne_true hn.1)
      rintro ⟨m', h', hm, hh, hsame⟩
      obtain rfl := Option.some.inj hm
      obtain rfl := Option.some.inj hh
      exact d.not_same hsame
  | cons op ops ih =>
    intro m h hinc hf
    have hinc' := hinc.tail
    refine ⟨fun s => ?_, fun v rest d => ?_⟩
    · -- the histories agree so far
      have fresh := fun m' (hm : m.step op = some m') => fresh_step s.pos hinc hf hm
      cases op with
      | pop =>
        obtain ⟨m', h', hm, hh, s'⟩ := s.pop
        rw [agree_cons_both rfl hm hh, giveWay_cons hm, (ih m' h' hinc' (fresh m' hm)).1 s']
        exact ⟨fun hg => ⟨fun hb => (nomatch hb), hg⟩, fun hg => hg.2⟩
      | push t =>
        have hft : Fresh m t := hf t List.mem_cons_self
        cases hth : t.isHuman with
        | true =>
          have htp := Task.isHuman_iff.mp hth
          have hop := isBotPush_human htp
          obtain ⟨m', h', hm, hh, s'⟩ := s.push_human htp hft
          rw [agree_cons_both hop hm hh, giveWay_cons hm, (ih m' h' hinc' (fresh m' hm)).1 s']
          exact ⟨fun hg => ⟨fun hb => absurd (hop.symm.trans hb) Bool.false_ne_true, hg⟩,
            fun hg => hg.2⟩
        | false =>
          have htp := Task.not_isHuman_iff.mp hth
          have hop := isBotPush_bot htp
          by_cases hfull : FullOfHumans m.queue
          · -- the Bot takes the place of the oldest Human
            obtain ⟨m', v, rest, hm, d⟩ := s.bot_on_full_humans htp hft hfull
            rw [agree_cons_bot hop hm, giveWay_cons hm, (ih m' h hinc' (fresh m' hm)).2 v rest d]
            exact and_congr_left fun _ => ⟨fun hn _ _ => hn, fun hn => hn hop hfull⟩
          · obtain ⟨m', hm, s'⟩ := s.push_bot htp hft hfull
            rw [agree_cons_bot hop hm, giveWay_cons hm, (ih m' h hinc' (fresh m' hm)).1 s']
            exact ⟨fun hg => ⟨fun _ hfull' => absurd hfull' hfull, hg⟩, fun hg => hg.2⟩
    · -- a Bot sits in the place of `v`
      have fresh := fun m' (hm : m.step op = some m') => fresh_step d.pos hinc hf hm
      have hnot : ¬ FullOfHumans m.queue := by
        rintro ⟨_, hall⟩
        obtain ⟨b, hb, hbq⟩ := d.bot
        have := hall b (hbq.mem_iff.mpr List.mem_cons_self)
        rw [hb] at this; exact nomatch this
      cases op with
      | pop =>
        -- a pop before the next Human push: the other history serves `v`, and this one cannot
        obtain ⟨m', h', hm, hh, he, hp⟩ := d.pop
        refine iff_of_false ?_ (fun hn => Bool.false_ne_true hn.1)
        rw [agree_cons_both rfl hm hh]
        have hcap := (QueueLog.step_tasks d.pos hm).2
        have hd := d.distinct.pop d.pos hm
        exact not_agree_of_lost (by rw [hcap]; exact d.pos) hinc' (fresh m' hm) hd
          (d.humans v List.mem_cons_self) he hp
      | push t =>
        have hft : Fresh m t := hf t List.mem_cons_self
        cases hth : t.isHuman with
        | true =>
          have htp := Task.isHuman_iff.mp hth
          have hop := isBotPush_human htp
          -- the other history gives `v` up as well, and the debt is paid
          obtain ⟨m', h', hm, hh, s'⟩ := d.push_human htp hft
          rw [agree_cons_both hop hm hh, giveWay_cons hm, (ih m' h' hinc' (fresh m' hm)).1 s']
          have hnext : humanNext (.push t :: ops) = true := by rw [humanNext, hth]; rfl
          exact ⟨fun hg => ⟨hnext, fun hb => absurd (hop.symm.trans hb) Bool.false_ne_true, hg⟩,
            fun hg => hg.2.2⟩
        | false =>
          have htp := Task.not_isHuman_iff.mp hth
          have hop := isBotPush_bot htp
          obtain ⟨m', hm, d'⟩ := d.push_bot htp hft
          have hnext : humanNext (.push t :: ops) = humanNext ops := by
            rw [humanNext, hth]; rfl
          rw [agree_cons_bot hop hm, giveWay_cons hm, hnext,
            (ih m' h hinc' (fresh m' hm)).2 v rest d']
          exact and_congr_right fun _ =>
            ⟨fun hg => ⟨fun _ hfull => absurd hfull hnot, hg⟩, fun hg => hg.2⟩

/-- **When Bot traffic is harmless.**  For every positive capacity and every history with strictly
    increasing timestamps, the history serves and evicts the same Humans as without its Bot pushes,
    exactly when every Bot pushed on a queue full of Humans is followed by a Human push, with at
    most Bot pushes between.

    The two histories start in `HumanSim`.  A Bot on a queue full of Humans leads to `HumanDebt`, a
    Human push leads back, and `agree_iff` follows both relations through the history at once.  With
    strictly increasing timestamps a task lost on one side is not made up for by another that looks
    the same. -/
theorem bots_harmless_iff (capacity : Nat) (hC : 0 < capacity) (ops : List QueueOp)
    (hinc : Increasing ops) :
    BotsHarmless capacity ops ↔ BotsGiveWay (QueueLog.start capacity) ops :=
  (agree_iff ops _ _ hinc fun _ _ _ hx => absurd hx List.not_mem_nil).1 (humanSim_start hC)

/-- An event from the class `p` of users. -/
def sampleTask (p : Priority) (time : Nat) : Task :=
  { event := { user := "u", bot := decide (p = .bot), serverName := "en.wikipedia.org" }
    priority := p, enqueuedAt := time }

theorem bots_harmless_iff_two :
    Increasing [.push (sampleTask .human 1), .push (sampleTask .bot 2), .pop] ∧
    (BotsHarmless 2 [.push (sampleTask .human 1), .push (sampleTask .bot 2), .pop] ↔
      BotsGiveWay (QueueLog.start 2)
        [.push (sampleTask .human 1), .push (sampleTask .bot 2), .pop]) :=
  ⟨by decide, bots_harmless_iff 2 (by decide) _ (by decide)⟩

/-- At capacity 1 a Human is queued, a Bot arrives, one task is popped: the Bot is served and the
    Human evicted, where without the Bot the Human is served. -/
theorem bots_not_harmless :
    ¬ ∀ capacity, 0 < capacity → ∀ ops, Increasing ops → BotsHarmless capacity ops := by
  intro hall
  obtain ⟨m, h, hm, hh, hsame⟩ := hall 1 (by decide)
    [.push (sampleTask .human 1), .push (sampleTask .bot 2), .pop] (by decide)
  have hpm : (run QueueLog.step (QueueLog.start 1)
      [.push (sampleTask .human 1), .push (sampleTask .bot 2), .pop]).map QueueLog.popped =
        some [sampleTask .bot 2] := by decide
  have hph : (run QueueLog.step (QueueLog.start 1) (dropBots
      [.push (sampleTask .human 1), .push (sampleTask .bot 2), .pop])).map QueueLog.popped =
        some [sampleTask .human 1] := by decide
  rw [hm] at hpm
  rw [hh] at hph
  have := hsame.1
  rw [Option.some.inj hpm, Option.some.inj hph] at this
  exact absurd this (by decide)

end RtsPipeline.Threaded
