/-
  Systems whose steps know the time.

  `Timed` puts a clock beside a state.  Time passes in steps of its own, of any length; every other
  step happens at one instant and may read the clock.  How promptly the parties are scheduled is a
  property of a run: `Throughout` says that every state of the run meets a condition, such as that
  nothing has been overdue for longer than some latency.

  1. `Timed`, `Timed.step` — the clock and the steps.
  2. `Throughout` — what holds in every state of a run, and the run lemma for it.
  3. `Responds` — **bounded response**: a time by which something happens, that no step puts off.
  4. `turns` — how often a party has its turn until then.
-/
import RtsPipeline.Lib.Run

namespace RtsPipeline.Lib

universe u v

/-! ## The clock

A step either lets time pass or is made at the present time.  So every statement about when
something happens is one about a schedule, and an assumption about promptness is one about which
schedules there are. -/

/-- A state and the monotonic clock, in nanoseconds. -/
structure Timed (τ : Type u) where
  clock : Nat
  state : τ

/-- Time passes, or a step is made. -/
inductive TimedEvent (κ : Type v)
  | elapse (ns : Nat)
  | act (k : κ)

/-- The step made. -/
def TimedEvent.act? {κ : Type v} : TimedEvent κ → Option κ
  | elapse _ => none
  | act k => some k

section Clock

variable {τ : Type u} {κ : Type v} {act : Nat → τ → κ → Option τ}

/-- One step; `act` says what a step made at a time does. -/
def Timed.step (act : Nat → τ → κ → Option τ) (s : Timed τ) : TimedEvent κ → Option (Timed τ)
  | .elapse ns => some { s with clock := s.clock + ns }
  | .act k => (act s.clock s.state k).map fun t => { s with state := t }

theorem Timed.step_elapse {s s' : Timed τ} {ns : Nat}
    (h : s.step act (.elapse ns) = some s') : s' = { s with clock := s.clock + ns } :=
  (Option.some.inj h).symm

theorem Timed.step_act {s s' : Timed τ} {k : κ} (h : s.step act (.act k) = some s') :
    s'.clock = s.clock ∧ act s.clock s.state k = some s'.state := by
  obtain ⟨t, ht, rfl⟩ := Option.map_eq_some_iff.mp h
  exact ⟨rfl, ht⟩

/-- **Run lemma**: what the steps keep at one time and the passing of time does not take away holds
    throughout. -/
theorem Timed.invariant {I : Nat → τ → Prop}
    (helapse : ∀ now later t, now ≤ later → I now t → I later t)
    (hact : ∀ now t k t', I now t → act now t k = some t' → I now t') {init s : Timed τ}
    (h0 : I init.clock init.state) {ls : List (TimedEvent κ)}
    (h : run (Timed.step act) init ls = some s) : I s.clock s.state := by
  refine run_invariant (I := fun s => I s.clock s.state) ?_ ls init s h0 h
  intro s e s' hs he
  cases e with
  | elapse ns =>
    rw [step_elapse he]
    exact helapse _ _ _ (Nat.le_add_right _ _) hs
  | act k =>
    obtain ⟨hclock, hk⟩ := step_act he
    rw [hclock]
    exact hact _ _ k _ hs hk

end Clock

/-! ## What holds in every state of a run

`Along` of `Lib.Run` speaks of steps, and `Throughout` of the states between them.  It can be cut
anywhere and put together again, and it can be computed, which is what the examples need. -/

section Throughout

variable {σ : Type u} {ℓ : Type v} {step : σ → ℓ → Option σ} {P : σ → Prop}

/-- Every state that the schedule goes through meets `P`, the first and the last included. -/
def Throughout (step : σ → ℓ → Option σ) (P : σ → Prop) (s : σ) (ls : List ℓ) : Prop :=
  ∀ before after, ls = before ++ after → ∀ s', run step s before = some s' → P s'

theorem Throughout.head {s : σ} {ls : List ℓ} (h : Throughout step P s ls) : P s :=
  h [] ls rfl s rfl

theorem Throughout.right {s t : σ} {ls ms : List ℓ} (h : Throughout step P s (ls ++ ms))
    (ht : run step s ls = some t) : Throughout step P t ms := by
  rintro before after rfl s' hr
  exact h (ls ++ before) after (List.append_assoc _ _ _).symm s' (run_append_some.mpr ⟨t, ht, hr⟩)

theorem Throughout.left {s : σ} {ls ms : List ℓ} (h : Throughout step P s (ls ++ ms)) :
    Throughout step P s ls := by
  rintro before after rfl s' hr
  exact h before (after ++ ms) (List.append_assoc _ _ _) s' hr

theorem Throughout.tail {s s' : σ} {l : ℓ} {ls : List ℓ} (h : Throughout step P s (l :: ls))
    (hs : step s l = some s') : Throughout step P s' ls :=
  @Throughout.right _ _ _ _ s s' [l] ls h (run_cons_some.mpr ⟨s', hs, rfl⟩)

theorem throughout_nil {s : σ} : Throughout step P s [] ↔ P s := by
  refine ⟨Throughout.head, fun h before after hb s' hr => ?_⟩
  obtain ⟨rfl, _⟩ := List.append_eq_nil_iff.mp hb.symm
  obtain rfl := Option.some.inj hr
  exact h

theorem throughout_cons {s : σ} {l : ℓ} {ls : List ℓ} :
    Throughout step P s (l :: ls) ↔ P s ∧ ∀ t, step s l = some t → Throughout step P t ls := by
  refine ⟨fun h => ⟨h.head, fun t ht => h.tail ht⟩, fun ⟨hs, htail⟩ before after hb s' hr => ?_⟩
  cases before with
  | nil =>
    obtain rfl := Option.some.inj hr
    exact hs
  | cons b before =>
    obtain ⟨rfl, hrest⟩ := List.cons.inj hb
    obtain ⟨t, ht, hr'⟩ := run_cons_some.mp hr
    exact htail t ht before after hrest s' hr'

/-- Whether every state meets a condition can be computed by playing the schedule. -/
instance decidableThroughout [DecidablePred P] :
    ∀ (s : σ) (ls : List ℓ), Decidable (Throughout step P s ls)
  | s, [] => decidable_of_iff (P s) throughout_nil.symm
  | s, l :: ls =>
    match h : step s l with
    | none => decidable_of_iff (P s) (by rw [throughout_cons, h]; simp)
    | some t =>
      haveI := decidableThroughout t ls
      decidable_of_iff (P s ∧ Throughout step P t ls) (by rw [throughout_cons, h]; simp)

/-- What holds in every reachable state holds throughout a run. -/
theorem throughout_of_reachable {init : σ} (hP : ∀ s, Reachable step init s → P s)
    (ls : List ℓ) : Throughout step P init ls :=
  fun before _ _ s' hr => hP s' ⟨before, hr⟩

theorem Throughout.and {Q : σ → Prop} {s : σ} {ls : List ℓ} (hP : Throughout step P s ls)
    (hQ : Throughout step Q s ls) : Throughout step (fun s => P s ∧ Q s) s ls :=
  fun before after hb s' hr => ⟨hP before after hb s' hr, hQ before after hb s' hr⟩

/-- **Run lemma** for the runs that meet `P` throughout. -/
theorem run_invariant_throughout {I : σ → Prop}
    (hstep : ∀ s l s', I s → P s → P s' → step s l = some s' → I s') :
    ∀ (ls : List ℓ) (s s' : σ), I s → Throughout step P s ls → run step s ls = some s' → I s' := by
  intro ls
  induction ls with
  | nil =>
    intro s s' hI _ h
    obtain rfl := Option.some.inj h
    exact hI
  | cons l ls ih =>
    intro s s' hI hP h
    obtain ⟨t, ht, hr⟩ := run_cons_some.mp h
    have htail := hP.tail ht
    exact ih t s' (hstep s l t hI hP.head htail.head ht) htail hr

/-! ## Bounded response

A bound on the time of something that is yet to happen cannot be an invariant of the clock, as the
clock moves on.  What is invariant is the time by which it must happen, `latest`: it may come
nearer, but no step puts it off.  And the clock cannot pass it, as the parties are prompt. -/

/-- In states that meet `P`, `done` comes about by `latest` at the latest: as long as it has not,
    the time is not up, and no step puts it off. -/
structure Responds (step : σ → ℓ → Option σ) (clock : σ → Nat) (P done : σ → Prop)
    (latest : σ → Nat) : Prop where
  stays : ∀ s l s', P s → done s → step s l = some s' → done s'
  sooner : ∀ s l s', P s → P s' → step s l = some s' → done s' ∨ latest s' ≤ latest s
  awaited : ∀ s, P s → done s ∨ clock s ≤ latest s

/-- **Bounded response**: after `latest`, it is done.  The date never moves further away, and in the
    last state of the run it has not passed. -/
theorem Responds.bounded {clock : σ → Nat} {done : σ → Prop} {latest : σ → Nat}
    (h : Responds step clock P done latest) {s s' : σ} {ls : List ℓ}
    (hP : Throughout step P s ls) (hr : run step s ls = some s') :
    done s' ∨ clock s' ≤ latest s := by
  have hlatest : done s' ∨ latest s' ≤ latest s := by
    refine run_invariant_throughout (P := P) (I := fun t => done t ∨ latest t ≤ latest s) ?_ ls s s'
      (Or.inr (Nat.le_refl _)) hP hr
    intro t l t' ht hPt hPt' hs
    rcases ht with hd | hle
    · exact Or.inl (h.stays t l t' hPt hd hs)
    · rcases h.sooner t l t' hPt hPt' hs with hd | hle'
      · exact Or.inl hd
      · exact Or.inr (Nat.le_trans hle' hle)
  have hend : P s' := hP ls [] (List.append_nil _).symm s' hr
  rcases hlatest with hd | hle
  · exact Or.inl hd
  · exact (h.awaited s' hend).imp_right fun hc => Nat.le_trans hc hle

end Throughout

/-! ## Turns

If something takes several turns of a party, each within a period of the one before, the bound is
the number of turns left times the period.  `turns` counts the other way round: how many there will
have been by a given time. -/

/-- How often a party has its turn up to `latest`, if it has its next one by `next` and every other
    within a period of the one before. -/
def turns (period latest next : Nat) : Nat :=
  if next ≤ latest then (latest - next) / period + 1 else 0

section Turns

variable {period latest next next' : Nat}

theorem turns_anti (h : next' ≤ next) : turns period latest next ≤ turns period latest next' := by
  unfold turns
  split
  · rw [if_pos (by omega)]
    exact Nat.succ_le_succ (Nat.div_le_div_right (by omega))
  · exact Nat.zero_le _

/-- One turn is taken, and the next one comes within a period. -/
theorem turns_next (hp : 0 < period) (h : next' ≤ next + period) :
    turns period latest next ≤ turns period latest next' + 1 := by
  refine Nat.le_trans ?_ (Nat.add_le_add_right (turns_anti h) 1)
  unfold turns
  by_cases hle : next + period ≤ latest
  · have hsplit : latest - next = latest - (next + period) + period := by omega
    have hnow : next ≤ latest := by omega
    refine Nat.le_of_eq ?_
    rw [if_pos hle, if_pos hnow, hsplit, Nat.add_div_right _ hp]
  · rw [if_neg hle]
    split
    · refine Nat.le_of_eq ?_
      rw [Nat.div_eq_of_lt (by omega)]
    · exact Nat.zero_le _

end Turns

end RtsPipeline.Lib
