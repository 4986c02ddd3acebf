/-
  Runs of a labelled system whose next state is a partial function of the state and the label.

  An interleaving of several parties is one list of labels, each naming the party that moves: the
  list is the schedule, and `step` says what the scheduled party does from the present state, or
  `none` when it cannot move.  `run` plays a schedule, `Reachable` forgets it.

  `run_invariant` is the one induction every safety theorem of a protocol rests on: what holds at
  the start and is kept by each step holds after every schedule.
-/
import Mathlib.Data.List.Basic

namespace RtsPipeline.Lib

universe u v

variable {σ : Type u} {ℓ : Type v} (step : σ → ℓ → Option σ)

/-- Play a schedule. -/
def run : σ → List ℓ → Option σ
  | s, [] => some s
  | s, l :: ls => (step s l).bind fun s' => run s' ls

/-- Every step of the schedule is taken from a state where `Q` holds of it. -/
def Along (Q : σ → ℓ → Prop) (s : σ) (ls : List ℓ) : Prop :=
  ∀ pre l post, ls = pre ++ l :: post → ∀ s', run step s pre = some s' → Q s' l

/-- `s` is reached from `init` by some schedule. -/
def Reachable (init s : σ) : Prop := ∃ ls, run step init ls = some s

variable {step}

@[simp] theorem run_nil (s : σ) : run step s [] = some s := rfl

theorem run_cons (s : σ) (l : ℓ) (ls : List ℓ) :
    run step s (l :: ls) = (step s l).bind fun s' => run step s' ls := rfl

theorem run_cons_some {s s' : σ} {l : ℓ} {ls : List ℓ} :
    run step s (l :: ls) = some s' ↔ ∃ t, step s l = some t ∧ run step t ls = some s' := by
  rw [run_cons, Option.bind_eq_some_iff]

theorem run_append (s : σ) (ls ms : List ℓ) :
    run step s (ls ++ ms) = (run step s ls).bind fun t => run step t ms := by
  induction ls generalizing s with
  | nil => rfl
  | cons l ls ih =>
    rw [List.cons_append, run_cons, run_cons, Option.bind_assoc]
    exact congrArg _ (funext ih)

theorem run_append_some {s s' : σ} {ls ms : List ℓ} :
    run step s (ls ++ ms) = some s' ↔ ∃ t, run step s ls = some t ∧ run step t ms = some s' := by
  rw [run_append, Option.bind_eq_some_iff]

/-- A guarded step that was taken. -/
theorem of_guard {p : Prop} [Decidable p] {s t : σ} (h : (if p then some s else none) = some t) :
    p ∧ s = t := by
  obtain ⟨hp, ht⟩ := Option.ite_none_right_eq_some.mp h
  exact ⟨hp, Option.some.inj ht⟩

/-- **Run lemma**: what every step keeps, every run keeps. -/
theorem run_invariant {I : σ → Prop} (hstep : ∀ s l s', I s → step s l = some s' → I s') :
    ∀ (ls : List ℓ) (s s' : σ), I s → run step s ls = some s' → I s' := by
  intro ls
  induction ls with
  | nil =>
    intro s s' hI h
    obtain rfl := Option.some.inj h
    exact hI
  | cons l ls ih =>
    intro s s' hI h
    obtain ⟨t, ht, hr⟩ := run_cons_some.mp h
    exact ih t s' (hstep s l t hI ht) hr

/-- The run lemma for the rest of a run, from a step on that brings the invariant about. -/
theorem run_invariant_after {I : σ → Prop} (hstep : ∀ s l s', I s → step s l = some s' → I s')
    {init s t : σ} {pre post : List ℓ} {l : ℓ} (h : run step init (pre ++ l :: post) = some s)
    (ht : run step init pre = some t) (hI : ∀ t', step t l = some t' → I t') : I s := by
  obtain ⟨t₁, ht₁, hpost⟩ := run_append_some.mp h
  obtain rfl := Option.some.inj (ht.symm.trans ht₁)
  obtain ⟨t', hl, hrest⟩ := run_cons_some.mp hpost
  exact run_invariant hstep post t' s (hI t' hl) hrest

/-- A log to which each step adds what its label gives holds, after a run, what the schedule gives
    in order. -/
theorem run_collect {β : Type*} {log : σ → List β} {gives : ℓ → Option β}
    (hstep : ∀ s l s', step s l = some s' → log s' = log s ++ (gives l).toList) :
    ∀ (ls : List ℓ) (s s' : σ), run step s ls = some s' →
    log s' = log s ++ ls.filterMap gives := by
  intro ls
  induction ls with
  | nil =>
    intro s s' h
    obtain rfl := Option.some.inj h
    exact (List.append_nil _).symm
  | cons l ls ih =>
    intro s s' h
    obtain ⟨t, ht, hr⟩ := run_cons_some.mp h
    rw [ih t s' hr, hstep s l t ht, List.append_assoc]
    cases hg : gives l with
    | none => rw [List.filterMap_cons_none hg, Option.toList_none, List.nil_append]
    | some b => rw [List.filterMap_cons_some hg, Option.toList_some, List.singleton_append]

/-- **Refinement**: when each step is, seen from outside, the step of its inner label or none, a run
    is the run of the inner labels. -/
theorem run_refine {τ κ : Type*} {step' : τ → κ → Option τ} (view : σ → τ)
    (inner : ℓ → Option κ)
    (hstep : ∀ s l s', step s l = some s' → run step' (view s) (inner l).toList = some (view s')) :
    ∀ (ls : List ℓ) (s s' : σ), run step s ls = some s' →
    run step' (view s) (ls.filterMap inner) = some (view s') := by
  intro ls
  induction ls with
  | nil =>
    intro s s' h
    obtain rfl := Option.some.inj h
    rfl
  | cons l ls ih =>
    intro s s' h
    obtain ⟨t, ht, hr⟩ := run_cons_some.mp h
    have hsplit : (l :: ls).filterMap inner = (inner l).toList ++ ls.filterMap inner := by
      cases hi : inner l with
      | none => rw [List.filterMap_cons_none hi]; rfl
      | some k => rw [List.filterMap_cons_some hi]; rfl
    rw [hsplit]
    exact run_append_some.mpr ⟨view t, hstep s l t ht, ih t s' hr⟩

/-! ## Schedules whose steps all meet a condition

A condition on the step and on the state it is taken from, asked all along a run.  `Along` is stated
with prefixes, so that it speaks of the states a run really comes through; the lemmas take it apart
step by step, the way an induction on the schedule needs it. -/

theorem Along.head {Q : σ → ℓ → Prop} {s : σ} {l : ℓ} {ls : List ℓ}
    (h : Along step Q s (l :: ls)) : Q s l := h [] l ls rfl s rfl

theorem Along.tail {Q : σ → ℓ → Prop} {s s' : σ} {l : ℓ} {ls : List ℓ}
    (h : Along step Q s (l :: ls)) (hs : step s l = some s') : Along step Q s' ls := by
  intro pre l' post hls t ht
  exact h (l :: pre) l' post (by rw [hls]; rfl) t (run_cons_some.mpr ⟨s', hs, ht⟩)

theorem along_cons {Q : σ → ℓ → Prop} {s t : σ} {l : ℓ} {ls : List ℓ} (hs : step s l = some t)
    (hl : Q s l) (hls : Along step Q t ls) : Along step Q s (l :: ls) := by
  intro pre l' post hcons s' hr
  cases pre with
  | nil =>
    obtain rfl := Option.some.inj hr
    obtain ⟨rfl, _⟩ := List.cons.inj hcons
    exact hl
  | cons p pre =>
    obtain ⟨rfl, htail⟩ := List.cons.inj hcons
    obtain ⟨t', ht', hr'⟩ := run_cons_some.mp hr
    obtain rfl := Option.some.inj (hs.symm.trans ht')
    exact hls pre l' post htail s' hr'

theorem along_nil (Q : σ → ℓ → Prop) (s : σ) : Along step Q s [] :=
  fun _ _ _ h => absurd h.symm (by simp)

/-- A condition on the labels alone. -/
theorem along_of_forall {P : ℓ → Prop} {s : σ} {ls : List ℓ} (h : ∀ l ∈ ls, P l) :
    Along step (fun _ l => P l) s ls := by
  rintro pre l post rfl _ _
  exact h l (List.mem_append_right _ List.mem_cons_self)

theorem along_cons_iff {Q : σ → ℓ → Prop} {s : σ} {l : ℓ} {ls : List ℓ} :
    Along step Q s (l :: ls) ↔ Q s l ∧ ∀ t, step s l = some t → Along step Q t ls := by
  refine ⟨fun h => ⟨h.head, fun t ht => h.tail ht⟩, fun ⟨hl, htail⟩ => ?_⟩
  cases hs : step s l with
  | some t => exact along_cons hs hl (htail t hs)
  | none =>
    -- the schedule stops here
    intro pre l' post hcons s' hr
    cases pre with
    | nil =>
      obtain rfl := Option.some.inj hr
      obtain ⟨rfl, _⟩ := List.cons.inj hcons
      exact hl
    | cons p pre =>
      obtain ⟨rfl, _⟩ := List.cons.inj hcons
      rw [run_cons, hs] at hr
      exact nomatch hr

/-- Whether a schedule meets a condition can be computed by playing it. -/
instance decidableAlong {Q : σ → ℓ → Prop} [∀ s l, Decidable (Q s l)] :
    ∀ (s : σ) (ls : List ℓ), Decidable (Along step Q s ls)
  | s, [] => isTrue (along_nil Q s)
  | s, l :: ls =>
    match h : step s l with
    | none => decidable_of_iff (Q s l) (by rw [along_cons_iff, h]; simp)
    | some t =>
      haveI := decidableAlong (Q := Q) t ls
      decidable_of_iff (Q s l ∧ Along step Q t ls) (by rw [along_cons_iff, h]; simp)

/-- The run lemma for the schedules whose steps all meet `Q`. -/
theorem run_invariant_along {Q : σ → ℓ → Prop} {I : σ → Prop}
    (hstep : ∀ s l s', I s → Q s l → step s l = some s' → I s') :
    ∀ (ls : List ℓ) (s s' : σ), I s → Along step Q s ls → run step s ls = some s' → I s' := by
  intro ls
  induction ls with
  | nil =>
    intro s s' hI _ h
    obtain rfl := Option.some.inj h
    exact hI
  | cons l ls ih =>
    intro s s' hI hQ h
    obtain ⟨t, ht, hr⟩ := run_cons_some.mp h
    exact ih t s' (hstep s l t hI hQ.head ht) (hQ.tail ht) hr

/-! ## Reachable states

For what holds in every state there is, whatever the schedule that led to it. -/

/-- What holds at the start and is kept by every step holds in every reachable state. -/
theorem Reachable.invariant {I : σ → Prop} {init s : σ} (h0 : I init)
    (hstep : ∀ s l s', I s → step s l = some s' → I s') (h : Reachable step init s) : I s := by
  obtain ⟨ls, hls⟩ := h
  exact run_invariant hstep ls init s h0 hls

theorem Reachable.refl (init : σ) : Reachable step init init := ⟨[], rfl⟩

theorem Reachable.tail {init s s' : σ} {l : ℓ} (h : Reachable step init s)
    (hs : step s l = some s') : Reachable step init s' := by
  obtain ⟨ms, hms⟩ := h
  exact ⟨ms ++ [l], run_append_some.mpr ⟨s, hms, run_cons_some.mpr ⟨s', hs, rfl⟩⟩⟩

/-- A condition on the steps that can be taken from reachable states holds along every run. -/
theorem along_of_run {Q : σ → ℓ → Prop} {init : σ}
    (hQ : ∀ t l t', Reachable step init t → step t l = some t' → Q t l) {ls : List ℓ} {s : σ}
    (h : run step init ls = some s) : Along step Q init ls := by
  intro pre l post hls t ht
  rw [hls, run_append_some] at h
  obtain ⟨t1, ht1, h1⟩ := h
  obtain rfl := Option.some.inj (ht.symm.trans ht1)
  obtain ⟨t2, ht2, _⟩ := run_cons_some.mp h1
  exact hQ t l t2 ⟨pre, ht⟩ ht2

/-! ## Machines that show something at every step

When a step returns a value besides the next state, a run returns the list of them, and two
machines can be compared by what they show. -/

/-- Play a schedule and collect what the steps show. -/
def trace {ω : Type*} (step : σ → ℓ → Option (σ × ω)) : σ → List ℓ → Option (σ × List ω)
  | s, [] => some (s, [])
  | s, l :: ls =>
    (step s l).bind fun r => (trace step r.1 ls).map fun t => (t.1, r.2 :: t.2)

theorem trace_cons_of {ω : Type*} {step : σ → ℓ → Option (σ × ω)} {s s1 s' : σ} {l : ℓ}
    {ls : List ℓ} {o : ω} {os : List ω} (hs : step s l = some (s1, o))
    (ht : trace step s1 ls = some (s', os)) : trace step s (l :: ls) = some (s', o :: os) := by
  rw [trace, hs, Option.bind_some, ht, Option.map_some]

/-- **Lockstep simulation**: two machines whose states stay related, for the steps still to come,
    and that show the same at every step, show the same over the whole schedule. -/
theorem trace_lockstep {τ ω : Type*} {step : σ → ℓ → Option (σ × ω)}
    {step' : τ → ℓ → Option (τ × ω)} {R : σ → τ → List ℓ → Prop}
    (hstep : ∀ s t l ls, R s t (l :: ls) →
      ∃ o s1 t1, step s l = some (s1, o) ∧ step' t l = some (t1, o) ∧ R s1 t1 ls) :
    ∀ (ls : List ℓ) (s : σ) (t : τ), R s t ls →
    ∃ s' t' os, trace step s ls = some (s', os) ∧ trace step' t ls = some (t', os) := by
  intro ls
  induction ls with
  | nil => exact fun s t _ => ⟨s, t, [], rfl, rfl⟩
  | cons l ls ih =>
    intro s t h
    obtain ⟨o, s1, t1, hs, ht, h1⟩ := hstep s t l ls h
    obtain ⟨s', t', os, hs', ht'⟩ := ih s1 t1 h1
    exact ⟨s', t', o :: os, trace_cons_of hs hs', trace_cons_of ht ht'⟩

/-! ## What an onlooker sees of a run

The other way round: the step returns nothing, and what is of interest is read off each state and
label on the way.  `run_observe_along` is the run lemma for a relation between the state and all
that has been seen. -/

/-- Play a schedule and collect what `see` makes of each step. -/
def observe {β : Type*} (step : σ → ℓ → Option σ) (see : σ → ℓ → List β) : σ → List ℓ → List β
  | _, [] => []
  | s, l :: ls => see s l ++ ((step s l).map fun s' => observe step see s' ls).getD []

theorem observe_cons {β : Type*} {see : σ → ℓ → List β} {s t : σ} {l : ℓ} {ls : List ℓ}
    (hs : step s l = some t) :
    observe step see s (l :: ls) = see s l ++ observe step see t ls := by
  rw [observe, hs, Option.map_some, Option.getD_some]

/-- **Run lemma** for a relation between the state and what was seen so far. -/
theorem run_observe {β : Type*} {see : σ → ℓ → List β} {R : σ → List β → Prop}
    (hstep : ∀ s bs l s', R s bs → step s l = some s' → R s' (bs ++ see s l)) :
    ∀ (ls : List ℓ) (s s' : σ) (bs : List β), R s bs → run step s ls = some s' →
    R s' (bs ++ observe step see s ls) := by
  intro ls
  induction ls with
  | nil =>
    intro s s' bs hR h
    obtain rfl := Option.some.inj h
    rw [observe, List.append_nil]
    exact hR
  | cons l ls ih =>
    intro s s' bs hR h
    obtain ⟨t, ht, hr⟩ := run_cons_some.mp h
    rw [observe_cons ht, ← List.append_assoc]
    exact ih t s' _ (hstep s bs l t hR ht) hr

/-- The run lemma for a relation, for the schedules whose steps all meet `Q`. -/
theorem run_observe_along {β : Type*} {see : σ → ℓ → List β} {Q : σ → ℓ → Prop}
    {R : σ → List β → Prop}
    (hstep : ∀ s bs l s', R s bs → Q s l → step s l = some s' → R s' (bs ++ see s l)) :
    ∀ (ls : List ℓ) (s s' : σ) (bs : List β), R s bs → Along step Q s ls →
    run step s ls = some s' → R s' (bs ++ observe step see s ls) := by
  intro ls
  induction ls with
  | nil =>
    intro s s' bs hR _ h
    obtain rfl := Option.some.inj h
    rw [observe, List.append_nil]
    exact hR
  | cons l ls ih =>
    intro s s' bs hR hQ h
    obtain ⟨t, ht, hr⟩ := run_cons_some.mp h
    rw [observe_cons ht, ← List.append_assoc]
    exact ih t s' _ (hstep s bs l t hR hQ.head ht) (hQ.tail ht) hr

/-- Every step meets a condition on what is seen of it if everything seen meets it. -/
theorem along_observe {β : Type*} {see : σ → ℓ → List β} {P : β → Prop} :
    ∀ (ls : List ℓ) (s s' : σ), run step s ls = some s' →
    (Along step (fun t l => ∀ b ∈ see t l, P b) s ls ↔ ∀ b ∈ observe step see s ls, P b) := by
  intro ls
  induction ls with
  | nil =>
    intro s s' _
    exact ⟨fun _ b hb => absurd hb List.not_mem_nil, fun _ => along_nil _ s⟩
  | cons l ls ih =>
    intro s s' h
    obtain ⟨t, ht, hr⟩ := run_cons_some.mp h
    rw [observe_cons ht, List.forall_mem_append, ← ih t s' hr]
    exact ⟨fun hA => ⟨hA.head, hA.tail ht⟩, fun hA => along_cons ht hA.1 hA.2⟩

/-- Where a part of what is seen of a step depends on its label only, that part of what is seen of a
    run is what the schedule gives. -/
theorem observe_map {β γ : Type*} {see : σ → ℓ → List β} {f : β → γ} {gives : ℓ → Option γ}
    (hsee : ∀ s l, (see s l).map f = (gives l).toList) :
    ∀ (ls : List ℓ) (s s' : σ), run step s ls = some s' →
    (observe step see s ls).map f = ls.filterMap gives := by
  intro ls
  induction ls with
  | nil => exact fun _ _ _ => rfl
  | cons l ls ih =>
    intro s s' h
    obtain ⟨t, ht, hr⟩ := run_cons_some.mp h
    rw [observe_cons ht, List.map_append, hsee, ih t s' hr]
    cases hg : gives l with
    | none => rw [List.filterMap_cons_none hg, Option.toList_none, List.nil_append]
    | some b => rw [List.filterMap_cons_some hg, Option.toList_some, List.singleton_append]

/-- A part of what is seen. -/
theorem observe_part {β γ : Type*} {see : σ → ℓ → List β} (f : β → γ) :
    ∀ (ls : List ℓ) (s : σ), (observe step see s ls).map f =
      observe step (fun t l => (see t l).map f) s ls := by
  intro ls
  induction ls with
  | nil => exact fun _ => rfl
  | cons l ls ih =>
    intro s
    rw [observe, observe, List.map_append]
    cases hs : step s l with
    | none => rfl
    | some t =>
      show _ ++ (observe step see t ls).map f = _
      rw [ih t]
      rfl

/-- What holds of all that is seen of any step holds of all that is seen of a run. -/
theorem observe_forall {β : Type*} (see : σ → ℓ → List β) {P : β → Prop}
    (hsee : ∀ t l, ∀ b ∈ see t l, P b) {ls : List ℓ} {s s' : σ} (h : run step s ls = some s') :
    ∀ b ∈ observe step see s ls, P b :=
  (along_observe ls s s' h).mp fun _ l _ _ t _ => hsee t l

end RtsPipeline.Lib
