/-
  A two-mode automaton that changes its mode only after `N` inputs in a row have asked for it.

  `beyond mode x` says that the input `x` asks to leave the mode.  One counter serves both
  directions: it counts the inputs that asked in a row, and starts anew when one does not, and when
  the mode changes.

  Histories are lists of inputs, the latest first, so that `after` is a structural recursion and the
  state `k` inputs ago is `after (xs.drop k)`.

  1. `Tracked` — the counter is the length of the longest run of asking inputs since the last
     change.
  2. `changes_iff` — hence an input changes the mode exactly when it ends a run of `N` of them.
  3. `changes_apart` — hence two changes are at least `N` inputs apart.
  4. `Behind.step` — of two automata, the one whose inputs push harder towards `true` stays ahead.
-/
import Mathlib.Data.List.Basic

namespace RtsPipeline.Lib

universe u

/-- The mode, and how many inputs in a row have asked to leave it. -/
structure Dwell where
  mode : Bool
  count : Nat

namespace Dwell

variable {α : Type u} (beyond : Bool → α → Bool) (N : Nat)

/-- The first mode, nothing counted. -/
def start : Dwell := { mode := false, count := 0 }

/-- One input. -/
def step (s : Dwell) (x : α) : Dwell :=
  if beyond s.mode x then
    if N ≤ s.count + 1 then { mode := !s.mode, count := 0 }
    else { mode := s.mode, count := s.count + 1 }
  else { mode := s.mode, count := 0 }

/-- The state after a history. -/
def after : List α → Dwell
  | [] => start
  | x :: xs => step beyond N (after xs) x

/-- The latest input of the history changed the mode. -/
def Changes (xs : List α) : Prop :=
  (after beyond N xs).mode ≠ (after beyond N xs.tail).mode

variable {beyond N}

/-! ## One input

What a single input does, read off the counter: it moves on by one, starts over, or has come to
the end and the mode changes. -/

theorem step_inside {s : Dwell} {x : α} (h : beyond s.mode x = false) :
    step beyond N s x = { mode := s.mode, count := 0 } := by
  rw [step, h]; rfl

theorem step_last {s : Dwell} {x : α} (h : beyond s.mode x = true) (hN : N ≤ s.count + 1) :
    step beyond N s x = { mode := !s.mode, count := 0 } := by
  rw [step, if_pos h, if_pos hN]

theorem step_more {s : Dwell} {x : α} (h : beyond s.mode x = true) (hN : s.count + 1 < N) :
    step beyond N s x = { mode := s.mode, count := s.count + 1 } := by
  rw [step, if_pos h, if_neg (Nat.not_le.mpr hN)]

/-- An input changes the mode when it asks for it and is the last one needed. -/
theorem step_mode_ne {s : Dwell} {x : α} :
    (step beyond N s x).mode ≠ s.mode ↔ beyond s.mode x = true ∧ N ≤ s.count + 1 := by
  cases hb : beyond s.mode x with
  | false => rw [step_inside hb]; simp
  | true =>
    by_cases hN : N ≤ s.count + 1
    · rw [step_last hb hN]; simp [hN]
    · rw [step_more hb (Nat.not_le.mp hN)]; simp [hN]

variable (beyond N) in
/-- An input changes the mode, the counter being full, or adds one to the counter at most. -/
theorem step_cases (s : Dwell) (x : α) :
    (step beyond N s x).mode = s.mode ∧ (step beyond N s x).count ≤ s.count + 1 ∨
      (step beyond N s x).mode ≠ s.mode ∧ N ≤ s.count + 1 ∧ (step beyond N s x).count = 0 := by
  cases hb : beyond s.mode x with
  | false => exact Or.inl (by rw [step_inside hb]; exact ⟨rfl, Nat.zero_le _⟩)
  | true =>
    by_cases hN : N ≤ s.count + 1
    · refine Or.inr ⟨step_mode_ne.mpr ⟨hb, hN⟩, hN, ?_⟩
      rw [step_last hb hN]
    · exact Or.inl (by rw [step_more hb (Nat.not_le.mp hN)]; exact ⟨rfl, Nat.le_refl _⟩)

/-- The counter stays below `N`. -/
theorem step_count_lt (hN : 0 < N) (s : Dwell) (x : α) : (step beyond N s x).count < N := by
  unfold step
  split
  · split
    · exact hN
    · rename_i h
      exact Nat.not_le.mp h
  · exact hN

/-- An input that asks to leave `true` and not to leave `false`: the mode is `false`, or the counter
    has moved on. -/
theorem step_towards_false {s : Dwell} {x : α} (ht : beyond true x = true)
    (hf : beyond false x = false) :
    (step beyond N s x).mode = false ∨
      s.mode = true ∧ (step beyond N s x).count = s.count + 1 := by
  cases hm : s.mode with
  | false => exact Or.inl (by rw [step_inside (by rw [hm]; exact hf)]; exact hm)
  | true =>
    have hb : beyond s.mode x = true := by rw [hm]; exact ht
    by_cases hN : N ≤ s.count + 1
    · exact Or.inl (by rw [step_last hb hN, hm]; rfl)
    · exact Or.inr ⟨rfl, by rw [step_more hb (Nat.not_le.mp hN)]⟩

/-! ## Histories

What the counter means cannot be seen from the state.  `Tracked` says it of the history: the inputs
that are counted asked, none of them changed the mode, and right before them stands an input that
did not ask or did change it.  The last part is what makes the count exact, and not just a lower
bound. -/

@[simp] theorem after_cons (x : α) (xs : List α) :
    after beyond N (x :: xs) = step beyond N (after beyond N xs) x := rfl

/-- What the counter says about a history: the inputs it counts asked in a row and changed nothing,
    and the one before them did not ask, or changed the mode. -/
structure Tracked (beyond : Bool → α → Bool) (N : Nat) (xs : List α) : Prop where
  count_lt : (after beyond N xs).count < N
  count_le : (after beyond N xs).count ≤ xs.length
  asked : ∀ k < (after beyond N xs).count, ∀ x, xs[k]? = some x →
    beyond (after beyond N xs).mode x = true
  kept : ∀ k < (after beyond N xs).count, ¬ Changes beyond N (xs.drop k)
  begun : (after beyond N xs).count < xs.length →
    Changes beyond N (xs.drop (after beyond N xs).count) ∨
      ∃ x, xs[(after beyond N xs).count]? = some x ∧ beyond (after beyond N xs).mode x = false

/-- Nothing is counted: only what the latest input did is to be shown. -/
theorem tracked_of_zero (hN : 0 < N) {xs : List α} (hzero : (after beyond N xs).count = 0)
    (hbegun : xs ≠ [] → Changes beyond N xs ∨
      ∃ x, xs[0]? = some x ∧ beyond (after beyond N xs).mode x = false) :
    Tracked beyond N xs := by
  constructor <;> rw [hzero]
  · exact hN
  · exact Nat.zero_le _
  · exact fun _ h => absurd h (Nat.not_lt_zero _)
  · exact fun _ h => absurd h (Nat.not_lt_zero _)
  · exact fun h => hbegun (List.ne_nil_of_length_pos h)

theorem tracked (hN : 0 < N) (xs : List α) : Tracked beyond N xs := by
  induction xs with
  | nil => exact tracked_of_zero hN rfl fun h => absurd rfl h
  | cons x xs ih =>
    generalize hs : after beyond N xs = s at *
    have hstate : after beyond N (x :: xs) = step beyond N s x := by rw [after_cons, hs]
    have hlt : (step beyond N s x).count < N := step_count_lt hN s x
    cases hb : beyond s.mode x with
    | false =>
      -- the count starts anew at an input that did not ask
      rw [step_inside hb] at hstate
      refine tracked_of_zero hN (by rw [hstate]) fun _ => Or.inr ⟨x, rfl, ?_⟩
      rw [hstate]
      exact hb
    | true =>
      by_cases hlast : N ≤ s.count + 1
      · -- the count starts anew at a change
        rw [step_last hb hlast] at hstate
        refine tracked_of_zero hN (by rw [hstate]) fun _ => Or.inl ?_
        show (after beyond N (x :: xs)).mode ≠ (after beyond N xs).mode
        rw [hstate, hs]
        cases s.mode <;> decide
      · -- one more input that asked
        obtain ⟨_, hle, hasked, hkept, hbegun⟩ := ih
        rw [hs] at hle hasked hkept hbegun
        rw [step_more hb (Nat.not_le.mp hlast)] at hstate hlt
        constructor <;> rw [hstate]
        · exact hlt
        · exact Nat.succ_le_succ hle
        · intro k hk y hy
          cases k with
          | zero => obtain rfl := Option.some.inj hy; exact hb
          | succ k => exact hasked k (Nat.lt_of_succ_lt_succ hk) y hy
        · intro k hk
          cases k with
          | zero =>
            show ¬ (after beyond N (x :: xs)).mode ≠ (after beyond N xs).mode
            rw [hstate, hs]
            exact fun h => h rfl
          | succ k => exact hkept k (Nat.lt_of_succ_lt_succ hk)
        · exact fun h => hbegun (Nat.lt_of_succ_lt_succ h)

/-- **When the mode changes**: exactly at the end of `N` inputs in a row that all asked for it,
    none of the earlier ones having changed it. -/
theorem changes_iff (hN : 0 < N) (x : α) (xs : List α) :
    Changes beyond N (x :: xs) ↔ N ≤ xs.length + 1 ∧
      (∀ k < N, ∀ y, (x :: xs)[k]? = some y → beyond (after beyond N xs).mode y = true) ∧
      ∀ k, k + 1 < N → ¬ Changes beyond N (xs.drop k) := by
  have ht : Tracked beyond N xs := tracked hN xs
  have hlt := ht.count_lt
  have hle := ht.count_le
  rw [Changes, after_cons, List.tail_cons, step_mode_ne]
  constructor
  · rintro ⟨hb, hlast⟩
    refine ⟨by omega, fun k hk y hy => ?_, fun k hk => ht.kept k (by omega)⟩
    cases k with
    | zero => obtain rfl := Option.some.inj hy; exact hb
    | succ k => exact ht.asked k (by omega) y hy
  · rintro ⟨hlen, hasked, hkept⟩
    refine ⟨hasked 0 hN x rfl, Nat.not_lt.mp fun hmore => ?_⟩
    -- the counter stopped short of `N`, at an input that did not ask or at a change
    rcases ht.begun (by omega) with hch | ⟨y, hy, hno⟩
    · exact hkept _ hmore hch
    · have := hasked ((after beyond N xs).count + 1) hmore y hy
      rw [hno] at this
      exact nomatch this

/-- The mode is `true` only after a change from `false`. -/
theorem exists_change {xs : List α} (h : (after beyond N xs).mode = true) :
    ∃ j x rest, xs.drop j = x :: rest ∧ Changes beyond N (x :: rest) ∧
      (after beyond N rest).mode = false := by
  induction xs with
  | nil => exact nomatch h
  | cons x xs ih =>
    cases hm : (after beyond N xs).mode with
    | true =>
      obtain ⟨j, y, rest, hd, hch, hoff⟩ := ih hm
      exact ⟨j + 1, y, rest, hd, hch, hoff⟩
    | false =>
      refine ⟨0, x, xs, rfl, ?_, hm⟩
      show (after beyond N (x :: xs)).mode ≠ (after beyond N xs).mode
      rw [h, hm]
      decide

theorem not_changes_nil : ¬ Changes beyond N ([] : List α) := fun h => h rfl

/-- **Two changes** are at least `N` inputs apart. -/
theorem changes_apart (hN : 0 < N) {xs : List α} {j k : Nat} (hjk : j < k)
    (hj : Changes beyond N (xs.drop j)) (hk : Changes beyond N (xs.drop k)) : j + N ≤ k := by
  cases hd : xs.drop j with
  | nil => rw [hd] at hj; exact absurd hj not_changes_nil
  | cons x rest =>
    rw [hd] at hj
    apply Nat.not_lt.mp
    intro hlt
    have hdrop : xs.drop k = rest.drop (k - j - 1) := by
      have h1 : k = j + (k - j - 1 + 1) := by omega
      rw [h1, ← List.drop_drop, hd, List.drop_succ_cons]
      congr 1
      omega
    refine ((changes_iff hN x rest).mp hj).2.2 (k - j - 1) (by omega) ?_
    rw [← hdrop]
    exact hk

/-! ## Two automata side by side

That harder inputs lead to `true` sooner is not a matter of the mode alone: the counters must be
compared too, and in which direction depends on the mode they count in.  When the modes differ, the
counters count different things and need not be compared at all. -/

/-- The input `y` pushes towards `true` at least as hard as `x`. -/
structure Pushes (beyond : Bool → α → Bool) (x y : α) : Prop where
  enter : beyond false x = true → beyond false y = true
  leave : beyond true y = true → beyond true x = true
  apart : beyond false x = true → beyond true y = false

/-- The second automaton is at `true` when the first one is; when both are in one mode, it has come
    further on the way to `true`, or less far on the way back.  In different modes the two counts
    have nothing to do with each other: the one counts inputs on the way in, the other on the way
    out.  `apart` keeps them from crossing: when the first one counts an input on its way in, the
    second, at `true` already, counts it not on its way out. -/
structure Behind (s t : Dwell) : Prop where
  mode : s.mode = true → t.mode = true
  entering : t.mode = false → s.count ≤ t.count
  leaving : s.mode = true → t.count ≤ s.count

theorem behind_true (s : Dwell) : Behind s { mode := true, count := 0 } where
  mode := fun _ => rfl
  entering := fun h => nomatch h
  leaving := fun _ => Nat.zero_le _

theorem false_behind (t : Dwell) : Behind { mode := false, count := 0 } t where
  mode := fun h => nomatch h
  entering := fun _ => Nat.zero_le _
  leaving := fun h => nomatch h

/-- **Monotonicity**, one input. -/
theorem Behind.step {s t : Dwell} {x y : α} (h : Behind s t) (hxy : Pushes beyond x y) :
    Behind (step beyond N s x) (step beyond N t y) := by
  obtain ⟨hmode, henter, hleave⟩ := h
  cases hs : s.mode with
  | true =>
    have ht := hmode hs
    have hle := hleave hs
    cases hy : beyond true y with
    | false =>
      rw [step_inside (s := t) (by rw [ht]; exact hy), ht]
      exact behind_true _
    | true =>
      have hx := hxy.leave hy
      by_cases hN : N ≤ s.count + 1
      · rw [step_last (s := s) (by rw [hs]; exact hx) hN, hs]
        exact false_behind _
      · rw [step_more (s := s) (by rw [hs]; exact hx) (by omega),
          step_more (s := t) (by rw [ht]; exact hy) (by omega)]
        exact ⟨fun _ => ht, fun hf => (nomatch ht.symm.trans hf), fun _ => Nat.succ_le_succ hle⟩
  | false =>
    cases ht : t.mode with
    | true =>
      -- the first enters only at an input at which the second does not leave
      cases hx : beyond false x with
      | false =>
        rw [step_inside (s := s) (by rw [hs]; exact hx), hs]
        exact false_behind _
      | true =>
        rw [step_inside (s := t) (by rw [ht]; exact hxy.apart hx), ht]
        exact behind_true _
    | false =>
      have hle := henter ht
      cases hx : beyond false x with
      | false =>
        rw [step_inside (s := s) (by rw [hs]; exact hx), hs]
        exact false_behind _
      | true =>
        have hy := hxy.enter hx
        by_cases hN : N ≤ t.count + 1
        · rw [step_last (s := t) (by rw [ht]; exact hy) hN, ht]
          exact behind_true _
        · rw [step_more (s := s) (by rw [hs]; exact hx) (by omega),
            step_more (s := t) (by rw [ht]; exact hy) (by omega)]
          exact ⟨fun h => (nomatch hs.symm.trans h), fun _ => Nat.succ_le_succ hle,
            fun h => (nomatch hs.symm.trans h)⟩

end Dwell

end RtsPipeline.Lib
