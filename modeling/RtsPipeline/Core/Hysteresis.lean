/-
  The hysteresis automaton of `rts-core/src/failsafe.rs`, over every sequence of p99 values.

  The automaton is a `Dwell` automaton whose counter happens to be a `u8`: in Degraded Mode a value
  below `RECOVER_NS` asks to leave, otherwise one above `ENTER_NS` does.  The general theory then
  says when the mode changes.

  A sequence of values is listed with the latest first, so that the automaton `k` ticks ago is
  `after (ps.drop k)`.
-/
import RtsPipeline.Core.FailSafe
import RtsPipeline.Lib.Dwell

namespace RtsPipeline

open Lib

namespace Hysteresis

/-- The value asks to leave the mode. -/
def beyond (degraded : Bool) (p99 : UInt64) : Bool :=
  if degraded then decide (p99 < recoverNs) else decide (enterNs < p99)

/-- What the general automaton sees of this one. -/
def toDwell (h : Hysteresis) : Dwell := { mode := h.degraded, count := h.dwellCounter.toNat }

theorem dwellCounter_lt (h : Hysteresis) : h.dwellCounter.toNat < dwellTicks.toNat :=
  UInt8.lt_iff_toNat_lt.mp h.bounded

/-- The `u8` counter has room for one more. -/
theorem dwellCounter_succ (h : Hysteresis) :
    (h.dwellCounter + 1).toNat = h.dwellCounter.toNat + 1 := by
  have hlt : h.dwellCounter.toNat < 10 := h.dwellCounter_lt
  rw [UInt8.toNat_add]
  exact Nat.mod_eq_of_lt (by show h.dwellCounter.toNat + 1 < 256; omega)

@[simp] theorem toDwell_restart (mode : Bool) :
    (restart mode).toDwell = { mode := mode, count := 0 } := rfl

theorem toDwell_dwell (h : Hysteresis) :
    h.dwell.toDwell =
      if dwellTicks.toNat ≤ h.toDwell.count + 1 then { mode := !h.toDwell.mode, count := 0 }
      else { mode := h.toDwell.mode, count := h.toDwell.count + 1 } := by
  have hsucc := h.dwellCounter_succ
  have hle : dwellTicks ≤ h.dwellCounter + 1 ↔ dwellTicks.toNat ≤ h.toDwell.count + 1 := by
    rw [UInt8.le_iff_toNat_le, hsucc]; rfl
  unfold dwell
  by_cases hd : dwellTicks ≤ h.dwellCounter + 1
  · rw [dif_pos hd, toDwell_restart, if_pos (hle.mp hd)]
    rfl
  · rw [dif_neg hd, if_neg (fun hn => hd (hle.mpr hn))]
    show ({ mode := h.degraded, count := (h.dwellCounter + 1).toNat } : Dwell) = _
    rw [hsucc]
    rfl

/-- **`evaluate` is one input of the general automaton.**  In each mode one comparison counts, which
    is `beyond`. -/
theorem toDwell_evaluate (h : Hysteresis) (p99 : UInt64) :
    (h.evaluate p99).toDwell = Dwell.step beyond dwellTicks.toNat h.toDwell p99 := by
  have hmode : h.toDwell.mode = h.degraded := rfl
  unfold evaluate
  cases hdeg : h.degraded with
  | true =>
    by_cases hp : p99 < recoverNs
    · have hb : beyond h.toDwell.mode p99 = true := by rw [hmode, hdeg]; exact decide_eq_true hp
      rw [if_pos rfl, if_pos hp, toDwell_dwell, Dwell.step, if_pos hb]
    · have hb : beyond h.toDwell.mode p99 = false := by
        rw [hmode, hdeg]; exact decide_eq_false hp
      rw [if_pos rfl, if_neg hp, Dwell.step_inside hb, toDwell_restart, hmode, hdeg]
  | false =>
    by_cases hp : enterNs < p99
    · have hb : beyond h.toDwell.mode p99 = true := by rw [hmode, hdeg]; exact decide_eq_true hp
      rw [if_neg Bool.false_ne_true, if_pos hp, toDwell_dwell, Dwell.step, if_pos hb]
    · have hb : beyond h.toDwell.mode p99 = false := by
        rw [hmode, hdeg]; exact decide_eq_false hp
      rw [if_neg Bool.false_ne_true, if_neg hp, Dwell.step_inside hb, toDwell_restart, hmode, hdeg]

/-! ## Every sequence of values

The tick that changes the mode is the last of a row of ticks whose values all asked for it, and the
counter has counted them.  A value in between sets it back, and so does a change.  In the general
automaton this is one equivalence, and here it is read off for the two modes. -/

/-- The automaton after ticks that saw these values, the latest first. -/
def after : List UInt64 → Hysteresis
  | [] => new
  | p99 :: ps => (after ps).evaluate p99

/-- The latest tick changed the mode. -/
def Changed (ps : List UInt64) : Prop := (after ps).isDegraded ≠ (after ps.tail).isDegraded

/-- **Refinement**, run by run. -/
theorem toDwell_after (ps : List UInt64) :
    (after ps).toDwell = Dwell.after beyond dwellTicks.toNat ps := by
  induction ps with
  | nil => rfl
  | cons p99 ps ih => rw [after, toDwell_evaluate, ih]; rfl

theorem isDegraded_after (ps : List UInt64) :
    (after ps).isDegraded = (Dwell.after beyond dwellTicks.toNat ps).mode := by
  rw [← toDwell_after]; rfl

theorem changed_iff_changes (ps : List UInt64) :
    Changed ps ↔ Dwell.Changes beyond dwellTicks.toNat ps := by
  rw [Changed, Dwell.Changes, isDegraded_after, isDegraded_after]

/-- The tick of the value `p99` follows ticks that saw `ps`; all of the last `DWELL_TICKS` values
    ask to leave the mode, and none of the ticks before it changed it. -/
def Dwelt (p99 : UInt64) (ps : List UInt64) : Prop :=
  dwellTicks.toNat ≤ (p99 :: ps).length ∧
    (∀ k < dwellTicks.toNat, ∀ q, (p99 :: ps)[k]? = some q →
      if (after ps).isDegraded then q < recoverNs else enterNs < q) ∧
    ∀ k, k + 1 < dwellTicks.toNat → ¬ Changed (ps.drop k)

theorem changed_cons_iff (p99 : UInt64) (ps : List UInt64) :
    Changed (p99 :: ps) ↔ Dwelt p99 ps := by
  rw [changed_iff_changes, Dwell.changes_iff (by decide), Dwelt]
  refine and_congr_right fun _ => and_congr ?_ ?_
  · refine forall_congr' fun k => forall_congr' fun _ => forall_congr' fun q =>
      forall_congr' fun _ => ?_
    rw [← isDegraded_after, beyond]
    cases (after ps).isDegraded <;> simp
  · exact forall_congr' fun k => forall_congr' fun _ =>
      not_congr (changed_iff_changes (ps.drop k)).symm

/-- A value between the thresholds starts the dwell anew. -/
theorem evaluate_between (h : Hysteresis) {p99 : UInt64} (hlo : recoverNs ≤ p99)
    (hhi : p99 ≤ enterNs) :
    (h.evaluate p99).isDegraded = h.isDegraded ∧ (h.evaluate p99).dwellCounter = 0 := by
  unfold evaluate
  rw [if_neg (UInt64.not_lt.mpr hlo), if_neg (UInt64.not_lt.mpr hhi)]
  cases hd : h.degraded with
  | true => exact ⟨by rw [if_pos rfl]; exact hd.symm, rfl⟩
  | false => exact ⟨by rw [if_neg Bool.false_ne_true]; exact hd.symm, rfl⟩

/-- **The hysteresis.**  For every sequence of p99 values, the latest first, and the value `p99` of
    one more tick:

    * the dwell counter is below `DWELL_TICKS`, and its `u8` never overflows;
    * the tick turns Degraded Mode on exactly when it was off, the last `DWELL_TICKS` values were
      all above `ENTER_NS` and the mode did not change in between;
    * it turns it off exactly when it was on, the last `DWELL_TICKS` values were all below
      `RECOVER_NS` and the mode did not change in between;
    * two changes are at least `DWELL_TICKS` ticks apart;
    * a value between the thresholds changes nothing and starts the dwell anew.

    The automaton is an instance of `Lib.Dwell`, where all of this is proved of any thresholds;
    `toDwell_after` carries it over, run by run. -/
theorem hysteresis_exact (p99 : UInt64) (ps : List UInt64) :
    (after ps).dwellCounter < dwellTicks ∧
    (after ps).dwellCounter.toNat + 1 < UInt8.size ∧
    ((after ps).isDegraded = false ∧ (after (p99 :: ps)).isDegraded = true ↔
      (after ps).isDegraded = false ∧ dwellTicks.toNat ≤ (p99 :: ps).length ∧
        (∀ k < dwellTicks.toNat, ∀ q, (p99 :: ps)[k]? = some q → enterNs < q) ∧
        ∀ k, k + 1 < dwellTicks.toNat → ¬ Changed (ps.drop k)) ∧
    ((after ps).isDegraded = true ∧ (after (p99 :: ps)).isDegraded = false ↔
      (after ps).isDegraded = true ∧ dwellTicks.toNat ≤ (p99 :: ps).length ∧
        (∀ k < dwellTicks.toNat, ∀ q, (p99 :: ps)[k]? = some q → q < recoverNs) ∧
        ∀ k, k + 1 < dwellTicks.toNat → ¬ Changed (ps.drop k)) ∧
    (∀ j k, j < k → Changed (ps.drop j) → Changed (ps.drop k) → j + dwellTicks.toNat ≤ k) ∧
    (recoverNs ≤ p99 → p99 ≤ enterNs →
      ¬ Changed (p99 :: ps) ∧ (after (p99 :: ps)).dwellCounter = 0) := by
  -- a change in general; the two directions are this, with the mode before put in
  have hchange := changed_cons_iff p99 ps
  rw [Changed, List.tail_cons, Dwelt] at hchange
  refine ⟨(after ps).bounded, ?_, ?_, ?_, ?_, ?_⟩
  · have hlt : (after ps).dwellCounter.toNat < 10 := (after ps).dwellCounter_lt
    show (after ps).dwellCounter.toNat + 1 < 256
    omega
  · refine and_congr_right fun hoff => ?_
    rw [hoff] at hchange
    simp only [Bool.false_eq_true, if_false, ne_eq, Bool.not_eq_false] at hchange
    exact hchange
  · refine and_congr_right fun hon => ?_
    rw [hon] at hchange
    simp only [if_true, ne_eq, Bool.not_eq_true] at hchange
    exact hchange
  · intro j k hjk hj hk
    exact Dwell.changes_apart (by decide) hjk ((changed_iff_changes _).mp hj)
      ((changed_iff_changes _).mp hk)
  · intro hlo hhi
    obtain ⟨hmode, hcount⟩ := (after ps).evaluate_between hlo hhi
    exact ⟨fun h => h hmode, hcount⟩

end Hysteresis

end RtsPipeline
