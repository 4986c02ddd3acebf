/-
  A ring of `K` slots that is written in one place and rotated: the last `K` periods.

  `past k` is what was written `k` periods ago, `past 0` being the period that is still open.  The
  slot `k` places behind the cursor holds exactly that, whatever the order of writes and rotations.
-/
import Mathlib.Algebra.GroupWithZero.Nat
import Mathlib.Algebra.Group.Fin.Basic
import Mathlib.Algebra.Group.Units.Equiv
import Mathlib.Data.List.FinRange
import Mathlib.Logic.Function.Basic

namespace RtsPipeline.Lib

universe u

variable {K : Nat} {β : Type u}

/-- Each slot holds its period. -/
def Recent [NeZero K] (slots : Fin K → β) (cur : Fin K) (past : Nat → β) : Prop :=
  ∀ k : Fin K, slots (cur - k) = past k

/-- A new period opens with `e`. -/
def opened (e : β) (past : Nat → β) : Nat → β
  | 0 => e
  | k + 1 => past k

@[simp] theorem opened_zero (e : β) (past : Nat → β) : opened e past 0 = e := rfl

variable [NeZero K] {slots : Fin K → β} {cur : Fin K} {past : Nat → β}

/-- A write goes to the open period. -/
theorem Recent.write (h : Recent slots cur past) (x : β) :
    Recent (Function.update slots cur x) cur (Function.update past 0 x) := by
  intro k
  by_cases hk : k = 0
  · subst hk
    rw [sub_zero, Function.update_self, Fin.val_zero, Function.update_self]
  · have hcur : cur - k ≠ cur := fun he => hk (sub_eq_self.mp he)
    have hval : (k : Nat) ≠ 0 := fun he => hk (Fin.ext (by rw [he, Fin.val_zero]))
    rw [Function.update_of_ne hcur, Function.update_of_ne hval]
    exact h k

/-- A rotation reuses the slot of the oldest period for a new one. -/
theorem Recent.rotate (h : Recent slots cur past) (e : β) :
    Recent (Function.update slots (cur + 1) e) (cur + 1) (opened e past) := by
  intro k
  by_cases hk : k = 0
  · subst hk
    rw [sub_zero, Function.update_self, Fin.val_zero, opened_zero]
  · have hcur : cur + 1 - k ≠ cur + 1 := fun he => hk (sub_eq_self.mp he)
    have hval : (k : Nat) ≠ 0 := fun he => hk (Fin.ext (by rw [he, Fin.val_zero]))
    -- the slot `k` behind the new cursor is `k - 1` behind the old one
    obtain ⟨j, hj⟩ := Nat.exists_eq_succ_of_ne_zero hval
    have hjK : j < K := by have := k.isLt; omega
    have hkj : k = ⟨j, hjK⟩ + 1 := by
      apply Fin.ext
      rw [Fin.val_add, Fin.val_one', Nat.mod_eq_of_lt (by omega : 1 < K), hj]
      exact (Nat.mod_eq_of_lt (by omega : j + 1 < K)).symm
    have hback : cur + 1 - k = cur - ⟨j, hjK⟩ := by rw [hkj, add_sub_add_right_eq_sub]
    rw [Function.update_of_ne hcur, hback, h ⟨j, hjK⟩, hj]
    rfl

/-- The slots hold the last `K` periods and nothing else. -/
theorem Recent.exists_iff (h : Recent slots cur past) {P : β → Prop} :
    (∃ i, P (slots i)) ↔ ∃ k < K, P (past k) := by
  constructor
  · rintro ⟨i, hi⟩
    refine ⟨(cur - i : Fin K), (cur - i).isLt, ?_⟩
    rw [← h (cur - i), sub_sub_cancel]
    exact hi
  · rintro ⟨k, hk, hp⟩
    exact ⟨cur - ⟨k, hk⟩, by rw [h ⟨k, hk⟩]; exact hp⟩

/-- Read slot by slot, the ring gives the last `K` periods in some order. -/
theorem Recent.perm (h : Recent slots cur past) :
    ((List.finRange K).map slots).Perm ((List.range K).map past) := by
  have hpast : (List.finRange K).map (slots ∘ Equiv.subLeft cur) = (List.range K).map past := by
    rw [← List.map_coe_finRange_eq_range, List.map_map]
    exact List.map_congr_left fun k _ => h k
  rw [← hpast, ← List.map_map]
  exact ((Equiv.Perm.map_finRange_perm (Equiv.subLeft cur)).map slots).symm

/-! ## What the newest slots have in common

Here nothing is known of the oldest slots.  With every rotation one more of the newest ones is
known, until the ring has come round; then it does not matter any more what it held at first. -/

/-- The slot of the cursor and those behind it, `k` in all, meet `P`. -/
def Newest (P : β → Prop) (slots : Fin K → β) (cur : Fin K) (k : Nat) : Prop :=
  ∀ i : Fin K, (i : Nat) < k → P (slots (cur - i))

variable {P : β → Prop} {k : Nat}

/-- A rotation to a slot that meets `P`: one more does. -/
theorem Newest.rotate (h : Newest P slots cur k) {e : β} (he : P e) :
    Newest P (Function.update slots (cur + 1) e) (cur + 1) (k + 1) := by
  have hrecent : Recent slots cur fun m => if hm : m < K then slots (cur - ⟨m, hm⟩) else e := by
    intro i
    show _ = if hm : (i : Nat) < K then slots (cur - ⟨i, hm⟩) else e
    rw [dif_pos i.isLt]
  intro i hi
  rw [hrecent.rotate e i]
  cases hm : (i : Nat) with
  | zero => exact he
  | succ m =>
    have hmK : m < K := by have := i.isLt; omega
    show P (if hm : m < K then slots (cur - ⟨m, hm⟩) else e)
    rw [dif_pos hmK]
    exact h ⟨m, hmK⟩ (by rw [hm] at hi; exact Nat.lt_of_succ_lt_succ hi)

omit [NeZero K] in
/-- A write to any slot that keeps `P`. -/
theorem Newest.update (h : Newest P slots cur k) {at_ : Fin K} {x : β}
    (hx : P (slots at_) → P x) : Newest P (Function.update slots at_ x) cur k := by
  intro i hi
  by_cases hat : cur - i = at_
  · rw [hat, Function.update_self]
    exact hx (hat ▸ h i hi)
  · rw [Function.update_of_ne hat]
    exact h i hi

/-- After `K` rotations all slots meet `P`. -/
theorem Newest.all (h : Newest P slots cur k) (hk : K ≤ k) (i : Fin K) : P (slots i) := by
  have := h (cur - i) (Nat.lt_of_lt_of_le (cur - i).isLt hk)
  rwa [sub_sub_cancel] at this

end RtsPipeline.Lib
