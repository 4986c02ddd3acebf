/-
  The array-backed binary max-heap of a standard library, with its order proved.

  The root sits at index `0` and the children of `p` at `2 * p + 1` and `2 * p + 2`.  Three loops
  move one element along a path of the tree:

  * `siftUp`             — towards the root, until the parent is at least as great;
  * `siftDown`           — towards the leaves, until both children are at most as great;
  * `siftDownToBottom`   — to a leaf without looking at the moved element, and up again from there.

  `push` appends and sifts up, `pop` moves the last element to the root and sifts it to the bottom,
  `ofVec` (the `collect` of an iterator) sifts every inner node down, from the last to the first.
  The order is a `Preorder` with a total `≤`: equal keys are allowed, and nothing is promised about
  which of two equal elements leaves first.

  Every loop is written with an explicit fuel (structural recursion, kernel-reducible), always
  called with enough of it.  The one invariant behind all three is `HoleAt`: every edge of the tree
  is in order except those that touch the moving element, and the element's children are in order
  with its parent.  The last part is what lets a step be taken at all: the swap puts the parent and
  the children of the moving element next to each other, and nothing else vouches for that edge.

  A loop is then two things.  A step keeps a hole a hole, one place further up (`HoleAt.up`) or down
  (`HoleAt.down`), and where the loop stops, the edges above and below the element are in order, so
  the hole is none (`HoleAt.heapFrom`).  `siftDownToBottom` is a descent that does not stop and an
  ascent from the leaf it came to, and a hole at a leaf has nothing below it.
-/
import Mathlib.Order.Defs.LinearOrder
import Mathlib.Order.Basic
import Mathlib.Data.List.Perm.Basic

namespace RtsPipeline.Lib

universe u

/-- The parent of position `i` (meaningless at the root). -/
def parentOf (i : Nat) : Nat := (i - 1) / 2

theorem parentOf_lt {i : Nat} (h : 0 < i) : parentOf i < i := by unfold parentOf; omega

theorem parentOf_lt_size {β : Type u} {a : Array β} {i : Nat} (hi : i < a.size) (h : 0 < i) :
    parentOf i < a.size := Nat.lt_trans (parentOf_lt h) hi

/-- The two children of `p`, as the positions whose parent it is. -/
theorem parentOf_eq_iff {i p : Nat} (h : 0 < i) :
    parentOf i = p ↔ i = 2 * p + 1 ∨ i = 2 * p + 2 := by
  unfold parentOf; omega

section Loops

variable {α : Type u} [LE α] [DecidableLE α]

/-- `sift_up(0, pos)`: move the element at `pos` towards the root while it exceeds its parent. -/
def siftUp : Nat → Array α → Nat → Array α
  | 0, a, _ => a
  | fuel + 1, a, pos =>
    if h : 0 < pos ∧ pos < a.size then
      if a[pos] ≤ getElem a (parentOf pos) (Nat.lt_trans (parentOf_lt h.1) h.2) then a
      else siftUp fuel (a.swap pos (parentOf pos) h.2
        (Nat.lt_trans (parentOf_lt h.1) h.2)) (parentOf pos)
    else a

/-- The greater of the two children of `pos`, the right one on a tie. -/
def greaterChild (a : Array α) (pos : Nat) (h : 2 * pos + 2 < a.size) : Nat :=
  if a[2 * pos + 1] ≤ a[2 * pos + 2] then 2 * pos + 2 else 2 * pos + 1

theorem greaterChild_eq (a : Array α) (pos : Nat) (h : 2 * pos + 2 < a.size) :
    greaterChild a pos h = 2 * pos + 1 ∨ greaterChild a pos h = 2 * pos + 2 := by
  unfold greaterChild; split <;> simp

theorem greaterChild_lt (a : Array α) (pos : Nat) (h : 2 * pos + 2 < a.size) :
    greaterChild a pos h < a.size := by
  rcases greaterChild_eq a pos h with he | he <;> omega

theorem parentOf_greaterChild (a : Array α) (p : Nat) (h : 2 * p + 2 < a.size) :
    0 < greaterChild a p h ∧ parentOf (greaterChild a p h) = p := by
  have h0 : 0 < greaterChild a p h := by
    rcases greaterChild_eq a p h with he | he <;> omega
  exact ⟨h0, (parentOf_eq_iff h0).mpr (greaterChild_eq a p h)⟩

/-- `sift_down(pos)`: move the element at `pos` towards the leaves while a child exceeds it. -/
def siftDown : Nat → Array α → Nat → Array α
  | 0, a, _ => a
  | fuel + 1, a, pos =>
    if h : 2 * pos + 2 < a.size then
      if getElem a (greaterChild a pos h) (greaterChild_lt a pos h) ≤ a[pos] then a
      else siftDown fuel (a.swap pos (greaterChild a pos h) (by omega) (greaterChild_lt a pos h))
        (greaterChild a pos h)
    else if h1 : 2 * pos + 1 < a.size then
      if a[2 * pos + 1] ≤ a[pos] then a else a.swap pos (2 * pos + 1)
    else a

/-- The first half of `sift_down_to_bottom(pos)`: carry the element at `pos` down to a leaf along
    the greater children, and report where it ended. -/
def sinkToBottom : Nat → Array α → Nat → Array α × Nat
  | 0, a, pos => (a, pos)
  | fuel + 1, a, pos =>
    if h : 2 * pos + 2 < a.size then
      sinkToBottom fuel (a.swap pos (greaterChild a pos h) (by omega) (greaterChild_lt a pos h))
        (greaterChild a pos h)
    else if h1 : 2 * pos + 1 < a.size then (a.swap pos (2 * pos + 1), 2 * pos + 1)
    else (a, pos)

/-- `sift_down_to_bottom(0)`. -/
def siftDownToBottom (a : Array α) : Array α :=
  let r := sinkToBottom a.size a 0
  siftUp r.2 r.1 r.2

/-- `rebuild`: sift down the nodes `n - 1, …, 0`. -/
def rebuild : Nat → Array α → Array α
  | 0, a => a
  | n + 1, a => rebuild n (siftDown a.size a n)

end Loops

/-! ## The loops permute

  Every step of every loop is a swap.  This half needs no order at all. -/

section Perm

variable {α : Type u} [LE α] [DecidableLE α]

theorem siftUp_perm : ∀ (fuel : Nat) (a : Array α) (pos : Nat), (siftUp fuel a pos).Perm a := by
  intro fuel
  induction fuel with
  | zero => intro a pos; exact Array.Perm.refl a
  | succ fuel ih =>
    intro a pos
    rw [siftUp]
    split
    · split
      · exact Array.Perm.refl a
      · exact (ih _ _).trans (Array.swap_perm _ _)
    · exact Array.Perm.refl a

theorem siftDown_perm : ∀ (fuel : Nat) (a : Array α) (pos : Nat), (siftDown fuel a pos).Perm a := by
  intro fuel
  induction fuel with
  | zero => intro a pos; exact Array.Perm.refl a
  | succ fuel ih =>
    intro a pos
    rw [siftDown]
    split
    · split
      · exact Array.Perm.refl a
      · exact (ih _ _).trans (Array.swap_perm _ _)
    · split
      · split
        · exact Array.Perm.refl a
        · exact Array.swap_perm _ _
      · exact Array.Perm.refl a

theorem sinkToBottom_perm :
    ∀ (fuel : Nat) (a : Array α) (pos : Nat), (sinkToBottom fuel a pos).1.Perm a := by
  intro fuel
  induction fuel with
  | zero => intro a pos; exact Array.Perm.refl a
  | succ fuel ih =>
    intro a pos
    rw [sinkToBottom]
    split
    · exact (ih _ _).trans (Array.swap_perm _ _)
    · split
      · exact Array.swap_perm _ _
      · exact Array.Perm.refl a

theorem siftDownToBottom_perm (a : Array α) : (siftDownToBottom a).Perm a :=
  (siftUp_perm _ _ _).trans (sinkToBottom_perm _ _ _)

theorem rebuild_perm : ∀ (n : Nat) (a : Array α), (rebuild n a).Perm a := by
  intro n
  induction n with
  | zero => intro a; exact Array.Perm.refl a
  | succ n ih => intro a; exact (ih _).trans (siftDown_perm _ _ _)

theorem siftDown_size (fuel : Nat) (a : Array α) (pos : Nat) :
    (siftDown fuel a pos).size = a.size := (siftDown_perm fuel a pos).size_eq

theorem sinkToBottom_size (fuel : Nat) (a : Array α) (pos : Nat) :
    (sinkToBottom fuel a pos).1.size = a.size := (sinkToBottom_perm fuel a pos).size_eq

end Perm

/-! ## The loops restore the order

  `HeapFrom s` is the order of the part of the tree that lies at or behind `s`: `rebuild` goes
  through the nodes from the last to the first, and has ordered this much when it comes to `s`. -/

section Order

variable {α : Type u} [Preorder α]

/-- Every edge whose parent is at or after `s` is in order: no child exceeds its parent. -/
def HeapFrom (s : Nat) (a : Array α) : Prop :=
  ∀ i (hi : i < a.size) (h0 : 0 < i), s ≤ parentOf i →
    a[i] ≤ getElem a (parentOf i) (parentOf_lt_size hi h0)

/-- The whole array is a heap. -/
abbrev IsHeap (a : Array α) : Prop := HeapFrom 0 a

/-- The edges from `s` on are in order except those that touch the moving position `p`, and the
    children of `p` are in order with the parent of `p` (`grand`, the grandparent's edge). -/
structure HoleAt (s : Nat) (a : Array α) (p : Nat) : Prop where
  lt_size : p < a.size
  edge : ∀ i (hi : i < a.size) (h0 : 0 < i), s ≤ parentOf i → i ≠ p → parentOf i ≠ p →
    a[i] ≤ getElem a (parentOf i) (parentOf_lt_size hi h0)
  grand : ∀ (h0 : 0 < p), s ≤ parentOf p → ∀ i (hi : i < a.size), 0 < i → parentOf i = p →
    a[i] ≤ getElem a (parentOf p) (parentOf_lt_size lt_size h0)

/-- A hole whose own edges are in order is no hole. -/
theorem HoleAt.heapFrom {s : Nat} {a : Array α} {p : Nat} (h : HoleAt s a p)
    (above : ∀ (h0 : 0 < p), s ≤ parentOf p →
      getElem a p h.lt_size ≤ getElem a (parentOf p) (parentOf_lt_size h.lt_size h0))
    (below : ∀ i (hi : i < a.size), 0 < i → parentOf i = p → a[i] ≤ getElem a p h.lt_size) :
    HeapFrom s a := by
  intro i hi h0 hs
  by_cases hip : i = p
  · subst hip; exact above h0 hs
  · by_cases hpp : parentOf i = p
    · subst hpp; exact below i hi h0 rfl
    · exact h.edge i hi h0 hs hip hpp

/-- One step up: the parent comes down into the hole, which it exceeds nothing below. -/
theorem HoleAt.up {a : Array α} {p : Nat} (h : HoleAt 0 a p) (h0 : 0 < p) :
    HoleAt 0 (a.swap p (parentOf p) h.lt_size (parentOf_lt_size h.lt_size h0)) (parentOf p) := by
  have hlt : parentOf p < p := parentOf_lt h0
  have hps : parentOf p < a.size := parentOf_lt_size h.lt_size h0
  -- the edges away from the hole, and then those from its parent to its children
  refine ⟨by rw [Array.size_swap]; exact hps, ?_, ?_⟩
  · intro i hi hi0 _ hiq hpq
    rw [Array.size_swap] at hi
    have hip : i ≠ p := fun he => hpq (by rw [he])
    rw [Array.getElem_swap_of_ne hip hiq]
    -- a child of the old hole has the old hole's parent above it now
    by_cases hpp : parentOf i = p
    · simp only [hpp, Array.getElem_swap_left]
      exact h.grand h0 (Nat.zero_le _) i hi hi0 hpp
    · rw [Array.getElem_swap_of_ne hpp hpq]
      exact h.edge i hi hi0 (Nat.zero_le _) hip hpp
  · intro hq0 _ i hi hi0 hiq
    rw [Array.size_swap] at hi
    have hqq : parentOf (parentOf p) < parentOf p := parentOf_lt hq0
    have hqp : parentOf (parentOf p) ≠ p := by omega
    have hqne : parentOf (parentOf p) ≠ parentOf p := by omega
    rw [Array.getElem_swap_of_ne hqp hqne]
    have hup : a[parentOf p] ≤ a[parentOf (parentOf p)] :=
      h.edge _ hps hq0 (Nat.zero_le _) (by omega) (by omega)
    -- the old hole itself holds what was above it
    by_cases hip : i = p
    · subst hip; rw [Array.getElem_swap_left]; exact hup
    · have hne : i ≠ parentOf p := fun he => by have := parentOf_lt hi0; omega
      rw [Array.getElem_swap_of_ne hip hne]
      refine le_trans ?_ hup
      have := h.edge i hi hi0 (Nat.zero_le _) hip (by omega)
      simpa only [hiq] using this

/-- One step down: the child `c` comes up into the hole, at least as great as its sibling. -/
theorem HoleAt.down {s : Nat} {a : Array α} {p c : Nat} (h : HoleAt s a p) (hc : c < a.size)
    (hc0 : 0 < c) (hpc : parentOf c = p)
    (hmax : ∀ i (hi : i < a.size), 0 < i → parentOf i = p → a[i] ≤ a[c]) :
    HoleAt s (a.swap p c h.lt_size hc) c := by
  have hlt : p < c := hpc ▸ parentOf_lt hc0
  refine ⟨by rw [Array.size_swap]; exact hc, ?_, ?_⟩
  -- in the old hole stands the greater child, below the old parent and above its sibling
  · intro i hi hi0 hs hic hpi
    rw [Array.size_swap] at hi
    by_cases hip : i = p
    · subst hip
      have hpp : parentOf i ≠ i := Nat.ne_of_lt (parentOf_lt hi0)
      rw [Array.getElem_swap_left, Array.getElem_swap_of_ne hpp hpi]
      exact h.grand hi0 hs c hc hc0 hpc
    · rw [Array.getElem_swap_of_ne hip hic]
      by_cases hpp : parentOf i = p
      · simp only [hpp, Array.getElem_swap_left]
        exact hmax i hi hi0 hpp
      · rw [Array.getElem_swap_of_ne hpp hpi]
        exact h.edge i hi hi0 hs hip hpp
  · intro _ hs i hi hi0 hpi
    rw [Array.size_swap] at hi
    have hci : c < i := hpi ▸ parentOf_lt hi0
    simp only [hpc, Array.getElem_swap_left]
    have hip : i ≠ p := by omega
    have hic : i ≠ c := by omega
    rw [Array.getElem_swap_of_ne hip hic]
    have := h.edge i hi hi0 (by rw [hpi]; omega) (by omega) (by omega)
    simpa only [hpi] using this

/-- The root of a heap is greatest. -/
theorem IsHeap.le_root {a : Array α} (h : IsHeap a) :
    ∀ i (hi : i < a.size), a[i] ≤ getElem a 0 (by omega) := by
  intro i
  induction i using Nat.strongRecOn with
  | ind i ih =>
    intro hi
    rcases Nat.eq_zero_or_pos i with h0 | h0
    · subst h0; exact le_refl _
    · exact le_trans (h i hi h0 (Nat.zero_le _)) (ih _ (parentOf_lt h0) (parentOf_lt_size hi h0))

section Total

variable [@Std.Total α (· ≤ ·)] [DecidableLE α]

/-- `siftUp` closes a hole whose children do not exceed it. -/
theorem siftUp_isHeap : ∀ (fuel : Nat) (a : Array α) (p : Nat) (h : HoleAt 0 a p), p ≤ fuel →
    (∀ i (hi : i < a.size), 0 < i → parentOf i = p → a[i] ≤ getElem a p h.lt_size) →
    IsHeap (siftUp fuel a p) := by
  intro fuel
  -- induction on the fuel; the position of the hole is less in each call
  induction fuel with
  | zero =>
    intro a p h hf below
    exact h.heapFrom (fun h0 => absurd h0 (by omega)) below
  | succ fuel ih =>
    intro a p h hf below
    rw [siftUp]
    by_cases h0 : 0 < p
    · rw [dif_pos ⟨h0, h.lt_size⟩]
      have hlt : parentOf p < p := parentOf_lt h0
      have hps : parentOf p < a.size := parentOf_lt_size h.lt_size h0
      by_cases hle : getElem a p h.lt_size ≤ a[parentOf p]
      · rw [if_pos hle]
        exact h.heapFrom (fun _ _ => hle) below
      · rw [if_neg hle]
        -- it is greater than its parent, and so than all that is below the parent
        have hge : a[parentOf p] ≤ getElem a p h.lt_size := (Std.Total.total _ _).resolve_left hle
        refine ih _ _ (h.up h0) (by omega) ?_
        intro i hi hi0 hiq
        rw [Array.size_swap] at hi
        rw [Array.getElem_swap_right]
        by_cases hip : i = p
        · subst hip; rw [Array.getElem_swap_left]; exact hge
        · have hne : i ≠ parentOf p := fun he => by have := parentOf_lt hi0; omega
          rw [Array.getElem_swap_of_ne hip hne]
          have := h.edge i hi hi0 (Nat.zero_le _) hip (by omega)
          exact le_trans (by simpa only [hiq] using this) hge
    · rw [dif_neg (fun hh => h0 hh.1)]
      exact h.heapFrom (fun h0' => absurd h0' h0) below

/-- The greater child is at least as great as either child. -/
theorem greaterChild_max {a : Array α} {p : Nat} (h : 2 * p + 2 < a.size) :
    ∀ i (hi : i < a.size), 0 < i → parentOf i = p →
      a[i] ≤ getElem a (greaterChild a p h) (greaterChild_lt a p h) := by
  intro i hi h0 hip
  by_cases hle : a[2 * p + 1] ≤ a[2 * p + 2]
  · have hg : greaterChild a p h = 2 * p + 2 := by rw [greaterChild, if_pos hle]
    simp only [hg]
    rcases (parentOf_eq_iff h0).mp hip with rfl | rfl
    · exact hle
    · exact le_refl _
  · have hg : greaterChild a p h = 2 * p + 1 := by rw [greaterChild, if_neg hle]
    simp only [hg]
    rcases (parentOf_eq_iff h0).mp hip with rfl | rfl
    · exact le_refl _
    · exact (Std.Total.total _ _).resolve_left hle

/-- `siftDown` closes a hole that does not exceed its parent. -/
theorem siftDown_heapFrom (s : Nat) : ∀ (fuel : Nat) (a : Array α) (p : Nat) (h : HoleAt s a p),
    a.size ≤ fuel + p →
    (∀ (h0 : 0 < p), s ≤ parentOf p →
      getElem a p h.lt_size ≤ getElem a (parentOf p) (parentOf_lt_size h.lt_size h0)) →
    HeapFrom s (siftDown fuel a p) := by
  intro fuel
  -- induction on the fuel; the hole goes to one of its children in each call
  induction fuel with
  | zero => intro a p h hf above; exact absurd h.lt_size (by omega)
  | succ fuel ih =>
    intro a p h hf above
    rw [siftDown]
    by_cases h2 : 2 * p + 2 < a.size
    · rw [dif_pos h2]
      obtain ⟨hc0, hpc⟩ := parentOf_greaterChild a p h2
      have hmax := greaterChild_max h2
      by_cases hle :
          getElem a (greaterChild a p h2) (greaterChild_lt a p h2) ≤ getElem a p h.lt_size
      · rw [if_pos hle]
        exact h.heapFrom above (fun i hi h0 hip => le_trans (hmax i hi h0 hip) hle)
      · rw [if_neg hle]
        have hgt := parentOf_lt hc0
        refine ih _ _ (h.down (greaterChild_lt a p h2) hc0 hpc hmax)
          (by rw [Array.size_swap]; omega) ?_
        intro _ _
        simp only [hpc, Array.getElem_swap_left, Array.getElem_swap_right]
        exact (Std.Total.total _ _).resolve_left hle
    · rw [dif_neg h2]
      by_cases h1 : 2 * p + 1 < a.size
      · rw [dif_pos h1]
        -- at the end of the array there may be one child only
        have honly : ∀ i, i < a.size → 0 < i → parentOf i = p → i = 2 * p + 1 := by
          intro i hi h0 hip
          rcases (parentOf_eq_iff h0).mp hip with he | he <;> omega
        by_cases hle : a[2 * p + 1] ≤ getElem a p h.lt_size
        · rw [if_pos hle]
          refine h.heapFrom above (fun i hi h0 hip => ?_)
          obtain rfl := honly i hi h0 hip
          exact hle
        · rw [if_neg hle]
          have hp1 : parentOf (2 * p + 1) = p := (parentOf_eq_iff (by omega)).mpr (Or.inl rfl)
          have hd := h.down h1 (by omega) hp1 (fun i hi h0 hip => by
            obtain rfl := honly i hi h0 hip; exact le_refl _)
          refine hd.heapFrom ?_ ?_
          · intro _ _
            simp only [hp1, Array.getElem_swap_left, Array.getElem_swap_right]
            exact (Std.Total.total _ _).resolve_left hle
          · intro i hi h0 hip
            rw [Array.size_swap] at hi
            rcases (parentOf_eq_iff h0).mp hip with he | he <;> omega
      · rw [dif_neg h1]
        refine h.heapFrom above (fun i hi h0 hip => ?_)
        rcases (parentOf_eq_iff h0).mp hip with he | he <;> omega

/-- Sinking to the bottom keeps the hole and ends at a leaf. -/
theorem sinkToBottom_hole : ∀ (fuel : Nat) (a : Array α) (p : Nat), HoleAt 0 a p →
    a.size ≤ fuel + p →
    HoleAt 0 (sinkToBottom fuel a p).1 (sinkToBottom fuel a p).2 ∧
      a.size ≤ 2 * (sinkToBottom fuel a p).2 + 1 := by
  intro fuel
  induction fuel with
  | zero => intro a p h hf; exact absurd h.lt_size (by omega)
  | succ fuel ih =>
    intro a p h hf
    rw [sinkToBottom]
    by_cases h2 : 2 * p + 2 < a.size
    · rw [dif_pos h2]
      obtain ⟨hc0, hpc⟩ := parentOf_greaterChild a p h2
      have hgt := parentOf_lt hc0
      have hih := ih _ _ (h.down (greaterChild_lt a p h2) hc0 hpc (greaterChild_max h2))
        (by rw [Array.size_swap]; omega)
      rw [Array.size_swap] at hih
      exact hih
    · rw [dif_neg h2]
      by_cases h1 : 2 * p + 1 < a.size
      · rw [dif_pos h1]
        have hp1 : parentOf (2 * p + 1) = p := (parentOf_eq_iff (by omega)).mpr (Or.inl rfl)
        refine ⟨h.down h1 (by omega) hp1 (fun i hi h0 hip => ?_), ?_⟩
        swap
        · show _ ≤ 2 * (2 * p + 1) + 1
          omega
        obtain rfl : i = 2 * p + 1 := by
          rcases (parentOf_eq_iff h0).mp hip with he | he <;> omega
        exact le_refl _
      · rw [dif_neg h1]
        exact ⟨h, by show _ ≤ 2 * p + 1; omega⟩

/-- A hole at the root is closed by `siftDownToBottom`. -/
theorem siftDownToBottom_isHeap {a : Array α} (h : HoleAt 0 a 0) :
    IsHeap (siftDownToBottom a) := by
  obtain ⟨hh, hleaf⟩ := sinkToBottom_hole a.size a 0 h (by omega)
  refine siftUp_isHeap _ _ _ hh (Nat.le_refl _) ?_
  intro i hi h0 hip
  rw [sinkToBottom_size] at hi
  rcases (parentOf_eq_iff h0).mp hip with he | he <;> omega

/-- Sifting down the nodes below `n` completes a heap that is ordered from `n` on. -/
theorem rebuild_isHeap : ∀ (n : Nat) (a : Array α), n ≤ a.size → HeapFrom n a →
    IsHeap (rebuild n a) := by
  intro n
  induction n with
  | zero => intro a _ h; exact h
  | succ n ih =>
    intro a hn h
    rw [rebuild]
    refine ih _ (by rw [siftDown_size]; omega) ?_
    have hole : HoleAt n a n := by
      refine ⟨by omega, ?_, ?_⟩
      · intro i hi h0 hs _ hpn
        exact h i hi h0 (by omega)
      · intro h0 hs
        exact absurd hs (by have := parentOf_lt h0; omega)
    refine siftDown_heapFrom n _ _ _ hole (by omega) ?_
    intro h0 hs
    exact absurd hs (by have := parentOf_lt h0; omega)

end Total

end Order

/-! ## The container

  The order is a field, so an operation has to prove it where it builds its result, and what uses a
  heap may take it for granted.  Of the result only two things are stated: what it holds, up to the
  order, and that `pop` gives a greatest element. -/

/-- `BinaryHeap`: the array together with its order, so that an array that is no heap cannot be
    wrapped. -/
structure BinaryHeap (α : Type u) [Preorder α] where
  data : Array α
  isHeap : IsHeap data

namespace BinaryHeap

variable {α : Type u} [Preorder α]

/-- The elements, in the order of the backing vector (`into_vec` as a list). -/
def toList (h : BinaryHeap α) : List α := h.data.toList

/-- `BinaryHeap::into_vec`. -/
def intoVec (h : BinaryHeap α) : Array α := h.data

/-- `BinaryHeap::len`. -/
def len (h : BinaryHeap α) : Nat := h.data.size

/-- `BinaryHeap::new`. -/
def empty : BinaryHeap α := ⟨#[], fun i hi => absurd hi (Nat.not_lt_zero i)⟩

@[simp] theorem len_eq_length (h : BinaryHeap α) : h.toList.length = h.len := Array.length_toList

@[simp] theorem toList_empty : (empty : BinaryHeap α).toList = [] := rfl

/-- The appended element is the only one out of order, so the array is a heap with a hole there. -/
theorem holeAt_push (h : BinaryHeap α) (x : α) :
    HoleAt 0 (h.data.push x) h.data.size := by
  refine ⟨by rw [Array.size_push]; omega, ?_, ?_⟩
  · intro i hi h0 _ hip _
    rw [Array.size_push] at hi
    have hi' : i < h.data.size := by omega
    have hp := parentOf_lt_size hi' h0
    rw [Array.getElem_push_lt hi', Array.getElem_push_lt hp]
    exact h.isHeap i hi' h0 (Nat.zero_le _)
  · intro h0 _ i hi hi0 hip
    rw [Array.size_push] at hi
    have := parentOf_lt hi0
    omega

/-- Overwriting the root of a shortened heap leaves a hole at the root. -/
theorem holeAt_pop (h : BinaryHeap α) (x : α) (hd : 0 < h.data.pop.size) :
    HoleAt 0 (h.data.pop.set 0 x hd) 0 := by
  refine ⟨by rw [Array.size_set]; exact hd, ?_, fun h0 => absurd h0 (Nat.lt_irrefl 0)⟩
  intro i hi h0 _ hi0 hp0
  rw [Array.size_set] at hi
  have hp : parentOf i < h.data.pop.size := parentOf_lt_size hi h0
  rw [Array.getElem_set_ne hd hi (Ne.symm hi0), Array.getElem_set_ne hd hp (Ne.symm hp0),
    Array.getElem_pop, Array.getElem_pop]
  rw [Array.size_pop] at hi
  exact h.isHeap i (by omega) h0 (Nat.zero_le _)

variable [@Std.Total α (· ≤ ·)] [DecidableLE α]

/-- `BinaryHeap::push`. -/
def push (h : BinaryHeap α) (x : α) : BinaryHeap α where
  data := siftUp h.data.size (h.data.push x) h.data.size
  isHeap := siftUp_isHeap _ _ _ (h.holeAt_push x) (Nat.le_refl _) (by
    intro i hi h0 hip
    rw [Array.size_push] at hi
    have := parentOf_lt h0
    omega)

theorem toList_push (h : BinaryHeap α) (x : α) : (h.push x).toList.Perm (x :: h.toList) := by
  have hp : (h.push x).toList.Perm (h.data.push x).toList := (siftUp_perm _ _ _).toList
  rw [Array.toList_push] at hp
  exact hp.trans (List.perm_append_singleton x h.toList)

/-- `BinaryHeap::pop`: the last element of the vector takes the root's place and sinks. -/
def pop (h : BinaryHeap α) : Option (α × BinaryHeap α) :=
  if h0 : 0 < h.data.size then
    if hd : 0 < h.data.pop.size then
      some (h.data[0], {
        data := siftDownToBottom (h.data.pop.set 0 (h.data[h.data.size - 1]) hd)
        isHeap := siftDownToBottom_isHeap (h.holeAt_pop _ hd) })
    else some (h.data[0], empty)
  else none

theorem pop_eq_none {h : BinaryHeap α} : h.pop = none ↔ h.toList = [] := by
  have hlen : h.toList = [] ↔ h.data.size = 0 := by
    rw [← List.length_eq_zero_iff, len_eq_length, len]
  rw [hlen, pop]
  split
  · split <;> exact ⟨fun he => absurd he (by simp), fun he => by omega⟩
  · exact ⟨fun _ => by omega, fun _ => rfl⟩

/-- `pop` takes out a greatest element and keeps the others. -/
theorem pop_eq_some {h h' : BinaryHeap α} {x : α} (hp : h.pop = some (x, h')) :
    h.toList.Perm (x :: h'.toList) ∧ ∀ y ∈ h.toList, y ≤ x := by
  rw [pop] at hp
  split at hp
  case isFalse => exact nomatch hp
  case isTrue h0 =>
    -- the root is taken out, and the last element put in its place
    have hroot : ∀ y ∈ h.toList, y ≤ h.data[0] := by
      intro y hy
      obtain ⟨i, hi, rfl⟩ := Array.mem_iff_getElem.mp (Array.mem_toList_iff.mp hy)
      exact IsHeap.le_root h.isHeap i hi
    have hsplit : h.toList = h.data.pop.toList ++ [h.data[h.data.size - 1]] := by
      have hne : h.data.toList ≠ [] := by
        intro he
        have := congrArg List.length he
        rw [Array.length_toList, List.length_nil] at this
        omega
      have := (List.dropLast_append_getLast hne).symm
      rw [toList, Array.toList_pop]
      simpa [List.getLast_eq_getElem] using this
    split at hp
    -- what is left after that is not empty, and the hole at the root is closed
    · rename_i hd
      obtain ⟨rfl, rfl⟩ := Prod.mk.inj (Option.some.inj hp)
      refine ⟨?_, hroot⟩
      have hsink := (siftDownToBottom_perm
        (h.data.pop.set 0 (h.data[h.data.size - 1]) hd)).toList
      obtain ⟨r, t, hrt⟩ : ∃ r t, h.data.pop.toList = r :: t := by
        cases hc : h.data.pop.toList with
        | nil => rw [← Array.length_toList, hc] at hd; exact absurd hd (Nat.lt_irrefl 0)
        | cons r t => exact ⟨r, t, rfl⟩
      have hr : h.data[0] = r := by
        have h1 : h.data.pop[0] = h.data[0] := Array.getElem_pop _
        have h2 : h.data.pop[0] = getElem h.data.pop.toList 0 (by rw [hrt]; simp) := by simp
        rw [← h1, h2]
        simp only [hrt, List.getElem_cons_zero]
      rw [Array.toList_set, hrt, List.set_cons_zero] at hsink
      rw [hsplit, hrt, hr, List.cons_append]
      exact ((List.perm_append_singleton _ t).trans hsink.symm).cons r
    · rename_i hd
      obtain ⟨rfl, rfl⟩ := Prod.mk.inj (Option.some.inj hp)
      refine ⟨?_, hroot⟩
      rw [Array.size_pop] at hd
      have hnil : h.data.pop.toList = [] := by
        rw [← List.length_eq_zero_iff, Array.length_toList, Array.size_pop]; omega
      rw [hsplit, hnil, List.nil_append, toList_empty]
      have h1 : h.data.size - 1 = 0 := by omega
      simp only [h1]
      exact List.Perm.refl _

theorem len_of_pop {h h' : BinaryHeap α} {x : α} (hp : h.pop = some (x, h')) :
    h.len = h'.len + 1 := by
  rw [← len_eq_length, (pop_eq_some hp).1.length_eq, List.length_cons, len_eq_length]

/-- `BinaryHeap::from(vec)`, what `collect` builds. -/
def ofVec (a : Array α) : BinaryHeap α where
  data := rebuild (a.size / 2) a
  isHeap := by
    refine rebuild_isHeap _ _ (Nat.div_le_self _ _) ?_
    intro i hi h0 hs
    unfold parentOf at hs
    omega

theorem toList_ofVec (a : Array α) : (ofVec a).toList.Perm a.toList := (rebuild_perm _ _).toList

end BinaryHeap

end RtsPipeline.Lib
