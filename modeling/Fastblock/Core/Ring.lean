import Mathlib.Data.Nat.ModEq

/-!
# A window of an unbounded stream kept in a ring

A `Window` is a stream of cells of which the part `[back, front)` is kept.
A ring keeps it in `size` cells of a memory that start at the address
`off`: position `p` of the stream is at `off + p % size`. `RingPut` says
what a write to the ring does in terms of positions; writes to a straight
piece of the ring are of that kind, and so are their compositions.
-/
namespace Fastblock.Core

variable {α : Type*}

/-- The memory after the cells `[lo, lo + len)` are overwritten. -/
def fill (m : Nat → α) (lo len : Nat) (f : Nat → α) : Nat → α :=
  fun a => if lo ≤ a ∧ a < lo + len then f (a - lo) else m a

theorem fill_of_mem {m f : Nat → α} {lo len a : Nat} (h₁ : lo ≤ a) (h₂ : a < lo + len) :
    fill m lo len f a = f (a - lo) := if_pos ⟨h₁, h₂⟩

theorem fill_of_not_mem {m f : Nat → α} {lo len a : Nat} (h : ¬(lo ≤ a ∧ a < lo + len)) :
    fill m lo len f a = m a := if_neg h

/-- A stream of which the part `[back, front)` is kept. -/
structure Window (α : Type*) where
  back : Nat
  front : Nat
  cell : Nat → α

namespace Window

def used (w : Window α) : Nat := w.front - w.back

def append (w : Window α) (len : Nat) (f : Nat → α) : Window α :=
  { w with front := w.front + len, cell := fill w.cell w.front len f }

def trimBack (w : Window α) (len : Nat) : Window α := { w with back := w.back + len }

def trimFront (w : Window α) (len : Nat) : Window α := { w with front := w.front - len }

end Window

/-! ## Positions and addresses -/

/-- The address of position `p` in a ring of `size` cells at `off`. -/
def slot (off size p : Nat) : Nat := p % size + off

theorem slot_mem {off size : Nat} (p : Nat) (h : 0 < size) : off ≤ slot off size p ∧ slot off size p < off + size := by
  have := Nat.mod_lt p h
  unfold slot
  omega

theorem slot_add_size (off size p : Nat) : slot off size (p + size) = slot off size p := by
  simp [slot]

/-- Where position `p + i` is relative to position `p`. -/
theorem add_mod_cases {size i : Nat} (p : Nat) (h : 0 < size) (hi : i < size) :
    (p + i) % size = p % size + i ∧ p % size + i < size ∨
      (p + i) % size + size = p % size + i ∧ size ≤ p % size + i := by
  have hp := Nat.mod_lt p h
  rw [Nat.add_mod, Nat.mod_eq_of_lt hi]
  rcases Nat.lt_or_ge (p % size + i) size with hlt | hge
  · exact .inl ⟨Nat.mod_eq_of_lt hlt, hlt⟩
  · have : (p % size + i) % size = p % size + i - size := by
      rw [Nat.mod_eq_sub_mod hge, Nat.mod_eq_of_lt (by omega)]
    omega

/-- Two positions that are at most a lap apart are in the same lap, or in
the next one. -/
theorem lap_cases {size p q : Nat} (h : 0 < size) (hpq : p ≤ q) (hq : q ≤ p + size) :
    p / size = q / size ∧ q % size = p % size + (q - p) ∨
      p / size ≠ q / size ∧ q % size + size = p % size + (q - p) ∧ q % size ≤ p % size := by
  have hp := Nat.div_add_mod p size
  have hq' := Nat.div_add_mod q size
  have hpm := Nat.mod_lt p h
  have hqm := Nat.mod_lt q h
  rcases Nat.lt_trichotomy (p / size) (q / size) with hlt | heq | hgt
  · obtain ⟨k, hk⟩ := Nat.exists_eq_add_of_lt hlt
    have hmul : size * (q / size) = size * (p / size) + size * k + size := by
      rw [hk, Nat.mul_add, Nat.mul_add, Nat.mul_one]
    rcases Nat.eq_zero_or_pos k with rfl | hk0
    · right
      refine ⟨Nat.ne_of_lt hlt, ?_, ?_⟩ <;> omega
    · have : size ≤ size * k := Nat.le_mul_of_pos_right size hk0
      -- the positions would be more than a lap apart
      omega
  · left
    rw [← heq] at hq'
    omega
  · have := Nat.div_le_div_right (c := size) hpq
    omega

/-- Two positions less than a lap apart are at different addresses. -/
theorem slot_inj {off size p q : Nat} (h : 0 < size) (hpq : p ≤ q) (hq : q < p + size)
    (he : slot off size p = slot off size q) : p = q := by
  obtain ⟨i, rfl⟩ := Nat.exists_eq_add_of_le hpq
  have hp := Nat.mod_lt p h
  have := add_mod_cases p h (i := i) (by omega)
  unfold slot at he
  omega

/-! ## Writes to the ring -/

/-- `m'` is `m` after the positions `[p, p + len)` got the cells `f`. -/
structure RingPut (off size : Nat) (m m' : Nat → α) (p len : Nat) (f : Nat → α) : Prop where
  cells : ∀ i, i < size → m' (slot off size (p + i)) = if i < len then f i else m (slot off size (p + i))
  rest : ∀ a, a < off ∨ off + size ≤ a → m' a = m a

variable {off size p len : Nat} {m m' m'' f f' g : Nat → α}

/-- A write to addresses that do not cross the end of the ring. -/
theorem RingPut.straight (h : 0 < size) (hl : p % size + len ≤ size) :
    RingPut off size m (fill m (slot off size p) len f) p len f where
  cells i hi := by
    have hc := add_mod_cases p h hi
    split
    · next hlt =>
      rw [fill_of_mem (by unfold slot; omega) (by unfold slot; omega)]
      congr 1
      unfold slot
      omega
    · exact fill_of_not_mem (by unfold slot; omega)
  rest a ha := fill_of_not_mem (by unfold slot; omega)

theorem RingPut.congr (h : RingPut off size m m' p len f) (hf : ∀ i, i < len → f i = g i) :
    RingPut off size m m' p len g where
  cells i hi := by
    rw [h.cells i hi]
    split
    · next hlt => exact hf i hlt
    · rfl
  rest := h.rest

theorem RingPut.append {l : Nat} (h : RingPut off size m m' p len f) (h' : RingPut off size m' m'' (p + len) l g)
    (hl : len + l ≤ size) : RingPut off size m m'' p (len + l) (fun i => if i < len then f i else g (i - len)) where
  cells i hi := by
    rcases Nat.lt_or_ge i len with hlt | hge
    · -- position `p + i` is the cell `i + size - len` of the lap that the second write starts
      have he : slot off size (p + i) = slot off size (p + len + (i + size - len)) := by
        rw [← slot_add_size]
        congr 1
        omega
      have hm' := h.cells i hi
      have hm'' := h'.cells (i + size - len) (by omega)
      rw [← he, if_neg (by omega)] at hm''
      rw [hm'', hm', if_pos hlt, if_pos (by omega : i < len + l)]
      simp [hlt]
    · have he : p + i = p + len + (i - len) := by omega
      have hm' := h.cells i hi
      have hm'' := h'.cells (i - len) (by omega)
      rw [← he] at hm''
      rw [hm'', hm', if_neg (by omega : ¬i < len)]
      rcases Nat.lt_or_ge i (len + l) with h₁ | h₁
      · rw [if_pos (by omega), if_pos h₁]
        simp [Nat.not_lt.mpr hge]
      · rw [if_neg (by omega), if_neg (by omega)]
  rest a ha := (h'.rest a ha).trans (h.rest a ha)

/-- The piece behind may be written first. -/
theorem RingPut.prepend {l : Nat} (h : RingPut off size m m' (p + len) l f) (h' : RingPut off size m' m'' p len f') :
    RingPut off size m m'' p (len + l) (fun i => if i < len then f' i else f (i - len)) where
  cells i hi := by
    rw [h'.cells i hi]
    rcases Nat.lt_or_ge i len with hlt | hge
    · simp [hlt, Nat.lt_add_right l hlt]
    · have he : p + i = p + len + (i - len) := by omega
      rw [if_neg (by omega), he, h.cells (i - len) (by omega)]
      rcases Nat.lt_or_ge i (len + l) with h₁ | h₁
      · rw [if_pos (by omega), if_pos h₁]
        simp [Nat.not_lt.mpr hge]
      · rw [if_neg (by omega), if_neg (by omega)]
  rest a ha := (h'.rest a ha).trans (h.rest a ha)

/-- A position that is not written to keeps its cell. -/
theorem RingPut.keep {q : Nat} (h : RingPut off size m m' p len f) (hq : q < p) (hp : p + len ≤ q + size) :
    m' (slot off size q) = m (slot off size q) := by
  have he : slot off size q = slot off size (p + (q + size - p)) := by
    rw [← slot_add_size]
    congr 1
    omega
  have hm := h.cells (q + size - p) (by omega)
  rwa [← he, if_neg (by omega)] at hm

theorem RingPut.keep_above {q : Nat} (h : RingPut off size m m' p len f) (hq : p + len ≤ q) (hp : q < p + size) :
    m' (slot off size q) = m (slot off size q) := by
  obtain ⟨i, rfl⟩ := Nat.exists_eq_add_of_le (show p ≤ q by omega)
  rw [h.cells i (by omega), if_neg (by omega)]

theorem RingPut.get {q : Nat} (h : RingPut off size m m' p len f) (hl : len ≤ size) (hp : p ≤ q) (hq : q < p + len) :
    m' (slot off size q) = f (q - p) := by
  obtain ⟨i, rfl⟩ := Nat.exists_eq_add_of_le hp
  rw [h.cells i (by omega), if_pos (by omega), Nat.add_sub_cancel_left]

/-! ## The window in the ring -/

/-- The memory holds the window in the ring. -/
structure RingHolds (off size : Nat) (m : Nat → α) (w : Window α) : Prop where
  le : w.back ≤ w.front
  fits : w.front ≤ w.back + size
  cells : ∀ p, w.back ≤ p → p < w.front → m (slot off size p) = w.cell p

variable {w : Window α}

theorem RingHolds.append (h : RingHolds off size m w) (hp : RingPut off size m m' w.front len f)
    (hl : w.front + len ≤ w.back + size) : RingHolds off size m' (w.append len f) where
  le := Nat.le_trans h.le (Nat.le_add_right _ _)
  fits := hl
  cells p h₁ h₂ := by
    have h₁ : w.back ≤ p := h₁
    have h₂ : p < w.front + len := h₂
    have hle := h.le
    rcases Nat.lt_or_ge p w.front with hlt | hge
    · rw [hp.keep hlt (by omega), h.cells p h₁ hlt]
      exact (fill_of_not_mem (by omega)).symm
    · rw [hp.get (by omega) hge h₂]
      exact (fill_of_mem hge h₂).symm

theorem RingHolds.trimBack (h : RingHolds off size m w) (hp : RingPut off size m m' w.back len f)
    (hl : w.back + len ≤ w.front) : RingHolds off size m' (w.trimBack len) where
  le := hl
  fits := by
    have := h.fits
    show w.front ≤ w.back + len + size
    omega
  cells p h₁ h₂ := by
    have h₁ : w.back + len ≤ p := h₁
    have h₂ : p < w.front := h₂
    have := h.fits
    rw [hp.keep_above h₁ (by omega)]
    exact h.cells p (by omega) h₂

theorem RingHolds.trimFront (h : RingHolds off size m w) (hp : RingPut off size m m' (w.front - len) len f)
    (hl : w.back + len ≤ w.front) : RingHolds off size m' (w.trimFront len) where
  le := by
    show w.back ≤ w.front - len
    omega
  fits := by
    have := h.fits
    show w.front - len ≤ w.back + size
    omega
  cells p h₁ h₂ := by
    have h₁ : w.back ≤ p := h₁
    have h₂ : p < w.front - len := h₂
    have := h.fits
    rw [hp.keep h₂ (by omega)]
    exact h.cells p h₁ (by omega)

end Fastblock.Core
