import Fastblock.L1Blob.Iovec
import Fastblock.L1Blob.RollingBlob

/-!
# The rolling blob keeps a window of a byte stream

`Refines rb w` says that the blob holds the window `w` of the stream in
its ring. Each call has one lemma that says what it does to the ring; over
any sequence of calls the blob then refines the window
(`rolling_blob_refines`).

Hypotheses:
* the ring is not empty, and its size and all positions and lengths are
  multiples of 512. The code does not ask for it, and other lengths write
  over live bytes (`misaligned_overwrites`);
* no slice of a buffer begins at the buffer's end (`defined`).
-/
namespace Fastblock.L1

open Fastblock.Core

theorem units_of_dvd {n : Nat} (h : unitSize ∣ n) : units n = n := Nat.div_mul_cancel h

namespace RollingBlob

/-- The blob keeps the window `w`. -/
structure Refines (rb : RollingBlob) (w : Window UInt8) : Prop where
  pos : superSize < rb.blobSize
  unit : unitSize ∣ rb.blobSize
  front : rb.front = ⟨w.front, rb.posToLba w.front⟩
  back : rb.back = ⟨w.back, rb.posToLba w.back⟩
  frontUnit : unitSize ∣ w.front
  backUnit : unitSize ∣ w.back
  idle : rb.inflightRw = []
  holds : RingHolds superSize rb.size rb.dev w

variable {rb : RollingBlob} {w : Window UInt8} {len : Nat}

theorem Refines.size_pos (h : Refines rb w) : 0 < rb.size := Nat.sub_pos_of_lt h.pos

theorem Refines.size_unit (h : Refines rb w) : unitSize ∣ rb.size :=
  Nat.dvd_sub h.unit (by decide)

theorem Refines.used_eq (h : Refines rb w) : rb.used = w.used := by
  simp [RollingBlob.used, Window.used, h.front, h.back]

theorem Refines.used_le (h : Refines rb w) : rb.used ≤ rb.size := by
  have := h.holds.fits
  rw [h.used_eq, Window.used]
  omega

theorem Refines.unit_lba (h : Refines rb w) {p : Nat} (hp : unitSize ∣ p) : unitSize ∣ rb.posToLba p :=
  Nat.dvd_add ((Nat.dvd_mod_iff h.size_unit).mpr hp) (by decide)

theorem Refines.unit_posToEnd (h : Refines rb w) {p : Nat} (hp : unitSize ∣ p) : unitSize ∣ rb.posToEnd p :=
  Nat.dvd_sub h.size_unit ((Nat.dvd_mod_iff h.size_unit).mpr hp)

/-! ## Requests -/

/-- A request for a piece that does not cross the end of the ring. -/
theorem Refines.put (h : Refines rb w) {p : Nat} (hp : unitSize ∣ p) (hl : unitSize ∣ len)
    (hs : p % rb.size + len ≤ rb.size) (m f : Nat → UInt8) :
    RingPut superSize rb.size m (fill m (units (rb.posToLba p)) (units len) f) p len f := by
  rw [units_of_dvd (h.unit_lba hp), units_of_dvd hl]
  exact .straight h.size_pos hs

theorem mod_posToEnd (p : Nat) (h : 0 < rb.size) : (p + rb.posToEnd p) % rb.size = 0 := by
  have hm := Nat.mod_lt p h
  have hd := Nat.div_add_mod p rb.size
  have : p + rb.posToEnd p = rb.size * (p / rb.size) + rb.size := by
    unfold posToEnd
    omega
  rw [this, Nat.add_mod_right, Nat.mul_mod_right]

/-- A request up to the end of the ring, and one from its beginning. -/
theorem Refines.put_two (h : Refines rb w) {p : Nat} (hp : unitSize ∣ p) (hl : unitSize ∣ len)
    (he : rb.posToEnd p ≤ len) (hs : len ≤ rb.size) (m f g : Nat → UInt8) :
    RingPut superSize rb.size m
      (fill (fill m (units (rb.posToLba p)) (units (rb.posToEnd p)) f)
        (units (rb.posToLba (p + rb.posToEnd p))) (units (len - rb.posToEnd p)) g)
      p len (fun i => if i < rb.posToEnd p then f i else g (i - rb.posToEnd p)) := by
  have hu := h.unit_posToEnd hp
  have hm := Nat.mod_lt p h.size_pos
  have h₁ := h.put hp hu (by unfold posToEnd; omega) m f
  have := h₁.append (h.put (Nat.dvd_add hp hu) (Nat.dvd_sub hl hu) (by rw [mod_posToEnd p h.size_pos]; omega) _ g)
    (by omega)
  rwa [Nat.add_sub_cancel' he] at this

/-! ## Append -/

theorem Refines.isRolled_iff (h : Refines rb w) : rb.isRolled = true ↔ w.back / rb.size ≠ w.front / rb.size := by
  rw [RollingBlob.isRolled, h.front, h.back, bne_iff_ne, ne_comm]

/-- An append is one straight write, or one up to the end of the ring and
one from its beginning. -/
theorem Refines.appendCtx_cases (h : Refines rb w) {bl : Buf} (hf : w.front + bl.bytes ≤ w.back + rb.size) :
    w.front % rb.size + bl.bytes ≤ rb.size ∧
        rb.appendCtx bl = ⟨⟨w.front, rb.posToLba w.front, bl.bytes, bl⟩, none⟩ ∨
      rb.posToEnd w.front ≤ bl.bytes ∧ rb.appendCtx bl =
        ⟨⟨w.front, rb.posToLba w.front, rb.posToEnd w.front, ⟨rb.posToEnd w.front, bl.get⟩⟩,
          some ⟨w.front + rb.posToEnd w.front, rb.posToLba (w.front + rb.posToEnd w.front),
            bl.bytes - rb.posToEnd w.front,
            ⟨bl.bytes - rb.posToEnd w.front, fun i => bl.get (rb.posToEnd w.front + i)⟩⟩⟩ := by
  have hfront : rb.front.pos = w.front := by rw [h.front]
  have hm := Nat.mod_lt w.front h.size_pos
  have hiov : bl.toIovec 0 bl.bytes = bl := by
    rw [Buf.toIovec_of_le (by omega)]
    simp
  unfold appendCtx
  rw [frontToEnd, hfront]
  by_cases hc : (rb.isRolled || decide (bl.bytes < rb.posToEnd w.front)) = true
  · left
    simp only [hc, if_true, hiov]
    refine ⟨?_, trivial⟩
    rw [Bool.or_eq_true, decide_eq_true_iff] at hc
    rcases hc with hr | hlt
    · -- the ring is rolled: the free cells are in front of the window
      rcases lap_cases h.size_pos h.holds.le h.holds.fits with ⟨heq, -⟩ | ⟨-, hsum, -⟩
      · exact absurd heq (h.isRolled_iff.mp hr)
      · have := Nat.mod_lt w.back h.size_pos
        omega
    · unfold posToEnd at hlt
      omega
  · right
    simp only [hc, Bool.false_eq_true, if_false]
    rw [Bool.or_eq_true, decide_eq_true_iff, not_or] at hc
    have hle : rb.posToEnd w.front ≤ bl.bytes := Nat.not_lt.mp hc.2
    refine ⟨hle, ?_⟩
    rw [Buf.toIovec_of_le (by omega), Buf.toIovec_of_le (by omega)]
    simp

/-- An append puts its bytes at the front of the window. -/
theorem Refines.append_put (h : Refines rb w) {bl : Buf} (hu : unitSize ∣ bl.bytes)
    (hf : w.front + bl.bytes ≤ w.back + rb.size) (m : Nat → UInt8) :
    RingPut superSize rb.size m ((rb.appendCtx bl).ctxs.foldl WriteCtx.run m) w.front bl.bytes bl.get := by
  have hle := h.holds.le
  rcases h.appendCtx_cases hf with ⟨hs, hc⟩ | ⟨he, hc⟩
  · rw [hc]
    exact h.put h.frontUnit hu hs m bl.get
  · rw [hc]
    refine (h.put_two h.frontUnit hu he (by omega) m bl.get _).congr fun i _ => ?_
    split
    · rfl
    · next hge => exact congrArg bl.get (Nat.add_sub_cancel' (Nat.not_lt.mp hge))

theorem Refines.append_last (h : Refines rb w) {bl : Buf} (hf : w.front + bl.bytes ≤ w.back + rb.size) :
    (rb.appendCtx bl).last.startPos + (rb.appendCtx bl).last.len = w.front + bl.bytes := by
  rcases h.appendCtx_cases hf with ⟨-, hc⟩ | ⟨he, hc⟩
  · rw [hc]
    rfl
  · rw [hc]
    simp only [Chained.last, Option.getD_some]
    omega

theorem Refines.append_refused (h : Refines rb w) {bl : Buf} (hf : rb.size - w.used < bl.bytes) :
    rb.append bl = (rb, ⟨w.front, bl.bytes⟩, -ENOSPC) := by
  have : bl.bytes > rb.available := by rwa [available, h.used_eq]
  rw [append, if_pos this, h.front]

theorem Refines.append_accepted (h : Refines rb w) {bl : Buf} (hf : w.front + bl.bytes ≤ w.back + rb.size) :
    (rb.append bl).1 = { rb with
      front := ⟨w.front + bl.bytes, rb.posToLba (w.front + bl.bytes)⟩
      dev := (rb.appendCtx bl).ctxs.foldl WriteCtx.run rb.dev } ∧ (rb.append bl).2.2 = 0 := by
  have hle := h.holds.le
  have hn : ¬bl.bytes > rb.available := by
    rw [available, h.used_eq, Window.used]
    omega
  rw [append, if_neg hn]
  refine ⟨?_, rfl⟩
  simp [writeDone, maybeAdvanceFront, h.append_last hf, h.idle, emplace, advance, setFront, posToLba, RollingBlob.size]

theorem Refines.append (h : Refines rb w) {bl : Buf} (hu : unitSize ∣ bl.bytes)
    (hf : w.front + bl.bytes ≤ w.back + rb.size) : Refines (rb.append bl).1 (w.append bl.bytes bl.get) := by
  rw [(h.append_accepted hf).1]
  exact { pos := h.pos, unit := h.unit, front := rfl, back := h.back, frontUnit := Nat.dvd_add h.frontUnit hu,
          backUnit := h.backUnit, idle := h.idle, holds := h.holds.append (h.append_put hu hf _) hf }

/-- An append writes bytes of the ring in which no byte of the window is. -/
theorem Refines.append_free (h : Refines rb w) {bl : Buf} (hu : unitSize ∣ bl.bytes)
    (hf : w.front + bl.bytes ≤ w.back + rb.size) {c : WriteCtx} (hc : c ∈ (rb.appendCtx bl).ctxs) {a : Nat}
    (h₁ : units c.lba ≤ a) (h₂ : a < units c.lba + units c.len) :
    superSize ≤ a ∧ a < rb.blobSize ∧ ∀ p, w.back ≤ p → p < w.front → rb.posToLba p ≠ a := by
  have hle := h.holds.le
  -- the byte is at a position of the free part
  suffices ∃ q, w.front ≤ q ∧ q < w.front + bl.bytes ∧ rb.posToLba q = a by
    obtain ⟨q, hq₁, hq₂, rfl⟩ := this
    have hm := @slot_mem superSize _ q h.size_pos
    have hp := h.pos
    refine ⟨hm.1, ?_, fun p hp₁ hp₂ he => ?_⟩
    · have : rb.posToLba q < superSize + (rb.blobSize - superSize) := hm.2
      omega
    · have := @slot_inj superSize _ p q h.size_pos (by omega) (by omega) he
      omega
  have hstraight : ∀ {p len : Nat}, unitSize ∣ p → unitSize ∣ len → p % rb.size + len ≤ rb.size →
      units (rb.posToLba p) ≤ a → a < units (rb.posToLba p) + units len →
      ∃ i, i < len ∧ rb.posToLba (p + i) = a := fun {p len} hp hl hs h₁ h₂ => by
    rw [units_of_dvd (h.unit_lba hp)] at h₁ h₂
    rw [units_of_dvd hl] at h₂
    refine ⟨a - rb.posToLba p, by omega, ?_⟩
    unfold posToLba at *
    rcases add_mod_cases p h.size_pos (i := a - (p % rb.size + superSize)) (by omega) with ⟨he, -⟩ | ⟨-, hge⟩ <;> omega
  rcases h.appendCtx_cases hf with ⟨hs, hcs⟩ | ⟨he, hcs⟩
  · rw [hcs] at hc
    obtain rfl : c = _ := by simpa [Chained.ctxs] using hc
    obtain ⟨i, hi, hia⟩ := hstraight h.frontUnit hu hs h₁ h₂
    exact ⟨w.front + i, by omega, by omega, hia⟩
  · have hue := h.unit_posToEnd h.frontUnit
    have hm := Nat.mod_lt w.front h.size_pos
    have hmz := mod_posToEnd w.front h.size_pos
    rw [hcs] at hc
    simp only [Chained.ctxs, Option.toList_some, List.mem_cons, List.not_mem_nil, or_false] at hc
    rcases hc with rfl | rfl
    · obtain ⟨i, hi, hia⟩ := hstraight h.frontUnit hue (by unfold posToEnd; omega) h₁ h₂
      exact ⟨w.front + i, by omega, by omega, hia⟩
    · obtain ⟨i, hi, hia⟩ := hstraight (Nat.dvd_add h.frontUnit hue) (Nat.dvd_sub hu hue) (by omega) h₁ h₂
      exact ⟨w.front + rb.posToEnd w.front + i, by omega, by omega, hia⟩

/-! ## Trims -/

theorem syncMd_dev {a : Nat} (h : superSize ≤ a) : rb.syncMd.dev a = rb.dev a := by
  unfold syncMd
  exact fill_of_not_mem (by omega)

/-- The super block is outside of the ring. -/
theorem Refines.syncMd (h : Refines rb w) : Refines rb.syncMd w where
  pos := h.pos
  unit := h.unit
  front := h.front
  back := h.back
  frontUnit := h.frontUnit
  backUnit := h.backUnit
  idle := h.idle
  holds := {
    le := h.holds.le
    fits := h.holds.fits
    cells := fun p h₁ h₂ => by
      have hm := @slot_mem superSize _ p h.size_pos
      rw [← h.holds.cells p h₁ h₂]
      exact syncMd_dev hm.1 }

/-- A trim at the back unmaps the bytes it drops. -/
theorem Refines.trimBack_put (h : Refines rb w) (hu : unitSize ∣ len) (hl : w.back + len ≤ w.front) (m : Nat → UInt8) :
    ∃ f, RingPut superSize rb.size m ((rb.trimBackCtx len).ctxs.foldl (TrimCtx.run rb.unmap) m) w.back len f ∧
      ∀ i, ∃ a b, f i = rb.unmap a b := by
  have hback : rb.back.pos = w.back := by rw [h.back]
  have hlba : rb.back.lba = rb.posToLba w.back := by rw [h.back]
  have hfits := h.holds.fits
  have hm := Nat.mod_lt w.back h.size_pos
  unfold trimBackCtx
  rw [backToEnd, hback, hlba]
  by_cases hc : (!rb.isRolled || decide (len < rb.posToEnd w.back)) = true
  · rw [if_pos hc, foldl_ctxs_none, TrimCtx.run]
    refine ⟨_, h.put h.backUnit hu ?_ m _, fun i => ⟨_, _, rfl⟩⟩
    rw [Bool.or_eq_true, decide_eq_true_iff, Bool.not_eq_true', ← Bool.not_eq_true, h.isRolled_iff, not_not] at hc
    rcases hc with hr | hlt
    · have hmf := Nat.mod_lt w.front h.size_pos
      rcases lap_cases h.size_pos h.holds.le hfits with ⟨-, hsum⟩ | ⟨hne, -⟩
      · omega
      · exact absurd hr hne
    · unfold posToEnd at hlt
      omega
  · rw [if_neg hc]
    rw [Bool.or_eq_true, decide_eq_true_iff, not_or] at hc
    have hz : rb.posToLba 0 = rb.posToLba (w.back + rb.posToEnd w.back) := by
      rw [posToLba, posToLba, mod_posToEnd w.back h.size_pos, Nat.zero_mod]
    rw [hz, foldl_ctxs_some, TrimCtx.run, TrimCtx.run]
    refine ⟨_, h.put_two h.backUnit hu (Nat.not_lt.mp hc.2) (by omega) m _ _, fun i => ?_⟩
    split <;> exact ⟨_, _, rfl⟩

/-- A trim at the front unmaps the bytes it drops. -/
theorem Refines.trimFront_put (h : Refines rb w) (hu : unitSize ∣ len) (hl : w.back + len ≤ w.front)
    (m : Nat → UInt8) :
    ∃ f, RingPut superSize rb.size m ((rb.trimFrontCtx len).ctxs.foldl (TrimCtx.run rb.unmap) m)
      (w.front - len) len f := by
  have hfront : rb.front.pos = w.front := by rw [h.front]
  have hfits := h.holds.fits
  have hpu : unitSize ∣ w.front - len := Nat.dvd_sub h.frontUnit hu
  have hmf := Nat.mod_lt w.front h.size_pos
  have hlap := lap_cases h.size_pos (show w.front - len ≤ w.front by omega) (by omega)
  have hpm := Nat.mod_lt (w.front - len) h.size_pos
  unfold trimFrontCtx
  rw [beginToFront, hfront]
  by_cases hc : (!rb.isRolled || decide (len < w.front % rb.size)) = true
  · rw [if_pos hc, foldl_ctxs_none, TrimCtx.run]
    refine ⟨_, h.put hpu hu ?_ m _⟩
    rw [Bool.or_eq_true, decide_eq_true_iff, Bool.not_eq_true', ← Bool.not_eq_true, h.isRolled_iff, not_not] at hc
    rcases hlap with ⟨-, hsum⟩ | ⟨hne, hsum, hle⟩
    · omega
    · rcases hc with hr | hlt
      · -- the whole window is in the lap of its front
        have h₁ := Nat.div_le_div_right (c := rb.size) (show w.back ≤ w.front - len by omega)
        have h₂ := Nat.div_le_div_right (c := rb.size) (show w.front - len ≤ w.front by omega)
        omega
      · omega
  · rw [if_neg hc]
    rw [Bool.or_eq_true, decide_eq_true_iff, not_or, Nat.not_lt] at hc
    obtain ⟨hr, hlen⟩ := hc
    have hfu : unitSize ∣ w.front % rb.size := (Nat.dvd_mod_iff h.size_unit).mpr h.frontUnit
    -- the second piece ends where the lap of the front begins
    generalize hsec : len - w.front % rb.size = second
    have hd := Nat.div_add_mod w.front rb.size
    have hp : w.front - len + second = rb.size * (w.front / rb.size) := by omega
    have hpz : (w.front - len + second) % rb.size = 0 := by rw [hp, Nat.mul_mod_right]
    have hz : rb.posToLba 0 = rb.posToLba (w.front - len + second) := by
      rw [posToLba, posToLba, hpz, Nat.zero_mod]
    have hs : (rb.size - second) % rb.size = (w.front - len) % rb.size := by
      refine Nat.ModEq.add_right_cancel' second ?_
      rw [Nat.ModEq, hpz, Nat.sub_add_cancel (by omega), Nat.mod_self]
    have hsu : unitSize ∣ second := hsec ▸ Nat.dvd_sub hu hfu
    have hlap' := lap_cases h.size_pos (show w.front - len ≤ w.front - len + second by omega) (by omega)
    have h₂ := fun f g => (h.put (Nat.dvd_add hpu hsu) hfu (by rw [hpz]; omega) m f).prepend
      (h.put hpu hsu (by omega) _ g)
    rw [← hz, show second + w.front % rb.size = len by omega, posToLba, posToLba, ← hs] at h₂
    dsimp only
    rw [foldl_ctxs_some, TrimCtx.run, TrimCtx.run]
    exact ⟨_, h₂ _ _⟩

theorem Refines.trimBack (h : Refines rb w) (hu : unitSize ∣ len) (hl : w.back + len ≤ w.front) :
    Refines (rb.trimBack len).1 (w.trimBack len) := by
  have hn : ¬len > rb.used := by
    rw [h.used_eq, Window.used]
    omega
  obtain ⟨f, hput, -⟩ := h.trimBack_put hu hl rb.dev
  rw [RollingBlob.trimBack, if_neg hn]
  refine Refines.syncMd { pos := h.pos, unit := h.unit, front := h.front, back := ?_, frontUnit := h.frontUnit,
                          backUnit := Nat.dvd_add h.backUnit hu, idle := h.idle,
                          holds := h.holds.trimBack hput hl }
  rw [h.back]
  rfl

theorem Refines.trimFront (h : Refines rb w) (hu : unitSize ∣ len) (hl : w.back + len ≤ w.front) :
    Refines (rb.trimFront len).1 (w.trimFront len) := by
  have hn : ¬len > rb.used := by
    rw [h.used_eq, Window.used]
    omega
  obtain ⟨f, hput⟩ := h.trimFront_put hu hl rb.dev
  rw [RollingBlob.trimFront, if_neg hn]
  refine Refines.syncMd { pos := h.pos, unit := h.unit, front := ?_, back := h.back,
                          frontUnit := Nat.dvd_sub h.frontUnit hu, backUnit := h.backUnit, idle := h.idle,
                          holds := h.holds.trimFront hput hl }
  rw [h.front]
  rfl

/-! ## Read -/

theorem slot_eq (p : Nat) : slot superSize rb.size p = rb.posToLba p := rfl

theorem Refines.cell (h : Refines rb w) {p : Nat} (h₁ : w.back ≤ p) (h₂ : p < w.front) :
    rb.dev (rb.posToLba p) = w.cell p := by
  rw [← slot_eq, h.holds.cells p h₁ h₂]

theorem posToLba_add {p i : Nat} (h : p % rb.size + i < rb.size) : rb.posToLba (p + i) = rb.posToLba p + i := by
  rw [posToLba, posToLba, Nat.add_mod, Nat.mod_eq_of_lt (show i < rb.size by omega), Nat.mod_eq_of_lt h]
  exact Nat.add_right_comm ..

theorem readv_get (c : ReadCtx) (bl : Buf) (i : Nat) : (rb.readv bl c).get i =
    fill bl.get c.start (min (units c.len) c.room) (fun i => rb.dev (units c.lba + i)) i := rfl

/-- A request for a piece that does not cross the end of the ring puts its
bytes into the buffer. -/
theorem Refines.readv_get (h : Refines rb w) {p : Nat} (hp : unitSize ∣ p) (hl : unitSize ∣ len)
    (hs : p % rb.size + len ≤ rb.size) {start room : Nat} (hr : len ≤ room) (bl : Buf) {i : Nat} (h₁ : start ≤ i)
    (h₂ : i < start + len) : (rb.readv bl ⟨p, rb.posToLba p, len, start, room⟩).get i =
      rb.dev (rb.posToLba (p + (i - start))) := by
  rw [RollingBlob.readv_get, units_of_dvd hl, units_of_dvd (h.unit_lba hp), Nat.min_eq_left hr, fill_of_mem h₁ h₂,
    posToLba_add (by omega)]

theorem readCtx_roll {start length : Nat} {bl : Buf} (h : rb.needRoll start length = true)
    (he : rb.posToEnd start ≤ length) (hb : length ≤ bl.bytes) : rb.readCtx start length bl =
      ⟨⟨start, rb.posToLba start, rb.posToEnd start, 0, rb.posToEnd start⟩,
        some ⟨start + rb.posToEnd start, rb.posToLba (start + rb.posToEnd start), length - rb.posToEnd start,
          rb.posToEnd start, length - rb.posToEnd start⟩⟩ := by
  rw [readCtx, if_pos h]
  dsimp only
  rw [Buf.toIovec_of_le (by omega), Buf.toIovec_of_le (by omega)]

theorem readCtx_straight {start length : Nat} {bl : Buf} (h : ¬rb.needRoll start length = true) :
    rb.readCtx start length bl = ⟨⟨start, rb.posToLba start, length, 0, bl.bytes⟩, none⟩ := by
  rw [readCtx, if_neg h]

/-- The requests of a read put the bytes of the ring into the buffer. -/
theorem Refines.readCtx_get (h : Refines rb w) {start length : Nat} {bl : Buf} (hs : unitSize ∣ start)
    (hu : unitSize ∣ length) (hl : length ≤ rb.size) (hb : length ≤ bl.bytes) {i : Nat} (hi : i < length) :
    ((rb.readCtx start length bl).ctxs.foldl rb.readv bl).get i = rb.dev (rb.posToLba (start + i)) := by
  have hm := Nat.mod_lt start h.size_pos
  have hlap := lap_cases h.size_pos (show start ≤ start + length by omega) (by omega)
  by_cases hr : rb.needRoll start length = true
  · have hne := hr
    rw [needRoll, bne_iff_ne] at hne
    have hmz := mod_posToEnd start h.size_pos
    have hue := h.unit_posToEnd hs
    have hle : rb.posToEnd start ≤ length := by
      unfold posToEnd
      omega
    rw [readCtx_roll hr hle hb, foldl_ctxs_some]
    rcases Nat.lt_or_ge i (rb.posToEnd start) with hlt | hge
    · rw [RollingBlob.readv_get, fill_of_not_mem fun hc => Nat.not_lt.mpr hc.1 hlt,
        h.readv_get hs hue (by unfold posToEnd; omega) (Nat.le_refl _) bl (Nat.zero_le i) (by omega), Nat.sub_zero]
    · rw [h.readv_get (Nat.dvd_add hs hue) (Nat.dvd_sub hu hue) (by omega) (Nat.le_refl _) _ hge (by omega),
        Nat.add_assoc, Nat.add_sub_cancel' hge]
  · rw [readCtx_straight hr, foldl_ctxs_none]
    rw [needRoll, bne_iff_ne, not_not] at hr
    have hme := Nat.mod_lt (start + length) h.size_pos
    rw [h.readv_get hs hu (by omega) hb bl (Nat.zero_le i) (by omega), Nat.sub_zero]

/-- A read that does not go beyond the bytes that may be used. -/
theorem read_accepted {start length : Nat} (bl : Buf) (isLoad : Bool) (hb : rb.back.pos ≤ start)
    (hu : length ≤ rb.used ∨ isLoad = true) (hm : start < rb.back.pos + rb.size)
    (hl : start + length ≤ rb.back.pos + rb.size) :
    (rb.read start length bl isLoad).2.1 = 0 ∧
      (rb.read start length bl isLoad).2.2 = (rb.readCtx start length bl).ctxs.foldl rb.readv bl := by
  have hlen : rb.readLength start length isLoad = length := by
    rw [readLength, if_neg]
    rw [Bool.and_eq_true, decide_eq_true_iff]
    omega
  rw [read, if_neg (by omega), if_neg, if_neg, hlen]
  · exact ⟨rfl, rfl⟩
  · rw [Bool.and_eq_true, decide_eq_true_iff]
    omega
  · rw [Bool.and_eq_true, decide_eq_true_iff, Bool.not_eq_true']
    rintro ⟨h₁, h₂⟩
    rcases hu with hu | hu
    · omega
    · rw [h₂] at hu
      cases hu

/-- A load behind the bytes that may be used is answered at once, and the
buffer is left as it is. -/
theorem read_behind {start : Nat} (length : Nat) (bl : Buf) (hb : rb.back.pos ≤ start)
    (he : rb.back.pos + rb.size ≤ start) : (rb.read start length bl true).2 = (0, bl) := by
  rw [RollingBlob.read, if_neg (Nat.not_lt.mpr hb), if_neg (by simp), if_pos (by simpa using he)]

/-- A read of a part of the window gives its bytes. -/
theorem Refines.read (h : Refines rb w) {start length : Nat} {bl : Buf} (isLoad : Bool) (hs : unitSize ∣ start)
    (hu : unitSize ∣ length) (h₁ : w.back ≤ start) (h₂ : start + length ≤ w.front) (hb : length ≤ bl.bytes) :
    (rb.read start length bl isLoad).2.1 = 0 ∧
      ∀ i, i < length → (rb.read start length bl isLoad).2.2.get i = w.cell (start + i) := by
  have hfits := h.holds.fits
  have hback : rb.back.pos = w.back := by rw [h.back]
  have hused : rb.used = w.front - w.back := h.used_eq
  rcases Nat.lt_or_ge start (rb.back.pos + rb.size) with hlt | hge
  · obtain ⟨he, hd⟩ := read_accepted bl isLoad (show rb.back.pos ≤ start by omega)
      (.inl (show length ≤ rb.used by omega)) hlt (by omega)
    refine ⟨he, fun i hi => ?_⟩
    rw [hd, h.readCtx_get hs hu (by omega) hb hi, h.cell (by omega) (by omega)]
  · -- nothing is read at the end of a full ring
    have hz : length = 0 := by omega
    refine ⟨?_, fun i hi => by omega⟩
    rw [RollingBlob.read, if_neg (by omega), if_neg]
    · cases isLoad with
      | true => rw [if_pos (by rw [Bool.true_and, decide_eq_true_iff]; exact hge)]
      | false => rw [if_neg (by rw [Bool.false_and]; decide)]
    · rw [Bool.and_eq_true, decide_eq_true_iff]
      omega

/-- A read of a part of what was appended last gives the bytes of that
part. -/
theorem Refines.read_append (h : Refines rb w) {bl bl' : Buf} (hu : unitSize ∣ bl.bytes)
    (hf : w.front + bl.bytes ≤ w.back + rb.size) {off : Nat} (ho : unitSize ∣ off) (hl : unitSize ∣ len)
    (hle : off + len ≤ bl.bytes) (hb : len ≤ bl'.bytes) (isLoad : Bool) :
    ((rb.append bl).1.read (w.front + off) len bl' isLoad).2.1 = 0 ∧
      ∀ i, i < len → ((rb.append bl).1.read (w.front + off) len bl' isLoad).2.2.get i = bl.get (off + i) := by
  have hwin := h.holds.le
  obtain ⟨herr, hget⟩ := (h.append hu hf).read isLoad (Nat.dvd_add h.frontUnit ho) hl
    (show w.back ≤ w.front + off by omega) (show w.front + off + len ≤ w.front + bl.bytes by omega) hb
  refine ⟨herr, fun i hi => (hget i hi).trans ?_⟩
  have hcell : (w.append bl.bytes bl.get).cell (w.front + off + i) = bl.get (w.front + off + i - w.front) :=
    fill_of_mem (by omega) (by omega)
  rw [hcell, Nat.add_assoc, Nat.add_sub_cancel_left]

end RollingBlob

/-! ## Sequences of calls -/

inductive Call
  | append (bl : Buf)
  | read (start length : Nat) (bl : Buf) (isLoad : Bool)
  | trimBack (length : Nat)
  | trimFront (length : Nat)

/-- Lengths are multiples of the unit of the blob store: buffers are of 4
KiB. -/
def Call.Aligned : Call → Prop
  | .append bl => unitSize ∣ bl.bytes
  | .read start length _ _ => unitSize ∣ start ∧ unitSize ∣ length
  | .trimBack length => unitSize ∣ length
  | .trimFront length => unitSize ∣ length

def RollingBlob.call (rb : RollingBlob) : Call → RollingBlob
  | .append bl => (rb.append bl).1
  | .read .. => rb
  | .trimBack length => (rb.trimBack length).1
  | .trimFront length => (rb.trimFront length).1

/-- What a call does to a window of at most `size` bytes. -/
def windowCall (size : Nat) (w : Window UInt8) : Call → Window UInt8
  | .append bl => if bl.bytes ≤ size - w.used then w.append bl.bytes bl.get else w
  | .read .. => w
  | .trimBack length => if length ≤ w.used then w.trimBack length else w
  | .trimFront length => if length ≤ w.used then w.trimFront length else w

namespace RollingBlob

variable {rb : RollingBlob} {w : Window UInt8}

theorem call_blobSize (rb : RollingBlob) (c : Call) : (rb.call c).blobSize = rb.blobSize := by
  cases c with
  | append bl =>
    rw [call, append]
    split <;> rfl
  | read => rfl
  | trimBack n =>
    rw [call, trimBack]
    split <;> rfl
  | trimFront n =>
    rw [call, trimFront]
    split <;> rfl

theorem Refines.call (h : Refines rb w) {c : Call} (hc : c.Aligned) :
    Refines (rb.call c) (windowCall rb.size w c) := by
  have hle := h.holds.le
  have hfits := h.holds.fits
  cases c with
  | append bl =>
    simp only [windowCall]
    by_cases hb : bl.bytes ≤ rb.size - w.used
    · rw [if_pos hb, RollingBlob.call]
      exact h.append hc (by unfold Window.used at hb; omega)
    · rw [if_neg hb, RollingBlob.call, h.append_refused (by omega)]
      exact h
  | read => exact h
  | trimBack n =>
    simp only [windowCall]
    by_cases hn : n ≤ w.used
    · rw [if_pos hn, RollingBlob.call]
      exact h.trimBack hc (by unfold Window.used at hn; omega)
    · rw [if_neg hn, RollingBlob.call, RollingBlob.trimBack, if_pos (by rw [h.used_eq]; omega)]
      exact h
  | trimFront n =>
    simp only [windowCall]
    by_cases hn : n ≤ w.used
    · rw [if_pos hn, RollingBlob.call]
      exact h.trimFront hc (by unfold Window.used at hn; omega)
    · rw [if_neg hn, RollingBlob.call, RollingBlob.trimFront, if_pos (by rw [h.used_eq]; omega)]
      exact h

theorem Refines.calls (h : Refines rb w) {cs : List Call} (hc : ∀ c ∈ cs, c.Aligned) :
    Refines (cs.foldl RollingBlob.call rb) (cs.foldl (windowCall rb.size) w) := by
  induction cs generalizing rb w with
  | nil => exact h
  | cons c cs ih =>
    have hsize : (rb.call c).size = rb.size := by rw [RollingBlob.size, RollingBlob.size, call_blobSize]
    have := ih (h.call (hc c (List.mem_cons_self ..))) fun c' hc' => hc c' (List.mem_cons_of_mem c hc')
    rwa [hsize] at this

/-- No slice that the call takes of its buffer begins at the end of the
buffer. -/
def defined (rb : RollingBlob) : Call → Bool
  | .append bl =>
    bl.bytes > rb.available ||
      (rb.appendCtx bl).ctxs.all fun c => !bl.readsEnd (c.startPos - rb.front.pos) c.len
  | .read start length bl isLoad =>
    let length' := rb.readLength start length isLoad
    start < rb.back.pos || (length > rb.used && !isLoad) || (isLoad && start ≥ rb.back.pos + rb.size) ||
      if rb.needRoll start length' then
        !bl.readsEnd 0 (rb.posToEnd start) && !bl.readsEnd (rb.posToEnd start) (length' - rb.posToEnd start)
      else !bl.readsEnd 0 bl.bytes
  | _ => true

/-- A call, as far as the code says what it does. -/
def call? (rb : RollingBlob) (c : Call) : Option RollingBlob := if rb.defined c then some (rb.call c) else none

theorem foldlM_call? {cs : List Call} {rb' : RollingBlob} (h : cs.foldlM call? rb = some rb') :
    rb' = cs.foldl RollingBlob.call rb := by
  induction cs generalizing rb with
  | nil => exact (Option.some.inj h).symm
  | cons c cs ih =>
    rw [List.foldlM_cons, Option.bind_eq_bind, Option.bind_eq_some_iff] at h
    obtain ⟨rb₁, hc, h⟩ := h
    rw [call?, Option.ite_none_right_eq_some] at hc
    rw [List.foldl_cons, Option.some.inj hc.2]
    exact ih h

theorem foldlM_call?_cons {c : Call} (hd : rb.defined c = true) (cs : List Call) :
    (c :: cs).foldlM call? rb = cs.foldlM call? (rb.call c) := by
  rw [List.foldlM_cons, call?, if_pos hd]
  rfl

theorem calls_blobSize (rb : RollingBlob) (cs : List Call) :
    (cs.foldl RollingBlob.call rb).blobSize = rb.blobSize := by
  induction cs generalizing rb with
  | nil => rfl
  | cons c cs ih => exact (ih _).trans (rb.call_blobSize c)

/-- A request of an append has a slice of the buffer. -/
theorem appendCtx_iov {bl : Buf} {c : WriteCtx} (hc : c ∈ (rb.appendCtx bl).ctxs) :
    c.iov = bl.toIovec (c.startPos - rb.front.pos) c.len ∧ c.startPos - rb.front.pos + c.len ≤ bl.bytes := by
  unfold appendCtx at hc
  dsimp only at hc
  split at hc
  · obtain rfl := List.mem_singleton.mp hc
    dsimp only
    rw [Nat.sub_self]
    exact ⟨rfl, by omega⟩
  · next hcond =>
    have hle : rb.frontToEnd ≤ bl.bytes := by
      rw [Bool.or_eq_true, decide_eq_true_iff, not_or] at hcond
      exact Nat.not_lt.mp hcond.2
    rcases List.mem_cons.mp hc with rfl | hc
    · dsimp only
      rw [Nat.sub_self]
      exact ⟨rfl, by omega⟩
    · obtain rfl := List.mem_singleton.mp hc
      dsimp only
      rw [Nat.add_sub_cancel_left]
      exact ⟨rfl, by omega⟩

/-- What `to_iovec` gives for a request of an append is what the request
writes. -/
theorem appendCtx_slice {bl : BufferList} (hsize : bl.data.length = bl.bytes) (hfits : bl.bytes ≤ rb.available)
    (hd : rb.defined (.append bl.buf) = true) {c : WriteCtx} (hc : c ∈ (rb.appendCtx bl.buf).ctxs) :
    ∃ iovs ∈ bl.toIovec (c.startPos - rb.front.pos) c.len, iovs.flatten = c.iov.toList := by
  have hfits : ¬bl.buf.bytes > rb.available := Nat.not_lt.mpr hfits
  rw [defined, decide_eq_false hfits, Bool.false_or, List.all_eq_true] at hd
  obtain ⟨hiov, hle⟩ := appendCtx_iov hc
  rw [hiov]
  exact BufferList.toIovec_buf hsize hle (by simpa using hd c hc)

theorem refines_make {blobSize : Nat} (hs : superSize < blobSize) (hu : unitSize ∣ blobSize) (super dev : Nat → UInt8)
    (unmap : Nat → UInt8 → UInt8) : Refines (make blobSize super dev unmap) ⟨0, 0, fun _ => 0⟩ where
  pos := hs
  unit := hu
  front := by simp [make, posToLba]
  back := by simp [make, posToLba]
  frontUnit := Nat.dvd_zero _
  backUnit := Nat.dvd_zero _
  idle := rfl
  holds := { le := Nat.le_refl 0, fits := Nat.zero_le _, cells := fun p _ hp => absurd hp (Nat.not_lt_zero p) }

end RollingBlob

/-- Over any sequence of calls the rolling blob refines a window of an
unbounded byte stream: it never holds more than its size, refuses an
append that does not fit without a change, writes only to free bytes of
the ring, and reads back what was appended. The requests of an append are
made of the slices that `to_iovec` gives. -/
theorem rolling_blob_refines (blobSize : Nat) (hs : superSize < blobSize) (hu : unitSize ∣ blobSize)
    (super dev : Nat → UInt8) (unmap : Nat → UInt8 → UInt8) (cs : List Call) (hc : ∀ c ∈ cs, c.Aligned)
    (rb : RollingBlob) (hrun : cs.foldlM RollingBlob.call? (.make blobSize super dev unmap) = some rb) :
    let w := cs.foldl (windowCall (blobSize - superSize)) ⟨0, 0, fun _ => 0⟩
    rb.back.pos = w.back ∧ rb.front.pos = w.front ∧ w.back ≤ w.front ∧
    rb.used = w.front - w.back ∧ rb.used ≤ rb.size ∧ rb.size = blobSize - superSize ∧
    (∀ bl, rb.size - rb.used < bl.bytes → rb.append bl = (rb, ⟨rb.front.pos, bl.bytes⟩, -ENOSPC)) ∧
    (∀ bl : BufferList, bl.data.length = bl.bytes → unitSize ∣ bl.bytes → bl.bytes ≤ rb.size - rb.used →
      rb.defined (.append bl.buf) = true → (rb.append bl.buf).2.2 = 0 ∧ ∀ c ∈ (rb.appendCtx bl.buf).ctxs,
        (∃ iovs ∈ bl.toIovec (c.startPos - rb.front.pos) c.len, iovs.flatten = c.iov.toList) ∧
        ∀ a, units c.lba ≤ a → a < units c.lba + units c.len →
          superSize ≤ a ∧ a < blobSize ∧ ∀ p, rb.back.pos ≤ p → p < rb.front.pos → rb.posToLba p ≠ a) ∧
    (∀ start length bl isLoad, (Call.read start length bl isLoad).Aligned → rb.back.pos ≤ start →
      start + length ≤ rb.front.pos → length ≤ bl.bytes → rb.defined (.read start length bl isLoad) = true →
        (rb.read start length bl isLoad).2.1 = 0 ∧
        ∀ i, i < length → (rb.read start length bl isLoad).2.2.get i = w.cell (start + i)) := by
  intro w
  have heq := RollingBlob.foldlM_call? hrun
  have hr : rb.Refines w := heq ▸ (RollingBlob.refines_make hs hu super dev unmap).calls hc
  have hb : rb.back.pos = w.back := by rw [hr.back]
  have hf : rb.front.pos = w.front := by rw [hr.front]
  have hsize : rb.blobSize = blobSize := heq ▸ RollingBlob.calls_blobSize _ cs
  have hused := hr.used_eq
  have hle := hr.holds.le
  have hfits := hr.holds.fits
  refine ⟨hb, hf, hle, hused, hr.used_le, by rw [RollingBlob.size, hsize], fun bl hbl => ?_,
    fun bl hsum hu hbl hd => ?_, fun start length bl isLoad ha h₁ h₂ h₃ _ => ?_⟩
  · rw [hf]
    exact hr.append_refused (by rwa [← hused])
  · have hroom : bl.buf.bytes ≤ w.back + rb.size - w.front := by
      rw [hused, Window.used] at hbl
      show bl.bytes ≤ _
      omega
    refine ⟨(hr.append_accepted (by omega)).2, fun c hcm => ⟨RollingBlob.appendCtx_slice hsum hbl hd hcm, ?_⟩⟩
    intro a h₁ h₂
    rw [hb, hf, ← hsize]
    exact hr.append_free hu (by omega) hcm h₁ h₂
  · exact hr.read isLoad ha.1 ha.2 (hb ▸ h₁) (hf ▸ h₂) h₃

/-- A ring of three units after it wrapped: the last two units read back
across the wrap. -/
theorem rolling_blob_refines_wrapped :
    let cs : List Call := [.append ⟨1024, fun _ => 1⟩, .trimBack 512, .append ⟨1024, fun _ => 7⟩]
    ∃ rb, cs.foldlM RollingBlob.call? (.make 5632 (fun _ => 0) (fun _ => 0) fun _ b => b) = some rb ∧
      rb.back.pos = 512 ∧ rb.front.pos = 2048 ∧ rb.used = rb.size ∧
      ∀ i, i < 1024 → (rb.read 1024 1024 ⟨2048, fun _ => 0⟩ false).2.2.get i = 7 := by
  intro cs
  have hc : ∀ c ∈ cs, c.Aligned := by simp [cs, Call.Aligned, unitSize]
  obtain ⟨rb, hrun⟩ : ∃ rb,
      cs.foldlM RollingBlob.call? (.make 5632 (fun _ => 0) (fun _ => 0) fun _ b => b) = some rb := by
    rw [RollingBlob.foldlM_call?_cons (by decide), RollingBlob.foldlM_call?_cons (by decide),
      RollingBlob.foldlM_call?_cons (by decide)]
    exact ⟨_, rfl⟩
  refine ⟨rb, hrun, ?_⟩
  obtain ⟨hb, hf, -, hu, -, hs, -, -, hr⟩ :=
    rolling_blob_refines 5632 (by decide) (by decide) (fun _ => 0) (fun _ => 0) (fun _ b => b) cs hc rb hrun
  have hd : rb.defined (.read 1024 1024 ⟨2048, fun _ => 0⟩ false) = true := by
    rw [RollingBlob.foldlM_call? hrun]
    decide
  refine ⟨hb.trans (by decide), hf.trans (by decide), hu.trans (Eq.trans (by decide) hs.symm), fun i hi => ?_⟩
  have hrd := hr 1024 1024 ⟨2048, fun _ => 0⟩ false (by simp [Call.Aligned, unitSize]) (hb.le.trans (by decide))
    (hf.ge.trans' (by decide)) (by decide) hd
  rw [hrd.2 i hi]
  exact fill_of_mem (show 1024 ≤ 1024 + i by omega) (show 1024 + i < 1024 + 1024 by omega)

/-- After an append of 700 bytes the next one begins in the middle of a
unit, and the division by the unit makes it write from the beginning of
that unit: over the live bytes from 512 on. -/
theorem misaligned_overwrites :
    let rb := (RollingBlob.make 8192 (fun _ => 0) (fun _ => 0) fun _ _ => 0).call (.append ⟨700, fun _ => 1⟩)
    rb.defined (.append ⟨512, fun _ => 2⟩) = true ∧ rb.front.pos = 700 ∧
      ∃ c ∈ (rb.appendCtx ⟨512, fun _ => 2⟩).ctxs, units c.lba ≤ rb.posToLba 512 ∧
        rb.posToLba 512 < units c.lba + units c.len ∧
            (rb.call (.append ⟨512, fun _ => 2⟩)).dev (rb.posToLba 512) = 2 := by
  refine ⟨by decide, by decide, _, List.mem_singleton.mpr rfl, by decide, by decide, by decide⟩

end Fastblock.L1
