import Mathlib.Data.Nat.Notation

/-!
# Decoders that move over a buffer

A decoder of a message whose lengths come from the message itself. The
cursor holds the offset, the ranges of the buffer read so far and the
number of records begun. The rules below prove, along the structure of a
decoder:
* `Bounded n w d`: `d` stays inside a buffer of `n` bytes, and each record
  it begins costs at least `w` bytes, but for the one it may fail in;
* `Consumes body d P`: what `d` returns and the bytes it moved over are
  related by `P`;
* `Decodes body d bs a`: `d` reads `a` where the body has the bytes `bs`.
-/
namespace Fastblock.Core

structure Cursor where
  offset : Nat
  /-- start and length of each read -/
  reads : List (Nat × Nat)
  /-- the records begun -/
  steps : Nat
  deriving DecidableEq, Repr

/-- A decoder fails or returns a value, and the cursor keeps what it did in
both cases. -/
def Decoder (ε α : Type) := Cursor → Except ε α × Cursor

variable {ε α β : Type}

instance : Monad (Decoder ε) where
  pure a := fun c => (.ok a, c)
  bind d f := fun c =>
    match d c with
    | (.ok a, c') => f a c'
    | (.error e, c') => (.error e, c')

namespace Decoder

def fail (e : ε) : Decoder ε α := fun c => (.error e, c)

/-- Fail unless the test on the offset holds. -/
def require (test : Nat → Bool) (e : ε) : Decoder ε Unit :=
  fun c => if test c.offset then (.ok (), c) else (.error e, c)

/-- The next `len` bytes, if the buffer has them. -/
def copy (body : List UInt8) (e : ε) (len : Nat) : Decoder ε (List UInt8) := fun c =>
  if c.offset + len > body.length then (.error e, c)
  else (.ok ((body.drop c.offset).take len), { c with offset := c.offset + len, reads := (c.offset, len) :: c.reads })

/-- `copy` as the start of a record. -/
def record (body : List UInt8) (e : ε) (len : Nat) : Decoder ε (List UInt8) := fun c =>
  copy body e len { c with steps := c.steps + 1 }

/-- `n` values, one after the other. -/
def times (d : Decoder ε α) : Nat → Decoder ε (List α)
  | 0 => Pure.pure []
  | n + 1 => do
    let a ← d
    let as ← d.times n
    Pure.pure (a :: as)

theorem bind_ok {d : Decoder ε α} {f : α → Decoder ε β} {c c' : Cursor} {b : β} (h : (d >>= f) c = (.ok b, c')) :
    ∃ a c₁, d c = (.ok a, c₁) ∧ f a c₁ = (.ok b, c') := by
  change (match d c with | (.ok a, c') => f a c' | (.error e, c') => (.error e, c')) = _ at h
  split at h
  · next a c₁ hd => exact ⟨a, c₁, hd, h⟩
  · next e c₁ hd => cases h

/-- From `c` to `c'` inside `n` bytes, with `slack` bytes more for a record
that failed. -/
structure Moves (n w slack : Nat) (c c' : Cursor) : Prop where
  le : c.offset ≤ c'.offset
  inside : c'.offset ≤ n
  reads : ∀ r ∈ c'.reads, r ∈ c.reads ∨ r.1 + r.2 ≤ n
  steps : w * c'.steps + c.offset ≤ w * c.steps + c'.offset + slack

theorem Moves.trans {n w slack : Nat} {c c₁ c₂ : Cursor} (h : Moves n w 0 c c₁) (h' : Moves n w slack c₁ c₂) :
    Moves n w slack c c₂ where
  le := Nat.le_trans h.le h'.le
  inside := h'.inside
  reads := fun r hr => (h'.reads r hr).elim (h.reads r) .inr
  steps := by
    have := h.steps
    have := h'.steps
    omega

theorem Moves.refl {n : Nat} (w slack : Nat) {c : Cursor} (h : c.offset ≤ n) : Moves n w slack c c where
  le := Nat.le_refl _
  inside := h
  reads := fun _ hr => .inl hr
  steps := by omega

/-- A read inside the buffer pays for the records begun with it. -/
theorem Moves.read {n w : Nat} {c : Cursor} {len k : Nat} (h : c.offset + len ≤ n) (hk : w * k ≤ len) :
    Moves n w 0 c { offset := c.offset + len, reads := (c.offset, len) :: c.reads, steps := c.steps + k } where
  le := Nat.le_add_right _ _
  inside := h
  reads := by
    intro r hr
    rcases List.mem_cons.mp hr with rfl | hr
    · exact .inr h
    · exact .inl hr
  steps := by
    simp only [Nat.mul_add]
    omega

def Bounded (n w : Nat) (d : Decoder ε α) : Prop :=
  ∀ c, c.offset ≤ n → Moves n w (match (d c).1 with | .ok _ => 0 | .error _ => w) c (d c).2

namespace Bounded

variable {n w : Nat}

theorem pure (a : α) : Bounded n w (Pure.pure a : Decoder ε α) := fun _ hc => .refl w 0 hc

theorem fail (e : ε) : Bounded n w (Decoder.fail e : Decoder ε α) := fun _ hc => .refl w w hc

theorem bind {d : Decoder ε α} {f : α → Decoder ε β} (hd : Bounded n w d) (hf : ∀ a, Bounded n w (f a)) :
    Bounded n w (d >>= f) := by
  intro c hc
  have h := hd c hc
  change Moves n w _ c (match d c with | (.ok a, c') => f a c' | (.error e, c') => (.error e, c')).2
  cases hdc : d c with
  | mk r c₁ =>
    rw [hdc] at h
    cases r with
    | error e =>
      simp only [Bind.bind, hdc]
      exact h
    | ok a =>
      simp only [Bind.bind, hdc]
      exact h.trans (hf a c₁ h.inside)

theorem require (test : Nat → Bool) (e : ε) : Bounded n w (Decoder.require test e) := by
  intro c hc
  by_cases ht : test c.offset = true
  · simp only [Decoder.require, if_pos ht]
    exact .refl w 0 hc
  · simp only [Decoder.require, if_neg ht]
    exact .refl w w hc

theorem ite {p : Prop} [Decidable p] {d d' : Decoder ε α} (h : Bounded n w d) (h' : Bounded n w d') :
    Bounded n w (if p then d else d') := by
  split
  · exact h
  · exact h'

variable {body : List UInt8}

theorem copy (e : ε) (len : Nat) : Bounded body.length w (Decoder.copy body e len) := by
  intro c hc
  by_cases hlen : c.offset + len > body.length
  · simp only [Decoder.copy, if_pos hlen]
    exact .refl w w hc
  · simp only [Decoder.copy, if_neg hlen]
    exact Moves.read (k := 0) (Nat.le_of_not_lt hlen) (Nat.zero_le len)

theorem record (e : ε) {len : Nat} (hw : w ≤ len) : Bounded body.length w (Decoder.record body e len) := by
  intro c hc
  by_cases hlen : c.offset + len > body.length
  · simp only [Decoder.record, Decoder.copy, if_pos hlen]
    refine ⟨Nat.le_refl _, hc, fun r hr => .inl hr, ?_⟩
    simp only [Nat.mul_add, Nat.mul_one]
    omega
  · simp only [Decoder.record, Decoder.copy, if_neg hlen]
    exact Moves.read (Nat.le_of_not_lt hlen) (by rwa [Nat.mul_one])

theorem times {d : Decoder ε α} (h : Bounded n w d) (k : Nat) : Bounded n w (d.times k) := by
  induction k with
  | zero => exact pure []
  | succ k ih => exact h.bind fun a => ih.bind fun as => pure (a :: as)

end Bounded

/-! ## What was read -/

/-- A value that `d` returns, and the bytes between the cursor before and
after it. -/
def Consumes (body : List UInt8) (d : Decoder ε α) (P : α → List UInt8 → Prop) : Prop :=
  ∀ c a c', d c = (.ok a, c') → ∃ bs, body.drop c.offset = bs ++ body.drop c'.offset ∧ P a bs

namespace Consumes

variable {body : List UInt8} {d d' : Decoder ε α} {P : α → List UInt8 → Prop}

theorem pure {a : α} (h : P a []) : Consumes body (Pure.pure a : Decoder ε α) P := by
  intro c _ _ hd
  obtain ⟨ha, rfl⟩ := Prod.mk.inj hd
  exact ⟨[], rfl, Except.ok.inj ha ▸ h⟩

theorem fail (e : ε) : Consumes body (Decoder.fail e) P := by
  intro c a c' hd
  cases (Prod.mk.inj hd).1

theorem bind {f : α → Decoder ε β} {Q : β → List UInt8 → Prop} (h : Consumes body d P)
    (hf : ∀ a bs, P a bs → Consumes body (f a) fun b bs' => Q b (bs ++ bs')) : Consumes body (d >>= f) Q := by
  intro c b c' hd
  obtain ⟨a, c₁, hda, hfb⟩ := bind_ok hd
  obtain ⟨bs, hbs, hP⟩ := h c a c₁ hda
  obtain ⟨bs', hbs', hQ⟩ := hf a bs hP c₁ b c' hfb
  exact ⟨bs ++ bs', by rw [hbs, hbs', List.append_assoc], hQ⟩

theorem require (test : Nat → Bool) (e : ε) : Consumes body (Decoder.require test e) fun _ bs => bs = [] := by
  intro c a c' hd
  rw [Decoder.require] at hd
  split at hd
  · exact ⟨[], by rw [(Prod.mk.inj hd).2, List.nil_append], rfl⟩
  · cases (Prod.mk.inj hd).1

theorem ite {p : Prop} [Decidable p] (h : Consumes body d P) (h' : Consumes body d' P) :
    Consumes body (if p then d else d') P := by
  split
  · exact h
  · exact h'

theorem copy (e : ε) (len : Nat) : Consumes body (Decoder.copy body e len) fun a bs => bs = a ∧ a.length = len := by
  intro c a c' hd
  rw [Decoder.copy] at hd
  split at hd
  · cases (Prod.mk.inj hd).1
  · obtain ⟨ha, rfl⟩ := Prod.mk.inj hd
    obtain rfl := Except.ok.inj ha
    refine ⟨_, ?_, rfl, ?_⟩
    · rw [← List.drop_drop, List.take_append_drop]
    · rw [List.length_take, List.length_drop]
      omega

theorem record (e : ε) (len : Nat) : Consumes body (Decoder.record body e len) fun a bs => bs = a ∧ a.length = len :=
  fun c a c' hd => copy e len { c with steps := c.steps + 1 } a c' hd

theorem times {enc : α → List UInt8} {Q : α → Prop} (h : Consumes body d fun a bs => bs = enc a ∧ Q a) (n : Nat) :
    Consumes body (d.times n) fun as bs => as.length = n ∧ bs = as.flatMap enc ∧ ∀ a ∈ as, Q a := by
  induction n with
  | zero => exact pure ⟨rfl, rfl, by simp⟩
  | succ n ih =>
    refine h.bind ?_
    rintro a _ ⟨rfl, ha⟩
    refine ih.bind ?_
    rintro as _ ⟨hlen, rfl, has⟩
    refine pure ⟨congrArg (· + 1) hlen, ?_, List.forall_mem_cons.mpr ⟨ha, has⟩⟩
    rw [List.append_nil, List.flatMap_cons]

end Consumes

/-! ## Round trips -/

theorem bind_of_ok {d : Decoder ε α} {c c' : Cursor} {a : α} (h : d c = (.ok a, c')) (f : α → Decoder ε β) :
    (d >>= f) c = f a c' := by
  change (match d c with | (.ok a, c') => f a c' | (.error e, c') => (.error e, c')) = _
  rw [h]

/-- Wherever the next bytes of the body are `bs`, `d` gives `a` and moves
over them. -/
def Decodes (body : List UInt8) (d : Decoder ε α) (bs : List UInt8) (a : α) : Prop :=
  ∀ before after c, body = before ++ (bs ++ after) → c.offset = before.length →
    ∃ c', d c = (.ok a, c') ∧ c'.offset = before.length + bs.length

namespace Decodes

variable {body bs bs' : List UInt8} {d : Decoder ε α} {a : α}

theorem pure (a : α) : Decodes body (Pure.pure a : Decoder ε α) [] a := fun _ _ c _ hc => ⟨c, rfl, hc⟩

theorem bind {f : α → Decoder ε β} {b : β} (h : Decodes body d bs a) (h' : Decodes body (f a) bs' b) :
    Decodes body (d >>= f) (bs ++ bs') b := by
  intro before after c hbody hc
  rw [List.append_assoc] at hbody
  obtain ⟨c₁, hd, hc₁⟩ := h before _ c hbody hc
  obtain ⟨c₂, hf, hc₂⟩ := h' (before ++ bs) after c₁ (by rw [hbody, List.append_assoc])
    (by rw [hc₁, List.length_append])
  refine ⟨c₂, (bind_of_ok hd f).trans hf, ?_⟩
  rw [hc₂, List.length_append, List.length_append, Nat.add_assoc]

theorem map (h : Decodes body d bs a) (g : α → β) : Decodes body (d >>= fun x => Pure.pure (g x)) bs (g a) := by
  have := h.bind (f := fun x => Pure.pure (g x)) (pure (g a))
  rwa [List.append_nil] at this

theorem require {test : Nat → Bool} (h : ∀ offset, test offset = true) (e : ε) :
    Decodes body (Decoder.require test e) [] () := fun _ _ c _ hc => ⟨c, if_pos (h _), hc⟩

theorem copy {len : Nat} (h : bs.length = len) (e : ε) : Decodes body (Decoder.copy body e len) bs bs := by
  intro before after c hbody hc
  have hlen : ¬ c.offset + len > body.length := by
    rw [hbody, hc, ← h, List.length_append, List.length_append]
    omega
  have hread : (body.drop c.offset).take len = bs := by rw [hc, hbody, List.drop_left, ← h, List.take_left]
  rw [Decoder.copy, if_neg hlen, hread]
  exact ⟨_, rfl, by dsimp only; rw [hc, h]⟩

theorem record {len : Nat} (h : bs.length = len) (e : ε) : Decodes body (Decoder.record body e len) bs bs :=
  fun before after c hbody hc => copy h e before after { c with steps := c.steps + 1 } hbody hc

theorem times {γ : Type} {enc : γ → List UInt8} {val : γ → α} {xs : List γ}
    (h : ∀ x ∈ xs, Decodes body d (enc x) (val x)) :
    Decodes body (d.times xs.length) (xs.flatMap enc) (xs.map val) := by
  induction xs with
  | nil => exact pure []
  | cons x xs ih =>
    have hrest := ih fun y hy => h y (List.mem_cons_of_mem _ hy)
    exact (h x List.mem_cons_self).bind (hrest.map _)

end Decodes
end Decoder
end Fastblock.Core
