import Fastblock.Core.Lts
import Fastblock.L1Blob.Refine

/-!
# Requests that fail

What is left of a call of the rolling blob when the device reports an
error (src/localstore/rolling_blob.h:423-485, 748-770).

An append that fails leaves its end in `inflight_rw`, where it is never
marked as done. A later append that ends there takes the entry over, one
that ends before it passes, and one that ends behind it is stuck: `front`
does not move, and the next append writes over its bytes. So the blob
keeps what was appended as long as every append that succeeds ends at or
before the ends that are left (`failed_appends_harmless`). As everywhere
over `Refines`, the blob and the lengths of the calls are whole units of
512 bytes (`Event.Allowed`).

A call that is split at the end of the ring has its completion in the
second of its two contexts. If the first request fails, `rw_done` and
`trim_done` call the empty `cb_fn` of the first (`completes_once_iff`).
-/
namespace Fastblock.L1

open Fastblock.Core

/-! ## Histories -/

/-- A call that succeeds, or an append that fails and leaves the bytes `dev`
in the blob. -/
inductive Event
  | call (c : Call)
  | appendFailed (bl : Buf) (dev : Nat → UInt8)

namespace RollingBlob

/-- A failed append stays in `inflight_rw`; one that is refused does not get
there. -/
def appendFailed (rb : RollingBlob) (bl : Buf) (dev : Nat → UInt8) : RollingBlob :=
  match rb.appendSubmit bl with
  | none => rb
  | some (rb, _) => { rb with dev := dev }

def event (rb : RollingBlob) : Event → RollingBlob
  | .call c => rb.call c
  | .appendFailed bl dev => rb.appendFailed bl dev

/-- A request that fails may have changed any of the bytes that it is
for. -/
def MayLeave (rb : RollingBlob) (bl : Buf) (dev : Nat → UInt8) : Prop :=
  ∀ a, (∀ c ∈ (rb.appendCtx bl).ctxs, ¬(units c.lba ≤ a ∧ a < units c.lba + units c.len)) → dev a = rb.dev a

end RollingBlob

/-- Lengths are multiples of 512. -/
def Event.Allowed (rb : RollingBlob) : Event → Prop
  | .call c => c.Aligned
  | .appendFailed bl dev => unitSize ∣ bl.bytes ∧ rb.MayLeave bl dev

/-- The window of the bytes that are kept: a failed append is not among
them. -/
def windowEvent (size : Nat) (w : Window UInt8) : Event → Window UInt8
  | .call c => windowCall size w c
  | .appendFailed _ _ => w

/-- A blob, and what was appended to it without an error and not trimmed. -/
structure History where
  rb : RollingBlob
  kept : Window UInt8

def History.event (h : History) (e : Event) : History := ⟨h.rb.event e, windowEvent h.rb.size h.kept e⟩

/-- Any blob that keeps a window and waits for nothing, and the calls one
after the other. -/
def histories : Lts History Event where
  init h := h.rb.Refines h.kept
  step h e h' := e.Allowed h.rb ∧ h' = h.event e

/-- An append that succeeds does not end behind one that failed and was not
taken over. -/
def InTurn (h : History) : Event → Prop
  | .call (.append bl) => bl.bytes ≤ h.rb.available → ∀ x ∈ h.rb.inflightRw, h.rb.front.pos + bl.bytes ≤ x.1
  | _ => True

/-! ## What is left in `inflight_rw` -/

namespace RollingBlob

/-- The ends of failed appends, from `front` on. -/
structure Stale (front : Nat) (m : List (Nat × Bool)) : Prop where
  sorted : m.Pairwise fun x y => x.1 < y.1
  notDone : ∀ x ∈ m, x.2 = false
  above : ∀ x ∈ m, front ≤ x.1

variable {front e : Nat} {m : List (Nat × Bool)}

theorem Stale.nil (front : Nat) : Stale front [] := ⟨.nil, nofun, nofun⟩

theorem Stale.lower {front' : Nat} (h : Stale front m) (hf : front' ≤ front) : Stale front' m :=
  ⟨h.sorted, h.notDone, fun x hx => Nat.le_trans hf (h.above x hx)⟩

theorem mem_emplace {b : Bool} {x : Nat × Bool} (hx : x ∈ emplace e b m) : x = (e, b) ∨ x ∈ m := by
  induction m with
  | nil => exact .inl (List.mem_singleton.mp hx)
  | cons y m ih =>
    obtain ⟨o, d⟩ := y
    rw [emplace] at hx
    split at hx
    · exact List.mem_cons.mp hx
    · split at hx
      · exact .inr hx
      · rcases List.mem_cons.mp hx with rfl | hx
        · exact .inr List.mem_cons_self
        · exact (ih hx).imp_right (List.mem_cons_of_mem _)

theorem emplace_sorted {b : Bool} (h : m.Pairwise fun x y => x.1 < y.1) :
    (emplace e b m).Pairwise fun x y => x.1 < y.1 := by
  induction m with
  | nil => exact List.pairwise_singleton ..
  | cons y m ih =>
    obtain ⟨o, d⟩ := y
    obtain ⟨hlt, hm⟩ := List.pairwise_cons.mp h
    rw [emplace]
    split
    · next heo =>
      refine List.pairwise_cons.mpr ⟨fun x hx => ?_, h⟩
      rcases List.mem_cons.mp hx with rfl | hx
      · exact heo
      · exact Nat.lt_trans heo (hlt x hx)
    · split
      · exact h
      · refine List.pairwise_cons.mpr ⟨fun x hx => ?_, ih hm⟩
        rcases mem_emplace hx with rfl | hx
        · show o < e
          omega
        · exact hlt x hx

/-- A failed append. -/
theorem Stale.emplace (h : Stale front m) (he : front ≤ e) : Stale front (emplace e false m) where
  sorted := emplace_sorted h.sorted
  notDone x hx := by
    rcases mem_emplace hx with rfl | hx
    · rfl
    · exact h.notDone x hx
  above x hx := by
    rcases mem_emplace hx with rfl | hx
    · exact he
    · exact h.above x hx

/-- `maybe_advance_front` on the map with the end of an append that is
done. -/
def advanced (front e : Nat) (m : List (Nat × Bool)) : Nat × List (Nat × Bool) :=
  advance front ((emplace e false m).map fun od => if od.1 = e then (od.1, true) else od)

/-- Entries that are not done stop the loop at once. -/
theorem advance_notDone (h : ∀ x ∈ m, x.2 = false) (pos : Nat) : advance pos m = (pos, m) := by
  cases m with
  | nil => rfl
  | cons x m =>
    have hx := h x List.mem_cons_self
    obtain ⟨o, d⟩ := x
    cases hx
    rfl

theorem Stale.tail {x : Nat × Bool} (h : Stale front (x :: m)) : Stale front m :=
  ⟨h.sorted.of_cons, fun y hy => h.notDone y (List.mem_cons_of_mem x hy),
    fun y hy => h.above y (List.mem_cons_of_mem x hy)⟩

/-- Entries other than that of the append stay as they are. -/
theorem map_done_eq (h : ∀ x ∈ m, e < x.1) : (m.map fun od => if od.1 = e then (od.1, true) else od) = m := by
  refine (List.map_congr_left fun x hx => ?_).trans (List.map_id m)
  exact if_neg (Nat.ne_of_gt (h x hx))

/-- The end of the append is the first of the map: `front` gets there, and
the others are left. -/
theorem Stale.advanced_of_le (h : Stale front m) (he : ∀ x ∈ m, e ≤ x.1) :
    (advanced front e m).1 = e ∧ Stale e (advanced front e m).2 := by
  suffices ∃ rest, (RollingBlob.emplace e false m).map (fun od => if od.1 = e then (od.1, true) else od) =
      (e, true) :: rest ∧
      Stale e rest by
    obtain ⟨rest, heq, hrest⟩ := this
    rw [advanced, heq, advance, if_pos rfl, advance_notDone hrest.notDone]
    exact ⟨rfl, hrest⟩
  cases m with
  | nil => exact ⟨[], by simp [RollingBlob.emplace], .nil e⟩
  | cons x m =>
    obtain ⟨o, d⟩ := x
    have hlt := (List.pairwise_cons.mp h.sorted).1
    rcases Nat.lt_or_eq_of_le (he _ List.mem_cons_self) with heo | rfl
    · have hall : ∀ x ∈ (o, d) :: m, e < x.1 := by
        intro x hx
        rcases List.mem_cons.mp hx with rfl | hx
        · exact heo
        · exact Nat.lt_trans heo (hlt x hx)
      refine ⟨(o, d) :: m, ?_, h.sorted, h.notDone, he⟩
      rw [RollingBlob.emplace, if_pos heo, List.map_cons, if_pos rfl, map_done_eq hall]
    · refine ⟨m, ?_, h.tail.sorted, h.tail.notDone, fun x hx => Nat.le_of_lt (hlt x hx)⟩
      rw [RollingBlob.emplace, if_neg (Nat.lt_irrefl _), if_pos rfl, List.map_cons, if_pos rfl, map_done_eq hlt]

/-- An entry below the end of the append: `front` stays. -/
theorem Stale.advanced_of_lt (h : Stale front m) (he : ∃ x ∈ m, x.1 < e) : (advanced front e m).1 = front := by
  obtain ⟨x, hx, hxe⟩ := he
  cases m with
  | nil => cases hx
  | cons y m =>
    obtain ⟨o, d⟩ := y
    obtain rfl : d = false := h.notDone _ List.mem_cons_self
    have hoe : o < e := by
      rcases List.mem_cons.mp hx with rfl | hx
      · exact hxe
      · exact Nat.lt_trans ((List.pairwise_cons.mp h.sorted).1 x hx) hxe
    rw [advanced, RollingBlob.emplace, if_neg (by omega), if_neg (by omega), List.map_cons,
      if_neg (Nat.ne_of_lt hoe), advance, if_neg Bool.false_ne_true]

/-! ## The blob keeps the window -/

/-- The blob keeps the window, and what waits in `inflight_rw` is from
appends that failed. -/
structure Keeps (rb : RollingBlob) (w : Window UInt8) : Prop where
  refines : { rb with inflightRw := [] }.Refines w
  stale : Stale w.front rb.inflightRw

variable {rb : RollingBlob} {w : Window UInt8}

theorem Refines.keeps (h : rb.Refines w) : rb.Keeps w where
  refines := { h with idle := rfl }
  stale := by
    rw [h.idle]
    exact .nil _

theorem Keeps.front_pos (h : rb.Keeps w) : rb.front.pos = w.front := congrArg Location.pos h.refines.front

theorem Keeps.back_pos (h : rb.Keeps w) : rb.back.pos = w.back := congrArg Location.pos h.refines.back

theorem Keeps.used_eq (h : rb.Keeps w) : rb.used = w.used := h.refines.used_eq

theorem Keeps.le_available {bl : Buf} (h : rb.Keeps w) :
    bl.bytes ≤ rb.available ↔ w.front + bl.bytes ≤ w.back + rb.size := by
  have hle := h.refines.holds.le
  have hfits : w.front ≤ w.back + rb.size := h.refines.holds.fits
  rw [available, h.used_eq, Window.used]
  omega

/-- What an append that has room and succeeds leaves. -/
theorem append_eq {bl : Buf} (hb : bl.bytes ≤ rb.available) : (rb.append bl).1 =
    { rb with
      front := ⟨(advanced rb.front.pos (rb.front.pos + bl.bytes) rb.inflightRw).1,
        rb.posToLba (advanced rb.front.pos (rb.front.pos + bl.bytes) rb.inflightRw).1⟩
      inflightRw := (advanced rb.front.pos (rb.front.pos + bl.bytes) rb.inflightRw).2
      dev := (rb.appendCtx bl).ctxs.foldl WriteCtx.run rb.dev } := by
  rw [append_of_le hb, appendDone, writeDone, appendCtx_end]
  rfl

/-- An append that succeeds, in the turn of the ones that failed. -/
theorem Keeps.append (h : rb.Keeps w) {bl : Buf} (hu : unitSize ∣ bl.bytes) (hb : bl.bytes ≤ rb.available)
    (hi : ∀ x ∈ rb.inflightRw, rb.front.pos + bl.bytes ≤ x.1) :
    (rb.append bl).1.Keeps (w.append bl.bytes bl.get) := by
  have hfits := h.le_available.mp hb
  rw [h.front_pos] at hi
  obtain ⟨hpos, hstale⟩ := h.stale.advanced_of_le hi
  have hr := h.refines.append hu hfits
  rw [(h.refines.append_accepted hfits).1] at hr
  rw [append_eq hb, h.front_pos, hpos]
  exact ⟨hr, hstale⟩

/-- What an append that has room and fails leaves. -/
theorem appendFailed_eq {bl : Buf} (hb : bl.bytes ≤ rb.available) (dev : Nat → UInt8) : rb.appendFailed bl dev =
    { rb with inflightRw := RollingBlob.emplace (rb.front.pos + bl.bytes) false rb.inflightRw, dev := dev } := by
  rw [appendFailed, appendSubmit_of_le hb]

/-- An append that fails: its bytes are not in the window, and those that
are stay. -/
theorem Keeps.appendFailed (h : rb.Keeps w) {bl : Buf} {dev : Nat → UInt8} (hu : unitSize ∣ bl.bytes)
    (hd : rb.MayLeave bl dev) : (rb.appendFailed bl dev).Keeps w := by
  rcases Nat.lt_or_ge rb.available bl.bytes with hb | hb
  · rw [RollingBlob.appendFailed, appendSubmit, if_pos hb]
    exact h
  · have hfits := h.le_available.mp hb
    have hcells : ∀ p, w.back ≤ p → p < w.front → dev (rb.posToLba p) = w.cell p := fun p h₁ h₂ => by
      rw [← h.refines.cell h₁ h₂]
      refine hd _ fun c hc ha => ?_
      exact (h.refines.append_free hu hfits hc ha.1 ha.2).2.2 p h₁ h₂ rfl
    rw [appendFailed_eq hb, h.front_pos]
    exact ⟨{ h.refines with holds := { h.refines.holds with cells := hcells } },
      h.stale.emplace (Nat.le_add_right _ _)⟩

theorem Keeps.trimBack (h : rb.Keeps w) {n : Nat} (hu : unitSize ∣ n) (hn : n ≤ w.used) :
    (rb.trimBack n).1.Keeps (w.trimBack n) := by
  have hr := h.refines.trimBack hu (by have := h.refines.holds.le; unfold Window.used at hn; omega)
  have hused : ¬n > rb.used := by rw [h.used_eq]; omega
  have hused' : ¬n > { rb with inflightRw := [] }.used := hused
  rw [RollingBlob.trimBack, if_neg hused'] at hr
  rw [RollingBlob.trimBack, if_neg hused]
  exact ⟨hr, h.stale⟩

theorem Keeps.trimFront (h : rb.Keeps w) {n : Nat} (hu : unitSize ∣ n) (hn : n ≤ w.used) :
    (rb.trimFront n).1.Keeps (w.trimFront n) := by
  have hr := h.refines.trimFront hu (by have := h.refines.holds.le; unfold Window.used at hn; omega)
  have hused : ¬n > rb.used := by rw [h.used_eq]; omega
  have hused' : ¬n > { rb with inflightRw := [] }.used := hused
  rw [RollingBlob.trimFront, if_neg hused'] at hr
  rw [RollingBlob.trimFront, if_neg hused]
  exact ⟨hr, h.stale.lower (Nat.sub_le _ _)⟩

/-- A call that succeeds; an append is in its turn. -/
theorem Keeps.call (h : rb.Keeps w) {c : Call} (hc : c.Aligned) (ht : InTurn ⟨rb, w⟩ (.call c)) :
    (rb.call c).Keeps (windowCall rb.size w c) := by
  cases c with
  | append bl =>
    rw [windowCall, RollingBlob.call]
    by_cases hb : bl.bytes ≤ rb.size - w.used
    · have hb' : bl.bytes ≤ rb.available := by rwa [available, h.used_eq]
      rw [if_pos hb]
      exact h.append hc hb' (ht hb')
    · have hb' : bl.bytes > rb.available := by rw [available, h.used_eq]; omega
      rw [if_neg hb, RollingBlob.append, if_pos hb']
      exact h
  | read => exact h
  | trimBack n =>
    rw [windowCall, RollingBlob.call]
    by_cases hn : n ≤ w.used
    · rw [if_pos hn]
      exact h.trimBack hc hn
    · rw [if_neg hn, RollingBlob.trimBack, if_pos (by rw [h.used_eq]; omega)]
      exact h
  | trimFront n =>
    rw [windowCall, RollingBlob.call]
    by_cases hn : n ≤ w.used
    · rw [if_pos hn]
      exact h.trimFront hc hn
    · rw [if_neg hn, RollingBlob.trimFront, if_pos (by rw [h.used_eq]; omega)]
      exact h

end RollingBlob

open RollingBlob

/-- One event keeps the window. -/
theorem History.keeps_event (h : History) {e : Event} (hk : h.rb.Keeps h.kept) (ha : e.Allowed h.rb)
    (ht : InTurn h e) : (h.event e).rb.Keeps (h.event e).kept := by
  rw [event]
  cases e with
  | appendFailed bl dev =>
    rw [RollingBlob.event, windowEvent]
    exact hk.appendFailed ha.1 ha.2
  | call c =>
    rw [RollingBlob.event, windowEvent]
    exact hk.call ha ht

theorem keeps_of_reachable {h : History} (hr : (histories.restrict InTurn).Reachable h) : h.rb.Keeps h.kept := by
  have hi : (histories.restrict InTurn).Inductive fun h => h.rb.Keeps h.kept := by
    refine ⟨fun _ h0 => h0.keeps, ?_⟩
    rintro h e _ hk ⟨ht, ha, rfl⟩
    exact h.keeps_event hk ha ht
  exact hi.reachable hr

/-- In every history whose successful appends do not end behind a failed
one that was not taken over, the bytes that were appended without an error
are in the blob. The next append that fails leaves `front` where it is, no
append writes to bytes that are kept, and `front` moves past the next
append that succeeds if and only if that is in its turn. -/
theorem failed_appends_harmless {h : History} (hr : (histories.restrict InTurn).Reachable h) :
    h.rb.back.pos = h.kept.back ∧ h.rb.front.pos = h.kept.front ∧
    (∀ p, h.kept.back ≤ p → p < h.kept.front → h.rb.dev (h.rb.posToLba p) = h.kept.cell p) ∧
    ∀ bl : Buf, unitSize ∣ bl.bytes → bl.bytes ≤ h.rb.available →
      (∀ dev, (h.rb.appendFailed bl dev).front = h.rb.front) ∧
      (∀ c ∈ (h.rb.appendCtx bl).ctxs, ∀ a, units c.lba ≤ a → a < units c.lba + units c.len →
        ∀ p, h.kept.back ≤ p → p < h.kept.front → h.rb.posToLba p ≠ a) ∧
      (h.rb.front.pos + bl.bytes ≤ (h.rb.append bl).1.front.pos ↔
        ∀ x ∈ h.rb.inflightRw, h.rb.front.pos + bl.bytes ≤ x.1) := by
  have hk := keeps_of_reachable hr
  refine ⟨hk.back_pos, hk.front_pos, fun p h₁ h₂ => hk.refines.cell h₁ h₂, fun bl hu hb => ⟨fun dev => ?_,
    fun c hc a h₁ h₂ p hp₁ hp₂ => ?_, ?_⟩⟩
  · rw [appendFailed_eq hb]
  · exact (hk.refines.append_free hu (hk.le_available.mp hb) hc h₁ h₂).2.2 p hp₁ hp₂
  · rw [append_eq hb, hk.front_pos]
    refine ⟨fun hle => ?_, fun hi => Nat.le_of_eq (hk.stale.advanced_of_le hi).1.symm⟩
    by_contra hn
    push Not at hn
    obtain ⟨x, hx, hlt⟩ := hn
    have hstuck := hk.stale.advanced_of_lt ⟨x, hx, hlt⟩
    have habove := hk.stale.above x hx
    simp only [hstuck] at hle
    omega

/-- An append of 8 KiB failed, one of 4 KiB succeeded: `front` is behind the
latter, and what is left of the former lets another 4 KiB pass. -/
theorem failed_append_passed :
    let h : History := ⟨.make 20480 (fun _ => 0) (fun _ => 0) fun _ b => b, ⟨0, 0, fun _ => 0⟩⟩
    let h' := (h.event (.appendFailed ⟨8192, fun _ => 1⟩ fun _ => 0)).event (.call (.append ⟨4096, fun _ => 2⟩))
    (histories.restrict InTurn).Reachable h' ∧ h'.rb.inflightRw = [(8192, false)] ∧ h'.rb.front.pos = 4096 ∧
      h'.rb.dev (h'.rb.posToLba 5) = 2 ∧ 8192 ≤ (h'.rb.append ⟨4096, fun _ => 3⟩).1.front.pos := by
  intro h h'
  have hu : unitSize ∣ 8192 ∧ unitSize ∣ 4096 := by decide
  have h0 : (histories.restrict InTurn).Reachable h := .of_init (refines_make (by decide) (by decide) _ _ _)
  have h1 : (histories.restrict InTurn).Reachable (h.event (.appendFailed ⟨8192, fun _ => 1⟩ fun _ => 0)) :=
    h0.step (l := .appendFailed ⟨8192, fun _ => 1⟩ fun _ => 0) ⟨trivial, ⟨hu.1, fun _ _ => rfl⟩, rfl⟩
  have h2 : (histories.restrict InTurn).Reachable h' :=
    h1.step (l := .call (.append ⟨4096, fun _ => 2⟩)) ⟨fun _ => by decide +kernel, hu.2, rfl⟩
  obtain ⟨-, -, hcell, hnext⟩ := failed_appends_harmless h2
  have hfront : h'.rb.front.pos = 4096 := by decide +kernel
  have hpass := (hnext ⟨4096, fun _ => 3⟩ hu.2 (by decide +kernel)).2.2.mpr (by decide +kernel)
  rw [hfront] at hpass
  exact ⟨h2, by decide +kernel, hfront, (hcell 5 (by decide +kernel) (by decide +kernel)).trans (by decide +kernel),
    hpass⟩

/-- An append of 4 KiB failed. One of 8 KiB is reported as written and
`front` stays at 0: the next one of 4 KiB writes over its bytes. -/
theorem failed_append_sticks :
    let rb := (RollingBlob.make 20480 (fun _ => 0) (fun _ => 0) fun _ b => b).appendFailed ⟨4096, fun _ => 1⟩
      fun _ => 0
    let r := rb.append ⟨8192, fun _ => 2⟩
    r.2 = (⟨0, 8192⟩, 0) ∧ r.1.front.pos = 0 ∧ r.1.dev (rb.posToLba 5) = 2 ∧
      (r.1.append ⟨4096, fun _ => 3⟩).1.dev (rb.posToLba 5) = 3 := by
  decide +kernel

/-! ## Completions -/

/-- Which of the contexts of a call has the caller's completion in its
`cb_fn`: of two, the second. -/
def Chained.cbFns {C : Type} (c : Chained C) : List Bool :=
  match c.next with
  | none => [true]
  | some _ => [false, true]

/-- `ctx->cb_fn(ctx->arg, .., rberrno)`: an empty `std::function` throws,
and the completion is not invoked. -/
def invoke (cbFn : Bool) (rberrno : Int) : List Int := if cbFn then [rberrno] else []

/-- mirrors rolling_blob.h:423-461; `res k` is the error number of the
`k`-th request. -/
def rwDone (res : Nat → Int) : Nat → List Bool → List Int
  | _, [] => []
  | k, cbFn :: next =>
    if res k ≠ 0 then invoke cbFn (res k)
    else if next.isEmpty then invoke cbFn (res k)
    else rwDone res (k + 1) next

/-- mirrors rolling_blob.h:463-485: in the end `sync_md` gets the
completion, and `md_done` invokes it. -/
def trimDone (res : Nat → Int) : Nat → List Bool → List Int
  | _, [] => []
  | k, cbFn :: next =>
    if res k ≠ 0 then invoke cbFn (res k)
    else if next.isEmpty then invoke cbFn (res (k + 1))
    else trimDone res (k + 1) next

namespace RollingBlob

variable (rb : RollingBlob)

/-- What a call does at once: it invokes the completion with an error
number, or makes requests with these contexts; the other part says whether
it is a trim. -/
def submit : Call → Except Int (List Bool × Bool)
  | .append bl => if bl.bytes > rb.available then .error (-ENOSPC) else .ok ((rb.appendCtx bl).cbFns, false)
  | .read start length bl isLoad =>
    if start < rb.back.pos then .error (-EINVAL)
    else if length > rb.used && !isLoad then .error (-ENOSPC)
    else if isLoad && start ≥ rb.back.pos + rb.size then .error 0
    else .ok ((rb.readCtx start (rb.readLength start length isLoad) bl).cbFns, false)
  | .trimBack length => if length > rb.used then .error (-ENOSPC) else .ok ((rb.trimBackCtx length).cbFns, true)
  | .trimFront length => if length > rb.used then .error (-ENOSPC) else .ok ((rb.trimFrontCtx length).cbFns, true)

/-- The error numbers with which the completion of a call is invoked. -/
def completions (res : Nat → Int) (c : Call) : List Int :=
  match rb.submit c with
  | .error rberrno => [rberrno]
  | .ok (cbFns, false) => rwDone res 0 cbFns
  | .ok (cbFns, true) => trimDone res 0 cbFns

/-- The error of the first of the `n` requests from the `k`-th on that
fails, or 0. -/
def firstError (res : Nat → Int) : Nat → Nat → Int
  | _, 0 => 0
  | k, n + 1 => if res k ≠ 0 then res k else firstError res (k + 1) n

/-- The error number that is due: a trim makes a request for the super block
after the others. -/
def errorDue (res : Nat → Int) (c : Call) : Int :=
  match rb.submit c with
  | .error rberrno => rberrno
  | .ok (cbFns, trim) => firstError res 0 (cbFns.length + trim.toNat)

/-- The call is accepted, and its bytes go up to the end of the ring or
beyond. -/
def IsSplit : Call → Prop
  | .append bl => bl.bytes ≤ rb.available ∧ rb.isRolled = false ∧ rb.frontToEnd ≤ bl.bytes
  | .read start length _ isLoad => rb.back.pos ≤ start ∧ (length ≤ rb.used ∨ isLoad = true) ∧
      (isLoad = true → start < rb.back.pos + rb.size) ∧ rb.needRoll start (rb.readLength start length isLoad) = true
  | .trimBack length => length ≤ rb.used ∧ rb.isRolled = true ∧ rb.backToEnd ≤ length
  | .trimFront length => length ≤ rb.used ∧ rb.isRolled = true ∧ rb.beginToFront ≤ length

/-- The contexts of a call are two, with the completion in the second, or
there is one. -/
theorem cbFns_eq {C : Type} (c : Chained C) : c.cbFns = if c.next.isSome then [false, true] else [true] := by
  unfold Chained.cbFns
  cases c.next <;> rfl

theorem appendCtx_split (bl : Buf) :
    (rb.appendCtx bl).next.isSome = true ↔ rb.isRolled = false ∧ rb.frontToEnd ≤ bl.bytes := by
  by_cases h : (rb.isRolled || decide (bl.bytes < rb.frontToEnd)) = true
  · have hnext : (rb.appendCtx bl).next = none := by rw [appendCtx, if_pos h]
    simp only [Bool.or_eq_true, decide_eq_true_eq] at h
    rw [hnext]
    grind
  · have hnext : (rb.appendCtx bl).next.isSome = true := by
      rw [appendCtx, if_neg h]
      rfl
    simp only [Bool.or_eq_true, decide_eq_true_eq] at h
    rw [hnext]
    grind

theorem readCtx_split (start length : Nat) (bl : Buf) :
    (rb.readCtx start length bl).next.isSome = true ↔ rb.needRoll start length = true := by
  by_cases h : rb.needRoll start length = true
  · rw [readCtx, if_pos h, h]
    rfl
  · rw [readCtx_straight h]
    simp [h]

/-- A trim has a second context if its bytes are on both sides of the end of
the blob. -/
theorem next_isSome_ite {C : Type} {rolled : Bool} {toEnd length : Nat} {one two : Chained C} (hone : one.next = none)
    (htwo : two.next.isSome = true) :
    (if (!rolled || decide (length < toEnd)) = true then one else two).next.isSome = true ↔
      rolled = true ∧ toEnd ≤ length := by
  split
  · next h =>
    simp only [Bool.or_eq_true, Bool.not_eq_true', decide_eq_true_eq] at h
    rw [hone]
    grind
  · next h =>
    simp only [Bool.or_eq_true, Bool.not_eq_true', decide_eq_true_eq] at h
    rw [htwo]
    grind

theorem trimBackCtx_split (length : Nat) :
    (rb.trimBackCtx length).next.isSome = true ↔ rb.isRolled = true ∧ rb.backToEnd ≤ length :=
  next_isSome_ite rfl rfl

theorem trimFrontCtx_split (length : Nat) :
    (rb.trimFrontCtx length).next.isSome = true ↔ rb.isRolled = true ∧ rb.beginToFront ≤ length :=
  next_isSome_ite rfl rfl

/-- An answer at once, one context with the completion, or two of which the
second has it. -/
theorem submit_cases (c : Call) :
    (∃ e, rb.submit c = .error e) ∧ ¬rb.IsSplit c ∨ (∃ trim, rb.submit c = .ok ([true], trim)) ∧ ¬rb.IsSplit c ∨
      (∃ trim, rb.submit c = .ok ([false, true], trim)) ∧ rb.IsSplit c := by
  have hok : ∀ {C : Type} (x : Chained C) (trim : Bool), rb.submit c = .ok (x.cbFns, trim) →
      (x.next.isSome = true ↔ rb.IsSplit c) → (∃ trim, rb.submit c = .ok ([true], trim)) ∧ ¬rb.IsSplit c ∨
        (∃ trim, rb.submit c = .ok ([false, true], trim)) ∧ rb.IsSplit c := by
    intro C x trim h hs
    rw [cbFns_eq] at h
    split at h
    · next hx => exact .inr ⟨⟨trim, h⟩, hs.mp hx⟩
    · next hx => exact .inl ⟨⟨trim, h⟩, fun hn => hx (hs.mpr hn)⟩
  cases c with
  | append bl =>
    by_cases hb : bl.bytes > rb.available
    · exact .inl ⟨⟨_, if_pos hb⟩, fun h => Nat.not_lt.mpr h.1 hb⟩
    · refine .inr (hok _ _ (if_neg hb) ?_)
      rw [appendCtx_split, IsSplit, and_iff_right (Nat.not_lt.mp hb)]
  | read start length bl isLoad =>
    by_cases h₁ : start < rb.back.pos
    · exact .inl ⟨⟨_, if_pos h₁⟩, fun h => Nat.not_lt.mpr h.1 h₁⟩
    · by_cases h₂ : (length > rb.used && !isLoad) = true
      · refine .inl ⟨⟨_, (if_neg h₁).trans (if_pos h₂)⟩, fun h => ?_⟩
        have hu := h.2.1
        simp only [Bool.and_eq_true, decide_eq_true_eq, Bool.not_eq_true'] at h₂
        rcases hu with hu | hu
        · omega
        · rw [h₂.2] at hu
          cases hu
      · by_cases h₃ : (isLoad && start ≥ rb.back.pos + rb.size) = true
        · refine .inl ⟨⟨_, (if_neg h₁).trans ((if_neg h₂).trans (if_pos h₃))⟩, fun h => ?_⟩
          simp only [Bool.and_eq_true, decide_eq_true_eq] at h₃
          exact Nat.not_lt.mpr h₃.2 (h.2.2.1 h₃.1)
        · refine .inr (hok _ _ ((if_neg h₁).trans ((if_neg h₂).trans (if_neg h₃))) ?_)
          rw [readCtx_split, IsSplit, and_iff_right (Nat.not_lt.mp h₁), and_iff_right, and_iff_right]
          · intro hl
            simp only [hl, Bool.true_and, decide_eq_true_eq] at h₃
            omega
          · cases isLoad with
            | true => exact .inr rfl
            | false =>
              simp only [Bool.not_false, Bool.and_true, decide_eq_true_eq] at h₂
              exact .inl (Nat.not_lt.mp h₂)
  | trimBack n =>
    by_cases hn : n > rb.used
    · exact .inl ⟨⟨_, if_pos hn⟩, fun h => Nat.not_lt.mpr h.1 hn⟩
    · refine .inr (hok _ _ (if_neg hn) ?_)
      rw [trimBackCtx_split, IsSplit, and_iff_right (Nat.not_lt.mp hn)]
  | trimFront n =>
    by_cases hn : n > rb.used
    · exact .inl ⟨⟨_, if_pos hn⟩, fun h => Nat.not_lt.mpr h.1 hn⟩
    · refine .inr (hok _ _ (if_neg hn) ?_)
      rw [trimFrontCtx_split, IsSplit, and_iff_right (Nat.not_lt.mp hn)]

variable {rb}

/-- The error number of a call whose requests succeed. -/
def errno (rb : RollingBlob) : Call → Int
  | .append bl => (rb.append bl).2.2
  | .read start length bl isLoad => (rb.read start length bl isLoad).2.1
  | .trimBack length => (rb.trimBack length).2
  | .trimFront length => (rb.trimFront length).2

theorem errorDue_ok (rb : RollingBlob) (c : Call) : rb.errorDue (fun _ => 0) c = rb.errno c := by
  have hz : ∀ k n, firstError (fun _ => 0) k n = 0 := fun k n => by
    induction n generalizing k with
    | zero => rfl
    | succ n ih => exact ih (k + 1)
  cases c with
  | append bl =>
    by_cases hb : bl.bytes > rb.available
    · rw [errorDue, submit, if_pos hb, errno, append, if_pos hb]
    · rw [errorDue, submit, if_neg hb, errno, append, if_neg hb]
      exact hz _ _
  | read start length bl isLoad =>
    by_cases h₁ : start < rb.back.pos
    · rw [errorDue, submit, if_pos h₁, errno, read, if_pos h₁]
    · by_cases h₂ : (length > rb.used && !isLoad) = true
      · rw [errorDue, submit, if_neg h₁, if_pos h₂, errno, read, if_neg h₁, if_pos h₂]
      · by_cases h₃ : (isLoad && start ≥ rb.back.pos + rb.size) = true
        · rw [errorDue, submit, if_neg h₁, if_neg h₂, if_pos h₃, errno, read, if_neg h₁, if_neg h₂, if_pos h₃]
        · rw [errorDue, submit, if_neg h₁, if_neg h₂, if_neg h₃, errno, read, if_neg h₁, if_neg h₂, if_neg h₃]
          exact hz _ _
  | trimBack n =>
    by_cases hn : n > rb.used
    · rw [errorDue, submit, if_pos hn, errno, trimBack, if_pos hn]
    · rw [errorDue, submit, if_neg hn, errno, trimBack, if_neg hn]
      exact hz _ _
  | trimFront n =>
    by_cases hn : n > rb.used
    · rw [errorDue, submit, if_pos hn, errno, trimFront, if_pos hn]
    · rw [errorDue, submit, if_neg hn, errno, trimFront, if_neg hn]
      exact hz _ _

end RollingBlob

namespace RollingBlob

variable {rb : RollingBlob} {c : Call} {res : Nat → Int}

theorem completions_of_ok (h : ¬rb.IsSplit c ∨ res 0 = 0) : rb.completions res c = [rb.errorDue res c] := by
  rcases rb.submit_cases c with ⟨⟨e, hs⟩, -⟩ | ⟨⟨trim, hs⟩, -⟩ | ⟨⟨trim, hs⟩, hsplit⟩
  · rw [completions, errorDue, hs]
  · cases trim <;> by_cases h0 : res 0 = 0 <;> by_cases h1 : res 1 = 0 <;>
      simp [completions, errorDue, hs, rwDone, trimDone, invoke, firstError, h0, h1]
  · have h0 : res 0 = 0 := h.resolve_left (not_not.mpr hsplit)
    cases trim <;> by_cases h1 : res 1 = 0 <;> by_cases h2 : res 2 = 0 <;>
      simp [completions, errorDue, hs, rwDone, trimDone, invoke, firstError, h0, h1, h2]

/-- The `cb_fn` of the first of two contexts is empty. -/
theorem completions_of_split (hsplit : rb.IsSplit c) (h0 : res 0 ≠ 0) : rb.completions res c = [] := by
  rcases rb.submit_cases c with ⟨-, hs⟩ | ⟨-, hs⟩ | ⟨⟨trim, hs⟩, -⟩
  · exact absurd hsplit hs
  · exact absurd hsplit hs
  · cases trim <;> simp [completions, hs, rwDone, trimDone, invoke, h0]

/-- An append with room whose one or two requests succeed. -/
theorem errorDue_append {bl : Buf} (hb : bl.bytes ≤ rb.available) (h0 : res 0 = 0)
    (h1 : rb.IsSplit (.append bl) → res 1 = 0) : rb.errorDue res (.append bl) = 0 := by
  have hsubmit : rb.submit (.append bl) = .ok ((rb.appendCtx bl).cbFns, false) := if_neg (Nat.not_lt.mpr hb)
  rw [errorDue, hsubmit, cbFns_eq]
  by_cases hnext : (rb.appendCtx bl).next.isSome = true
  · have h1 := h1 ⟨hb, (rb.appendCtx_split bl).mp hnext⟩
    simp [hnext, firstError, h0, h1]
  · simp [hnext, firstError, h0]

end RollingBlob

/-- The completion of a call is invoked exactly once, with the error of the
first request that fails or 0, if and only if the call is not split or its
first request succeeds. -/
theorem completes_once_iff (rb : RollingBlob) (c : Call) (res : Nat → Int) :
    rb.completions res c = [rb.errorDue res c] ↔ ¬rb.IsSplit c ∨ res 0 = 0 := by
  refine ⟨fun h => ?_, completions_of_ok⟩
  by_contra hn
  push Not at hn
  rw [completions_of_split hn.1 hn.2] at h
  cases h

/-- An append that fills the ring from its beginning to its end is split,
and its first request fails: the caller is not told. -/
theorem split_append_not_completed :
    let rb := RollingBlob.make 12288 (fun _ => 0) (fun _ => 0) fun _ b => b
    rb.submit (.append ⟨8192, fun _ => 1⟩) = .ok ([false, true], false) ∧
      rb.completions (fun _ => -5) (.append ⟨8192, fun _ => 1⟩) = [] := by
  decide +kernel

end Fastblock.L1
