import Fastblock.L5Client.Exchange
import Fastblock.L5Client.QueueRq
import Fastblock.L5Client.ReadObject

/-!
# The attempts of an object

`kfastblock_transport_run_object_attempts`
(kfastblock/src/transport.c:2409-2531, 2612-2652) makes a second attempt
after a failure that `kfastblock_recovery_classify_object_failure` marks.
The error of an attempt passes `kfastblock_transport_normalize_object_ret`
and `kfastblock_transport_complete_exchange_response`. If the socket
fails, no header was received; the header of the response is all zero
then, it does not match, and the error of the socket is replaced by
`-EPROTO`, which is not marked. So is an error of an exchange that the
pipeline does not find.

* `retried_iff`: an error is retried as it should be iff each attempt that
  is reached is `Told`.
-/
namespace Fastblock.L5.Exchange

open Fastblock.Core Fastblock.L5.Raw

/-- `KFASTBLOCK_RAW_SERVICE_OSD` -/
def serviceOsd : UInt8 := 2

/-- What `kfastblock_transport_exec_mux_request_parts` came to. -/
inductive Exec
  /-- sending or receiving failed, and there is no response -/
  | failed (e : KErrno)
  /-- A frame of the OSD with the number of the exchange; `decoded` says
  whether the body of a read is well formed. -/
  | answered (opcode : UInt8) (status : UInt32) (decoded : Bool)
  deriving DecidableEq, Repr

/-- The header in `ctx->response`, of the exchange `seq`. -/
def Exec.header (seq : UInt64) : Exec → Header
  | .failed _ => ⟨0, 0, 0, 0, 0, 0, 0, 0, 0⟩
  | .answered opcode status _ => ⟨0, 0, 0, serviceOsd, opcode, 0, seq, status, 0⟩

/-- mirrors `kfastblock_transport_execute_object_opcode`,
transport.c:2294-2312 -/
def Exec.ret (op : ReqOp) : Exec → Option KErrno
  | .failed e => some e
  | .answered _ status decoded => (errnoOfStatus status).or (if op = .read ∧ !decoded then some .eproto else none)

/-- mirrors transport.c:2345-2361 -/
def normalizeRet (op : ReqOp) (ret : Option KErrno) : Option KErrno :=
  if ret = some .enoent ∧ (op = .read ∨ op = .discard) then none else ret

/-- An attempt, by what its environment does. -/
inductive Attempt
  /-- no leader, no socket or no entry of the pipeline -/
  | notBegun (e : KErrno)
  /-- a fault injected after the exchange was begun -/
  | injected (e : KErrno)
  /-- The exchange `seq` of the request with this pipeline; `copied` says
  whether the data of a read reached the request. -/
  | ran (pipeline : Pipeline) (seq : UInt64) (opcode : UInt8) (exec : Exec) (copied : Bool)

/-- What the response of the exchange is refused with. -/
def refusal (pipeline : Pipeline) (object : Nat) (seq : UInt64) (opcode : UInt8) (exec : Exec) : Option KErrno :=
  matchExchangeResponse pipeline { objectIndex := object, service := serviceOsd, opcode, seq, entry := 0 }
    (exec.header seq)

/-- mirrors transport.c:2612-2636: whether to go on, and `ctx->ret` -/
def driveObjectAttempt (op : ReqOp) (object : Nat) : Attempt → Bool × Option KErrno
  | .notBegun e => (e.retry, some e)
  | .injected e => (e.retry, some e)
  | .ran pipeline seq opcode exec copied =>
    match (refusal pipeline object seq opcode exec).or (normalizeRet op (exec.ret op)) with
    | some e => (e.retry, some e)
    | none => (false, if op = .read ∧ !copied then some .eio else none)

/-- The loop, with `left` attempts to make after `made` of them: the
attempts made and `ctx->ret`. -/
def attemptsFrom (op : ReqOp) (object : Nat) (env : Nat → Attempt) : Nat → Nat → Option KErrno → Nat × Option KErrno
  | 0, made, ret => (made, ret)
  | left + 1, made, _ =>
    match driveObjectAttempt op object (env made) with
    | (true, ret) => attemptsFrom op object env left (made + 1) ret
    | (false, ret) => (made + 1, ret)

/-- mirrors transport.c:2638-2652, where `env k` is what attempt `k`
meets -/
def runObjectAttempts (op : ReqOp) (object : Nat) (env : Nat → Attempt) : Nat × Option KErrno :=
  attemptsFrom op object env maxAttempts 0 none

namespace Attempt

/-- The error that an attempt ends with: of the socket layer, or of the
status of the response. A response to another operation is a violation of
the protocol. -/
def error (op : ReqOp) : Attempt → Option KErrno
  | notBegun e => some e
  | injected e => some e
  | ran _ _ _ (.failed e) _ => some e
  | ran _ _ opcode (.answered opcode' status decoded) copied =>
    if opcode' ≠ opcode then some .eproto
    else (normalizeRet op ((Exec.answered opcode' status decoded).ret op)).or
      (if op = .read ∧ !copied then some .eio else none)

/-- The pipeline finds the object under the number of its exchange. -/
def Own (object : Nat) : Attempt → Prop
  | ran pipeline seq _ _ _ => ∃ entry, pipeline.findLocked seq = some entry ∧ entry.objectIndex = object
  | _ => True

/-- The exchange does not fail in the socket layer. -/
def Heard : Attempt → Prop
  | ran _ _ _ (.failed _) _ => False
  | _ => True

/-- What the attempt is refused with. -/
def refused (object : Nat) : Attempt → Option KErrno
  | ran pipeline seq opcode exec _ => refusal pipeline object seq opcode exec
  | _ => none

/-- The response is that of the object's exchange, or there is no error, or
the one that takes its place is the same. -/
def Told (op : ReqOp) (object : Nat) (a : Attempt) : Prop :=
  a.Heard ∧ a.Own object ∨ a.error op = none ∨ a.error op = a.refused object

end Attempt

/-- A failure that is marked is followed by an attempt as long as there is
one left, and the object ends with the error of the last attempt. -/
structure Retried (op : ReqOp) (object : Nat) (env : Nat → Attempt) : Prop where
  again : ∀ k e, k < (runObjectAttempts op object env).1 → (env k).error op = some e → e.retry = true →
    k + 1 < maxAttempts → k + 1 < (runObjectAttempts op object env).1
  last : ∀ e, (env ((runObjectAttempts op object env).1 - 1)).error op = some e →
    (runObjectAttempts op object env).2 = some e

section Drive

variable {object : Nat} {a : Attempt}

/-- No refusal is marked. -/
theorem retry_of_refused {e : KErrno} (h : a.refused object = some e) : e.retry = false := by
  cases a with
  | notBegun _ => cases h
  | injected _ => cases h
  | ran p seq opcode exec copied =>
    have he : e = .eproto ∨ e = .enoent := by
      grind [Attempt.refused, refusal, matchExchangeResponse, lookupResponseHeaderObject]
    rcases he with rfl | rfl <;> rfl

theorem drive_refused (op : ReqOp) {e : KErrno} (h : a.refused object = some e) :
    driveObjectAttempt op object a = (false, some e) := by
  cases a with
  | notBegun _ => cases h
  | injected _ => cases h
  | ran p seq opcode exec copied =>
    have hretry := retry_of_refused h
    have h : refusal p object seq opcode exec = some e := h
    simp only [driveObjectAttempt, h, Option.some_or, hretry]

/-- An exchange without a response, or that is not found under its number,
is refused. -/
theorem refused_of_not_heard (h : ¬(a.Heard ∧ a.Own object)) : ∃ e, a.refused object = some e := by
  cases a with
  | notBegun _ => exact absurd ⟨trivial, trivial⟩ h
  | injected _ => exact absurd ⟨trivial, trivial⟩ h
  | ran p seq opcode exec copied =>
    cases exec with
    | failed e => exact ⟨.eproto, rfl⟩
    | answered opcode' status decoded =>
      by_contra hnone
      refine h ⟨trivial, ?_⟩
      have hnone : refusal p object seq opcode (.answered opcode' status decoded) = none :=
        Option.eq_none_iff_forall_ne_some.mpr fun e he => hnone ⟨e, he⟩
      change ∃ entry, p.findLocked seq = some entry ∧ entry.objectIndex = object
      grind [refusal, matchExchangeResponse, lookupResponseHeaderObject, Exec.header]

/-- An attempt ends with its own error and is retried for it. -/
theorem drive_heard (op : ReqOp) (hheard : a.Heard) (hown : a.Own object) :
    driveObjectAttempt op object a = (((a.error op).map KErrno.retry).getD false, a.error op) := by
  cases a with
  | notBegun e => rfl
  | injected e => rfl
  | ran p seq opcode exec copied =>
    cases exec with
    | failed e => cases hheard
    | answered opcode' status decoded =>
      obtain ⟨entry, hfind, hobj⟩ := hown
      have hseq : seq ≠ 0 := by
        intro h0
        simp [Pipeline.findLocked, h0] at hfind
      by_cases hop : opcode' = opcode
      · subst hop
        have hmatch : matchExchangeResponse p
            { objectIndex := object, service := serviceOsd, opcode := opcode', seq, entry := 0 }
            ((Exec.answered opcode' status decoded).header seq) = none := by
          simp [matchExchangeResponse, lookupResponseHeaderObject, Exec.header, hseq, hfind, hobj]
        simp only [driveObjectAttempt, refusal, hmatch, Attempt.error, ne_eq, not_true_eq_false,
          if_false, Option.none_or]
        cases hret : normalizeRet op ((Exec.answered opcode' status decoded).ret op) with
        | some e => rfl
        | none =>
          simp only [Option.none_or]
          by_cases hc : op = .read ∧ (!copied) = true
          · simp only [hc, and_self, if_true]
            rfl
          · simp only [hc, if_false]
            rfl
      · have hmatch : matchExchangeResponse p { objectIndex := object, service := serviceOsd, opcode, seq, entry := 0 }
            ((Exec.answered opcode' status decoded).header seq) = some .eproto := by
          simp [matchExchangeResponse, lookupResponseHeaderObject, Exec.header, hop]
        simp only [driveObjectAttempt, refusal, hmatch, Attempt.error, ne_eq, hop, not_false_eq_true,
          if_true, Option.some_or]
        rfl

/-- An attempt that is told ends with its own error. -/
theorem drive_told {op : ReqOp} {e : KErrno} (h : a.Told op object) (he : a.error op = some e) :
    driveObjectAttempt op object a = (e.retry, some e) := by
  rcases h with ⟨hheard, hown⟩ | hnone | hsame
  · rw [drive_heard op hheard hown, he]
    rfl
  · rw [he] at hnone
    cases hnone
  · have hdrive := drive_refused op (hsame.symm.trans he)
    rw [hdrive, retry_of_refused (hsame.symm.trans he)]

/-- One without an error ends the loop. -/
theorem drive_silent {op : ReqOp} (he : a.error op = none) : (driveObjectAttempt op object a).1 = false := by
  by_cases h : a.Heard ∧ a.Own object
  · rw [drive_heard op h.1 h.2, he]
    rfl
  · obtain ⟨e, hrefused⟩ := refused_of_not_heard h
    rw [drive_refused op hrefused]

end Drive

/-! ## The loop -/

/-- Attempt `k` ends with an error that is marked. -/
def Marked (op : ReqOp) (a : Attempt) : Prop := ∃ e, a.error op = some e ∧ e.retry = true

section Loop

variable {op : ReqOp} {object : Nat} {env : Nat → Attempt}

theorem drive_marked {a : Attempt} (h : a.Told op object) (hm : Marked op a) :
    ∃ ret, driveObjectAttempt op object a = (true, ret) := by
  obtain ⟨e, he, hr⟩ := hm
  exact ⟨some e, by rw [drive_told h he, hr]⟩

/-- An attempt that is told and not marked ends the loop. -/
theorem drive_not_marked {a : Attempt} (h : a.Told op object) (hm : ¬Marked op a) :
    ∃ ret, driveObjectAttempt op object a = (false, ret) ∧ ∀ e, a.error op = some e → ret = some e := by
  cases he : a.error op with
  | none => exact ⟨_, Prod.ext (drive_silent he) rfl, fun e h => by cases h⟩
  | some e =>
    have hr : e.retry = false := Bool.eq_false_iff.mpr fun hr => hm ⟨e, he, hr⟩
    exact ⟨some e, by rw [drive_told h he, hr], fun _ h => h⟩

/-- After attempts that are marked, the loop is at the next. -/
theorem attemptsFrom_marked {n : Nat} (left made : Nat) (ret : Option KErrno)
    (h : ∀ j, made ≤ j → j < made + n → ∃ ret, driveObjectAttempt op object (env j) = (true, ret)) :
    ∃ ret', attemptsFrom op object env (n + left) made ret = attemptsFrom op object env left (made + n) ret' := by
  induction n generalizing made ret with
  | zero => exact ⟨ret, by rw [Nat.zero_add, Nat.add_zero]⟩
  | succ n ih =>
    obtain ⟨ret₁, h₁⟩ := h made (Nat.le_refl _) (by omega)
    obtain ⟨ret', h'⟩ := ih (made + 1) ret₁ fun j hj hlt => h j (by omega) (by omega)
    refine ⟨ret', ?_⟩
    rw [Nat.succ_add, attemptsFrom, h₁]
    simp only
    rw [h', Nat.add_assoc, Nat.add_comm 1 n]

/-- If attempts end with their own errors, so does the loop. -/
theorem attemptsFrom_told {left : Nat} (made : Nat) (ret : Option KErrno) (hleft : 0 < left)
    (htold : ∀ k, made ≤ k → k < made + left → (∀ j, made ≤ j → j < k → Marked op (env j)) → (env k).Told op object) :
    made < (attemptsFrom op object env left made ret).1 ∧
    (∀ k e, made ≤ k → k < (attemptsFrom op object env left made ret).1 → (env k).error op = some e → e.retry = true →
      k + 1 < made + left → k + 1 < (attemptsFrom op object env left made ret).1) ∧
    ∀ e, (env ((attemptsFrom op object env left made ret).1 - 1)).error op = some e →
      (attemptsFrom op object env left made ret).2 = some e := by
  induction left generalizing made ret with
  | zero => omega
  | succ left ih =>
    have hmade := htold made (Nat.le_refl _) (by omega) fun j hj hlt => by omega
    by_cases hm : Marked op (env made)
    · obtain ⟨e, he, hr⟩ := id hm
      rw [attemptsFrom, drive_told hmade he, hr]
      simp only
      cases left with
      | zero =>
        simp only [attemptsFrom, Nat.add_sub_cancel]
        exact ⟨by omega, fun k _ hk hlt _ _ hn => by omega, fun _ h => he.symm.trans h⟩
      | succ left =>
        obtain ⟨h1, h2, h3⟩ := ih (made + 1) (some e) (by omega) fun k hk hlt hj =>
          htold k (by omega) (by omega) fun j hj' hlt' => by
            rcases Nat.eq_or_lt_of_le hj' with rfl | hj'
            · exact hm
            · exact hj j hj' hlt'
        refine ⟨by omega, fun k e' hk hlt he' hr' hn => ?_, h3⟩
        rcases Nat.eq_or_lt_of_le hk with rfl | hk
        · exact h1
        · exact h2 k e' hk hlt he' hr' (by omega)
    · obtain ⟨ret', hdrive, hret⟩ := drive_not_marked hmade hm
      rw [attemptsFrom, hdrive]
      simp only [Nat.add_sub_cancel]
      refine ⟨by omega, fun k e hk hlt he hr hn => ?_, hret⟩
      obtain rfl : k = made := by omega
      exact absurd ⟨e, he, hr⟩ hm

end Loop

/-- Retryable failures are retried if and only if every attempt that is
reached is told: its exchange does not fail in the socket layer and is found
under its number, or it has no error, or just the one that the others are
replaced by. -/
theorem retried_iff (op : ReqOp) (object : Nat) (env : Nat → Attempt) :
    Retried op object env ↔ ∀ k < maxAttempts, (∀ j < k, Marked op (env j)) → (env k).Told op object := by
  constructor
  · intro h k
    induction k using Nat.strongRecOn with
    | ind k ih =>
      intro hk hm
      obtain ⟨left, hleft⟩ : ∃ left, maxAttempts = k + (left + 1) := ⟨maxAttempts - k - 1, by omega⟩
      have hreach : ∀ j, 0 ≤ j → j < 0 + k → ∃ ret, driveObjectAttempt op object (env j) = (true, ret) := fun j _ hj =>
        drive_marked (ih j (by omega) (by omega) fun i hi => hm i (by omega)) (hm j (by omega))
      obtain ⟨ret', hrun⟩ := attemptsFrom_marked (left + 1) 0 none hreach
      rw [← hleft, Nat.zero_add] at hrun
      have hlast := h.last
      rw [runObjectAttempts, hrun, attemptsFrom] at hlast
      by_cases hheard : (env k).Heard ∧ (env k).Own object
      · exact .inl hheard
      · -- an exchange that is refused ends the loop with the refusal
        obtain ⟨e', hrefused⟩ := refused_of_not_heard hheard
        rw [drive_refused op hrefused] at hlast
        simp only [Nat.add_sub_cancel] at hlast
        cases he : (env k).error op with
        | none => exact .inr (.inl he)
        | some e => exact .inr (.inr (by rw [he, hrefused, hlast e he]))
  · intro h
    have hpos : 0 < maxAttempts := by decide
    obtain ⟨-, h2, h3⟩ := attemptsFrom_told 0 none hpos fun k _ hk hj => h k (by omega) fun j hjk =>
      hj j (Nat.zero_le _) hjk
    exact ⟨fun k e hk he hr hn => h2 k e (Nat.zero_le _) hk he hr (by omega), h3⟩

/-- A pipeline with exchange 1 of object 0. -/
def onePipeline : Pipeline := ((Pipeline.init 1).beginExchange 1 0 serviceOsd 2).2

/-- A write whose first attempt comes to `first` and whose second one is
acknowledged. -/
def thenOk (first : Exec) (k : Nat) : Attempt :=
  .ran onePipeline 1 2 (if k = 0 then first else .answered 2 0 true) true

theorem thenOk_own (first : Exec) (k : Nat) : (thenOk first k).Own 0 :=
  ⟨{ slot := 0, seq := 1, service := serviceOsd, opcode := 2, active := true }, rfl, rfl⟩

/-- The OSD asks for a retry. -/
theorem retryLater_retried : Retried .write 0 (thenOk (.answered 2 4 true)) := by
  refine (retried_iff .write 0 _).mpr fun k _ _ => .inl ⟨?_, thenOk_own _ k⟩
  cases k with
  | zero => trivial
  | succ k => trivial

/-- The connection is reset after the request was sent: there is no second
attempt, and the object fails with `-EPROTO`. -/
theorem reset_not_retried : runObjectAttempts .write 0 (thenOk (.failed .econnreset)) = (1, some .eproto) ∧
    ¬Retried .write 0 (thenOk (.failed .econnreset)) := by
  have hrun : runObjectAttempts .write 0 (thenOk (.failed .econnreset)) = (1, some .eproto) := rfl
  refine ⟨hrun, fun h => ?_⟩
  have hagain := h.again 0 .econnreset (by rw [hrun]; decide) rfl rfl (by decide)
  rw [hrun] at hagain
  exact absurd hagain (by decide)

end Fastblock.L5.Exchange
