import Fastblock.Core.Decimal
import Fastblock.L3Raft.Load

/-!
# Term and vote in the kvstore

`raft_set_current_term` and `raft_vote_for_nodeid` keep the term and the
vote in memory and put each under a key of its own
(src/raft/raft.h:556-586); `load` reads the two keys back. The values are
decimal numerals. All puts are flushed here, so the kvstore has the last
one of each key.

Raising the term clears the vote in memory and leaves the key of the vote
alone. The pair that is loaded is therefore the one in memory exactly if a
vote followed the last time the term was raised, or none came before it
(`load_restores_iff`).
-/
namespace Fastblock.L3.Raft

open Fastblock.Core

/-! ## The kvstore -/

abbrev KvOp := Bytes × Bytes

/-- What `get` finds after the puts `ops`, kv_store.h:144-169 -/
def kvGet (ops : List KvOp) (key : Bytes) : Option Bytes := (ops.reverse.find? (·.1 = key)).map (·.2)

theorem kvGet_append_self (ops : List KvOp) (key val : Bytes) : kvGet (ops ++ [(key, val)]) key = some val := by
  simp [kvGet]

theorem kvGet_append_of_ne (ops : List KvOp) {key key' : Bytes} (h : key' ≠ key) (val : Bytes) :
    kvGet (ops ++ [(key', val)]) key = kvGet ops key := by
  simp [kvGet, h]

/-- `"<pool>.<pg>.<name>"` -/
def pgKey (pool pg : Nat) (name : String) : Bytes :=
  decimal pool ++ 46 :: decimal pg ++ 46 :: name.toUTF8.data.toList

def voteForKey (pool pg : Nat) : Bytes := pgKey pool pg "vote_for"
def termKey (pool pg : Nat) : Bytes := pgKey pool pg "term"

theorem voteForKey_ne_termKey (pool pg : Nat) : voteForKey pool pg ≠ termKey pool pg := by
  intro h
  simp only [voteForKey, termKey, pgKey, List.append_assoc, List.cons_append, List.append_cancel_left_eq,
    List.cons.injEq, true_and] at h
  exact absurd h (by decide +kernel)

/-! ## The calls -/

/-- The term and the vote of a `raft_server_t` (`_voted_for` is -1 for
nobody), and its puts to the kvstore. -/
structure TermVote where
  pool : Nat
  pg : Nat
  currentTerm : Int := 0
  votedFor : Int := -1
  puts : List KvOp := []

namespace TermVote

/-- mirrors raft.h:556-561 -/
def saveVoteFor (s : TermVote) (id : Int) : TermVote :=
  { s with puts := s.puts ++ [(voteForKey s.pool s.pg, signedDecimal id)] }

/-- mirrors raft.h:572-577 -/
def saveCurrentTerm (s : TermVote) (t : Int) : TermVote :=
  { s with puts := s.puts ++ [(termKey s.pool s.pg, signedDecimal t)] }

/-- mirrors raft_server.cc:2648-2661 -/
def setCurrentTerm (s : TermVote) (t : Int) : TermVote :=
  if s.currentTerm < t then { s.saveCurrentTerm t with currentTerm := t, votedFor := -1 } else s

/-- mirrors raft_server.cc:1679-1686 -/
def voteForNodeid (s : TermVote) (id : Int) : TermVote := { s.saveVoteFor id with votedFor := id }

/-- mirrors raft.h:563-570 -/
def loadVoteFor (s : TermVote) (kv : List KvOp) : TermVote :=
  match kvGet kv (voteForKey s.pool s.pg) with
  | none => s
  | some val => { s with votedFor := ofSignedDecimal val }

/-- mirrors raft.h:579-586 -/
def loadCurrentTerm (s : TermVote) (kv : List KvOp) : TermVote :=
  match kvGet kv (termKey s.pool s.pg) with
  | none => s
  | some val => { s with currentTerm := ofSignedDecimal val }

/-- The two loads of a restart on a fresh server,
raft_server.cc:2834-2835 -/
def load (pool pg : Nat) (kv : List KvOp) : TermVote :=
  (({ pool := pool, pg := pg } : TermVote).loadCurrentTerm kv).loadVoteFor kv

inductive Call where
  | setCurrentTerm (t : Int)
  | voteForNodeid (id : Int)
  deriving DecidableEq, Repr

def call (s : TermVote) : Call → TermVote
  | .setCurrentTerm t => s.setCurrentTerm t
  | .voteForNodeid id => s.voteForNodeid id

/-- A server after the calls `cs`. -/
def after (pool pg : Nat) (cs : List Call) : TermVote := cs.foldl call { pool := pool, pg := pg }

theorem after_append (pool pg : Nat) (cs : List Call) (c : Call) :
    after pool pg (cs ++ [c]) = (after pool pg cs).call c := by
  rw [after, List.foldl_append]
  rfl

/-! ## What is in memory and what is in the kvstore -/

/-- The id of the last vote. -/
def lastVote (cs : List Call) : Option Int :=
  cs.reverse.findSome? fun
    | .voteForNodeid id => some id
    | .setCurrentTerm _ => none

/-- The term `t` is above all those set before. -/
def Raises (cs : List Call) (t : Int) : Prop := 0 < t ∧ ∀ t', Call.setCurrentTerm t' ∈ cs → t' < t

/-- Each time the term is raised, a vote follows or the last one before it
was for nobody. -/
def VoteKept (cs : List Call) : Prop :=
  ∀ pre t post, cs = pre ++ .setCurrentTerm t :: post → Raises pre t →
    (∃ id, Call.voteForNodeid id ∈ post) ∨ ∀ id, lastVote pre = some id → id = -1

theorem lastVote_append_vote (cs : List Call) (id : Int) : lastVote (cs ++ [.voteForNodeid id]) = some id := by
  simp [lastVote]

theorem lastVote_append_term (cs : List Call) (t : Int) : lastVote (cs ++ [.setCurrentTerm t]) = lastVote cs := by
  simp [lastVote]

theorem lastVote_append_of_no_vote {pre post : List Call} (h : ∀ id, Call.voteForNodeid id ∉ post) :
    lastVote (pre ++ post) = lastVote pre := by
  induction post using List.reverseRecOn with
  | nil => rw [List.append_nil]
  | append_singleton post c ih =>
    have ih := ih fun id hid => h id (List.mem_append_left _ hid)
    cases c with
    | setCurrentTerm t => rw [← List.append_assoc, lastVote_append_term, ih]
    | voteForNodeid id => exact absurd (List.mem_append_right _ List.mem_cons_self) (h id)

variable (pool pg : Nat) (cs : List Call)

theorem pool_after : (after pool pg cs).pool = pool ∧ (after pool pg cs).pg = pg := by
  induction cs using List.reverseRecOn with
  | nil => exact ⟨rfl, rfl⟩
  | append_singleton cs c ih =>
    rw [after_append]
    cases c with
    | setCurrentTerm t =>
      rw [call, setCurrentTerm]
      split <;> exact ih
    | voteForNodeid id => exact ih

/-- A call of `raft_set_current_term` takes effect exactly if it raises
the term. -/
theorem currentTerm_lt_iff (t : Int) : (after pool pg cs).currentTerm < t ↔ Raises cs t := by
  induction cs using List.reverseRecOn with
  | nil => simp [after, Raises]
  | append_singleton cs c ih =>
    rw [after_append]
    cases c with
    | voteForNodeid id => simpa [Raises, call, voteForNodeid, saveVoteFor] using ih
    | setCurrentTerm t' =>
      have hterm : ((after pool pg cs).call (.setCurrentTerm t')).currentTerm =
          max (after pool pg cs).currentTerm t' := by
        rw [call, setCurrentTerm]
        split
        · next h => exact (max_eq_right (le_of_lt h)).symm
        · next h => exact (max_eq_left (not_lt.mp h)).symm
      rw [hterm, max_lt_iff, ih]
      constructor
      · rintro ⟨⟨h0, h1⟩, h2⟩
        refine ⟨h0, fun x hx => ?_⟩
        rcases List.mem_append.mp hx with hx | hx
        · exact h1 x hx
        · cases List.mem_singleton.mp hx
          exact h2
      · rintro ⟨h0, h1⟩
        exact ⟨⟨h0, fun x hx => h1 x (List.mem_append_left _ hx)⟩, h1 t' (by simp)⟩

/-- The key of the term has the term in memory; it is absent while the
term is 0. -/
theorem kvGet_term : (kvGet (after pool pg cs).puts (termKey pool pg)).map ofSignedDecimal =
    some (after pool pg cs).currentTerm ∨
      kvGet (after pool pg cs).puts (termKey pool pg) = none ∧ (after pool pg cs).currentTerm = 0 := by
  induction cs using List.reverseRecOn with
  | nil => exact .inr ⟨rfl, rfl⟩
  | append_singleton cs c ih =>
    obtain ⟨hpool, hpg⟩ := pool_after pool pg cs
    rw [after_append]
    cases c with
    | setCurrentTerm t =>
      rw [call, setCurrentTerm]
      split
      · refine .inl ?_
        dsimp only [saveCurrentTerm]
        rw [hpool, hpg, kvGet_append_self, Option.map_some, ofSignedDecimal_signedDecimal]
      · exact ih
    | voteForNodeid id =>
      dsimp only [call, voteForNodeid, saveVoteFor]
      rw [hpool, hpg, kvGet_append_of_ne _ (voteForKey_ne_termKey pool pg)]
      exact ih

/-- The key of the vote has the last vote. -/
theorem kvGet_vote : kvGet (after pool pg cs).puts (voteForKey pool pg) = (lastVote cs).map signedDecimal := by
  induction cs using List.reverseRecOn with
  | nil => rfl
  | append_singleton cs c ih =>
    obtain ⟨hpool, hpg⟩ := pool_after pool pg cs
    rw [after_append]
    cases c with
    | setCurrentTerm t =>
      rw [lastVote_append_term, ← ih]
      rw [call, setCurrentTerm]
      split
      · dsimp only [saveCurrentTerm]
        rw [hpool, hpg, kvGet_append_of_ne _ (voteForKey_ne_termKey pool pg).symm]
      · rfl
    | voteForNodeid id =>
      dsimp only [call, voteForNodeid, saveVoteFor]
      rw [hpool, hpg, kvGet_append_self, lastVote_append_vote, Option.map_some]

theorem load_currentTerm : (load pool pg (after pool pg cs).puts).currentTerm = (after pool pg cs).currentTerm := by
  have hvote : ∀ (s : TermVote) kv, (s.loadVoteFor kv).currentTerm = s.currentTerm := fun s kv => by
    unfold loadVoteFor
    split <;> rfl
  rw [load, hvote, loadCurrentTerm]
  rcases kvGet_term pool pg cs with h | ⟨h, h0⟩
  · obtain ⟨val, hval, hterm⟩ := Option.map_eq_some_iff.mp h
    rw [hval]
    exact hterm
  · rw [h, h0]

theorem load_votedFor : (load pool pg (after pool pg cs).puts).votedFor = (lastVote cs).getD (-1) := by
  obtain ⟨s, hs, hs'⟩ : ∃ s : TermVote,
      ({ pool := pool, pg := pg } : TermVote).loadCurrentTerm (after pool pg cs).puts = s ∧
      (s.pool = pool ∧ s.pg = pg ∧ s.votedFor = -1) := by
    refine ⟨_, rfl, ?_⟩
    unfold loadCurrentTerm
    split <;> exact ⟨rfl, rfl, rfl⟩
  rw [load, hs, loadVoteFor, hs'.1, hs'.2.1, kvGet_vote]
  cases lastVote cs with
  | none => exact hs'.2.2
  | some id => exact ofSignedDecimal_signedDecimal id

/-- Where an element may stand in a list that ends with `x`. -/
theorem append_singleton_eq {l pre post : List Call} {x y : Call} (h : l ++ [x] = pre ++ y :: post) :
    (pre = l ∧ y = x ∧ post = []) ∨ ∃ post', post = post' ++ [x] ∧ l = pre ++ y :: post' := by
  cases post using List.reverseRecOn with
  | nil =>
    obtain ⟨h1, h2⟩ := List.append_inj' h rfl
    cases h2
    exact .inl ⟨h1.symm, rfl, rfl⟩
  | append_singleton post z =>
    rw [← List.cons_append, ← List.append_assoc] at h
    obtain ⟨h1, h2⟩ := List.append_inj' h rfl
    cases h2
    exact .inr ⟨post, rfl, h1⟩

/-- The vote that a restart finds is the one in memory. -/
theorem votedFor_eq_iff : (lastVote cs).getD (-1) = (after pool pg cs).votedFor ↔ VoteKept cs := by
  induction cs using List.reverseRecOn with
  | nil => simp [lastVote, after, VoteKept]
  | append_singleton cs c ih =>
    rw [after_append]
    cases c with
    | voteForNodeid id =>
      rw [lastVote_append_vote]
      refine ⟨fun _ pre t post hcs _ => .inl ⟨id, ?_⟩, fun _ => rfl⟩
      rcases append_singleton_eq hcs with ⟨-, h, -⟩ | ⟨post', rfl, -⟩
      · cases h
      · exact List.mem_append_right _ List.mem_cons_self
    | setCurrentTerm t =>
      rw [lastVote_append_term]
      by_cases hr : Raises cs t
      · have hlt := (currentTerm_lt_iff pool pg cs t).mpr hr
        have hvote : ((after pool pg cs).call (.setCurrentTerm t)).votedFor = -1 := by
          rw [call, setCurrentTerm, if_pos hlt]
        rw [hvote]
        constructor
        · intro hlast pre t' post hcs hraise
          rcases append_singleton_eq hcs with ⟨rfl, h, rfl⟩ | ⟨post', rfl, hcs'⟩
          · refine .inr fun id hid => ?_
            rwa [hid] at hlast
          · by_cases hno : ∃ id, Call.voteForNodeid id ∈ post'
            · obtain ⟨id, hid⟩ := hno
              exact .inl ⟨id, List.mem_append_left _ hid⟩
            · have hsame : lastVote cs = lastVote pre := by
                rw [hcs']
                refine lastVote_append_of_no_vote fun id hid => ?_
                rcases List.mem_cons.mp hid with h | h
                · cases h
                · exact hno ⟨id, h⟩
              refine .inr fun id hid => ?_
              rwa [hsame, hid] at hlast
        · intro hkept
          rcases hkept cs t [] rfl hr with ⟨id, hid⟩ | hlast
          · cases hid
          · cases h : lastVote cs with
            | none => rfl
            | some id => exact hlast id h
      · have hsame : (after pool pg cs).call (.setCurrentTerm t) = after pool pg cs := by
          rw [call, setCurrentTerm, if_neg fun h => hr ((currentTerm_lt_iff pool pg cs t).mp h)]
        rw [hsame, ih]
        constructor
        · intro hkept pre t' post hcs hraise
          rcases append_singleton_eq hcs with ⟨rfl, h, -⟩ | ⟨post', rfl, hcs'⟩
          · cases h
            exact absurd hraise hr
          · exact (hkept pre t' post' hcs' hraise).imp_left fun ⟨id, hid⟩ => ⟨id, List.mem_append_left _ hid⟩
        · intro hkept pre t' post hcs hraise
          refine (hkept pre t' (post ++ [.setCurrentTerm t]) (by simp [hcs]) hraise).imp_left ?_
          rintro ⟨id, hid⟩
          rcases List.mem_append.mp hid with hid | hid
          · exact ⟨id, hid⟩
          · simp at hid

/-- **What a restart loads.** It is the pair the server had in memory
exactly if, each time the term was raised, a vote followed or none was
saved before. -/
theorem load_restores_iff : ((load pool pg (after pool pg cs).puts).currentTerm = (after pool pg cs).currentTerm ∧
    (load pool pg (after pool pg cs).puts).votedFor = (after pool pg cs).votedFor) ↔ VoteKept cs := by
  rw [load_votedFor, votedFor_eq_iff]
  exact ⟨fun h => h.2, fun h => ⟨load_currentTerm pool pg cs, h⟩⟩

/-- A vote in term 1 is taken for one in term 2. -/
theorem vote_outlives_term :
    let s := after 1 1 [.setCurrentTerm 1, .voteForNodeid 7, .setCurrentTerm 2]
    (s.currentTerm, s.votedFor) = (2, -1) ∧ (load 1 1 s.puts).currentTerm = 2 ∧ (load 1 1 s.puts).votedFor = 7 := by
  decide +kernel

end TermVote
end Fastblock.L3.Raft
