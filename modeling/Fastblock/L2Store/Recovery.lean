import Mathlib.Data.List.AList
import Fastblock.Core.Lts

/-!
# Applies and recovery copies of a leader

`raft_apply_entry` (src/raft/state_machine.cc:30-96) applies one committed
entry at a time through `osd_stm::apply` (src/osd/osd_stm.cc:31-96) and
the object store (src/localstore/object_store.cc:131-161, 474-760), each
call of the blobstore with its callback. `_recovery_by_snapshot`
(src/raft/raft_server.cc:2423-2470) creates a copy of every object with
`object_recovery::recovery_create`
(src/localstore/object_recovery.h:42-72), one after another, and records
the index of the last applied entry in the end. A label is one event of
the event loop: a poll, a callback with its result, or the moment at which
the device does what was asked for.
-/
namespace Fastblock.L2

abbrev Name := List UInt8

/-- The bytes of a blob. -/
abbrev Content := Nat → UInt8

/-- `object_store::blob_size` -/
def blobSize : Nat := 4 * 1024 * 1024

/-- A write, cut off at the end of the blob. -/
def Content.write (c : Content) (offset : Nat) (data : List UInt8) : Content := fun p =>
  if offset ≤ p ∧ p < offset + data.length ∧ p < blobSize then data.getD (p - offset) 0 else c p

/-- What an entry of the log asks for. -/
inductive Command
  | write (name : Name) (offset : Nat) (data : List UInt8)
  | delete (name : Name)
  /-- an entry of another type -/
  | other
  deriving DecidableEq

/-- `object::origin`: no blob, a blob that is closed, or an open one. -/
inductive Origin
  | gone
  | closed (c : Content)
  | opened (c : Content)

def Origin.content : Origin → Option Content
  | .gone => none
  | .closed c | .opened c => some c

/-- `object_store::object`; nothing fills `snap_list`. -/
structure Object where
  origin : Origin
  recover : Option Content := none

/-- The open blob gets bytes. -/
def Object.write (o : Object) (offset : Nat) (data : List UInt8) : Object :=
  match o.origin with
  | .opened c => { o with origin := .opened (c.write offset data) }
  | _ => o

/-- `object_store::table` -/
abbrev Table := AList fun _ : Name => Object

/-- The table's entry of an object changes. -/
def Table.update (t : Table) (name : Name) (f : Object → Object) : Table :=
  match t.lookup name with
  | some o => t.insert name (f o)
  | none => t

/-! ## State -/

/-- The blob that a write goes to: that of the object, a new one that is in
the table, or a new one that `emplace` did not put there. -/
inductive Target
  | existing
  | created
  | lost
  deriving DecidableEq

/-- Where the apply in progress is: the call that has not returned. -/
inductive Apply
  /-- `raft_get_entry_by_idx` -/
  | fetching
  /-- `spdk_bs_create_blob_ext` -/
  | creating (name : Name) (offset : Nat) (data : List UInt8)
  /-- `spdk_bs_open_blob` -/
  | opening (name : Name) (offset : Nat) (data : List UInt8)
  /-- `spdk_blob_io_read` before a write that is not aligned -/
  | reading (name : Name) (offset : Nat) (data : List UInt8) (target : Target)
  /-- `spdk_blob_io_write`, not on the device yet -/
  | writing (name : Name) (offset : Nat) (data : List UInt8) (target : Target)
  /-- the same, on the device -/
  | written (target : Target)
  /-- `spdk_blob_close` -/
  | closing (name : Name)
  /-- `spdk_bs_delete_blob` -/
  | deleting (name : Name)

/-- `object_recovery` -/
structure ObjectRecovery where
  objNames : List Name := []
  idx : Nat := 0

/-- Where the creation of a copy is. -/
inductive Copy
  /-- `spdk_bs_create_snapshot` -/
  | submitted
  /-- the same, with the snapshot taken -/
  | taken (c : Content)
  /-- `spdk_bs_open_blob` -/
  | opening

/-- `recovery_op_ctx`: its `object_recovery`, and the copy in progress. -/
structure Creation where
  recv : Nat
  name : Name
  copy : Copy

structure State where
  table : Table
  lastAppliedIdx : Nat
  commitIdx : Nat
  /-- `_apply_in_progress`, with the index of the entry -/
  apply : Option (Nat × Apply) := none
  snapshotInProgress : Bool := false
  /-- the `object_recovery` objects by their number -/
  recoveries : Nat → ObjectRecovery := fun _ => {}
  nextRecovery : Nat := 0
  /-- `_obr` -/
  obr : Option Nat := none
  creations : List Creation := []
  /-- recoveries whose copies are being sent -/
  sending : Nat := 0
  snapshotIndex : Nat := 0

inductive Label
  | commit (idx : Nat)
  | poll
  | fetched (found : Bool)
  /-- the callback of the apply's call -/
  | applyDone (ok : Bool)
  | writeLands
  /-- `_recovery_by_snapshot`, with the order of the iteration over the
  table -/
  | recover (names : List Name)
  | snapshotTaken (i : Nat)
  /-- the callback of a creation's call -/
  | copyDone (i : Nat) (ok : Bool)
  /-- while the copies are sent, the iterator moves, copies are deleted, and
  `_obr` is deleted in the end -/
  | iterMoved (idx : Nat)
  | copyDeleted (name : Name)
  | recoveryEnd

/-! ## Applies -/

section Step

variable (blank : Content) (log : Nat → Command)

namespace State

variable (s : State)

/-- `apply_complete::finish` -/
def applied (idx : Nat) (ok : Bool) : State :=
  { s with lastAppliedIdx := if ok then idx else s.lastAppliedIdx, apply := none }

/-- `raft_apply_entry` -/
def poll : State :=
  if s.snapshotInProgress ∨ s.lastAppliedIdx = s.commitIdx ∨ s.apply.isSome then s
  else { s with apply := some (s.lastAppliedIdx + 1, .fetching) }

/-- `blob_readwrite` -/
def blobWrite (idx : Nat) (name : Name) (offset : Nat) (data : List UInt8) (target : Target) : State :=
  let len := min data.length (blobSize - offset)
  { s with apply := some (idx,
      if offset % 512 = 0 ∧ len % 512 = 0 then .writing name offset data target
        else .reading name offset data target) }

/-- `osd_stm::apply` with `readwrite` and `delete_object` -/
def applyEntry (idx : Nat) : Command → State
  | .write name offset data =>
    match s.table.lookup name with
    | some ⟨.opened _, _⟩ => s.blobWrite idx name offset data .existing
    | _ => { s with apply := some (idx, .creating name offset data) }
  | .delete name =>
    match s.table.lookup name with
    | some ⟨.opened _, _⟩ => { s with apply := some (idx, .closing name) }
    | _ => s.applied idx true
  | .other => s.applied idx true

/-- The callbacks of the object store. -/
def applyDone (idx : Nat) (ok : Bool) : Apply → Option State
  | .fetching => none
  | .creating name offset data => some (if ok then { s with apply := some (idx, .opening name offset data) }
      else s.applied idx false)
  | .opening name offset data => some (
      if !ok then s.applied idx false
      -- `emplace` keeps an entry that is there
      else if name ∈ s.table then s.blobWrite idx name offset data .lost
      else { s with table := s.table.insert name ⟨.opened blank, none⟩ }.blobWrite idx name offset data .created)
  | .reading name offset data target =>
    some (if ok then { s with apply := some (idx, .writing name offset data target) }
      else s.applied idx false)
  | .writing _ _ _ _ => if ok then none else some (s.applied idx false)
  | .written _ => some (s.applied idx ok)
  | .closing name => some (
      match ok, s.table.lookup name with
      | true, some ⟨.opened c, recover⟩ =>
        { s with table := s.table.insert name ⟨.closed c, recover⟩, apply := some (idx, .deleting name) }
      | _, _ => s.applied idx false)
  | .deleting name => some (
      if !ok then s.applied idx false
      else
        match s.table.lookup name with
        | some ⟨_, none⟩ => { s with table := s.table.erase name }.applied idx true
        | some ⟨_, some c⟩ => { s with table := s.table.insert name ⟨.gone, some c⟩ }.applied idx true
        | none => s.applied idx true)

/-- The device writes. -/
def writeLands : Option State :=
  match s.apply with
  | some (idx, .writing name offset data target) =>
    some { s with
      table := if target = .lost then s.table else Table.update s.table name (·.write offset data)
      apply := some (idx, .written target) }
  | _ => none

/-! ## Copies -/

/-- `snap_fn` for an error -/
def createFailed (i : Nat) : State :=
  { s with creations := s.creations.eraseIdx i, snapshotInProgress := false, obr := none }

/-- `snap_fn` -/
def created (i : Nat) : State :=
  { s with
    creations := s.creations.eraseIdx i
    snapshotInProgress := false
    snapshotIndex := s.lastAppliedIdx
    sending := s.sending + 1
    recoveries := fun r => if s.obr = some r then { s.recoveries r with idx := 0 } else s.recoveries r }

/-- `recovery_create_continue`: the state, and the names of the copies if it
records the index. -/
def createContinue (i : Nat) (recv : Nat) : State × Option (List Name) :=
  let obr := s.recoveries recv
  match obr.objNames[obr.idx]? with
  | none => (s.created i, some obr.objNames)
  | some name =>
    if name ∈ s.table then
      ({ s with
        recoveries := fun r => if r = recv then { obr with idx := obr.idx + 1 } else s.recoveries r
        creations := s.creations.set i ⟨recv, name, .submitted⟩ }, none)
    else (s.createFailed i, none)

/-- The callbacks of `recovery_create`. -/
def copyDone (i : Nat) (ok : Bool) (c : Creation) : Option (State × Option (List Name)) :=
  match c.copy with
  | .submitted => if ok then none else some (s.createFailed i, none)
  | .taken content => some (
      if ok ∧ c.name ∈ s.table then
        ({ s with
          table := Table.update s.table c.name fun o => { o with recover := some content }
          creations := s.creations.set i { c with copy := .opening } }, none)
      else (s.createFailed i, none))
  | .opening => some (if ok ∧ c.name ∈ s.table then s.createContinue i c.recv else (s.createFailed i, none))

/-- The blobstore takes the snapshot of an object that has a blob. -/
def snapshotTaken (i : Nat) : Option State := do
  let c ← s.creations[i]?
  let o ← s.table.lookup c.name
  let content ← o.origin.content
  match c.copy with
  | .submitted => return { s with creations := s.creations.set i { c with copy := .taken content } }
  | _ => none

/-- `_recovery_by_snapshot`; the first name of a table without objects does
not exist. -/
def recover (names : List Name) : Option State :=
  match names with
  | [] => none
  | name :: _ =>
    if names.Perm s.table.keys then some { s with
      snapshotInProgress := true
      obr := some s.nextRecovery
      nextRecovery := s.nextRecovery + 1
      recoveries := fun r => if r = s.nextRecovery then ⟨names, 1⟩ else s.recoveries r
      creations := s.creations ++ [⟨s.nextRecovery, name, .submitted⟩] }
    else none

/-- One event: the state, and the names of the copies of a recovery that
records its index. -/
def step : Label → Option (State × Option (List Name))
  | .commit idx => if s.commitIdx ≤ idx then some ({ s with commitIdx := idx }, none) else none
  | .poll => some (s.poll, none)
  | .fetched found =>
    match s.apply with
    | some (idx, .fetching) => some (if found then s.applyEntry idx (log idx) else { s with apply := none }, none)
    | _ => none
  | .applyDone ok =>
    match s.apply with
    | some (idx, a) => (s.applyDone blank idx ok a).map (·, none)
    | none => none
  | .writeLands => s.writeLands.map (·, none)
  | .recover names => (s.recover names).map (·, none)
  | .snapshotTaken i => (s.snapshotTaken i).map (·, none)
  | .copyDone i ok => (s.creations[i]?).bind (s.copyDone i ok)
  | .iterMoved idx =>
    if s.sending = 0 then none
    else some ({ s with
      recoveries := fun r =>
        if s.obr = some r then { s.recoveries r with idx := min idx (s.recoveries r).objNames.length }
        else s.recoveries r }, none)
  | .copyDeleted name =>
    if s.sending = 0 then none
    else some ({ s with table := Table.update s.table name fun o => { o with recover := none } }, none)
  | .recoveryEnd => if s.sending = 0 then none else some ({ s with sending := s.sending - 1, obr := none }, none)

end State

/-! ## What the log asks for -/

/-- The objects after the entries up to an index. -/
def effect : Nat → Name → Option Content
  | 0, _ => none
  | k + 1, name =>
    match log (k + 1) with
    | .write n offset data =>
      if name = n then some (((effect k name).getD blank).write offset data) else effect k name
    | .delete n => if name = n then none else effect k name
    | .other => effect k name

end Step

/-- The copy of an object in a recovery with these names. -/
def State.copy (s : State) (names : List Name) (name : Name) : Option Content :=
  if name ∈ names then (s.table.lookup name).bind (·.recover) else none

end Fastblock.L2
