import Picoweb.Picowal.Append

/-!
# Mutations and reads

Explicit transactions, the implicit one-record operations and the read entry points of
`picowal_db.c`.
-/

namespace Picowal

open ByteFile

/-- `struct picowal_txn` without its back pointer: the operations appended so far, which carry the
seq, place and length their records got. -/
structure Txn where
  txnId : UInt64
  ops : List IndexEntry

namespace Db

/-- `fence_gate`. -/
def fenceGate (db : Db) : Bool := db.fence != some false

/-! ### Explicit transactions -/

/-- `picowal_db_txn_begin`. -/
def txnBegin (db : Db) : Except Errno Txn :=
  if !db.fenceGate then .error .EROFS
  else if db.readOnly then .error .EROFS
  else .ok { txnId := 0, ops := [] }

/-- `txn_append`. -/
def txnAppend (db : Db) (txn : Txn) (key : UInt32) (data : Bytes) (tombstone : Bool) : Db × Txn × Except Errno Unit :=
  if txn.ops.length ≥ txnMaxOps then (db, txn, .error .E2BIG)
  else
    match db.appendRecordLocked key data tombstone txn.txnId false false false with
    | (db, .error e) => (db, txn, .error e)
    | (db, .ok (segId, offset, seq)) =>
      let txnId := if txn.txnId = 0 then seq else txn.txnId
      let op : IndexEntry :=
        { key, segId, offset, len := .ofNat data.length, seq, tombstone }
      (db, { txnId, ops := txn.ops ++ [op] }, .ok ())

/-- The `create_only` test: the key is indexed and not deleted. -/
def present (db : Db) (key : UInt32) : Bool :=
  match db.index.find key with
  | some e => !e.tombstone
  | none => false

/-- `picowal_db_txn_put`. -/
def txnPut (db : Db) (txn : Txn) (key : UInt32) (data : Bytes) (createOnly : Bool) : Db × Txn × Except Errno Unit :=
  if data.length = 0 ∨ data.length > dataMax then (db, txn, .error .EINVAL)
  else if createOnly && db.present key then (db, txn, .error .EEXIST)
  else db.txnAppend txn key data false

/-- `picowal_db_txn_delete`. -/
def txnDelete (db : Db) (txn : Txn) (key : UInt32) : Db × Txn × Except Errno Unit :=
  if !db.present key then (db, txn, .error .ENOENT)
  else db.txnAppend txn key [] true

def applyOps (db : Db) (ops : List IndexEntry) : Db :=
  { db with
    index := ops.foldl Index.upsert db.index
    schemaGen := (ops.map IndexEntry.key).foldl bumpSchemaGen db.schemaGen }

/-- The superblock is written every so many appends. -/
def countAppends (db : Db) (n : ℕ) : Db :=
  let db := { db with appendsSinceCheckpoint := db.appendsSinceCheckpoint + n }
  if db.appendsSinceCheckpoint ≥ sbCheckpointInterval then db.writeSuperblockLocked else db

/-- `picowal_db_txn_commit` up to the wait for replicas. -/
def txnCommit (db : Db) (txn : Txn) (durability : Durability) : Db × Except Errno Unit :=
  match txn.ops.getLast? with
  | none => (db, .ok ())
  | some last =>
    match db.markCommittedLocked last.offset last.key last.len last.seq txn.txnId
        last.tombstone with
    | (db, .error e) => (db, .error e)
    | (db, .ok ()) =>
      let db := if durability ≠ .fireAndForget then db.syncLeading
        else { db with dirtyUnsynced := true }
      ((db.applyOps txn.ops).countAppends txn.ops.length, .ok ())

/-- `picowal_db_txn_rollback`: the records written so far stay where they are. -/
def txnRollback (db : Db) (_txn : Txn) : Db := db

/-! ### Implicit operations -/

/-- The shared tail of `picowal_db_put_key_dur` and `picowal_db_delete_key_dur`: append a
commit-marked record, index it, count it. -/
def appendCommitted (db : Db) (key : UInt32) (data : Bytes) (tombstone : Bool)
    (durability : Durability) : Db × Except Errno Unit :=
  let doFsync := decide (durability ≠ .fireAndForget)
  match db.appendRecordLocked key data tombstone 0 true true doFsync with
  | (db, .error e) => (db, .error e)
  | (db, .ok (segId, offset, seq)) =>
    let db := if doFsync then db else { db with dirtyUnsynced := true }
    let op : IndexEntry := { key, segId, offset, len := .ofNat data.length, seq, tombstone }
    ((db.applyOps [op]).countAppends 1, .ok ())

/-- `picowal_db_put_key_dur` up to the wait for replicas. -/
def putKeyDur (db : Db) (key : UInt32) (data : Bytes) (createOnly : Bool)
    (durability : Durability) : Db × Except Errno Unit :=
  if data.length = 0 ∨ data.length > dataMax then (db, .error .EINVAL)
  else if !db.fenceGate then (db, .error .EROFS)
  else if db.readOnly then (db, .error .EROFS)
  else if createOnly && db.present key then (db, .error .EEXIST)
  else db.appendCommitted key data false durability

/-- `picowal_db_delete_key_dur` up to the wait for replicas. -/
def deleteKeyDur (db : Db) (key : UInt32) (durability : Durability) : Db × Except Errno Unit :=
  if !db.fenceGate then (db, .error .EROFS)
  else if db.readOnly then (db, .error .EROFS)
  else if !db.present key then (db, .error .ENOENT)
  else db.appendCommitted key [] true durability

/-! ### Reads -/

/-- The reads and checks `picowal_db_get_key` makes once it knows the index entry. -/
def readEntry (db : Db) (key : UInt32) (e : IndexEntry) : Except Errno Bytes :=
  match db.resolveReadFd e.segId with
  | none => .error Errno.EIO
  | some f =>
    match preadFull f recordHdrBytes e.offset with
    | none => .error .unset
    | some raw =>
      let h := RecordHdr.decode raw
      if h.magic ≠ recMagic ∨ h.key ≠ key ∨ h.len ≠ e.len ∨ h.flags &&& recTombstone ≠ 0 then
        .error Errno.EIO
      else
        match preadFull f e.len.toNat (e.offset + recordHdrBytes) with
        | none => .error .unset
        | some out =>
          if recChecksum h.key h.len h.flags h.seq h.txnId out ≠ h.checksum then .error Errno.EIO
          else .ok out

/-- `picowal_db_get_key`. -/
def getKey (db : Db) (key : UInt32) (outLen : ℕ) : Except Errno Bytes :=
  if outLen = 0 then .error .EINVAL
  else
    match db.index.find key with
    | none => .error .ENOENT
    | some e =>
      if e.tombstone then .error .ENOENT
      else if e.len.toNat > outLen then .error .EMSGSIZE
      else db.readEntry key e

/-- `picowal_db_exists_key`. -/
def existsKey (db : Db) (key : UInt32) : Bool := db.present key

/-- `picowal_db_list_records`. -/
def listRecords (db : Db) (card : UInt16) (maxRecords : ℕ) : List UInt32 :=
  if maxRecords = 0 ∨ card.toNat > cardMax then []
  else
    ((db.index.entries.filter fun e => !e.tombstone && (keyCard e.key == card.toUInt32)).map
      fun e => keyRecord e.key).take maxRecords

end Db

end Picowal
