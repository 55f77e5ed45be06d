import Picoweb.Picowal.Volume

/-!
# Appending to the log

`append_record_locked` writes one record at the end of the leading segment, after sealing a full
segment and starting the next one. `mark_committed_locked` rewrites a record's header with the commit
flag.
-/

namespace Picowal

open ByteFile

namespace Db

/-- The rotation of `append_record_locked`: the next segment is created over whatever file has its
name, the old leading segment is synced and pushed on the sealed list, and the superblock is
written. -/
def rotateLocked (db : Db) : Db :=
  let newId := db.leadingWalId + 1
  let db' : Db :=
    { db with
      disk := { db.disk with wal := Function.update db.disk.wal newId (some (newFile newId 1)) }
      sealedWals := db.leadingWalId :: db.sealedWals
      leadingFd := .linked
      leadingWalId := newId
      leadingWriteOff := segDataStart
      leadingSynced := segDataStart }
  db'.writeSuperblockLocked

/-- The record `append_record_locked` builds. -/
def newRecord (db : Db) (key : UInt32) (data : Bytes) (tombstone : Bool) (txnIdIn : UInt64) (isFinal : Bool) : Rec :=
  let seq := db.nextSeq
  let txnId := if txnIdIn = 0 then seq else txnIdIn
  Rec.mk' key data (recFlags tombstone isFinal) seq txnId

/-- The writes of `append_record_locked`: header, payload, zero padding. -/
def writeRecordLocked (db : Db) (r : Rec) (doFsync : Bool) : Db :=
  let recOff := db.leadingWriteOff
  let f := db.leadingContent.getD []
  let f := pwriteFull f r.hdr.encode recOff
  let f := pwriteFull f r.payload (recOff + recordHdrBytes)
  let f := pwriteFull f (List.replicate (r.span - (recordHdrBytes + r.hdr.len.toNat)) 0)
    (recOff + recordHdrBytes + r.payload.length)
  let db' := db.setLeading f
  let db' := if doFsync then db'.syncLeading else db'
  { db' with nextSeq := db.nextSeq + 1, leadingWriteOff := recOff + r.span }

/-- `append_record_locked`; the result is the segment, the offset and the seq of the record. -/
def appendRecordLocked (db : Db) (key : UInt32) (data : Bytes) (tombstone : Bool)
    (txnIdIn : UInt64) (isFinal allowRotate doFsync : Bool) : Db × Except Errno (UInt32 × ℕ × UInt64) :=
  if db.leadingFd = .closed then (db, .error .EBADF)
  else
    let span := alignUp512 (recordHdrBytes + data.length)
    let write (db : Db) : Db × Except Errno (UInt32 × ℕ × UInt64) :=
      (db.writeRecordLocked (db.newRecord key data tombstone txnIdIn isFinal) doFsync,
        .ok (db.leadingWalId, db.leadingWriteOff, db.nextSeq))
    if db.leadingWriteOff + span > db.segmentBytes.toNat then
      if !allowRotate then (db, .error .ENOSPC)
      else
        let db := db.rotateLocked
        if db.leadingWriteOff + span > db.segmentBytes.toNat then (db, .error .E2BIG)
        else write db
    else write db

/-- `mark_committed_locked`. -/
def markCommittedLocked (db : Db) (offset : ℕ) (key len : UInt32) (seq txnId : UInt64)
    (tombstone : Bool) : Db × Except Errno Unit :=
  let f := db.leadingContent.getD []
  match preadFull f len.toNat (offset + recordHdrBytes) with
  | none => (db, .error .unset)
  | some payload =>
    let r := Rec.mk' key payload (recFlags tombstone true) seq txnId
    (db.setLeading (pwriteFull f r.hdr.encode offset), .ok ())

end Db

end Picowal
