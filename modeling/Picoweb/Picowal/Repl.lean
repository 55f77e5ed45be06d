import Picoweb.Picowal.Checkpoint

/-!
# Replication primitives

The primary lists its segments and serves the tail of its leading one; a replica installs and ingests
segments of its own volume. The ack registry keeps the last position each replica reported.
-/

namespace Picowal

open ByteFile

abbrev maxReplicaAcks : ℕ := 32

abbrev uint32Max : UInt32 := 4294967295

/-- `picowal_seg_info_t`. -/
structure SegInfo where
  segId : UInt32
  generation : UInt32
  isSealed : Bool
  bytes : ℕ
  deriving DecidableEq, Repr

namespace Db

/-! ### Primary side -/

/-- `picowal_db_list_segments`. -/
def listSegments (db : Db) (maxOut : ℕ) : List SegInfo :=
  let base : SegInfo :=
    { segId := baseSegId, generation := db.baseGeneration, isSealed := true, bytes := db.baseBytes }
  let ids := (db.sealedWals.take maxWalIds).mergeSort fun a b => decide (a ≤ b)
  let sealedInfos := ids.map fun id =>
    { segId := id, generation := 1, isSealed := true
      bytes := ((db.disk.wal id).getD []).length - segDataStart : SegInfo }
  let leading : List SegInfo :=
    if db.leadingFd = .closed then []
    else [{ segId := db.leadingWalId, generation := 1, isSealed := false
            bytes := db.leadingWriteOff - segDataStart }]
  (base :: sealedInfos ++ leading).take maxOut

/-- `picowal_db_repl_read_leading` with room for `cap` bytes. -/
def replReadLeading (db : Db) (segId : UInt32) (fromOff cap : ℕ) : Except Errno Bytes :=
  if fromOff % sectorBytes ≠ 0 ∨ fromOff < segDataStart then .error .EINVAL
  else if segId ≠ db.leadingWalId then .error .EINVAL
  else if fromOff > db.leadingWriteOff then .error .ERANGE
  else
    let want := min cap (db.leadingWriteOff - fromOff)
    match preadFull (db.leadingContent.getD []) want fromOff with
    | none => .error .unset
    | some out => .ok out

/-! ### Replica side -/

/-- The leading segment is closed and forgotten before a sealed copy of it is installed. -/
def demoteLeading (db : Db) : Db :=
  { db with leadingFd := .closed, leadingWalId := uint32Max, leadingWriteOff := 0 }

/-- A segment enters the sealed list once. -/
def addSealed (db : Db) (segId : UInt32) : Db :=
  if segId ∈ db.sealedWals then db else { db with sealedWals := segId :: db.sealedWals }

/-- Run the scan over a range and let the seq counter pass what it met. -/
def replay (db : Db) (f : Bytes) (segId : UInt32) (startOff stopOff : ℕ) : Db × ℕ :=
  let st := scanFileRange f segId startOff stopOff db.index db.schemaGen
  ({ db with
      index := st.index
      schemaGen := st.schemaGen
      nextSeq := if st.maxSeq + 1 > db.nextSeq then st.maxSeq + 1 else db.nextSeq },
    st.lastCommittedEnd)

/-- The part of `picowal_db_repl_install_segment` that replaces the file and replays it. -/
def installFile (db : Db) (segId generation : UInt32) (data : Bytes) : Db :=
  let disk := if segId = baseSegId then { db.disk with base := some data }
    else { db.disk with wal := Function.update db.disk.wal segId (some data) }
  let db := { db with disk, index := db.index.dropSegment segId }
  let db := if segId = baseSegId then
      { db with baseGeneration := generation, baseBytes := data.length - segDataStart }
    else db.addSealed segId
  match db.resolveReadFd segId with
  | none => db
  | some f => if segDataStart < data.length then (db.replay f segId segDataStart data.length).1
    else db

/-- `picowal_db_repl_install_segment`. -/
def replInstallSegment (db : Db) (segId generation : UInt32) (data : Bytes) : Db × Except Errno Unit :=
  let checked (db : Db) (skipRewrite : Bool) : Db × Except Errno Unit :=
    if data.length < sectorBytes then (db, .error .EINVAL)
    else
      let h := FileHdr.decode (data.take sectorBytes)
      if !fileHdrValid h segId || h.generation != generation then (db, .error Errno.EIO)
      else if skipRewrite then (db.addSealed segId, .ok ())
      else (db.installFile segId generation data, .ok ())
  if segId = db.leadingWalId then
    if db.leadingWriteOff ≤ segDataStart then checked db.demoteLeading false
    else if data.length = db.leadingWriteOff then checked db.demoteLeading true
    else (db, .error .EROFS)
  else checked db false

/-- Adopting an unknown segment as the new leading one; the old one counts as sealed. -/
def adoptLeading (db : Db) (segId : UInt32) : Db :=
  { db with
    disk := { db.disk with wal := Function.update db.disk.wal segId (some (newFile segId 1)) }
    sealedWals := if db.leadingFd = .closed then db.sealedWals
      else db.leadingWalId :: db.sealedWals
    leadingFd := .linked
    leadingWalId := segId
    leadingWriteOff := segDataStart
    leadingSynced := segDataStart }

/-- `picowal_db_repl_ingest_segment`. -/
def replIngestSegment (db : Db) (segId : UInt32) (atOff : ℕ) (data : Bytes) : Db × Except Errno Unit :=
  if atOff % sectorBytes ≠ 0 ∨ data.length % sectorBytes ≠ 0 then (db, .error .EINVAL)
  else if segId ≠ db.leadingWalId ∧ atOff ≠ segDataStart ∧ atOff ≠ 0 then (db, .error .EINVAL)
  else
    let db := if segId ≠ db.leadingWalId then db.adoptLeading segId else db
    if atOff ≠ db.leadingWriteOff then (db, .error .EINVAL)
    else if 0 < data.length ∧ db.leadingFd = .closed then (db, .error .EBADF)
    else
      let db := if data.length > 0 then
          (db.setLeading (pwriteFull (db.leadingContent.getD []) data atOff)).syncLeading
        else db
      let (db, fin) := db.replay (db.leadingContent.getD []) segId atOff (atOff + data.length)
      let db := { db with leadingWriteOff := fin }
      (db.countAppends 1, .ok ())

/-! ### Ack registry -/

/-- `picowal_db_repl_ack`. -/
def replAck (db : Db) (replicaId : String) (segId : UInt32) (offset : ℕ) : Db :=
  let slot : AckSlot := { id := replicaId, segId, offset }
  if db.acks.any fun s => s.id == replicaId then
    { db with acks := db.acks.map fun s => if s.id = replicaId then slot else s }
  else if db.acks.length < maxReplicaAcks then { db with acks := db.acks ++ [slot] }
  else db

/-- `picowal_db_repl_ack_set_quorum`. -/
def replAckSetQuorum (db : Db) (minReplicaAcks : UInt32) : Db :=
  { db with ackQuorum := if minReplicaAcks = 0 then 1 else minReplicaAcks }

/-- The test `wait_for_ack_quorum` makes each time it wakes up. -/
def ackQuorumReached (db : Db) (segId : UInt32) (offset : ℕ) : Bool :=
  decide (db.acks.length ≠ 0) && decide (db.ackQuorum.toNat ≤
      (db.acks.filter fun s => s.segId == segId && decide (offset ≤ s.offset)).length)

end Db

end Picowal
