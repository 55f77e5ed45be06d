import Picoweb.Picowal.Scan

/-!
# Opening and closing a volume

`load_or_format` picks the superblock, finds the WAL files in the directory and opens `base.dat` and
the leading segment; `picowal_db_open` then scans the volume.
-/

namespace Picowal

open ByteFile

/-- Capacity of the id array `load_or_format` hands to `discover_wal_ids`. -/
abbrev maxWalIds : ℕ := 8192

abbrev defaultSegmentBytes : UInt64 := 1073741824

/-- What `sscanf(name, "wal-%8u.wal", &id)` reads off the name `snprintf` gave the file of this id
with `"wal-%08u.wal"`: ids of more than eight digits are cut after the eighth. -/
def scannedWalId (id : UInt32) : UInt32 :=
  if id < 100000000 then id
  else if id < 1000000000 then id / 10
  else id / 100

/-- `names` lists the numbers `sscanf` reads off the directory's entries, in the order `readdir`
returns them, which is any order. -/
def Disk.Listing (disk : Disk) (names : List UInt32) : Prop :=
  ∃ ids : List UInt32, ids.Nodup ∧ (∀ id, id ∈ ids ↔ (disk.wal id).isSome) ∧
    names.Perm (ids.map scannedWalId ++ disk.strays)

def discoverWalIds (names : List UInt32) : List UInt32 :=
  (names.take maxWalIds).mergeSort fun a b => decide (a ≤ b)

/-- The content `write_file_header` leaves in a fresh file. -/
def newFile (segId generation : UInt32) : Bytes := (fileHdr segId generation).encode

@[simp] lemma length_newFile (segId generation : UInt32) : (newFile segId generation).length = 512 := by
  simp [newFile]

/-- One superblock slot, if it can be read and is valid. -/
def sbSlot (file : Bytes) (slot : ℕ) : Option Superblock :=
  match preadFull file sectorBytes (slot * sectorBytes) with
  | none => none
  | some raw =>
    let sb := Superblock.decode raw
    if sbSlotValid sb then some sb else none

/-- The slot that wins: the valid one, or of two valid ones that with the higher generation. -/
def sbWinner (disk : Disk) : Option Superblock :=
  match disk.superblock with
  | none => none
  | some file =>
    match sbSlot file 0, sbSlot file 1 with
    | some sb0, some sb1 => if sb0.generation ≥ sb1.generation then some sb0 else some sb1
    | some sb0, none => some sb0
    | none, some sb1 => some sb1
    | none, none => none

/-- The superblock a freshly formatted volume starts with, in both slots. -/
def formatSuperblock (segmentBytes : UInt64) : Superblock :=
  let sb : Superblock :=
    { magic := superMagic, version := sbVersion, sectorSize := 512, segmentBytes
      generation := 1, baseGeneration := 1, leadingWalId := 1
      leadingWriteOff := 512, nextSeq := 1, checksum := 0 }
  { sb with checksum := sbChecksum sb }

/-- The directory after the format branch of `load_or_format`. -/
def formatDisk (disk : Disk) (segmentBytes : UInt64) : Disk :=
  let sb := (formatSuperblock segmentBytes).encode
  { disk with
    base := some (newFile baseSegId 1)
    wal := Function.update disk.wal 1 (some (newFile 1 1))
    superblock := some (pwriteFull (pwriteFull (disk.superblock.getD []) sb 0) sb sectorBytes) }

/-- A file's first sector, if it is a valid header of the segment. -/
def readFileHdr (f : Bytes) (segId : UInt32) : Option FileHdr :=
  match preadFull f sectorBytes 0 with
  | none => none
  | some raw =>
    let h := FileHdr.decode raw
    if fileHdrValid h segId then some h else none

/-- The state `load_or_format` leaves on the handle of `picowal_db_create`. -/
def loadedDb (disk : Disk) (sb : Superblock) (bh : FileHdr) (base : Bytes) (leadingWalId : UInt32)
    (sealedWals : List UInt32) : Db where
  disk := disk
  segmentBytes := sb.segmentBytes
  baseGeneration := bh.generation
  baseBytes := base.length - segDataStart
  leadingFd := .linked
  leadingWalId := leadingWalId
  leadingWriteOff := segDataStart
  leadingSynced := segDataStart
  sealedWals := sealedWals
  nextSeq := sb.nextSeq
  sbGeneration := sb.generation
  appendsSinceCheckpoint := 0
  readOnly := false
  dirtyUnsynced := false
  fence := none
  schemaGen := 0
  index := Index.clear
  acks := []
  ackQuorum := 1

/-- The part of `load_or_format` from the discovery of the WAL files on. -/
def loadVolume (disk : Disk) (names : List UInt32) (sb : Superblock) : Except Errno Db :=
  let ids := discoverWalIds names
  match ids.getLast? with
  | none => .error .EINVAL
  | some last =>
    let leadingWalId := if last > sb.leadingWalId then last else sb.leadingWalId
    -- each sealed id is pushed on the list's head
    let sealedWals := (ids.dropLast.filter fun id => id != leadingWalId).reverse
    match disk.base with
    | none => .error .ENOENT
    | some base =>
      match readFileHdr base baseSegId with
      | none => .error Errno.EIO
      | some bh =>
        match disk.wal leadingWalId with
        | none => .error .ENOENT
        | some lead =>
          match readFileHdr lead leadingWalId with
          | none => .error Errno.EIO
          | some _ => .ok (loadedDb disk sb bh base leadingWalId sealedWals)

/-- `load_or_format`. `names` is the directory listing it reads after the format branch. -/
def loadOrFormat (disk : Disk) (names : List UInt32) (wantSegmentBytes : UInt64) (format : Bool) : Except Errno Db :=
  let want := if wantSegmentBytes = 0 then defaultSegmentBytes else wantSegmentBytes
  if want % 512 ≠ 0 then .error .EINVAL
  else
    match sbWinner disk with
    | some winner => loadVolume disk names winner
    | none =>
      if format then loadVolume (formatDisk disk want) names (formatSuperblock want)
      else .error .EINVAL

/-- `picowal_db_open` on the handle of `picowal_db_create`. -/
def Db.open (disk : Disk) (names : List UInt32) (segmentBytes : UInt64) (format : Bool) : Except Errno Db :=
  (loadOrFormat disk names segmentBytes format).map scanVolume

/-- `picowal_db_close`: the superblock is written a last time; what stays is the directory. -/
def Db.close (db : Db) : Disk :=
  match db.leadingFd with
  | .closed => db.disk
  | _ => db.writeSuperblockLocked.disk

end Picowal
