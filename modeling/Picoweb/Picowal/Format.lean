import Picoweb.Lib.ByteFile

/-!
# On-disk formats of the picowal engine

The packed little-endian structures of `picowal_db.c`: the record header, the one-sector file header
and the superblock slot, each with the FNV-1a checksum the engine stores in it.
-/

namespace Picowal

open ByteFile List

/-! ### Constants -/

abbrev sectorBytes : ℕ := 512
abbrev segDataStart : ℕ := 512
abbrev dataMax : ℕ := 4096
abbrev txnMaxOps : ℕ := 4096
abbrev replChunkMax : ℕ := 4 * 1024 * 1024
abbrev sbSlots : ℕ := 2
abbrev sbCheckpointInterval : ℕ := 128
abbrev cardMax : ℕ := 1023

def fileMagic : UInt32 := 0x50574631
def superMagic : UInt32 := 0x50474157
def recMagic : UInt32 := 0x574c5232
def sbVersion : UInt16 := 4
def fileVersion : UInt32 := 1
def recTombstone : UInt32 := 1
def recTxnCommit : UInt32 := 2
def baseSegId : UInt32 := 0

/-! ### Checksums -/

def metalFnv1aInit : UInt64 := 1469598103934665603

def metalFnv1aStep (h : UInt64) (data : Bytes) : UInt64 :=
  data.foldl (fun h b => (h ^^^ b.toUInt64) * 1099511628211) h

def metalFnv1a (data : Bytes) : UInt64 := metalFnv1aStep metalFnv1aInit data

def recChecksum (key len flags : UInt32) (seq txnId : UInt64) (payload : Bytes) : UInt64 :=
  let h := metalFnv1aStep metalFnv1aInit (leBytes 4 key.toNat)
  let h := metalFnv1aStep h (leBytes 4 len.toNat)
  let h := metalFnv1aStep h (leBytes 4 flags.toNat)
  let h := metalFnv1aStep h (leBytes 8 seq.toNat)
  let h := metalFnv1aStep h (leBytes 8 txnId.toNat)
  if len ≠ 0 then metalFnv1aStep h payload else h

/-- Round up to a whole number of sectors. -/
def alignUp512 (n : ℕ) : ℕ := (n + 511) / 512 * 512

lemma le_alignUp512 (n : ℕ) : n ≤ alignUp512 n := by unfold alignUp512; omega

/-- `w` bytes at offset `off` of a packed structure, as a number. -/
def field (b : Bytes) (off w : ℕ) : ℕ := leNat ((b.drop off).take w)

/-! ### Record headers -/

/-- `picowal_record_hdr_t`. -/
structure RecordHdr where
  magic : UInt32
  key : UInt32
  len : UInt32
  flags : UInt32
  seq : UInt64
  txnId : UInt64
  checksum : UInt64
  deriving DecidableEq, Repr

/-- `sizeof(picowal_record_hdr_t)`. -/
abbrev recordHdrBytes : ℕ := 40

def RecordHdr.encode (h : RecordHdr) : Bytes :=
  leBytes 4 h.magic.toNat ++ leBytes 4 h.key.toNat ++ leBytes 4 h.len.toNat ++
    leBytes 4 h.flags.toNat ++ leBytes 8 h.seq.toNat ++ leBytes 8 h.txnId.toNat ++
    leBytes 8 h.checksum.toNat

def RecordHdr.decode (b : Bytes) : RecordHdr where
  magic := .ofNat (field b 0 4)
  key := .ofNat (field b 4 4)
  len := .ofNat (field b 8 4)
  flags := .ofNat (field b 12 4)
  seq := .ofNat (field b 16 8)
  txnId := .ofNat (field b 24 8)
  checksum := .ofNat (field b 32 8)

@[simp] lemma RecordHdr.length_encode (h : RecordHdr) : h.encode.length = 40 := by
  simp [RecordHdr.encode]

@[simp] lemma RecordHdr.decode_encode (h : RecordHdr) : RecordHdr.decode h.encode = h := by
  simp [RecordHdr.decode, RecordHdr.encode, field, drop_append]

/-! ### Records

A record on disk is its header, its payload and zeros up to the next sector boundary. -/

/-- A record as the scan reads it: the header and the payload bytes after it. -/
structure Rec where
  hdr : RecordHdr
  payload : Bytes
  deriving DecidableEq, Repr

namespace Rec

/-- The sector-aligned room the record takes. -/
def span (r : Rec) : ℕ := alignUp512 (recordHdrBytes + r.hdr.len.toNat)

def tombstone (r : Rec) : Bool := r.hdr.flags &&& recTombstone != 0

def commit (r : Rec) : Bool := r.hdr.flags &&& recTxnCommit != 0

def encode (r : Rec) : Bytes :=
  r.hdr.encode ++ r.payload ++ replicate (r.span - (recordHdrBytes + r.hdr.len.toNat)) 0

/-- What the scan requires of a record before it looks at its transaction. -/
structure Valid (r : Rec) : Prop where
  magic : r.hdr.magic = recMagic
  len_le : r.hdr.len.toNat ≤ dataMax
  payload_len : r.payload.length = r.hdr.len.toNat
  flags : r.hdr.flags &&& ~~~(recTombstone ||| recTxnCommit) = 0
  checksum : recChecksum r.hdr.key r.hdr.len r.hdr.flags r.hdr.seq r.hdr.txnId r.payload
    = r.hdr.checksum

lemma span_pos (r : Rec) : 0 < r.span := by
  have h := le_alignUp512 (recordHdrBytes + r.hdr.len.toNat)
  simp only [span, recordHdrBytes] at h ⊢
  omega

lemma hdr_le_span (r : Rec) : recordHdrBytes + r.hdr.len.toNat ≤ r.span :=
  le_alignUp512 _

lemma Valid.length_encode {r : Rec} (h : r.Valid) : r.encode.length = r.span := by
  have := r.hdr_le_span
  simp only [encode, length_append, RecordHdr.length_encode, h.payload_len,
    length_replicate, recordHdrBytes] at *
  omega

/-- The record `append_record_locked` and the checkpoint write. -/
def mk' (key : UInt32) (payload : Bytes) (flags : UInt32) (seq txnId : UInt64) : Rec where
  hdr :=
    { magic := recMagic, key, len := .ofNat payload.length, flags, seq, txnId
      checksum := recChecksum key (.ofNat payload.length) flags seq txnId payload }
  payload := payload

lemma mk'_valid {key : UInt32} {payload : Bytes} {flags : UInt32} {seq txnId : UInt64}
    (hlen : payload.length ≤ dataMax) (hflags : flags &&& ~~~(recTombstone ||| recTxnCommit) = 0) :
    (mk' key payload flags seq txnId).Valid := by
  have hl : (UInt32.ofNat payload.length).toNat = payload.length := by
    exact Nat.mod_eq_of_lt (by simp only [dataMax] at hlen; omega)
  constructor
  · rfl
  · simpa [mk', hl] using hlen
  · simp [mk', hl]
  · exact hflags
  · rfl

end Rec

def recFlags (tombstone isFinal : Bool) : UInt32 :=
  (if tombstone then recTombstone else 0) ||| (if isFinal then recTxnCommit else 0)

lemma recFlags_ok (t c : Bool) : recFlags t c &&& ~~~(recTombstone ||| recTxnCommit) = 0 := by
  cases t <;> cases c <;> decide

lemma recFlags_tombstone (t c : Bool) : (recFlags t c &&& recTombstone != 0) = t := by
  cases t <;> cases c <;> decide

lemma recFlags_commit (t c : Bool) : (recFlags t c &&& recTxnCommit != 0) = c := by
  cases t <;> cases c <;> decide

/-! ### File headers -/

/-- `picowal_file_hdr_t`; the reserved bytes are written as zeros and never read. -/
structure FileHdr where
  magic : UInt32
  version : UInt32
  segId : UInt32
  generation : UInt32
  checksum : UInt64
  deriving DecidableEq, Repr

namespace FileHdr

def encode (h : FileHdr) : Bytes :=
  leBytes 4 h.magic.toNat ++ leBytes 4 h.version.toNat ++ leBytes 4 h.segId.toNat ++
    leBytes 4 h.generation.toNat ++ leBytes 8 h.checksum.toNat ++ replicate 488 0

def decode (b : Bytes) : FileHdr where
  magic := .ofNat (field b 0 4)
  version := .ofNat (field b 4 4)
  segId := .ofNat (field b 8 4)
  generation := .ofNat (field b 12 4)
  checksum := .ofNat (field b 16 8)

@[simp] lemma length_encode (h : FileHdr) : h.encode.length = 512 := by
  simp [encode, -reduceReplicate]

@[simp] lemma decode_encode (h : FileHdr) : decode h.encode = h := by
  simp [decode, encode, field, drop_append, -reduceReplicate]

end FileHdr

def fileHdrChecksum (h : FileHdr) : UInt64 :=
  let v := metalFnv1aStep metalFnv1aInit (leBytes 4 h.magic.toNat)
  let v := metalFnv1aStep v (leBytes 4 h.version.toNat)
  let v := metalFnv1aStep v (leBytes 4 h.segId.toNat)
  metalFnv1aStep v (leBytes 4 h.generation.toNat)

def fileHdrValid (h : FileHdr) (wantSegId : UInt32) : Bool :=
  h.magic == fileMagic && h.version == fileVersion && h.segId == wantSegId &&
    fileHdrChecksum h == h.checksum

/-- The header `write_file_header` puts in a file's first sector. -/
def fileHdr (segId generation : UInt32) : FileHdr :=
  let h : FileHdr :=
    { magic := fileMagic, version := fileVersion, segId, generation, checksum := 0 }
  { h with checksum := fileHdrChecksum h }

@[simp] lemma fileHdrValid_fileHdr (segId generation : UInt32) :
    fileHdrValid (fileHdr segId generation) segId = true := by
  simp [fileHdrValid, fileHdr, fileHdrChecksum]

@[simp] lemma fileHdr_generation (segId generation : UInt32) :
    (fileHdr segId generation).generation = generation := rfl

/-! ### Superblock slots -/

/-- `picowal_superblock_t`; the reserved bytes are written as zeros and never read. -/
structure Superblock where
  magic : UInt32
  version : UInt16
  sectorSize : UInt16
  segmentBytes : UInt64
  generation : UInt64
  baseGeneration : UInt32
  leadingWalId : UInt32
  leadingWriteOff : UInt64
  nextSeq : UInt64
  checksum : UInt64
  deriving DecidableEq, Repr

namespace Superblock

def encode (sb : Superblock) : Bytes :=
  leBytes 4 sb.magic.toNat ++ leBytes 2 sb.version.toNat ++ leBytes 2 sb.sectorSize.toNat ++
    leBytes 8 sb.segmentBytes.toNat ++ leBytes 8 sb.generation.toNat ++
    leBytes 4 sb.baseGeneration.toNat ++ leBytes 4 sb.leadingWalId.toNat ++
    leBytes 8 sb.leadingWriteOff.toNat ++ leBytes 8 sb.nextSeq.toNat ++
    leBytes 8 sb.checksum.toNat ++ replicate 456 0

def decode (b : Bytes) : Superblock where
  magic := .ofNat (field b 0 4)
  version := .ofNat (field b 4 2)
  sectorSize := .ofNat (field b 6 2)
  segmentBytes := .ofNat (field b 8 8)
  generation := .ofNat (field b 16 8)
  baseGeneration := .ofNat (field b 24 4)
  leadingWalId := .ofNat (field b 28 4)
  leadingWriteOff := .ofNat (field b 32 8)
  nextSeq := .ofNat (field b 40 8)
  checksum := .ofNat (field b 48 8)

@[simp] lemma length_encode (sb : Superblock) : sb.encode.length = 512 := by
  simp [encode, -reduceReplicate]

@[simp] lemma decode_encode (sb : Superblock) : decode sb.encode = sb := by
  simp [decode, encode, field, drop_append, -reduceReplicate]

end Superblock

def sbChecksum (sb : Superblock) : UInt64 :=
  let h := metalFnv1aStep metalFnv1aInit (leBytes 4 sb.magic.toNat)
  let h := metalFnv1aStep h (leBytes 2 sb.version.toNat)
  let h := metalFnv1aStep h (leBytes 2 sb.sectorSize.toNat)
  let h := metalFnv1aStep h (leBytes 8 sb.segmentBytes.toNat)
  let h := metalFnv1aStep h (leBytes 8 sb.generation.toNat)
  let h := metalFnv1aStep h (leBytes 4 sb.baseGeneration.toNat)
  let h := metalFnv1aStep h (leBytes 4 sb.leadingWalId.toNat)
  let h := metalFnv1aStep h (leBytes 8 sb.leadingWriteOff.toNat)
  metalFnv1aStep h (leBytes 8 sb.nextSeq.toNat)

def sbSlotValid (sb : Superblock) : Bool :=
  sb.magic == superMagic && sb.version == sbVersion && sb.sectorSize == 512 &&
    decide (1 ≤ sb.leadingWalId) && decide (1 ≤ sb.nextSeq) && sbChecksum sb == sb.checksum

end Picowal
