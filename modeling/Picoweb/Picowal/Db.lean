import Picoweb.Picowal.Index

/-!
# The engine's state

`Disk` is the content of the device directory and `Db` is `struct picowal_db` together with the
directory it works on. File I/O and allocation succeed; what can fail is what the engine itself
refuses, a missing file and a read past the end of a file.
-/

namespace Picowal

open ByteFile

/-- The error codes of the entry points. -/
inductive Errno where
  | EINVAL | EROFS | EEXIST | ENOENT | ENOSPC | E2BIG | EMSGSIZE | EIO | EBADF | ERANGE
  /-- what an earlier call left -/
  | unset
  deriving DecidableEq, Repr

/-- `picowal_durability_t`. -/
inductive Durability where
  | fireAndForget | local | replicated
  deriving DecidableEq, Repr

abbrev preadFull (f : Bytes) (len off : ℕ) : Option Bytes := readAt f len off

abbrev pwriteFull (f data : Bytes) (off : ℕ) : Bytes := writeAt f data off

/-- The device directory. The file `wal-%08u.wal` of id `i` is `wal i`; `strays` are the numbers
`sscanf` reads off directory entries with other names, such as a left-over `.repl_tmp`. -/
structure Disk where
  superblock : Option Bytes
  base : Option Bytes
  baseTmp : Option Bytes
  wal : UInt32 → Option Bytes
  strays : List UInt32

def Disk.empty : Disk where
  superblock := none
  base := none
  baseTmp := none
  wal := fun _ => none
  strays := []

/-- The long-lived descriptor of the leading segment. It may outlive the file's name: after an unlink
it still reads and writes the nameless file. -/
inductive LeadingFd where
  | closed
  | linked
  | unlinked (content : Bytes)
  deriving DecidableEq, Repr

/-- `picowal_ack_slot_t`. -/
structure AckSlot where
  id : String
  segId : UInt32
  offset : ℕ
  deriving DecidableEq, Repr

/-- `struct picowal_db`. `leadingSynced` is how much of the leading file a completed `fdatasync`
has made durable, and `fence` is the answer of the installed fence callback. -/
structure Db where
  disk : Disk
  segmentBytes : UInt64
  baseGeneration : UInt32
  baseBytes : ℕ
  leadingFd : LeadingFd
  leadingWalId : UInt32
  leadingWriteOff : ℕ
  leadingSynced : ℕ
  sealedWals : List UInt32
  nextSeq : UInt64
  sbGeneration : UInt64
  appendsSinceCheckpoint : ℕ
  readOnly : Bool
  dirtyUnsynced : Bool
  fence : Option Bool
  schemaGen : UInt64
  index : Index
  acks : List AckSlot
  ackQuorum : UInt32

namespace Db

def leadingContent (db : Db) : Option Bytes :=
  match db.leadingFd with
  | .closed => none
  | .linked => db.disk.wal db.leadingWalId
  | .unlinked content => some content

/-- The state after the leading descriptor has written, leaving `content` in the file. -/
def setLeading (db : Db) (content : Bytes) : Db :=
  match db.leadingFd with
  | .closed => db
  | .linked =>
    { db with disk := { db.disk with
        wal := Function.update db.disk.wal db.leadingWalId (some content) } }
  | .unlinked _ => { db with leadingFd := .unlinked content }

/-- `fdatasync(db->leading_fd)`. -/
def syncLeading (db : Db) : Db :=
  { db with leadingSynced := (db.leadingContent.getD []).length }

/-- `resolve_read_fd`, with the file's content for the descriptor. -/
def resolveReadFd (db : Db) (segId : UInt32) : Option Bytes :=
  if segId = baseSegId then db.disk.base
  else if segId = db.leadingWalId then db.leadingContent
  else db.disk.wal segId

/-- The slot `write_superblock_locked` fills in. -/
def superblockOf (db : Db) (generation : UInt64) : Superblock :=
  let sb : Superblock :=
    { magic := superMagic, version := sbVersion, sectorSize := 512
      segmentBytes := db.segmentBytes, generation
      baseGeneration := db.baseGeneration, leadingWalId := db.leadingWalId
      leadingWriteOff := .ofNat db.leadingWriteOff, nextSeq := db.nextSeq, checksum := 0 }
  { sb with checksum := sbChecksum sb }

/-- The content of `superblock.dat` after `write_superblock_locked`. -/
def superblockFile (db : Db) (file : Bytes) : Bytes :=
  let generation := db.sbGeneration + 1
  pwriteFull file (db.superblockOf generation).encode (generation.toNat % sbSlots * sectorBytes)

def writeSuperblockLocked (db : Db) : Db :=
  match db.disk.superblock with
  | none => db
  | some file =>
    { db with
      disk := { db.disk with superblock := some (db.superblockFile file) }
      sbGeneration := db.sbGeneration + 1
      appendsSinceCheckpoint := 0 }

end Db

/-! ### Keys -/

/-- `picowal_db_pack_key`. -/
def packKey (card : UInt16) (record : UInt32) : Option UInt32 :=
  if card.toNat > cardMax ∨ record > 4194303 then none
  else some ((card.toUInt32 <<< 22) ||| (record &&& 0x003fffff))

/-- The card half of `picowal_db_unpack_key`. -/
def keyCard (key : UInt32) : UInt32 := (key >>> 22) &&& 0x3ff

/-- The record half of `picowal_db_unpack_key`. -/
def keyRecord (key : UInt32) : UInt32 := key &&& 0x003fffff

lemma toNat_keyCard (key : UInt32) : (keyCard key).toNat = key.toNat / 2 ^ 22 := by
  have hlt : key.toNat / 2 ^ 22 < 2 ^ 10 := by
    have := key.toNat_lt
    omega
  have h := Nat.and_two_pow_sub_one_eq_mod (key.toNat / 2 ^ 22) 10
  rw [Nat.mod_eq_of_lt hlt] at h
  simpa [keyCard, Nat.shiftRight_eq_div_pow] using h

lemma toNat_keyRecord (key : UInt32) : (keyRecord key).toNat = key.toNat % 2 ^ 22 := by
  have h := Nat.and_two_pow_sub_one_eq_mod key.toNat 22
  simpa [keyRecord] using h

/-- A packed key is its card and record side by side. -/
lemma packKey_of_le {card : UInt16} {record : UInt32} (hcard : card.toNat ≤ cardMax) (hrec : record.toNat < 2 ^ 22) :
    ∃ key, packKey card record = some key ∧ key.toNat = card.toNat * 2 ^ 22 + record.toNat := by
  have hok : ¬ (card.toNat > cardMax ∨ record > 4194303) := by
    rintro (h | h)
    · exact absurd hcard (not_le.mpr h)
    · have : 4194303 < record.toNat := UInt32.lt_iff_toNat_lt.mp h
      omega
  have hmask : (record &&& 0x003fffff).toNat = record.toNat := by
    have := Nat.and_two_pow_sub_one_eq_mod record.toNat 22
    rw [Nat.mod_eq_of_lt hrec] at this
    simpa [UInt32.toNat_and] using this
  have hshift : (card.toUInt32 <<< 22).toNat = card.toNat <<< 22 := by
    have h22 : UInt32.toNat 22 % 32 = 22 := rfl
    rw [UInt32.toNat_shiftLeft, h22, UInt16.toNat_toUInt32]
    simp only [cardMax] at hcard
    omega
  refine ⟨_, by rw [packKey, if_neg hok], ?_⟩
  rw [UInt32.toNat_or, hmask, hshift, ← Nat.shiftLeft_add_eq_or_of_lt hrec, Nat.shiftLeft_eq]

lemma packKey_eq_some {card : UInt16} {record key : UInt32} : packKey card record = some key ↔
      card.toNat ≤ cardMax ∧ keyCard key = card.toUInt32 ∧ keyRecord key = record := by
  simp only [← UInt32.toNat_inj, toNat_keyCard, toNat_keyRecord, UInt16.toNat_toUInt32]
  constructor
  · intro h
    have hok : ¬ (card.toNat > cardMax ∨ record > 4194303) := by
      intro hbad
      rw [packKey, if_pos hbad] at h
      cases h
    push Not at hok
    obtain ⟨hcard, hrec⟩ := hok
    have hrec : record.toNat < 2 ^ 22 := by
      have : record.toNat ≤ 4194303 := UInt32.le_iff_toNat_le.mp (UInt32.not_lt.mp hrec)
      omega
    obtain ⟨key', h', hval⟩ := packKey_of_le hcard hrec
    rw [h] at h'
    cases h'
    refine ⟨hcard, ?_, ?_⟩ <;> omega
  · rintro ⟨hcard, hc, hr⟩
    have hrec : record.toNat < 2 ^ 22 := by omega
    obtain ⟨key', h', hval⟩ := packKey_of_le hcard hrec
    rw [h', Option.some.injEq, ← UInt32.toNat_inj]
    omega
/-- A write to card 1 or 2 bumps the schema generation. -/
def bumpSchemaGen (gen : UInt64) (key : UInt32) : UInt64 :=
  if keyCard key = 1 ∨ keyCard key = 2 then gen + 1 else gen

end Picowal
