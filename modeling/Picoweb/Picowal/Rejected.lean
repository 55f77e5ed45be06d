import Picoweb.Picowal.Fresh
import Picoweb.Picowal.Repl

/-!
# Segments a replica rejects

`picowal_db_repl_install_segment` gives up the leading segment before it checks the header of the copy
that is to replace it, and `picowal_db_repl_ingest_segment` adopts an unknown segment before it checks
the offset. These are the only rejected calls that change the volume.
-/

namespace Picowal

open ByteFile

/-- The header of an offered segment is what the installation asks for. -/
def HeaderFits (segId generation : UInt32) (data : Bytes) : Prop :=
  sectorBytes ≤ data.length ∧ fileHdrValid (FileHdr.decode (data.take sectorBytes)) segId = true ∧
    (FileHdr.decode (data.take sectorBytes)).generation = generation

namespace Db

/-- What a rejected call is to leave as it is. -/
structure Unchanged (db db' : Db) : Prop where
  index : db'.index = db.index
  sealedWals : db'.sealedWals = db.sealedWals
  leadingWalId : db'.leadingWalId = db.leadingWalId
  leadingWriteOff : db'.leadingWriteOff = db.leadingWriteOff
  base : db'.disk.base = db.disk.base
  wal : db'.disk.wal = db.disk.wal

variable {db : Db}

lemma Unchanged.rfl : db.Unchanged db := by constructor <;> exact Eq.refl _

/-- The leading segment is given up before the header is checked. -/
def GivesUpLeading (db : Db) (segId : UInt32) (data : Bytes) : Prop :=
  segId = db.leadingWalId ∧ (db.leadingWriteOff ≤ segDataStart ∨ data.length = db.leadingWriteOff)

/-- An unknown segment is adopted, and then it is found that the write offset is not 0. -/
def AdoptsAt (db : Db) (segId : UInt32) (atOff : ℕ) (data : Bytes) : Prop :=
  segId ≠ db.leadingWalId ∧ atOff = 0 ∧ data.length % sectorBytes = 0

lemma unchanged_demoteLeading :
    db.Unchanged db.demoteLeading ↔ db.leadingWalId = uint32Max ∧ db.leadingWriteOff = 0 := by
  constructor
  · intro h
    exact ⟨h.leadingWalId.symm, h.leadingWriteOff.symm⟩
  · rintro ⟨hid, hoff⟩
    exact ⟨rfl, rfl, hid.symm, hoff.symm, rfl, rfl⟩

lemma replInstallSegment_cases (db : Db) (segId generation : UInt32) (data : Bytes) :
    (HeaderFits segId generation data ∧ (db.replInstallSegment segId generation data).2 = .ok ()) ∨
    (¬ db.GivesUpLeading segId data ∧ ∃ e, db.replInstallSegment segId generation data = (db, .error e)) ∨
    (db.GivesUpLeading segId data ∧ ¬ HeaderFits segId generation data ∧
      ∃ e, db.replInstallSegment segId generation data = (db.demoteLeading, .error e)) := by
  unfold replInstallSegment GivesUpLeading HeaderFits
  split_ifs <;> grind

lemma replIngestSegment_cases (db : Db) (segId : UInt32) (atOff : ℕ) (data : Bytes) :
    (¬ db.AdoptsAt segId atOff data ∧ ((db.replIngestSegment segId atOff data).2 = .ok () ∨
      ∃ e, db.replIngestSegment segId atOff data = (db, .error e))) ∨
    (db.AdoptsAt segId atOff data ∧
      ∃ e, db.replIngestSegment segId atOff data = (db.adoptLeading segId, .error e)) := by
  have hadopt : (db.adoptLeading segId).leadingWriteOff = segDataStart := rfl
  have hlinked : (db.adoptLeading segId).leadingFd = .linked := rfl
  unfold replIngestSegment AdoptsAt
  split_ifs <;> grind

end Db

/-- A rejected call changes nothing, exactly when it did not give up or adopt a leading segment before it
rejected its input. -/
theorem rejected_changes_nothing_iff (db : Db) (segId generation : UInt32) (atOff : ℕ) (data : Bytes) :
    (((db.replInstallSegment segId generation data).2 ≠ .ok () →
        db.Unchanged (db.replInstallSegment segId generation data).1) ↔
      (db.GivesUpLeading segId data → HeaderFits segId generation data ∨
        db.leadingWalId = uint32Max ∧ db.leadingWriteOff = 0)) ∧
    (((db.replIngestSegment segId atOff data).2 ≠ .ok () →
        db.Unchanged (db.replIngestSegment segId atOff data).1) ↔ ¬ db.AdoptsAt segId atOff data) := by
  constructor
  · obtain ⟨hfits, hok⟩ | ⟨hkeeps, e, heq⟩ | ⟨hgives, hfits, e, heq⟩ :=
      db.replInstallSegment_cases segId generation data
    · simp [hfits, hok]
    · simp [hkeeps, heq, Db.Unchanged.rfl]
    · simp [hgives, hfits, heq, Db.unchanged_demoteLeading]
  · obtain ⟨hnot, hok | ⟨e, heq⟩⟩ | ⟨hadopts, e, heq⟩ := db.replIngestSegment_cases segId atOff data
    · simp [hnot, hok]
    · simp [hnot, heq, Db.Unchanged.rfl]
    · have hne : ¬ db.Unchanged (db.adoptLeading segId) := fun h => hadopts.1 h.leadingWalId
      simp [hadopts, heq, hne]

/-- A segment with no header at all costs the replica its leading segment, and so does an unknown segment
offered from its first byte on. -/
theorem rejected_segment_replaces_leading : ((Db.fresh 1024).replInstallSegment 1 1 []).2 = .error .EINVAL ∧
      ((Db.fresh 1024).replInstallSegment 1 1 []).1.leadingWalId ≠ (Db.fresh 1024).leadingWalId ∧
    ((Db.fresh 1024).replIngestSegment 2 0 []).2 = .error .EINVAL ∧
      ((Db.fresh 1024).replIngestSegment 2 0 []).1.sealedWals ≠ (Db.fresh 1024).sealedWals := by
  decide +kernel

end Picowal
