import Picoweb.Picowal.Ops

/-!
# Checkpoints

`picowal_db_checkpoint` writes a new `base.dat` from the live records of `base.dat` and the sealed
segments, renames it into place and unlinks the sealed segments. Its effects on the directory are
listed one by one, so that a crash between any two of them can be described.
-/

namespace Picowal

open ByteFile

/-- A change `picowal_db_checkpoint` makes to the directory. -/
inductive Effect where
  | writeBaseTmp (content : Bytes)
  | renameBase
  | unlinkWal (id : UInt32)
  | writeSuperblock (content : Bytes)
  deriving DecidableEq, Repr

def Disk.apply (disk : Disk) : Effect → Disk
  | .writeBaseTmp content => { disk with baseTmp := some content }
  | .renameBase => { disk with base := disk.baseTmp, baseTmp := none }
  | .unlinkWal id => { disk with wal := Function.update disk.wal id none }
  | .writeSuperblock content => { disk with superblock := some content }

/-- One turn of the insertion sort by seq. -/
def foldInsert (v : IndexEntry) : List IndexEntry → List IndexEntry
  | [] => [v]
  | x :: xs => if x.seq > v.seq then v :: x :: xs else x :: foldInsert v xs

def foldSort (fold : List IndexEntry) : List IndexEntry :=
  fold.foldl (fun acc v => foldInsert v acc) []

/-- Records laid out one after the other from offset `w` on. -/
def placeRecs : ℕ → List Rec → List (ℕ × Rec)
  | _, [] => []
  | w, r :: rs => (w, r) :: placeRecs (w + r.span) rs

namespace Db

/-- The entries a checkpoint folds: live, and not in the leading segment. -/
def foldSelection (db : Db) : List IndexEntry :=
  foldSort (db.index.entries.filter fun e => !e.tombstone && e.segId != db.leadingWalId)

lemma foldSelection_eq (db : Db) : db.foldSelection =
    foldSort (db.index.entries.filter fun e => !e.tombstone && e.segId != db.leadingWalId) := rfl

-- unfolded by accident, the loop over all the chains stops the elaborator
attribute [irreducible] foldSelection

/-- The copy of one folded record: same key, payload and seq, committed on its own. -/
def foldRecord (db : Db) (e : IndexEntry) : Option Rec :=
  match db.resolveReadFd e.segId with
  | none => none
  | some f =>
    match preadFull f recordHdrBytes e.offset with
    | none => none
    | some raw =>
      let h := RecordHdr.decode raw
      if h.magic ≠ recMagic ∨ h.key ≠ e.key ∨ h.len ≠ e.len then none
      else
        match preadFull f h.len.toNat (e.offset + recordHdrBytes) with
        | none => none
        | some payload => some (Rec.mk' h.key payload recTxnCommit h.seq h.seq)

/-- The rewritten `base.dat`. -/
def newBase (db : Db) (recs : List Rec) : Bytes :=
  newFile baseSegId (db.baseGeneration + 1) ++ recs.flatMap Rec.encode

/-- The index after the fold: what pointed into `base.dat` or a sealed segment now points into the
new base, and tombstones that stood there are gone. -/
def foldedIndex (db : Db) (fold : List IndexEntry) (recs : List Rec) : Index :=
  let idx := db.index.dropSegment baseSegId
  let idx := db.sealedWals.foldl Index.dropSegment idx
  let folded := fold.zip (placeRecs segDataStart recs)
  folded.foldl (fun idx p => idx.upsert
    { key := p.1.key, segId := baseSegId, offset := p.2.1, len := p.1.len, seq := p.1.seq
      tombstone := false }) idx

/-- The state once the sealed segments are unlinked, before the superblock is written. -/
def checkpointFolded (db : Db) (fold : List IndexEntry) (recs : List Rec) : Db :=
  { db with
    disk := { db.disk with
      base := some (db.newBase recs)
      baseTmp := none
      wal := db.sealedWals.foldl (fun wal id => Function.update wal id none) db.disk.wal }
    baseGeneration := db.baseGeneration + 1
    baseBytes := (db.newBase recs).length - segDataStart
    index := db.foldedIndex fold recs
    sealedWals := []
    appendsSinceCheckpoint := 0 }

/-- `picowal_db_checkpoint`; the result is the number of bytes reclaimed and of segments removed. -/
def checkpoint (db : Db) : Db × Except Errno (ℕ × ℕ) :=
  if db.readOnly then (db, .error .EROFS)
  else if db.sealedWals = [] then (db, .ok (0, 0))
  else
    match db.foldSelection.mapM db.foldRecord with
    -- a temporary base that an earlier crash left goes as well
    | none => ({ db with disk := { db.disk with baseTmp := none } }, .error .unset)
    | some recs =>
      ((db.checkpointFolded db.foldSelection recs).writeSuperblockLocked,
        .ok ((db.sealedWals.map fun id => ((db.disk.wal id).getD []).length).sum, db.sealedWals.length))

/-- The changes to the directory a checkpoint makes, in order. -/
def checkpointEffects (db : Db) : List Effect :=
  if db.readOnly || db.sealedWals.isEmpty then []
  else
    match db.foldSelection.mapM db.foldRecord with
    | none => []
    | some recs =>
      let folded := db.checkpointFolded db.foldSelection recs
      [.writeBaseTmp (db.newBase recs), .renameBase] ++ db.sealedWals.map .unlinkWal ++
        match db.disk.superblock with
        | none => []
        | some file => [.writeSuperblock (folded.superblockFile file)]

lemma foldl_apply_unlinkWal (ids : List UInt32) (disk : Disk) : (ids.map Effect.unlinkWal).foldl Disk.apply disk
      = { disk with wal := ids.foldl (fun wal id => Function.update wal id none) disk.wal } := by
  induction ids generalizing disk with
  | nil => rfl
  | cons id ids ih =>
    rw [List.map_cons, List.foldl_cons, ih]
    rfl

/-- The effects of a checkpoint that goes through add up to what it does to the directory. -/
lemma foldl_checkpointEffects (db : Db) (hok : db.checkpointEffects ≠ []) :
    db.checkpointEffects.foldl Disk.apply db.disk = db.checkpoint.1.disk := by
  unfold checkpointEffects at hok ⊢
  split_ifs at hok ⊢ with hnone
  · exact absurd rfl hok
  · obtain ⟨hro, hs⟩ : db.readOnly = false ∧ db.sealedWals ≠ [] := by simpa using hnone
    cases hm : db.foldSelection.mapM db.foldRecord with
    | none => simp [hm] at hok
    | some recs =>
      cases hsb : db.disk.superblock <;>
        simp [checkpoint, hro, hs, hm, foldl_apply_unlinkWal, writeSuperblockLocked, checkpointFolded, Disk.apply, hsb]

end Db

end Picowal
