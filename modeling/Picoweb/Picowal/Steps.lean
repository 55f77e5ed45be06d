import Picoweb.Picowal.Engine
import Picoweb.Picowal.Framing

/-!
# What a mutation does to the log

Every mutation that succeeds adds one unit to the end of the leading segment: the records of one
transaction, of which the last is commit-marked unless the transaction was rolled back. `Appended` says
all that such a step can do.
-/

namespace Picowal

open ByteFile List

def Rec.effect (r : Rec) : UInt32 × Option Bytes :=
  (r.hdr.key, if r.tombstone then none else some r.payload)

lemma toNat_succ_uInt64 {x : UInt64} (h : x.toNat + 1 < 2 ^ 64) : (x + 1).toNat = x.toNat + 1 := by
  exact Nat.mod_eq_of_lt h

lemma toNat_succ_uInt32 {x : UInt32} (h : x.toNat + 1 < 2 ^ 32) : (x + 1).toNat = x.toNat + 1 := by
  exact Nat.mod_eq_of_lt h

variable {db : Db} {r : Rec}

namespace Db

def lead (db : Db) : Bytes := db.leadingContent.getD []

/-- The leading segment is open under its name, the write offset lies in it and seqs are in use. -/
structure Ready (db : Db) : Prop where
  linked : db.leadingFd = .linked
  file : db.disk.wal db.leadingWalId = some db.lead
  off_le : db.leadingWriteOff ≤ db.lead.length
  seq_pos : 0 < db.nextSeq.toNat

lemma lead_of_linked (h : db.leadingFd = .linked) : db.lead = (db.disk.wal db.leadingWalId).getD [] := by
  simp [lead, leadingContent, h]

lemma Ready.content (h : db.Ready) : db.leadingContent = some db.lead := by
  simp [leadingContent, h.linked, h.file]

lemma Ready.setLeading_eq (h : db.Ready) (content : Bytes) : db.setLeading content =
      { db with disk := { db.disk with
          wal := Function.update db.disk.wal db.leadingWalId (some content) } } := by
  simp [setLeading, h.linked]

lemma Ready.lead_setLeading (h : db.Ready) (content : Bytes) : (db.setLeading content).lead = content := by
  simp [lead, leadingContent, setLeading, h.linked]

/-- The superblock file is the old one, or the old one with the next slot written over. -/
def SbFrom (db db' : Db) : Prop :=
  (db'.disk.superblock = db.disk.superblock ∧ db'.sbGeneration = db.sbGeneration) ∨
    ∃ file, db.disk.superblock = some file ∧ db'.sbGeneration = db.sbGeneration + 1 ∧
      db'.disk.superblock = some (writeAt file (db'.superblockOf db'.sbGeneration).encode
        (db'.sbGeneration.toNat % sbSlots * sectorBytes))

/-- The parts of the state only a checkpoint changes. -/
structure SameBase (db db' : Db) : Prop where
  base : db'.disk.base = db.disk.base
  baseTmp : db'.disk.baseTmp = db.disk.baseTmp
  strays : db'.disk.strays = db.disk.strays
  segmentBytes : db'.segmentBytes = db.segmentBytes
  baseGeneration : db'.baseGeneration = db.baseGeneration
  baseBytes : db'.baseBytes = db.baseBytes
  readOnly : db'.readOnly = db.readOnly
  fence : db'.fence = db.fence
  acks : db'.acks = db.acks
  ackQuorum : db'.ackQuorum = db.ackQuorum

/-- The parts of the state an append leaves alone. -/
structure SameVolume (db db' : Db) : Prop extends SameBase db db' where
  wal : ∀ id, id ≠ db.leadingWalId → db'.disk.wal id = db.disk.wal id
  leadingWalId : db'.leadingWalId = db.leadingWalId
  sealedWals : db'.sealedWals = db.sealedWals

/-- The records `rs` of one transaction were added at the end of the leading segment. -/
structure Logged (db : Db) (rs : List (ℕ × Rec)) (db' : Db) : Prop extends
    SameVolume db db' where
  ready : db'.Ready
  take : db'.lead.take db.leadingWriteOff = db.lead.take db.leadingWriteOff
  length : db'.lead.length = max db.lead.length db'.leadingWriteOff
  log : IsLog db'.lead db.leadingWriteOff rs db'.leadingWriteOff
  txnId : ∀ p ∈ rs, p.2.hdr.txnId = db.nextSeq
  seqs : rs.map (fun p => p.2.hdr.seq.toNat) = List.range' db.nextSeq.toNat rs.length
  nextSeq : db'.nextSeq.toNat = db.nextSeq.toNat + rs.length
  len : rs.length ≤ txnMaxOps

/-- The commit mark is on the last record, or nowhere. -/
def Marked (committed : Bool) (rs : List (ℕ × Rec)) : Prop :=
  if committed then
    ∃ init last, rs = init ++ [last] ∧ (∀ p ∈ init, p.2.commit = false) ∧ last.2.commit = true
  else ∀ p ∈ rs, p.2.commit = false

def unitEntries (db : Db) (rs : List (ℕ × Rec)) : List IndexEntry :=
  rs.map fun p => p.2.entry db.leadingWalId p.1

/-- A mutation: the records were added and, if their transaction committed, indexed. -/
structure Appended (db : Db) (rs : List (ℕ × Rec)) (committed : Bool) (db' : Db) : Prop extends
    Logged db rs db' where
  marks : Marked committed rs
  index : db'.index = if committed then (db.unitEntries rs).foldl Index.upsert db.index else db.index
  sb : SbFrom db db'
  synced : db'.leadingSynced = db.leadingSynced ∨ db'.leadingSynced = db'.lead.length

/-! ### Writing records -/

lemma SameVolume.refl (db : Db) : SameVolume db db :=
  ⟨by constructor <;> rfl, fun _ _ => rfl, rfl, rfl⟩

lemma Logged.refl (h : db.Ready) : Logged db [] db where
  toSameVolume := SameVolume.refl db
  ready := h
  take := rfl
  length := (Nat.max_eq_left h.off_le).symm
  log := rfl
  txnId := by simp
  seqs := rfl
  nextSeq := rfl
  len := Nat.zero_le _

/-- The state after an append, with the three writes as one write of the encoded record. -/
def logRecord (db : Db) (r : Rec) (doFsync : Bool) : Db :=
  let f := writeAt db.lead r.encode db.leadingWriteOff
  { db with
    disk := { db.disk with wal := Function.update db.disk.wal db.leadingWalId (some f) }
    leadingSynced := if doFsync then f.length else db.leadingSynced
    nextSeq := db.nextSeq + 1
    leadingWriteOff := db.leadingWriteOff + r.span }

lemma writeRecordLocked_eq (h : db.Ready) (doFsync : Bool) :
    db.writeRecordLocked r doFsync = db.logRecord r doFsync := by
  have hw : writeAt (writeAt (writeAt db.lead r.hdr.encode db.leadingWriteOff) r.payload (db.leadingWriteOff + 40))
      (List.replicate (r.span - (40 + r.hdr.len.toNat)) 0)
      (db.leadingWriteOff + 40 + r.payload.length) = writeAt db.lead r.encode db.leadingWriteOff := by
    have h1 := writeAt_writeAt (f := db.lead) (a := r.hdr.encode) (b := r.payload) h.off_le
    have h2 := writeAt_writeAt (f := db.lead) (a := r.hdr.encode ++ r.payload)
      (b := List.replicate (r.span - (40 + r.hdr.len.toNat)) 0) h.off_le
    simp only [RecordHdr.length_encode, length_append, ← Nat.add_assoc] at h1 h2
    rw [h1, h2, Rec.encode]
  unfold writeRecordLocked logRecord
  simp only [h.content, Option.getD_some, hw]
  cases doFsync <;> simp [setLeading, h.linked, syncLeading, leadingContent]

lemma lead_logRecord (h : db.Ready) (r : Rec) (doFsync : Bool) :
    (db.logRecord r doFsync).lead = writeAt db.lead r.encode db.leadingWriteOff := by
  have hl : (db.logRecord r doFsync).leadingFd = .linked := h.linked
  rw [lead_of_linked hl]
  simp [logRecord]

lemma Ready.logRecord (h : db.Ready) (hv : r.Valid) (doFsync : Bool)
    (hroom : db.nextSeq.toNat + 1 < 2 ^ 64) : (db.logRecord r doFsync).Ready where
  linked := h.linked
  file := by rw [lead_logRecord h]; simp [Db.logRecord]
  off_le := by
    rw [lead_logRecord h, length_writeAt h.off_le, hv.length_encode]
    exact le_max_right _ _
  seq_pos := by
    show 0 < (db.nextSeq + 1).toNat
    rw [toNat_succ_uInt64 hroom]
    exact Nat.succ_pos _

/-- A valid record joins the unit. -/
lemma Logged.logRecord {db₁ : Db} {rs : List (ℕ × Rec)} (h : Logged db rs db₁)
    (hv : r.Valid) (doFsync : Bool) (hseq : r.hdr.seq = db₁.nextSeq)
    (htxn : r.hdr.txnId = db.nextSeq) (hlen : rs.length < txnMaxOps) (hroom : db₁.nextSeq.toNat + 1 < 2 ^ 64) :
    Logged db (rs ++ [(db₁.leadingWriteOff, r)]) (db₁.logRecord r doFsync) := by
  have hoff := h.ready.off_le
  have hle := h.log.le
  have hlead := lead_logRecord h.ready r doFsync
  have hlength : (writeAt db₁.lead r.encode db₁.leadingWriteOff).length
      = max db₁.lead.length (db₁.leadingWriteOff + r.span) := by
    rw [length_writeAt hoff, hv.length_encode]
  have hrec : recordAt (writeAt db₁.lead r.encode db₁.leadingWriteOff) db₁.leadingWriteOff = some r :=
    recordAt_of_drop hv (drop_writeAt hoff) (by omega)
  refine ⟨?_, h.ready.logRecord hv doFsync hroom, ?_, ?_, ?_, ?_, ?_, ?_, ?_⟩
  · refine { h.toSameVolume with wal := fun id hid => ?_ }
    rw [← h.wal id hid]
    exact Function.update_of_ne (h.leadingWalId ▸ hid) _ _
  · rw [hlead, take_writeAt hoff hle, h.take]
  · rw [hlead, hlength, h.length]
    show _ = max db.lead.length (db₁.leadingWriteOff + r.span)
    omega
  · rw [hlead]
    refine IsLog.append (b := db₁.leadingWriteOff) ?_ (IsLog.single hrec)
    exact h.log.congr (take_writeAt hoff le_rfl).symm le_rfl
  · exact forall_mem_append.2 ⟨h.txnId, forall_mem_singleton.2 htxn⟩
  · rw [map_append, h.seqs, length_append, ← List.range'_append_1]
    simp [hseq, h.nextSeq]
  · show (db₁.nextSeq + 1).toNat = _
    rw [toNat_succ_uInt64 hroom, h.nextSeq, length_append, length_singleton, Nat.add_assoc]
  · rw [length_append]
    exact hlen

/-! ### Marking a record committed -/

end Db

namespace Rec

/-- The record with the commit mark `mark_committed_locked` gives it. -/
def marked (r : Rec) : Rec :=
  mk' r.hdr.key r.payload (recFlags r.tombstone true) r.hdr.seq r.hdr.txnId

lemma Valid.marked_len (h : r.Valid) : r.marked.hdr.len = r.hdr.len := by
  show UInt32.ofNat r.payload.length = r.hdr.len
  rw [h.payload_len, UInt32.ofNat_toNat]

lemma Valid.marked (h : r.Valid) : r.marked.Valid :=
  mk'_valid (by rw [h.payload_len]; exact h.len_le) (recFlags_ok _ _)

@[simp] lemma marked_tombstone (r : Rec) : r.marked.tombstone = r.tombstone :=
  recFlags_tombstone _ _

@[simp] lemma marked_commit (r : Rec) : r.marked.commit = true := recFlags_commit _ _

@[simp] lemma marked_effect (r : Rec) : r.marked.effect = r.effect := by
  simp only [effect, marked_tombstone]
  rfl

lemma Valid.marked_span (h : r.Valid) : r.marked.span = r.span := by
  rw [span, span, h.marked_len]

lemma Valid.marked_entry (h : r.Valid) (segId : UInt32) (off : ℕ) : r.marked.entry segId off = r.entry segId off := by
  simp only [entry, h.marked_len, marked_tombstone]
  rfl

end Rec

/-- Rewriting the header of a record in place. -/
lemma recordAt_marked {f : Bytes} {off : ℕ} (h : recordAt f off = some r) :
    recordAt (writeAt f r.marked.hdr.encode off) off = some r.marked := by
  obtain ⟨-, hpay, hv, hs⟩ := readRecord_eq_some.mp h
  have hspan := r.hdr_le_span
  simp only [recordHdrBytes] at hspan
  have hlen : (writeAt f r.marked.hdr.encode off).length = f.length := by
    rw [length_writeAt (by omega), RecordHdr.length_encode]
    omega
  refine readRecord_eq_some.mpr ⟨⟨r.marked.hdr.encode, ?_, by simp⟩, ?_, hv.marked, ?_⟩
  · have hdrop : (writeAt f r.marked.hdr.encode off).drop off
        = r.marked.hdr.encode ++ f.drop (off + r.marked.hdr.encode.length) :=
      drop_writeAt (by omega)
    have := readAt_of_drop hdrop (by omega)
    simpa using this
  · rw [hv.marked_len, readAt_writeAt_after (by simp; omega) (by simp), hpay]
    rfl
  · rw [hlen, hv.marked_span]
    exact hs

namespace Db

/-- The last record of the unit gets its commit mark. -/
lemma Logged.mark {db₁ : Db} {init : List (ℕ × Rec)} {o : ℕ} (h : Logged db (init ++ [(o, r)]) db₁) :
    Logged db (init ++ [(o, r.marked)]) (db₁.setLeading (writeAt db₁.lead r.marked.hdr.encode o)) := by
  obtain ⟨b, hinit, hlast⟩ := h.log.append_inv
  obtain ⟨rfl, hrec, hfin⟩ := hlast
  have hv := recordAt_valid hrec
  have hspan := r.hdr_le_span
  have hend : o + r.span = db₁.leadingWriteOff := hfin
  have hoff := h.ready.off_le
  have hle := hinit.le
  simp only [recordHdrBytes] at hspan
  have hlen : (writeAt db₁.lead r.marked.hdr.encode o).length = db₁.lead.length := by
    rw [length_writeAt (by omega), RecordHdr.length_encode]
    omega
  have hset := h.ready.setLeading_eq (writeAt db₁.lead r.marked.hdr.encode o)
  have hlead := h.ready.lead_setLeading (writeAt db₁.lead r.marked.hdr.encode o)
  refine ⟨?_, ⟨?_, ?_, ?_, ?_⟩, ?_, ?_, ?_, ?_, ?_, ?_, ?_⟩
  · rw [hset]
    refine { h.toSameVolume with wal := fun id hid => ?_ }
    rw [← h.wal id hid]
    exact Function.update_of_ne (h.leadingWalId ▸ hid) _ _
  · rw [hset]; exact h.ready.linked
  · rw [hlead, hset]; simp
  · rw [hlead, hlen, hset]; exact hoff
  · rw [hset]; exact h.ready.seq_pos
  · rw [hlead, take_writeAt (by omega) hle, h.take]
  · rw [hlead, hlen, hset]; exact h.length
  · rw [hlead]
    refine IsLog.append (hinit.congr (take_writeAt (by omega) le_rfl).symm le_rfl) ⟨rfl, recordAt_marked hrec, ?_⟩
    rw [hv.marked_span, hset]
    exact hfin
  · have := forall_mem_append.1 h.txnId
    exact forall_mem_append.2 ⟨this.1, forall_mem_singleton.2 (this.2 (o, r) mem_cons_self)⟩
  · have := h.seqs
    simp only [map_append, length_append] at this ⊢
    exact this
  · rw [hset, length_append]
    have := h.nextSeq
    rwa [length_append] at this
  · have := h.len
    rwa [length_append] at this ⊢

end Db

end Picowal
