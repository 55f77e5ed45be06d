import Picoweb.Picowal.Steps

/-!
# Every operation but the checkpoint is an append

`step_cases` is the inversion of `step`: whatever the request and whatever the engine answers, the
state after the step is the state before, perhaps with a rotated leading segment, with one more unit
in the log.
-/

namespace Picowal

open ByteFile List

variable {db : Db}

namespace Db

/-! ### Bookkeeping -/

/-- The two states have the same files, log and counters; they may differ in the index, the
superblock and the flags around them. -/
structure SameLog (db db' : Db) : Prop extends SameVolume db db' where
  fd : db'.leadingFd = db.leadingFd
  leadWal : db'.disk.wal db.leadingWalId = db.disk.wal db.leadingWalId
  writeOff : db'.leadingWriteOff = db.leadingWriteOff
  nextSeq : db'.nextSeq = db.nextSeq

lemma SameLog.refl (db : Db) : SameLog db db :=
  ⟨SameVolume.refl db, rfl, rfl, rfl, rfl⟩

lemma SameVolume.trans {a b c : Db} (h₁ : SameVolume a b) (h₂ : SameVolume b c) : SameVolume a c where
  base := h₂.base.trans h₁.base
  baseTmp := h₂.baseTmp.trans h₁.baseTmp
  strays := h₂.strays.trans h₁.strays
  segmentBytes := h₂.segmentBytes.trans h₁.segmentBytes
  baseGeneration := h₂.baseGeneration.trans h₁.baseGeneration
  baseBytes := h₂.baseBytes.trans h₁.baseBytes
  readOnly := h₂.readOnly.trans h₁.readOnly
  fence := h₂.fence.trans h₁.fence
  acks := h₂.acks.trans h₁.acks
  ackQuorum := h₂.ackQuorum.trans h₁.ackQuorum
  wal := fun id hid => (h₂.wal id (h₁.leadingWalId ▸ hid)).trans (h₁.wal id hid)
  leadingWalId := h₂.leadingWalId.trans h₁.leadingWalId
  sealedWals := h₂.sealedWals.trans h₁.sealedWals

lemma SameLog.trans {a b c : Db} (h₁ : SameLog a b) (h₂ : SameLog b c) : SameLog a c where
  toSameVolume := h₁.toSameVolume.trans h₂.toSameVolume
  fd := h₂.fd.trans h₁.fd
  leadWal := by
    rw [← h₁.leadWal, ← h₁.leadingWalId]
    exact h₂.leadWal
  writeOff := h₂.writeOff.trans h₁.writeOff
  nextSeq := h₂.nextSeq.trans h₁.nextSeq

variable {db' db₁ : Db}

lemma SameLog.content (h : SameLog db db') : db'.leadingContent = db.leadingContent := by
  unfold leadingContent
  rw [h.fd, h.leadingWalId, h.leadWal]

lemma SameLog.lead (h : SameLog db db') : db'.lead = db.lead := by
  rw [Db.lead, Db.lead, h.content]

lemma SameLog.disk_wal (h : SameLog db db') : db'.disk.wal = db.disk.wal := by
  funext id
  by_cases hid : id = db.leadingWalId
  · rw [hid]
    exact h.leadWal
  · exact h.wal id hid

lemma SameLog.ready (h : SameLog db db') (hr : db.Ready) : db'.Ready where
  linked := h.fd.trans hr.linked
  file := by rw [h.lead, h.leadingWalId, h.leadWal, hr.file]
  off_le := by rw [h.lead, h.writeOff]; exact hr.off_le
  seq_pos := by rw [h.nextSeq]; exact hr.seq_pos

variable {rs : List (ℕ × Rec)}

lemma Logged.congr {db₂ : Db} (h : Logged db rs db₁) (hs : SameLog db₁ db₂) : Logged db rs db₂ where
  toSameVolume := h.toSameVolume.trans hs.toSameVolume
  ready := hs.ready h.ready
  take := by rw [hs.lead]; exact h.take
  length := by rw [hs.lead, hs.writeOff]; exact h.length
  log := by rw [hs.lead, hs.writeOff]; exact h.log
  txnId := h.txnId
  seqs := h.seqs
  nextSeq := by rw [hs.nextSeq]; exact h.nextSeq
  len := h.len

lemma sameLog_applyOps (db : Db) (ops : List IndexEntry) : SameLog db (db.applyOps ops) := { SameLog.refl db with }

lemma sameLog_syncLeading (db : Db) : SameLog db db.syncLeading := { SameLog.refl db with }

lemma sameLog_dirty (db : Db) (dirty : Bool) : SameLog db { db with dirtyUnsynced := dirty } :=
  { SameLog.refl db with }

lemma writeSuperblockLocked_spec (db : Db) : SameLog db db.writeSuperblockLocked ∧
    SbFrom db db.writeSuperblockLocked ∧ db.writeSuperblockLocked.index = db.index ∧
    db.writeSuperblockLocked.leadingSynced = db.leadingSynced := by
  unfold writeSuperblockLocked
  split
  · exact ⟨.refl db, .inl ⟨rfl, rfl⟩, rfl, rfl⟩
  · rename_i file hfile
    exact ⟨{ SameLog.refl db with }, .inr ⟨file, hfile, rfl, rfl⟩, rfl, rfl⟩

lemma sameLog_writeSuperblockLocked (db : Db) : SameLog db db.writeSuperblockLocked := (writeSuperblockLocked_spec db).1

/-- Counting appends may write the superblock and does nothing else to the state. -/
lemma countAppends_spec (db : Db) (n : ℕ) : SameLog db (db.countAppends n) ∧ SbFrom db (db.countAppends n) ∧
      (db.countAppends n).index = db.index ∧
      (db.countAppends n).leadingSynced = db.leadingSynced := by
  have hcount : SameLog db { db with appendsSinceCheckpoint := db.appendsSinceCheckpoint + n } :=
    { SameLog.refl db with }
  unfold countAppends
  dsimp only
  split_ifs
  · obtain ⟨hsame, hsb, hindex, hsynced⟩ :=
      writeSuperblockLocked_spec { db with appendsSinceCheckpoint := db.appendsSinceCheckpoint + n }
    exact ⟨hcount.trans hsame, hsb, hindex, hsynced⟩
  · exact ⟨hcount, .inl ⟨rfl, rfl⟩, rfl, rfl⟩

/-! ### Rotation -/

/-- The leading segment was sealed and an empty one with the next id took its place. -/
structure Rotated (db db' : Db) : Prop extends SameBase db db' where
  wal : db'.disk.wal = Function.update db.disk.wal (db.leadingWalId + 1) (some (newFile (db.leadingWalId + 1) 1))
  linked : db'.leadingFd = .linked
  leadingWalId : db'.leadingWalId = db.leadingWalId + 1
  writeOff : db'.leadingWriteOff = segDataStart
  synced : db'.leadingSynced = segDataStart
  sealedWals : db'.sealedWals = db.leadingWalId :: db.sealedWals
  nextSeq : db'.nextSeq = db.nextSeq
  index : db'.index = db.index
  sb : SbFrom db db'

lemma rotated_rotateLocked (db : Db) : Rotated db db.rotateLocked := by
  unfold rotateLocked writeSuperblockLocked
  dsimp only
  split
  all_goals refine ⟨by constructor <;> rfl, rfl, rfl, rfl, rfl, rfl, rfl, rfl, rfl, ?_⟩
  · exact .inl ⟨rfl, rfl⟩
  · rename_i file h
    exact .inr ⟨file, h, rfl, rfl⟩

lemma Rotated.lead (h : Rotated db db') : db'.lead = newFile db'.leadingWalId 1 := by
  rw [lead_of_linked h.linked, h.wal, h.leadingWalId]
  simp

lemma Rotated.ready (h : Rotated db db') (hpos : 0 < db.nextSeq.toNat) : db'.Ready where
  linked := h.linked
  file := by rw [h.lead, h.wal, h.leadingWalId]; simp
  off_le := by rw [h.lead, h.writeOff]; simp
  seq_pos := by rw [h.nextSeq]; exact hpos

/-! ### Appends -/

variable {data : Bytes} {isFinal tombstone : Bool} {key : UInt32} {txnIdIn : UInt64}

lemma newRecord_valid (h : data.length ≤ dataMax) : (db.newRecord key data tombstone txnIdIn isFinal).Valid :=
  Rec.mk'_valid h (recFlags_ok _ _)

lemma newRecord_commit : (db.newRecord key data tombstone txnIdIn isFinal).commit = isFinal :=
  recFlags_commit _ _

lemma newRecord_tombstone : (db.newRecord key data tombstone txnIdIn isFinal).tombstone = tombstone :=
  recFlags_tombstone _ _

/-- The index entry an operation makes of its arguments is that of the record it wrote. -/
lemma newRecord_entry (segId : UInt32) (off : ℕ) : (db.newRecord key data tombstone txnIdIn isFinal).entry segId off =
      { key, segId, offset := off, len := .ofNat data.length, seq := db.nextSeq, tombstone } := by
  simp only [Rec.entry, newRecord_tombstone]
  rfl

lemma newRecord_effect : (db.newRecord key data tombstone txnIdIn isFinal).effect
      = (key, if tombstone then none else some data) := by
  simp only [Rec.effect, newRecord_tombstone]
  rfl

/-- An append that is refused leaves at most a rotation behind; one that is not writes one record
that ends by the segment's size. -/
lemma appendRecordLocked_cases (h : db.Ready) (key : UInt32) (data : Bytes)
    (tombstone : Bool) (txnIdIn : UInt64) (isFinal allowRotate doFsync : Bool) :
    ∃ db₁, (db₁ = db ∨ allowRotate = true ∧ Rotated db db₁) ∧
      ((∃ e, db.appendRecordLocked key data tombstone txnIdIn isFinal allowRotate doFsync = (db₁, .error e)) ∨
        db.appendRecordLocked key data tombstone txnIdIn isFinal allowRotate doFsync
          = (db₁.logRecord (db₁.newRecord key data tombstone txnIdIn isFinal) doFsync,
              .ok (db₁.leadingWalId, db₁.leadingWriteOff, db₁.nextSeq))) := by
  have hopen : db.leadingFd ≠ .closed := by simp [h.linked]
  have hrot := rotated_rotateLocked db
  unfold appendRecordLocked
  rw [if_neg hopen]
  dsimp only
  split_ifs
  · exact ⟨db, .inl rfl, .inl ⟨_, rfl⟩⟩
  · rename_i hallow _
    refine ⟨_, .inr ⟨by simpa using hallow, hrot⟩, .inl ⟨_, rfl⟩⟩
  · rename_i hallow _
    refine ⟨_, .inr ⟨by simpa using hallow, hrot⟩, .inr ?_⟩
    rw [writeRecordLocked_eq (hrot.ready h.seq_pos)]
  · exact ⟨db, .inl rfl, .inr (by rw [writeRecordLocked_eq h])⟩

/-! ### Implicit operations -/

/-- What a step without a checkpoint can do, and what it commits. The unit is durable at once when
the operation asked for it. -/
structure Stepped (db : Db) (durable : Bool) (effects : List (UInt32 × Option Bytes)) (db' : Db) :
    Prop where
  cases : ∃ db₁ rs committed, (db₁ = db ∨ Rotated db db₁) ∧ Appended db₁ rs committed db' ∧
    effects = (if committed then rs.map fun p => p.2.effect else []) ∧
    (durable = true → committed = true → db'.leadingSynced = db'.lead.length)

lemma Appended.refl (h : db.Ready) : Appended db [] false db where
  toLogged := Logged.refl h
  marks := by simp [Marked]
  index := rfl
  sb := .inl ⟨rfl, rfl⟩
  synced := .inl rfl

lemma Stepped.refused (h : db'.Ready) (h₁ : db' = db ∨ Rotated db db') (durable : Bool) : Stepped db durable [] db' :=
  ⟨db', [], false, h₁, Appended.refl h, rfl, by simp⟩

/-- The shared end of all mutations: a marked unit is applied to the index and counted. -/
lemma Logged.applyOps (h : Logged db rs db₁) (hmarks : Marked true rs) (hindex : db₁.index = db.index)
    (hsb : db₁.disk.superblock = db.disk.superblock) (hgen : db₁.sbGeneration = db.sbGeneration)
    (hsync : db₁.leadingSynced = db.leadingSynced ∨ db₁.leadingSynced = db₁.lead.length)
    {ops : List IndexEntry} (hops : ops = db.unitEntries rs) (n : ℕ) :
    Appended db rs true ((db₁.applyOps ops).countAppends n) ∧
      ((db₁.applyOps ops).countAppends n).leadingSynced = db₁.leadingSynced ∧
      ((db₁.applyOps ops).countAppends n).lead = db₁.lead := by
  obtain ⟨hc1, hc2, hc3, hc4⟩ := countAppends_spec (db₁.applyOps ops) n
  have hall := (sameLog_applyOps db₁ ops).trans hc1
  refine ⟨⟨h.congr hall, hmarks, ?_, ?_, ?_⟩, hc4, hall.lead⟩
  · rw [hc3, ← hops, ← hindex]
    rfl
  · rcases hc2 with ⟨h1, h2⟩ | ⟨file, h1, h2, h3⟩
    · exact .inl ⟨h1.trans hsb, h2.trans hgen⟩
    · exact .inr ⟨file, hsb ▸ h1, h2.trans (congrArg (· + 1) hgen), h3⟩
  · rw [hc4, hall.lead]
    exact hsync

/-- One committed record was written, and synced if it was to be. -/
structure Wrote (db : Db) (r : Rec) (durable : Bool) (db' : Db) : Prop extends
    Appended db [(db.leadingWriteOff, r)] true db' where
  lead_eq : db'.lead = writeAt db.lead r.encode db.leadingWriteOff
  synced_eq : db'.leadingSynced = if durable then db'.lead.length else db.leadingSynced

/-- An implicit operation whose append is accepted. -/
lemma appendCommitted_wrote (h : db₁.Ready) (hroom : db₁.nextSeq.toNat + 1 < 2 ^ 64)
    (hdata : data.length ≤ dataMax) {durability : Durability}
    (hres : db.appendRecordLocked key data tombstone 0 true true (decide (durability ≠ .fireAndForget))
      = (db₁.logRecord (db₁.newRecord key data tombstone 0 true) (decide (durability ≠ .fireAndForget)),
          .ok (db₁.leadingWalId, db₁.leadingWriteOff, db₁.nextSeq))) :
    (db.appendCommitted key data tombstone durability).2 = .ok () ∧
      Wrote db₁ (db₁.newRecord key data tombstone 0 true) (decide (durability ≠ .fireAndForget))
        (db.appendCommitted key data tombstone durability).1 := by
  unfold appendCommitted
  dsimp only
  rw [hres]
  set r := db₁.newRecord key data tombstone 0 true with hr
  set sync := decide (durability ≠ .fireAndForget)
  have hlog : Logged db₁ [(db₁.leadingWriteOff, r)] (db₁.logRecord r sync) :=
    (Logged.refl h).logRecord (newRecord_valid hdata) sync rfl rfl (by decide) hroom
  have hsyn : (db₁.logRecord r sync).leadingSynced
      = if sync then (db₁.logRecord r sync).lead.length else db₁.leadingSynced := by
    rw [lead_logRecord h]
    rfl
  set db₂ := if sync then db₁.logRecord r sync
    else { db₁.logRecord r sync with dirtyUnsynced := true } with hdb₂
  have hsame : SameLog (db₁.logRecord r sync) db₂ ∧ db₂.leadingSynced = (db₁.logRecord r sync).leadingSynced ∧
      db₂.index = db₁.index ∧ db₂.disk.superblock = db₁.disk.superblock ∧
      db₂.sbGeneration = db₁.sbGeneration := by
    rw [hdb₂]
    split_ifs
    · exact ⟨SameLog.refl _, rfl, rfl, rfl, rfl⟩
    · exact ⟨sameLog_dirty _ true, rfl, rfl, rfl, rfl⟩
  obtain ⟨hs, hs1, hs2, hs3, hs4⟩ := hsame
  rw [hsyn, ← hs.lead] at hs1
  obtain ⟨happ, hsynced, hlead⟩ := (hlog.congr hs).applyOps ⟨[], _, rfl, by simp, newRecord_commit⟩ hs2 hs3 hs4
    (by rw [hs1]; split_ifs <;> simp)
    (by rw [unitEntries, map_cons, map_nil, hr, newRecord_entry]) 1
  refine ⟨rfl, happ, ?_, ?_⟩
  · rw [hlead, hs.lead, lead_logRecord h]
  · rw [hsynced, hs1, hlead]

/-- The implicit operations: refused, or one committed record. -/
lemma appendCommitted_spec (h : db.Ready) (hroom : db.nextSeq.toNat + 1 < 2 ^ 64)
    (key : UInt32) (hdata : data.length ≤ dataMax) (tombstone : Bool) (durability : Durability) :
    Stepped db (decide (durability ≠ .fireAndForget)) (match (db.appendCommitted key data tombstone durability).2 with
        | .ok () => [(key, if tombstone then none else some data)]
        | .error _ => [])
      (db.appendCommitted key data tombstone durability).1 := by
  obtain ⟨db₁, h₁, hres⟩ := appendRecordLocked_cases h key data tombstone 0 true true
    (decide (durability ≠ .fireAndForget))
  replace h₁ : db₁ = db ∨ Rotated db db₁ := h₁.imp_right And.right
  obtain ⟨hready, hseq⟩ : db₁.Ready ∧ db₁.nextSeq = db.nextSeq := by
    rcases h₁ with rfl | hr
    · exact ⟨h, rfl⟩
    · exact ⟨hr.ready h.seq_pos, hr.nextSeq⟩
  rcases hres with ⟨e, hres⟩ | hres
  · unfold appendCommitted
    dsimp only
    rw [hres]
    exact Stepped.refused hready h₁ _
  · obtain ⟨hok, hw⟩ := appendCommitted_wrote hready (by rw [hseq]; exact hroom) hdata hres
    rw [hok]
    refine ⟨db₁, _, true, h₁, hw.toAppended, ?_, ?_⟩
    · simp [newRecord_effect]
    · intro hd _
      rw [hw.synced_eq, if_pos hd]

/-! ### Explicit transactions -/

/-- A transaction under way: its records so far are in the log, unmarked and not indexed. -/
structure TxnOpen (db : Db) (rs : List (ℕ × Rec)) (db₁ : Db) (txn : Txn) : Prop extends
    Logged db rs db₁ where
  ops : txn.ops = db.unitEntries rs
  id : txn.txnId = if rs = [] then 0 else db.nextSeq
  unmarked : ∀ p ∈ rs, p.2.commit = false
  index : db₁.index = db.index
  superblock : db₁.disk.superblock = db.disk.superblock
  sbGeneration : db₁.sbGeneration = db.sbGeneration
  synced : db₁.leadingSynced = db.leadingSynced

lemma TxnOpen.begin (h : db.Ready) : TxnOpen db [] db { txnId := 0, ops := [] } where
  toLogged := Logged.refl h
  ops := rfl
  id := rfl
  unmarked := by simp
  index := rfl
  superblock := rfl
  sbGeneration := rfl
  synced := rfl

variable {txn : Txn}

lemma txnAppend_spec (h : TxnOpen db rs db₁ txn) (key : UInt32) (hdata : data.length ≤ dataMax) (tombstone : Bool)
    (hpos : 0 < db.nextSeq.toNat) (hroom : db₁.nextSeq.toNat + 1 < 2 ^ 64) :
    (∃ e, db₁.txnAppend txn key data tombstone = (db₁, txn, .error e)) ∨
      ∃ r db₂ txn₂, db₁.txnAppend txn key data tombstone = (db₂, txn₂, .ok ()) ∧
        TxnOpen db (rs ++ [(db₁.leadingWriteOff, r)]) db₂ txn₂ ∧
        r.effect = (key, if tombstone then none else some data) ∧
        db₂.nextSeq.toNat = db₁.nextSeq.toNat + 1 := by
  have hlen : txn.ops.length = rs.length := by rw [h.ops, unitEntries, length_map]
  obtain ⟨db₁', h₁, hres⟩ := appendRecordLocked_cases h.ready key data tombstone txn.txnId false false false
  obtain rfl : db₁' = db₁ := by simpa using h₁
  rw [txnAppend]
  by_cases hmax : txn.ops.length ≥ txnMaxOps
  · rw [if_pos hmax]
    exact .inl ⟨_, rfl⟩
  · rw [if_neg hmax]
    rcases hres with ⟨e, hres⟩ | hres
    · rw [hres]
      exact .inl ⟨e, rfl⟩
    · rw [hres]
      right
      have hne : db.nextSeq ≠ 0 := by
        intro h0
        simp [h0] at hpos
      have hid : (if txn.txnId = 0 then db₁'.nextSeq else txn.txnId) = db.nextSeq := by
        rw [h.id]
        by_cases hrs : rs = []
        · have := h.nextSeq
          simp only [hrs] at this
          simp [hrs, UInt64.toNat_inj.mp this]
        · simp [hrs, hne]
      refine ⟨db₁'.newRecord key data tombstone txn.txnId false, _, _, rfl, { h with
        toLogged := h.toLogged.logRecord (newRecord_valid hdata) false rfl hid (by omega) hroom
        ops := ?_, id := ?_, unmarked := ?_ }, newRecord_effect, toNat_succ_uInt64 hroom⟩
      · rw [h.ops, unitEntries, unitEntries, map_append, map_cons, map_nil,
          newRecord_entry, h.leadingWalId]
      · rw [hid]
        simp
      · exact forall_mem_append.2 ⟨h.unmarked, forall_mem_singleton.2 newRecord_commit⟩

lemma txnReq_spec (h : TxnOpen db rs db₁ txn)
    (req : Req) (hpos : 0 < db.nextSeq.toNat) (hroom : db₁.nextSeq.toNat + 1 < 2 ^ 64) :
    (∃ e, db₁.txnReq txn req = (db₁, txn, .error e)) ∨ ∃ r db₂ txn₂, db₁.txnReq txn req = (db₂, txn₂, .ok ()) ∧
        TxnOpen db (rs ++ [(db₁.leadingWriteOff, r)]) db₂ txn₂ ∧ r.effect = req.effect ∧
        db₂.nextSeq.toNat = db₁.nextSeq.toNat + 1 := by
  cases req with
  | put key data createOnly =>
    rw [txnReq, txnPut]
    split_ifs with hlen
    · exact .inl ⟨_, rfl⟩
    · exact .inl ⟨_, rfl⟩
    · exact txnAppend_spec h key (by omega) false hpos hroom
  | delete key =>
    rw [txnReq, txnDelete]
    split_ifs
    · exact .inl ⟨_, rfl⟩
    · exact txnAppend_spec h key (by simp) true hpos hroom

/-- The requests of a transaction: those accepted are in the log, in order. -/
lemma txnReqs_spec (hpos : 0 < db.nextSeq.toNat) {reqs : List Req} (h : TxnOpen db rs db₁ txn)
    (hroom : db₁.nextSeq.toNat + reqs.length < 2 ^ 64) :
    ∃ rs', TxnOpen db (rs ++ rs') (db₁.txnReqs txn reqs).1 (db₁.txnReqs txn reqs).2.1 ∧
      (rs'.map fun p => p.2.effect) = (db₁.txnReqs txn reqs).2.2.map Req.effect := by
  induction reqs generalizing db₁ rs txn with
  | nil =>
    refine ⟨[], ?_, rfl⟩
    rw [append_nil]
    exact h
  | cons req reqs ih =>
    rw [length_cons] at hroom
    rcases txnReq_spec h req hpos (by omega) with ⟨e, hreq⟩ | ⟨r, db₂, txn₂, hreq, h₂, heff, hnext⟩
    · have hstep : db₁.txnReqs txn (req :: reqs) = db₁.txnReqs txn reqs := by
        rw [txnReqs, hreq]
      rw [hstep]
      exact ih h (by omega)
    · obtain ⟨rs', h', heff'⟩ := ih h₂ (by omega)
      have hstep : db₁.txnReqs txn (req :: reqs) = ((db₂.txnReqs txn₂ reqs).1,
          (db₂.txnReqs txn₂ reqs).2.1, req :: (db₂.txnReqs txn₂ reqs).2.2) := by
        rw [txnReqs, hreq]
      rw [hstep]
      refine ⟨(db₁.leadingWriteOff, r) :: rs', ?_, ?_⟩
      · simpa using h'
      · rw [map_cons, map_cons, heff, heff']

/-- A commit marks the last record and applies the transaction to the index. -/
lemma txnCommit_spec (h : TxnOpen db rs db₁ txn) (durability : Durability) :
    Stepped db (decide (durability ≠ .fireAndForget)) (rs.map fun p => p.2.effect) (db₁.txnCommit txn durability).1 ∧
      (db₁.txnCommit txn durability).2 = .ok () := by
  rcases eq_nil_or_concat rs with rfl | ⟨init, ⟨o, r⟩, rfl⟩
  · have hops : txn.ops = [] := h.ops
    rw [txnCommit, hops]
    refine ⟨⟨db, [], false, .inl rfl, ?_, rfl, by simp⟩, rfl⟩
    exact ⟨h.toLogged, by simp [Marked], h.index, .inl ⟨h.superblock, h.sbGeneration⟩, .inl h.synced⟩
  · rw [concat_eq_append] at h ⊢
    have hmark := h.toLogged.mark
    obtain ⟨b, -, hlast⟩ := h.log.append_inv
    obtain ⟨rfl, hrec, -⟩ := hlast
    have hv := recordAt_valid hrec
    have hlastop : txn.ops.getLast? = some (r.entry db.leadingWalId o) := by
      rw [h.ops]
      simp [unitEntries]
    have hid : txn.txnId = r.hdr.txnId := by
      rw [h.id, if_neg (by simp), h.txnId (o, r) (by simp)]
    have hmc : db₁.markCommittedLocked o r.hdr.key r.hdr.len r.hdr.seq txn.txnId r.tombstone
        = (db₁.setLeading (writeAt db₁.lead r.marked.hdr.encode o), .ok ()) := by
      have hpay : readAt (db₁.leadingContent.getD []) r.hdr.len.toNat (o + 40) = some r.payload :=
        (readRecord_eq_some.mp hrec).2.1
      rw [markCommittedLocked]
      simp only [hpay, hid]
      rfl
    set db₂ := db₁.setLeading (writeAt db₁.lead r.marked.hdr.encode o) with hdb₂
    have hset := h.ready.setLeading_eq (writeAt db₁.lead r.marked.hdr.encode o)
    set db₃ := if durability ≠ .fireAndForget then db₂.syncLeading
      else { db₂ with dirtyUnsynced := true } with hdb₃
    have h₃ : SameLog db₂ db₃ ∧ db₃.index = db.index ∧
        db₃.disk.superblock = db.disk.superblock ∧ db₃.sbGeneration = db.sbGeneration ∧
        db₃.leadingSynced = if durability ≠ .fireAndForget then db₂.lead.length
          else db.leadingSynced := by
      rw [hdb₃]
      split_ifs
      · refine ⟨sameLog_syncLeading _, ?_, ?_, ?_, rfl⟩ <;> rw [hdb₂, hset]
        exacts [h.index, h.superblock, h.sbGeneration]
      · refine ⟨sameLog_dirty _ true, ?_, ?_, ?_, ?_⟩ <;> rw [hdb₂, hset]
        exacts [h.index, h.superblock, h.sbGeneration, h.synced]
    obtain ⟨hs, hs1, hs2, hs3, hs4⟩ := h₃
    rw [← hs.lead] at hs4
    have hres : db₁.txnCommit txn durability = ((db₃.applyOps txn.ops).countAppends txn.ops.length, .ok ()) := by
      rw [txnCommit, hlastop]
      simp only [Rec.entry, hmc]
      rfl
    have hops : txn.ops = db.unitEntries (init ++ [(o, r.marked)]) := by
      rw [h.ops]
      simp [unitEntries, hv.marked_entry]
    obtain ⟨happ, hsynced, hlead⟩ := (hmark.congr hs).applyOps
      ⟨init, (o, r.marked), rfl, fun p hp => h.unmarked p (mem_append_left _ hp), r.marked_commit⟩ hs1 hs2 hs3
      (by rw [hs4]; split_ifs <;> simp) hops txn.ops.length
    rw [hres]
    refine ⟨⟨db, init ++ [(o, r.marked)], true, .inl rfl, happ, by simp, ?_⟩, rfl⟩
    intro hd _
    rw [hsynced, hs4, hlead, if_pos (of_decide_eq_true hd)]

lemma TxnOpen.rollback (h : TxnOpen db rs db₁ txn) : Appended db rs false db₁ :=
  ⟨h.toLogged, h.unmarked, h.index, .inl ⟨h.superblock, h.sbGeneration⟩, .inl h.synced⟩

lemma mutateReq_spec (h : db.Ready) (hroom : db.nextSeq.toNat + 1 < 2 ^ 64) (req : Req) (durability : Durability) :
    Stepped db (decide (durability ≠ .fireAndForget)) (match (db.mutateReq req durability).2 with
        | .ok () => [req.effect]
        | .error _ => [])
      (db.mutateReq req durability).1 := by
  have hrefused := Stepped.refused h (.inl rfl) (decide (durability ≠ .fireAndForget))
  cases req with
  | put key data createOnly =>
    simp only [mutateReq, putKeyDur]
    split_ifs with hlen
    · exact hrefused
    · exact hrefused
    · exact hrefused
    · exact hrefused
    · exact appendCommitted_spec h hroom key (by omega) false durability
  | delete key =>
    simp only [mutateReq, deleteKeyDur]
    split_ifs
    · exact hrefused
    · exact hrefused
    · exact hrefused
    · exact appendCommitted_spec h hroom key (by simp) true durability

lemma flush_spec (h : db.Ready) : Appended db [] false db.flush := by
  have hfd : db.leadingFd ≠ .closed := by simp [h.linked]
  unfold flush
  by_cases hd : db.dirtyUnsynced = true
  · rw [if_pos hd]
    rw [if_neg hfd]
    have hs := (sameLog_syncLeading db).trans (sameLog_dirty _ false)
    exact ⟨(Logged.refl h).congr hs, by simp [Marked], rfl, .inl ⟨rfl, rfl⟩, .inr (by rw [hs.lead]; rfl)⟩
  · rw [if_neg hd]
    exact Appended.refl h

end Db

/-- All that an operation other than a checkpoint can do. -/
theorem Db.step_cases (h : db.Ready) {op : Op} (hroom : db.Room op) (hop : op ≠ .checkpoint) :
    Stepped db op.durable ((db.step op).2.map Req.effect) (db.step op).1 := by
  cases op with
  | mutate req durability =>
    have := mutateReq_spec h hroom.2 req durability
    simp only [step]
    cases hres : db.mutateReq req durability with
    | mk db' res =>
      rw [hres] at this
      cases res with
      | ok _ => exact this
      | error _ => exact this
  | txn reqs commit =>
    simp only [step]
    cases hb : db.txnBegin with
    | error e => exact Stepped.refused h (.inl rfl) _
    | ok txn =>
      obtain rfl : txn = { txnId := 0, ops := [] } := by
        unfold txnBegin at hb
        split_ifs at hb
        cases hb
        rfl
      obtain ⟨rs, hopen, heff⟩ := txnReqs_spec h.seq_pos (TxnOpen.begin h) hroom.2
      rw [nil_append] at hopen
      cases commit with
      | none =>
        exact ⟨db, rs, false, .inl rfl, hopen.rollback, rfl, by simp⟩
      | some durability =>
        obtain ⟨hst, hok⟩ := txnCommit_spec hopen durability
        rw [heff] at hst
        dsimp only
        cases hres : (db.txnReqs { txnId := 0, ops := [] } reqs).1.txnCommit
            (db.txnReqs { txnId := 0, ops := [] } reqs).2.1 durability with
        | mk db' res =>
          rw [hres] at hst hok
          cases hok
          exact hst
  | checkpoint => exact absurd rfl hop
  | flush => exact ⟨db, [], false, .inl rfl, flush_spec h, rfl, by simp⟩

end Picowal
