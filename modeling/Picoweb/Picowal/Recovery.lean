import Picoweb.Picowal.Fresh

/-!
# Recovery

Opening a volume scans every file the directory holds, so the index it builds knows exactly the
committed versions of the directory, whatever the order of the scan; and the engine resumes after the
last commit of the leading segment.
-/

namespace Picowal

open ByteFile List

def fileRecs (f : Option Bytes) : List (ℕ × Rec) :=
  match f with
  | none => []
  | some f => walk f f.length segDataStart

namespace Disk

def versions (disk : Disk) : Set IndexEntry :=
  {e | e ∈ fileEntries baseSegId disk.base ∨ ∃ id, e ∈ fileEntries id (disk.wal id)}

def records (disk : Disk) : Set Rec :=
  {r | ∃ off, (off, r) ∈ fileRecs disk.base ∨ ∃ id, (off, r) ∈ fileRecs (disk.wal id)}

end Disk

/-! ### Scanning the volume -/

namespace VolumeScan

lemma file_index (acc : VolumeScan) (segId : UInt32) (f : Option Bytes) :
    (acc.file segId f).index = (fileEntries segId f).foldl Index.upsert acc.index := by
  cases f with
  | none => rfl
  | some f =>
    simp only [file, fileEntries]
    by_cases hlen : segDataStart < f.length
    · rw [if_pos hlen]
      exact (scanFileRange_eq f segId segDataStart f.length acc.index acc.schemaGen).1
    · rw [if_neg hlen, segEntries, walk_of_lt (by omega)]
      rfl

/-- The running maximum is the highest seq met so far. -/
lemma file_maxSeq_le {acc : VolumeScan} {segId : UInt32} {f : Option Bytes} {n : ℕ} :
    (acc.file segId f).overallMaxSeq.toNat ≤ n ↔
      acc.overallMaxSeq.toNat ≤ n ∧ ∀ p ∈ fileRecs f, p.2.hdr.seq.toNat ≤ n := by
  cases f with
  | none => simp [file, fileRecs]
  | some f =>
    simp only [file, fileRecs]
    by_cases hlen : segDataStart < f.length
    · rw [if_pos hlen, Frame.toNat_max_le,
        (scanFileRange_eq f segId segDataStart f.length acc.index acc.schemaGen).2.2, frame_maxSeq_le]
    · rw [if_neg hlen, walk_of_lt (by omega)]
      simp

def files (acc : VolumeScan) (ids : List UInt32) (wal : UInt32 → Option Bytes) : VolumeScan :=
  ids.foldl (fun acc id => acc.file id (wal id)) acc

lemma files_index (acc : VolumeScan) (ids : List UInt32) (wal : UInt32 → Option Bytes) : (acc.files ids wal).index
      = (ids.flatMap fun id => fileEntries id (wal id)).foldl Index.upsert acc.index := by
  induction ids generalizing acc with
  | nil => rfl
  | cons id ids ih =>
    rw [flatMap_cons, foldl_append, ← file_index]
    exact ih _

lemma files_maxSeq_le {acc : VolumeScan} {ids : List UInt32} {wal : UInt32 → Option Bytes} {n : ℕ} :
    (acc.files ids wal).overallMaxSeq.toNat ≤ n ↔
      acc.overallMaxSeq.toNat ≤ n ∧ ∀ id ∈ ids, ∀ p ∈ fileRecs (wal id), p.2.hdr.seq.toNat ≤ n := by
  induction ids generalizing acc with
  | nil => simp [files]
  | cons id ids ih => rw [files, foldl_cons, ← files, ih, file_maxSeq_le, forall_mem_cons, and_assoc]

end VolumeScan

lemma length_of_readFileHdr {f : Bytes} {segId : UInt32} {h : FileHdr}
    (hf : readFileHdr f segId = some h) : 512 ≤ f.length := by
  by_contra hlt
  have hnone : readAt f 512 0 = none := readAt_eq_none (by decide) (by omega)
  simp [readFileHdr, hnone] at hf

variable {disk : Disk}

namespace Db

/-- What `load_or_format` hands to the scan. -/
structure Loaded (db : Db) : Prop extends Laid db where
  linked : db.leadingFd = .linked
  file : db.disk.wal db.leadingWalId = some db.lead
  seq_pos : 0 < db.nextSeq.toNat

/-- Base, sealed segments and the whole leading segment are all the directory has. -/
lemma Laid.mem_disk_versions {db : Db} (h : db.Laid) (hfile : db.disk.wal db.leadingWalId = some db.lead)
    {e : IndexEntry} : e ∈ db.disk.versions ↔ e ∈ db.settled ∨ e ∈ segEntries db.leadingWalId db.lead := by
  have hlead : fileEntries db.leadingWalId (db.disk.wal db.leadingWalId) = segEntries db.leadingWalId db.lead := by
    rw [hfile]
    rfl
  constructor
  · rintro (he | ⟨id, he⟩)
    · exact .inl (.inl he)
    · obtain ⟨b, -, hb, -⟩ := mem_fileEntries he
      rcases h.walId id (by rw [hb]; rfl) with hs | rfl
      · exact .inl (.inr (mem_flatMap.mpr ⟨id, hs, he⟩))
      · exact .inr (hlead ▸ he)
  · rintro ((he | he) | he)
    · exact .inl he
    · obtain ⟨id, -, he⟩ := mem_flatMap.mp he
      exact .inr ⟨id, he⟩
    · exact .inr ⟨db.leadingWalId, hlead.symm ▸ he⟩

/-- An engine that has nothing committed past its write offset holds the directory's versions. -/
lemma Inv.disk_versions {db : Db} (hi : db.Inv) (hinert : db.Inert) : db.disk.versions = db.versions := by
  ext e
  rw [hi.toLaid.mem_disk_versions hi.file, hi.segEntries_lead hinert]
  rfl

/-- A committed version is that of a record. -/
lemma disk_versions_seq {n : ℕ} (h : ∀ r ∈ disk.records, r.hdr.seq.toNat < n)
    {e : IndexEntry} (he : e ∈ disk.versions) : e.stamp < n := by
  have hfile : ∀ {segId f}, e ∈ fileEntries segId f → ∃ p ∈ fileRecs f, e.seq = p.2.hdr.seq := by
    intro segId f he
    cases f with
    | none => simp [fileEntries] at he
    | some f =>
      obtain ⟨p, hp, rfl⟩ := mem_frame_applied he
      exact ⟨p, hp, rfl⟩
  rcases he with he | ⟨id, he⟩
  · obtain ⟨p, hp, hs⟩ := hfile he
    rw [IndexEntry.stamp, hs]
    exact h p.2 ⟨p.1, .inl hp⟩
  · obtain ⟨p, hp, hs⟩ := hfile he
    rw [IndexEntry.stamp, hs]
    exact h p.2 ⟨p.1, .inr ⟨id, hp⟩⟩

/-- The scan changes the index and the counters only. -/
lemma scanVolume_eq {db : Db} (hcontent : db.leadingContent = some db.lead) : ∃ gen m, scanVolume db =
      { db with
        index := ((db.baseEntries ++ db.sealedEntries) ++
          segEntries db.leadingWalId db.lead).foldl Index.upsert Index.clear
        schemaGen := gen
        leadingWriteOff :=
          (frame db.leadingWalId segDataStart (walk db.lead db.lead.length segDataStart)).committedEnd
        nextSeq := if m + 1 > db.nextSeq then m + 1 else db.nextSeq } ∧
      ∀ n, m.toNat ≤ n ↔ ((∀ p ∈ fileRecs db.disk.base, p.2.hdr.seq.toNat ≤ n) ∧
        ∀ id ∈ db.sealedWals, ∀ p ∈ fileRecs (db.disk.wal id), p.2.hdr.seq.toNat ≤ n) ∧
        ∀ p ∈ fileRecs (some db.lead), p.2.hdr.seq.toNat ≤ n := by
  set acc₀ : VolumeScan := { index := Index.clear, schemaGen := db.schemaGen, overallMaxSeq := 0 }
    with hacc₀
  set acc₁ := acc₀.file baseSegId db.disk.base with hacc₁
  set acc₂ := acc₁.files db.sealedWals db.disk.wal with hacc₂
  set st := scanFileRange db.lead db.leadingWalId segDataStart db.lead.length acc₂.index acc₂.schemaGen with hst
  obtain ⟨s1, s2, s3⟩ := scanFileRange_eq db.lead db.leadingWalId segDataStart db.lead.length
    acc₂.index acc₂.schemaGen
  have hindex : st.index = ((db.baseEntries ++ db.sealedEntries) ++
      segEntries db.leadingWalId db.lead).foldl Index.upsert Index.clear := by
    rw [hst, s1, foldl_append, foldl_append, VolumeScan.files_index, VolumeScan.file_index]
    rfl
  refine ⟨st.schemaGen, if st.maxSeq > acc₂.overallMaxSeq then st.maxSeq else acc₂.overallMaxSeq, ?_, ?_⟩
  · rw [← hindex, ← s2]
    simp only [scanVolume, hcontent]
    rfl
  · intro n
    rw [Frame.toNat_max_le, s3, frame_maxSeq_le, VolumeScan.files_maxSeq_le,
      VolumeScan.file_maxSeq_le, and_iff_right (show acc₀.overallMaxSeq.toNat ≤ n from Nat.zero_le n)]
    rfl

section Scan

variable {db : Db} (hl : db.Loaded)

include hl

lemma Loaded.content : db.leadingContent = some db.lead := by
  simp [leadingContent, hl.linked, hl.file]

lemma Loaded.start_le : segDataStart ≤ db.lead.length := by
  obtain ⟨h, hh⟩ := hl.leadHdr
  exact length_of_readFileHdr hh

omit hl in
lemma scanVolume_same (db : Db) : (scanVolume db).disk = db.disk ∧ (scanVolume db).leadingFd = db.leadingFd ∧
      (scanVolume db).leadingWalId = db.leadingWalId ∧
      (scanVolume db).sealedWals = db.sealedWals :=
  ⟨rfl, rfl, rfl, rfl⟩

omit hl in
lemma lead_scanVolume (db : Db) : (scanVolume db).lead = db.lead := rfl

/-- The index knows the versions of the directory. -/
lemma Loaded.represents_scanVolume : (scanVolume db).index.Represents db.disk.versions := by
  obtain ⟨gen, m, heq, -⟩ := scanVolume_eq hl.content
  rw [heq]
  refine (Index.represents_clear.foldl_upsert _).congr ?_
  ext e
  rw [hl.toLaid.mem_disk_versions hl.file]
  simp [settled, or_assoc]

/-- The engine resumes after the last commit of the leading segment. -/
lemma Loaded.scanVolume_log : IsLog db.lead segDataStart (scanVolume db).leadRecs (scanVolume db).leadingWriteOff ∧
      (scanVolume db).leadFrame.pending = [] ∧
      (scanVolume db).leadFrame.applied = segEntries db.leadingWalId db.lead ∧
      (scanVolume db).Inert := by
  obtain ⟨gen, m, heq, -⟩ := scanVolume_eq hl.content
  have hlead := lead_scanVolume db
  have hid : (scanVolume db).leadingWalId = db.leadingWalId := (scanVolume_same db).2.2.1
  have hoff : (scanVolume db).leadingWriteOff = (frame db.leadingWalId segDataStart
      (walk db.lead db.lead.length segDataStart)).committedEnd := by rw [heq]
  obtain ⟨fin, hfin⟩ := isLog_walk (f := db.lead) le_rfl segDataStart
  obtain ⟨ps, qs, hsplit, hps, -, hqs, hpend, happ⟩ := @frame_split _ db.leadingWalId _ _ _ hfin
  have hle := hps.le_length hl.start_le
  have hrecs : (scanVolume db).leadRecs = ps := by
    rw [leadRecs, hoff]
    exact hps.walk_eq_self hle
  have hframe : (scanVolume db).leadFrame = frame db.leadingWalId segDataStart ps := by
    rw [leadFrame, hrecs, hid]
  have hrest : walk db.lead db.lead.length (scanVolume db).leadingWriteOff = qs := by
    have := hps.walk_eq hle le_rfl
    rw [hsplit] at this
    rw [hoff, hsplit]
    exact (append_cancel_left this).symm
  refine ⟨?_, ?_, ?_, ?_⟩
  · rw [hrecs, hoff]
    exact hps
  · rw [hframe]
    exact hpend
  · rw [hframe, happ]
    rfl
  · rw [Inert, hlead, hrest]
    exact hqs

lemma Loaded.versions_scanVolume : (scanVolume db).versions = db.disk.versions := by
  ext e
  rw [hl.toLaid.mem_disk_versions hl.file, versions, hl.scanVolume_log.2.2.1]
  rfl

/-- With no seq at its last value, the next seq is past all records of the directory. -/
lemma Loaded.nextSeq_scanVolume (hseq : ∀ r ∈ db.disk.records, r.hdr.seq.toNat + 1 < 2 ^ 64) :
    db.nextSeq.toNat ≤ (scanVolume db).nextSeq.toNat ∧
      ∀ r ∈ db.disk.records, r.hdr.seq.toNat < (scanVolume db).nextSeq.toNat := by
  obtain ⟨gen, m, heq, hle⟩ := scanVolume_eq hl.content
  obtain ⟨⟨hbase, hwal⟩, hlead⟩ := (hle _).1 le_rfl
  have hrec : ∀ id, ∀ p ∈ fileRecs (db.disk.wal id), p.2.hdr.seq.toNat ≤ 2 ^ 64 - 2 := by
    intro id p hp
    have := hseq p.2 ⟨p.1, .inr ⟨id, hp⟩⟩
    omega
  have hm : m.toNat ≤ 2 ^ 64 - 2 := by
    refine (hle _).2 ⟨⟨fun p hp => ?_, fun id _ => hrec id⟩, ?_⟩
    · have := hseq p.2 ⟨p.1, .inl hp⟩
      omega
    · rw [← hl.file]
      exact hrec _
  have hsucc : (m + 1).toNat = m.toNat + 1 := toNat_succ_uInt64 (by omega)
  have hmax : db.nextSeq.toNat ≤ (scanVolume db).nextSeq.toNat ∧ m.toNat < (scanVolume db).nextSeq.toNat := by
    rw [heq, ← Nat.succ_le_iff, Nat.succ_eq_add_one, ← hsucc]
    exact Frame.toNat_max_le.1 le_rfl
  refine ⟨hmax.1, ?_⟩
  rintro r ⟨o, hr | ⟨id, hr⟩⟩
  · exact (hbase _ hr).trans_lt hmax.2
  · cases hw : db.disk.wal id with
    | none =>
      rw [hw] at hr
      simp [fileRecs] at hr
    | some f =>
      rcases hl.walId id (by rw [hw]; rfl) with hs | rfl
      · exact (hwal id hs _ hr).trans_lt hmax.2
      · rw [hl.file] at hr
        exact (hlead _ hr).trans_lt hmax.2

/-- Recovery establishes the invariant. -/
theorem Loaded.inv_scanVolume (hseq : ∀ r ∈ db.disk.records, r.hdr.seq.toNat + 1 < 2 ^ 64) : (scanVolume db).Inv := by
  obtain ⟨hdisk, hfd, hid, hsealed⟩ := scanVolume_same db
  obtain ⟨hlog, hpend, happ, -⟩ := hl.scanVolume_log
  obtain ⟨hnext, hrec⟩ := hl.nextSeq_scanVolume hseq
  have hlead := lead_scanVolume db
  refine { linked := hfd.trans hl.linked, file := ?_, off_le := ?_
           seq_pos := hl.seq_pos.trans_le hnext, leadLog := hlog
           toLaid := ⟨hl.leadPos, hl.leadHdr, hl.baseHdr, hl.sealedLt, hl.walId⟩
           represents := ?_, seq := ?_, fresh := ?_ }
  · rw [hlead, hdisk, hid, hl.file]
  · exact hlog.le_length hl.start_le
  · rw [hl.versions_scanVolume]
    exact hl.represents_scanVolume
  · intro e he
    rw [hl.versions_scanVolume] at he
    exact disk_versions_seq hrec he
  · intro t _
    exact .inl hpend

end Scan

end Db

/-! ### Mounting -/

lemma sbSlot_valid {file : Bytes} {slot : ℕ} {sb : Superblock} (h : sbSlot file slot = some sb) :
    sbSlotValid sb = true := by
  unfold sbSlot at h
  split at h
  · cases h
  · dsimp only at h
    split_ifs at h with hv
    cases h
    exact hv

/-- The winner is one of the valid slots, and no other valid one has a higher generation. -/
lemma sbWinner_cases (disk : Disk) :
    (sbWinner disk = none ∧ ∀ f, disk.superblock = some f → ∀ slot < sbSlots, sbSlot f slot = none) ∨
      ∃ f w, disk.superblock = some f ∧ sbWinner disk = some w ∧
        (∃ slot < sbSlots, sbSlot f slot = some w) ∧ ∀ slot sb, slot < sbSlots →
          sbSlot f slot = some sb → sb.generation ≤ w.generation := by
  simp only [sbWinner]
  cases hf : disk.superblock with
  | none => simp
  | some f =>
    all_goals grind [UInt64.le_refl, UInt64.le_total]

lemma sbWinner_pos {sb : Superblock} (h : sbWinner disk = some sb) :
    0 < sb.leadingWalId.toNat ∧ 0 < sb.nextSeq.toNat := by
  obtain ⟨hnone, -⟩ | ⟨f, w, -, hw, ⟨slot, -, hslot⟩, -⟩ := sbWinner_cases disk
  · rw [hnone] at h
    cases h
  · rw [h] at hw
    cases hw
    have hv := sbSlot_valid hslot
    simp only [sbSlotValid, Bool.and_eq_true, decide_eq_true_eq] at hv
    exact ⟨UInt32.le_iff_toNat_le.mp hv.1.1.2, UInt64.le_iff_toNat_le.mp hv.1.2⟩

variable {names : List UInt32}

/-- The WAL files found are the names read, sorted; the last is the greatest. -/
lemma discoverWalIds_spec (hlen : names.length ≤ maxWalIds) : (discoverWalIds names).Perm names ∧
      (discoverWalIds names).Pairwise fun a b => a.toNat ≤ b.toNat := by
  have htake : names.take maxWalIds = names := take_of_length_le hlen
  unfold discoverWalIds
  rw [htake]
  refine ⟨mergeSort_perm _ _, ?_⟩
  have hs := @pairwise_mergeSort UInt32 (fun a b => decide (a ≤ b)) (fun a b c hab hbc => by
      simp only [decide_eq_true_eq] at *
      exact UInt32.le_trans hab hbc)
    (fun a b => by
      simp only [Bool.or_eq_true, decide_eq_true_eq]
      exact UInt32.le_total a b) names
  exact hs.imp fun h => UInt32.le_iff_toNat_le.mp (of_decide_eq_true h)

variable {lead : UInt32}

/-- The greatest name is found last. -/
lemma discoverWalIds_last (hlen : names.length ≤ maxWalIds)
    (hmem : lead ∈ names) (hle : ∀ id ∈ names, id.toNat ≤ lead.toNat) :
    ∃ init, discoverWalIds names = init ++ [lead] := by
  obtain ⟨hperm, hsorted⟩ := discoverWalIds_spec hlen
  have hleadmem := hperm.mem_iff.mpr hmem
  rcases eq_nil_or_concat (discoverWalIds names) with hnil | ⟨init, last, hcat⟩
  · rw [hnil] at hleadmem
    simp at hleadmem
  · rw [concat_eq_append] at hcat
    refine ⟨init, ?_⟩
    rw [hcat, append_cancel_left_eq, singleton_inj, ← UInt32.toNat_inj]
    apply le_antisymm
    · exact hle last (hperm.mem_iff.mp (by rw [hcat]; simp))
    · rw [hcat, pairwise_append] at hsorted
      rw [hcat, mem_append, mem_singleton] at hleadmem
      rcases hleadmem with hm | rfl
      · exact hsorted.2.2 lead hm last (mem_singleton_self last)
      · exact le_rfl

/-- The directory holds a volume whose leading segment is `lead`. -/
structure Disk.Mountable (disk : Disk) (lead : UInt32) : Prop where
  sb : ∃ sb, sbWinner disk = some sb ∧ sb.leadingWalId.toNat ≤ lead.toNat
  leadFile : ∃ f h, disk.wal lead = some f ∧ readFileHdr f lead = some h
  baseFile : ∃ f h, disk.base = some f ∧ readFileHdr f baseSegId = some h
  walLe : ∀ id, (disk.wal id).isSome → id.toNat ≤ lead.toNat
  strayLe : ∀ id ∈ disk.strays, id.toNat ≤ lead.toNat

/-- Ids of up to eight digits are read off their names as they are. -/
lemma map_scannedWalId {ids : List UInt32} (h : ∀ id ∈ ids, id.toNat < 10 ^ 8) : ids.map scannedWalId = ids := by
  conv_rhs => rw [← map_id ids]
  apply map_congr_left
  intro x hx
  have hlt : x < 100000000 := UInt32.lt_iff_toNat_lt.mpr (h x hx)
  simp [scannedWalId, hlt]

/-- An open whose outcome passes a test. -/
lemma Db.exists_open {want : UInt64} {format : Bool} {p : Db → Prop}
    (h : ∃ db ∈ (Db.open disk names want format).toOption, p db) :
    ∃ db, Db.open disk names want format = .ok db ∧ p db := by
  cases hopen : Db.open disk names want format with
  | error e => simp [hopen, Except.toOption] at h
  | ok db => exact ⟨db, rfl, by simpa [hopen, Except.toOption] using h⟩

/-- The files of a directory, in ascending order. -/
def Disk.walIds (disk : Disk) (lead : UInt32) : List UInt32 :=
  ((List.range (lead.toNat + 1)).map UInt32.ofNat).filter fun id => (disk.wal id).isSome

/-- Ids of at most eight digits list themselves. -/
lemma Disk.Mountable.listing (h : disk.Mountable lead) (hlead : lead.toNat < 10 ^ 8)
    (hstrays : disk.strays = []) {ids : List UInt32} (hnd : ids.Nodup)
    (hids : ∀ id, id ∈ ids ↔ (disk.wal id).isSome) : disk.Listing ids := by
  refine ⟨ids, hnd, hids, ?_⟩
  rw [map_scannedWalId fun id hid => (h.walLe id ((hids id).mp hid)).trans_lt hlead, hstrays, append_nil]

lemma Disk.Mountable.listing_walIds (h : disk.Mountable lead) (hstrays : disk.strays = [])
    (hlead : lead.toNat < 10 ^ 8 := by decide) : disk.Listing (disk.walIds lead) := by
  refine h.listing hlead hstrays ((List.Nodup.map_on ?_ nodup_range).filter _) fun id => ?_
  · intro i hi j hj heq
    rw [mem_range] at hi hj
    have := congrArg UInt32.toNat heq
    rw [UInt32.toNat_ofNat', UInt32.toNat_ofNat'] at this
    omega
  · simp only [walIds, mem_filter, mem_map, mem_range, and_iff_right_iff_imp]
    intro hid
    exact ⟨id.toNat, Nat.lt_succ_of_le (h.walLe id hid), UInt32.ofNat_toNat⟩

lemma Disk.Mountable.lead_unique {lead' : UInt32} (h : disk.Mountable lead)
    (h' : disk.Mountable lead') : lead = lead' := by
  obtain ⟨f, -, hf, -⟩ := h.leadFile
  obtain ⟨f', -, hf', -⟩ := h'.leadFile
  rw [← UInt32.toNat_inj]
  apply le_antisymm
  · exact h'.walLe lead (by rw [hf]; rfl)
  · exact h.walLe lead' (by rw [hf']; rfl)

/-- The directory is within what `load_or_format` can list: its id array holds all names, and no id
has more than eight digits. -/
structure Disk.Listable (disk : Disk) (names : List UInt32) : Prop where
  listing : disk.Listing names
  length : names.length ≤ maxWalIds
  digits : ∀ id, (disk.wal id).isSome → id.toNat < 10 ^ 8

lemma Disk.Listable.mem_names (h : disk.Listable names)
    {id : UInt32} : id ∈ names ↔ (disk.wal id).isSome ∨ id ∈ disk.strays := by
  obtain ⟨ids, -, hids, hperm⟩ := h.listing
  have hscan := map_scannedWalId fun id hid => h.digits id ((hids id).mp hid)
  rw [hperm.mem_iff, hscan, mem_append, hids]

/-- The state a mounted volume is scanned from. -/
structure Db.MountedFrom (db : Db) (disk : Disk) (lead : UInt32) : Prop extends Loaded db where
  disk_eq : db.disk = disk
  lead_eq : db.leadingWalId = lead
  sb : ∃ sb, sbWinner disk = some sb ∧ db.segmentBytes = sb.segmentBytes ∧
    db.nextSeq = sb.nextSeq ∧ db.sbGeneration = sb.generation
  sealedWal : ∀ id ∈ db.sealedWals, (disk.wal id).isSome ∨ id ∈ disk.strays
  synced : db.leadingSynced = segDataStart
  writable : db.readOnly = false
  unfenced : db.fence = none
  unacked : db.acks = []

/-- The volume a superblock and a listing lead to. -/
lemma loadOrFormat_eq {init : List UInt32} {sb : Superblock}
    {bf lf : Bytes} {bh lh : FileHdr} (hsb : sbWinner disk = some sb) (hids : discoverWalIds names = init ++ [lead])
    (hle : sb.leadingWalId.toNat ≤ lead.toNat) (hbf : disk.base = some bf)
    (hbh : readFileHdr bf baseSegId = some bh) (hlf : disk.wal lead = some lf)
    (hlh : readFileHdr lf lead = some lh) {want : UInt64} (hwant : want % 512 = 0) (format : Bool) :
    loadOrFormat disk names want format
      = .ok (loadedDb disk sb bh bf lead (init.filter fun id => id != lead).reverse) := by
  have hlead : (if lead > sb.leadingWalId then lead else sb.leadingWalId) = lead := by
    split_ifs with hgt
    · rfl
    · have := UInt32.le_iff_toNat_le.mp (UInt32.not_lt.mp hgt)
      rw [← UInt32.toNat_inj]
      omega
  have hwant' : (if want = 0 then defaultSegmentBytes else want) % 512 = 0 := by
    split_ifs
    · decide
    · exact hwant
  simp only [loadOrFormat, hwant', ne_eq, not_true, if_false, hsb, loadVolume, hids,
    List.getLast?_concat, hlead, hbf, hbh, hlf, hlh, dropLast_concat]

/-- What a successful load has found. -/
lemma loadVolume_ok {sb : Superblock} {db : Db} (h : loadVolume disk names sb = .ok db) :
    ∃ last bf bh lf lh, (discoverWalIds names).getLast? = some last ∧
      disk.base = some bf ∧ readFileHdr bf baseSegId = some bh ∧
      disk.wal db.leadingWalId = some lf ∧ readFileHdr lf db.leadingWalId = some lh ∧
      db.leadingWalId = (if last > sb.leadingWalId then last else sb.leadingWalId) ∧
      db.disk = disk ∧ db.sbGeneration = sb.generation := by
  unfold loadVolume at h
  dsimp only at h
  split at h <;> try cases h
  rename_i last hlast
  split at h <;> try cases h
  rename_i bf hbf
  split at h <;> try cases h
  rename_i bh hbh
  split at h <;> try cases h
  rename_i lf hlf
  split at h <;> cases h
  rename_i lh hlh
  exact ⟨last, bf, bh, lf, lh, hlast, hbf, hbh, hlf, hlh, rfl, rfl, rfl⟩

/-- A directory that holds a volume and can be listed is loaded with that leading segment. -/
theorem Disk.Mountable.load (h : disk.Mountable lead)
    (hn : disk.Listable names) {want : UInt64} (hwant : want % 512 = 0) (format : Bool) :
    ∃ db, loadOrFormat disk names want format = .ok db ∧ db.MountedFrom disk lead := by
  obtain ⟨sb, hsb, hsble⟩ := h.sb
  obtain ⟨lf, lh, hlf, hlh⟩ := h.leadFile
  obtain ⟨bf, bh, hbf, hbh⟩ := h.baseFile
  obtain ⟨hperm, -⟩ := discoverWalIds_spec hn.length
  have hmem : ∀ {id}, id ∈ discoverWalIds names ↔ (disk.wal id).isSome ∨ id ∈ disk.strays := by
    intro id
    rw [hperm.mem_iff, hn.mem_names]
  have hle : ∀ id ∈ discoverWalIds names, id.toNat ≤ lead.toNat := by
    intro id hid
    rcases hmem.mp hid with hid | hid
    · exact h.walLe id hid
    · exact h.strayLe id hid
  -- the greatest id is the leading one
  obtain ⟨init, hids⟩ := discoverWalIds_last hn.length (hn.mem_names.mpr (.inl (by rw [hlf]; rfl)))
    fun id hid => hle id (hperm.mem_iff.mpr hid)
  have hpos := sbWinner_pos hsb
  have hsealed : ∀ {id}, id ∈ (init.filter fun id => id != lead).reverse ↔ id ∈ init ∧ id ≠ lead := by
    simp
  have hload := loadOrFormat_eq hsb hids hsble hbf hbh hlf hlh hwant format
  have hcontent : (loadedDb disk sb bh bf lead (init.filter fun id => id != lead).reverse).lead = lf := by
    simp [Db.lead, Db.leadingContent, loadedDb, hlf]
  refine ⟨_, hload, ?_⟩
  refine { leadPos := ?_, leadHdr := ⟨lh, by rwa [hcontent]⟩, baseHdr := ⟨bf, bh, hbf, hbh⟩, sealedLt := ?_
           walId := ?_, linked := rfl, file := by rwa [hcontent], seq_pos := hpos.2, disk_eq := rfl, lead_eq := rfl
           sb := ⟨sb, hsb, rfl, rfl, rfl⟩, sealedWal := ?_, synced := rfl, writable := rfl
           unfenced := rfl, unacked := rfl }
  · intro h0
    have hzero : lead = baseSegId := h0
    rw [hzero] at hsble
    have : baseSegId.toNat = 0 := rfl
    omega
  · intro id hid
    obtain ⟨hinit, hne⟩ := hsealed.mp hid
    have hlt := hle id (by rw [hids]; exact mem_append_left _ hinit)
    have : id.toNat ≠ lead.toNat := fun h => hne (UInt32.toNat_inj.mp h)
    show id.toNat < lead.toNat
    omega
  · intro id hid
    by_cases hne : id = lead
    · exact .inr hne
    · left
      apply hsealed.mpr
      have := hmem.mpr (.inl hid)
      rw [hids, mem_append, mem_singleton] at this
      exact ⟨this.resolve_right hne, hne⟩
  · intro id hid
    obtain ⟨hinit, -⟩ := hsealed.mp hid
    exact hmem.mp (by rw [hids]; exact mem_append_left _ hinit)

end Picowal
