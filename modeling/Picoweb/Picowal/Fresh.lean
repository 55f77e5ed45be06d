import Picoweb.Picowal.Fold

/-!
# Runs from a freshly formatted volume

On a volume that was formatted and never reopened the leading segment ends where the engine writes
next, and its versions are the newest. `Clean` adds this to the invariant; every operation keeps it
as long as no counter wraps.
-/

namespace Picowal

open ByteFile List

namespace Db

structure Clean (db : Db) : Prop extends Inv db where
  ordered : db.Ordered
  sealedPos : baseSegId ∉ db.sealedWals
  tight : db.lead.length = db.leadingWriteOff

lemma Clean.inert {db : Db} (h : db.Clean) : db.Inert := by
  intro p hp
  rw [h.tight, walk_of_lt (by omega)] at hp
  simp at hp

lemma Appended.clean {db db' : Db} {rs : List (ℕ × Rec)} {committed : Bool}
    (h : Appended db rs committed db') (hc : db.Clean) : db'.Clean where
  toInv := h.inv hc.toInv
  ordered := h.ordered hc.toInv hc.ordered
  sealedPos := by rw [h.sealedWals]; exact hc.sealedPos
  tight := by
    rw [h.length, hc.tight]
    exact Nat.max_eq_right h.log.le

lemma Rotated.clean {db db' : Db} (h : Rotated db db') (hc : db.Clean)
    (hroom : db.leadingWalId.toNat + 1 < 2 ^ 32) : db'.Clean where
  toInv := h.inv hc.toInv hc.inert hroom
  ordered := h.ordered
  sealedPos := h.sealedPos hc.toInv hc.sealedPos
  tight := by rw [h.lead, h.writeOff, length_newFile]

lemma Clean.folded {db : Db} (hc : db.Clean) : db.folded.Clean where
  toInv := hc.toInv.folded hc.sealedPos hc.ordered
  ordered := hc.toInv.ordered_folded hc.sealedPos hc.ordered
  sealedPos := not_mem_nil
  tight := by
    rw [hc.toInv.lead_folded]
    exact hc.tight

/-- A step without a checkpoint keeps the state clean and changes the map by what it commits. -/
lemma Stepped.clean {db db' : Db} {durable : Bool} {effects : List (UInt32 × Option Bytes)}
    (h : Stepped db durable effects db') (hc : db.Clean) (hroom : db.leadingWalId.toNat + 1 < 2 ^ 32) :
    db'.Clean ∧ db'.view = db.view.write effects := by
  obtain ⟨db₁, rs, committed, h₁, happ, rfl, -⟩ := h.cases
  rcases h₁ with rfl | hrot
  · exact ⟨happ.clean hc, happ.view_eq hc.toInv⟩
  · have hc₁ := hrot.clean hc hroom
    refine ⟨happ.clean hc₁, ?_⟩
    rw [happ.view_eq hc₁.toInv, hrot.view_eq hc.toInv hroom]

lemma Clean.checkpoint {db : Db} (hc : db.Clean) : db.checkpoint.1.Clean ∧ db.checkpoint.1.view = db.view := by
  rcases hc.toInv.checkpoint_cases hc.sealedPos with h | ⟨-, h⟩
  · rw [h]
    exact ⟨hc, rfl⟩
  · have hf := hc.folded
    have hsb := appended_writeSuperblockLocked hf.toReady
    rw [h]
    refine ⟨hsb.clean hf, ?_⟩
    rw [hsb.view_eq hf.toInv, hc.toInv.view_folded hc.sealedPos hc.ordered]
    rfl

/-- Every operation keeps the state clean and changes the map by what it commits. -/
theorem Clean.step {db : Db} (hc : db.Clean) {op : Op} (hroom : db.Room op) : (db.step op).1.Clean ∧
      (db.step op).1.view = db.view.write ((db.step op).2.map Req.effect) := by
  by_cases hop : op = .checkpoint
  · subst hop
    exact hc.checkpoint
  · exact (step_cases hc.toReady hroom hop).clean hc hroom.1

/-! ### The freshly formatted volume -/

/-- The engine on a volume it has just formatted. -/
def fresh (segmentBytes : UInt64) : Db where
  disk := formatDisk Disk.empty segmentBytes
  segmentBytes := segmentBytes
  baseGeneration := 1
  baseBytes := 0
  leadingFd := .linked
  leadingWalId := 1
  leadingWriteOff := segDataStart
  leadingSynced := segDataStart
  sealedWals := []
  nextSeq := 1
  sbGeneration := 1
  appendsSinceCheckpoint := 0
  readOnly := false
  dirtyUnsynced := false
  fence := none
  schemaGen := 0
  index := Index.clear
  acks := []
  ackQuorum := 1

lemma lead_fresh (segmentBytes : UInt64) : (fresh segmentBytes).lead = newFile 1 1 := by
  have hl : (fresh segmentBytes).leadingFd = .linked := rfl
  rw [lead_of_linked hl]
  simp [fresh, formatDisk]

/-- The only WAL file of a formatted volume is the first. -/
lemma listing_formatDisk {segmentBytes : UInt64} {names : List UInt32}
    (h : (formatDisk Disk.empty segmentBytes).Listing names) : names = [1] := by
  obtain ⟨ids, hnd, hids, hperm⟩ := h
  have hmem : ∀ id, id ∈ ids ↔ id = 1 := by
    intro id
    rw [hids]
    by_cases hid : id = 1
    · simp [formatDisk, hid]
    · simp [formatDisk, Disk.empty, hid]
  have hone : ids = [1] := by
    apply perm_singleton.mp
    rw [perm_ext_iff_of_nodup hnd (nodup_singleton 1)]
    simpa using hmem
  rw [hone] at hperm
  exact perm_singleton.mp hperm

lemma listing_format (segmentBytes : UInt64) : (formatDisk Disk.empty segmentBytes).Listing [1] := by
  refine ⟨[1], nodup_singleton 1, ?_, List.Perm.refl _⟩
  intro id
  by_cases hid : id = 1
  · simp [formatDisk, hid]
  · simp [formatDisk, Disk.empty, hid]

/-- Opening an empty directory with `format` gives the fresh state. -/
theorem open_format {segmentBytes : UInt64} (h512 : segmentBytes % 512 = 0)
    (hne : segmentBytes ≠ 0) {names : List UInt32} (hnames : (formatDisk Disk.empty segmentBytes).Listing names) :
    Db.open Disk.empty names segmentBytes true = .ok (fresh segmentBytes) := by
  obtain rfl := listing_formatDisk hnames
  have hbase := readFileHdr_newFile_self baseSegId 1
  have hlead := readFileHdr_newFile_self 1 1
  have hload : loadVolume (formatDisk Disk.empty segmentBytes) [1]
      (formatSuperblock segmentBytes) = .ok (fresh segmentBytes) := by
    have hids : discoverWalIds [1] = [1] := by simp [discoverWalIds]
    simp only [loadVolume, hids]
    simp [hbase, hlead, loadedDb, fresh, formatDisk, formatSuperblock]
  have hscan : scanVolume (fresh segmentBytes) = fresh segmentBytes := by
    have hb : (fresh segmentBytes).disk.base = some (newFile baseSegId 1) := rfl
    have hs : (fresh segmentBytes).sealedWals = [] := rfl
    have hcontent : (fresh segmentBytes).leadingContent = some (newFile 1 1) := by
      simp [fresh, leadingContent, formatDisk]
    simp only [scanVolume, hb, hs, hcontent, VolumeScan.file, length_newFile]
    rw [scanFileRange_of_lt (by simp)]
    rfl
  have hwin : sbWinner Disk.empty = none := rfl
  rw [Db.open, loadOrFormat]
  simp only [if_neg hne, h512, ne_eq, not_true, if_false, hwin, if_true, hload]
  exact congrArg Except.ok hscan

/-- The engine right after it formatted an empty directory. -/
def Formatted (db : Db) : Prop :=
  ∃ names segmentBytes, segmentBytes % 512 = 0 ∧ segmentBytes ≠ 0 ∧
    (formatDisk Disk.empty segmentBytes).Listing names ∧
    Db.open Disk.empty names segmentBytes true = .ok db

lemma Formatted.eq_fresh {db : Db} (h : db.Formatted) : ∃ segmentBytes, db = fresh segmentBytes := by
  obtain ⟨names, segmentBytes, h512, hne, hnames, hopen⟩ := h
  rw [open_format h512 hne hnames] at hopen
  exact ⟨segmentBytes, (Except.ok.inj hopen).symm⟩

lemma formatted_fresh {segmentBytes : UInt64} (h512 : segmentBytes % 512 = 0 := by decide)
    (hne : segmentBytes ≠ 0 := by decide) : (fresh segmentBytes).Formatted :=
  ⟨[1], segmentBytes, h512, hne, listing_format segmentBytes, open_format h512 hne (listing_format segmentBytes)⟩

lemma clean_fresh (segmentBytes : UInt64) : (fresh segmentBytes).Clean := by
  have hlead := lead_fresh segmentBytes
  have hrecs : (fresh segmentBytes).leadRecs = [] := walk_of_lt (by simp [fresh])
  have hframe : (fresh segmentBytes).leadFrame = Frame.start segDataStart := by
    rw [leadFrame, hrecs]
    rfl
  have hbase : (fresh segmentBytes).baseEntries = [] := by
    show segEntries baseSegId (newFile baseSegId 1) = []
    rw [segEntries, walk_of_lt (by simp)]
    rfl
  have hversions : (fresh segmentBytes).versions = ∅ := by
    have hs : (fresh segmentBytes).sealedEntries = [] := rfl
    simp [versions, settled, hbase, hs, hframe, Frame.start]
  have hseq : 0 < UInt64.toNat 1 := by decide
  have hpos : (1 : UInt32) ≠ baseSegId := by decide
  refine { linked := rfl, file := ?_, off_le := ?_, seq_pos := hseq, leadPos := hpos
           leadHdr := ⟨_, readFileHdr_newFile_self 1 1⟩, baseHdr := ⟨_, _, rfl, readFileHdr_newFile_self _ 1⟩
           sealedLt := ?_, walId := ?_, leadLog := ?_, represents := ?_, seq := ?_, fresh := ?_, ordered := ?_
           sealedPos := not_mem_nil, tight := ?_ }
  · rw [hlead]
    simp [fresh, formatDisk]
  · rw [hlead, length_newFile]
    exact le_rfl
  · intro id hid
    exact absurd hid not_mem_nil
  · intro id hid
    right
    by_contra hne
    simp [fresh, formatDisk, Disk.empty, show id ≠ 1 from hne] at hid
  · rw [hrecs]
    rfl
  · rw [hversions]
    exact Index.represents_clear
  · simp [hversions]
  · intro t _
    rw [hframe]
    exact .inl rfl
  · intro e _ e' he'
    simp [hframe, Frame.start] at he'
  · rw [hlead, length_newFile]
    rfl

lemma view_fresh (segmentBytes : UInt64) : (fresh segmentBytes).view = fun _ => none := rfl

end Db

end Picowal
