import Picoweb.Picowal.Restart

/-!
# Bytes left behind the write offset

An open rolls the write offset back to the last commit of the leading segment and leaves the bytes
behind it in place. Whatever directory was opened, a later restart gives the same answers exactly when
no walk from the write offset meets a commit-marked record in them.
-/

namespace Picowal

open ByteFile List

/-- The directory once `load_or_format` has, if it has to, formatted it. -/
def Disk.opened (disk : Disk) (wantSegmentBytes : UInt64) (format : Bool) : Disk :=
  match sbWinner disk with
  | some _ => disk
  | none =>
    if format then
      formatDisk disk (if wantSegmentBytes = 0 then defaultSegmentBytes else wantSegmentBytes)
    else disk

variable {disk : Disk}

/-- No valid slot has a higher generation than the winner. -/
lemma sbAll_of_winner {w : Superblock} (hw : sbWinner disk = some w) :
    disk.SbAll fun sb => sb.generation.toNat ≤ w.generation.toNat := by
  obtain ⟨hnone, -⟩ | ⟨f, w', hf, hw', ⟨slot, hslot, hsb⟩, hmax⟩ := sbWinner_cases disk
  · rw [hnone] at hw
    cases hw
  · rw [hw] at hw'
    cases hw'
    refine ⟨f, hf, ?_, ⟨slot, w, hslot, hsb⟩,
      fun slot sb hslot hsb => UInt64.le_iff_toNat_le.mp (hmax slot sb hslot hsb)⟩
    by_contra hlt
    have hread : readAt f 512 (slot * sectorBytes) = none := readAt_eq_none (by decide) (by omega)
    simp [sbSlot, hread] at hsb

variable {db : Db}

lemma loadOrFormat_opened {names : List UInt32} {want : UInt64} {format : Bool}
    (h : loadOrFormat disk names want format = .ok db) : ∃ sb, sbWinner (disk.opened want format) = some sb ∧
      loadVolume (disk.opened want format) names sb = .ok db := by
  unfold loadOrFormat at h
  unfold Disk.opened
  set size := if want = 0 then defaultSegmentBytes else want
  by_cases hsize : size % 512 ≠ 0
  · rw [if_pos hsize] at h
    cases h
  · rw [if_neg hsize] at h
    cases hw : sbWinner disk with
    | some w =>
      simp only [hw] at h
      exact ⟨w, hw, h⟩
    | none =>
      simp only [hw] at h
      cases format with
      | false => simp at h
      | true =>
        obtain ⟨sb, hsb, rfl⟩ := (sbAll_formatDisk disk size).winner
        simp only [if_true] at h ⊢
        exact ⟨formatSuperblock size, hsb, h⟩

/-- What a successful load says about the directory. -/
lemma loadVolume_mountable {names : List UInt32} {sb : Superblock}
    (hsb : sbWinner disk = some sb) (hn : disk.Listable names)
    (h : loadVolume disk names sb = .ok db) : ∃ lead, disk.Mountable lead := by
  obtain ⟨hperm, hsorted⟩ := discoverWalIds_spec hn.length
  obtain ⟨last, bf, bh, lf, lh, hlast, hbase, hbh, hlf, hlh, hlead, -, -⟩ := loadVolume_ok h
  obtain ⟨init, hids⟩ := getLast?_eq_some_iff.mp hlast
  have hle : last.toNat ≤ db.leadingWalId.toNat ∧ sb.leadingWalId.toNat ≤ db.leadingWalId.toNat := by
    rw [hlead]
    split_ifs with hgt
    · exact ⟨le_rfl, (UInt32.lt_iff_toNat_lt.mp hgt).le⟩
    · exact ⟨UInt32.le_iff_toNat_le.mp (UInt32.not_lt.mp hgt), le_rfl⟩
  have hname : ∀ id ∈ names, id.toNat ≤ db.leadingWalId.toNat := by
    intro id hid
    refine le_trans ?_ hle.1
    rw [← hperm.mem_iff, hids, mem_append, mem_singleton] at hid
    rw [hids, pairwise_append] at hsorted
    rcases hid with hid | rfl
    · exact hsorted.2.2 id hid last (mem_singleton_self last)
    · exact le_rfl
  exact ⟨db.leadingWalId, ⟨sb, hsb, hle.2⟩, ⟨lf, lh, hlf, hlh⟩, ⟨bf, bh, hbase, hbh⟩,
    fun id hid => hname id (hn.mem_names.mpr (.inl hid)),
    fun id hid => hname id (hn.mem_names.mpr (.inr hid))⟩

/-- An open that succeeds has scanned a mounted volume. -/
theorem Db.open_mounted {names : List UInt32} {want : UInt64} {format : Bool}
    {db₀ : Db} (hopen : Db.open disk names want format = .ok db₀) (hn : (disk.opened want format).Listable names) :
    ∃ db₁ lead, db₀ = scanVolume db₁ ∧ db₁.MountedFrom (disk.opened want format) lead ∧
      (disk.opened want format).Mountable lead := by
  cases hload : loadOrFormat disk names want format with
  | error err =>
    rw [Db.open, hload] at hopen
    cases hopen
  | ok db₁ =>
    rw [Db.open, hload] at hopen
    obtain ⟨sb, hsb, hvol⟩ := loadOrFormat_opened hload
    obtain ⟨lead, hm⟩ := loadVolume_mountable hsb hn hvol
    have hwant : (512 : UInt64) % 512 = 0 := by decide
    obtain ⟨db₂, hload₂, hdb₂⟩ := hm.load hn hwant false
    have hsame : loadOrFormat (disk.opened want format) names 512 false = .ok db₁ := by
      simp only [loadOrFormat, hsb]
      exact hvol
    rw [hsame] at hload₂
    cases hload₂
    exact ⟨db₁, lead, (Except.ok.inj hopen).symm, hdb₂, hm⟩

namespace Db

/-! ### What stays true behind a stale tail -/

/-- The parts of the state that make the next restart find the leading segment and read every version
as it is read now. A slot that names a later segment than the leading one, left by an earlier life
of the directory, is older than the engine's own. -/
structure Steady (db : Db) : Prop extends Inv db where
  ties : db.Ties
  sb : db.disk.SbAll fun sb => sb.leadingWalId.toNat ≤ db.leadingWalId.toNat ∨
    sb.generation.toNat ≤ db.sbGeneration.toNat
  strayLe : ∀ id ∈ db.disk.strays, id.toNat ≤ db.leadingWalId.toNat

/-- Recovery makes a steady state, if no two of the directory's records make a tie that reads
differently. -/
lemma MountedFrom.steady {lead : UInt32} (h : db.MountedFrom disk lead)
    (hm : disk.Mountable lead) (hseq : ∀ r ∈ disk.records, r.hdr.seq.toNat + 1 < 2 ^ 64)
    (hties : (scanVolume db).Ties) : (scanVolume db).Steady := by
  obtain ⟨hdisk, -, hlead, -⟩ := scanVolume_same db
  have hgen : (scanVolume db).sbGeneration = db.sbGeneration := by
    obtain ⟨gen, m, heq, -⟩ := scanVolume_eq h.toLoaded.content
    rw [heq]
  refine { toInv := h.toLoaded.inv_scanVolume (by rwa [h.disk_eq]), ties := hties
           sb := ?_, strayLe := ?_ }
  · obtain ⟨w, hw, -, -, hwgen⟩ := h.sb
    obtain ⟨f, hf, hlen, hex, hall⟩ := (sbAll_of_winner hw).file
    refine ⟨f, by rw [hdisk, h.disk_eq, hf], hlen, hex, ?_⟩
    intro slot sb hslot hsb
    right
    rw [hgen, hwgen]
    exact hall slot sb hslot hsb
  · rw [hdisk, h.disk_eq, hlead, h.lead_eq]
    exact hm.strayLe

lemma SbFrom.generation {db' : Db} (h : SbFrom db db') (hgen : db.sbGeneration.toNat + 1 < 2 ^ 64) :
    db.sbGeneration.toNat ≤ db'.sbGeneration.toNat ∧ db'.sbGeneration.toNat ≤ db.sbGeneration.toNat + 1 := by
  rcases h with ⟨-, heq⟩ | ⟨file, -, heq, -⟩
  · rw [heq]
    exact ⟨le_rfl, Nat.le_succ _⟩
  · rw [heq, toNat_succ_uInt64 hgen]
    exact ⟨Nat.le_succ _, le_rfl⟩

section Steps

variable {db db' : Db} {rs : List (ℕ × Rec)} {committed : Bool}

lemma Appended.steady (h : Appended db rs committed db') (hs : db.Steady)
    (hgen : db.sbGeneration.toNat + 1 < 2 ^ 64) : db'.Steady where
  toInv := h.inv hs.toInv
  ties := h.ties hs.toInv hs.ties
  sb := by
    refine h.sb.all hs.sb ?_ (.inl le_rfl) (h.inv hs.toInv).leadPos h.ready.seq_pos
    rw [h.leadingWalId]
    exact fun _ => Or.imp_right fun hle => hle.trans (h.sb.generation hgen).1
  strayLe := by
    rw [h.strays, h.leadingWalId]
    exact hs.strayLe

lemma Rotated.steady (h : Rotated db db') (hs : db.Steady) (hinert : db.Inert)
    (hroom : db.leadingWalId.toNat + 1 < 2 ^ 32) (hgen : db.sbGeneration.toNat + 1 < 2 ^ 64) : db'.Steady where
  toInv := h.inv hs.toInv hinert hroom
  ties := h.ties hs.toInv hinert hroom hs.ties
  sb := by
    refine h.sb.all hs.sb ?_ (.inl le_rfl) (h.inv hs.toInv hinert hroom).leadPos ?_
    · rw [h.leadingWalId, toNat_succ_uInt32 hroom]
      exact fun _ => Or.imp (fun hle => hle.trans (Nat.le_succ _)) fun hle => hle.trans (h.sb.generation hgen).1
    · rw [h.nextSeq]
      exact hs.seq_pos
  strayLe := by
    rw [h.strays, h.leadingWalId, toNat_succ_uInt32 hroom]
    exact fun id hid => (hs.strayLe id hid).trans (Nat.le_succ _)

end Steps

/-- A step of a run that only mutates: no counter wraps in it, and a segment it seals has nothing
committed past its end. -/
def Mutates (db : Db) (op : Op) : Prop :=
  op ≠ .checkpoint ∧ db.Room op ∧ db.sbGeneration.toNat + 2 < 2 ^ 64 ∧
    ((db.step op).1.leadingWalId ≠ db.leadingWalId → db.Inert)

lemma Mutates.generation (hr : db.Ready) {op : Op} (h : db.Mutates op) :
    (db.step op).1.sbGeneration.toNat ≤ db.sbGeneration.toNat + 2 := by
  obtain ⟨hne, hroom, hgen, -⟩ := h
  obtain ⟨db₁, rs, committed, h₁, happ, -, -⟩ := (step_cases hr hroom hne).cases
  rcases h₁ with rfl | hrot
  · exact ((happ.sb.generation (by omega)).2).trans (Nat.le_succ _)
  · have hnext := (hrot.sb.generation (by omega)).2
    exact ((happ.sb.generation (by omega)).2).trans (Nat.succ_le_succ hnext)

lemma Steady.step (hs : db.Steady) {op : Op} (hop : db.Mutates op) : (db.step op).1.Steady := by
  obtain ⟨hne, hroom, hgen, hinert⟩ := hop
  obtain ⟨db₁, rs, committed, h₁, happ, -, -⟩ := (step_cases hs.toReady hroom hne).cases
  rcases h₁ with rfl | hrot
  · exact happ.steady hs (by omega)
  · have hsealed : (db.step op).1.leadingWalId ≠ db.leadingWalId := by
      rw [happ.leadingWalId, hrot.leadingWalId]
      exact (Rotated.succ_ne hroom.1 le_rfl).symm
    have hlt : db.sbGeneration.toNat + 1 < 2 ^ 64 := by omega
    have hnext := (hrot.sb.generation hlt).2
    exact happ.steady (hrot.steady hs (hinert hsealed) hroom.1 hlt) (by omega)

lemma Steady.run {db : Db} (hs : db.Steady) {ops : List Op}
    (hops : Run.Guarded (fun db op => (db.step op).1) Mutates db ops) : (db.run ops).Steady := by
  have hstep : ∀ (s : Db) (op : Op), s.Steady → s.Mutates op → (s.step op).1.Steady :=
    fun _ _ hs hok => hs.step hok
  exact Run.Guarded.invariant hstep hops hs

/-- The superblock a close writes wins over every slot left by an earlier life of the directory. -/
lemma Steady.mountable_close (hs : db.Steady)
    (hgen : db.sbGeneration.toNat + 1 < 2 ^ 64) : db.close.Mountable db.leadingWalId := by
  have hsame := sameLog_writeSuperblockLocked db
  have happ := appended_writeSuperblockLocked hs.toReady
  have hinv := happ.inv hs.toInv
  have hall : db.writeSuperblockLocked.disk.SbAll fun sb =>
      sb.leadingWalId.toNat ≤ db.leadingWalId.toNat ∨ sb.generation.toNat ≤ db.sbGeneration.toNat :=
    happ.sb.all hs.sb (fun _ h => h) (.inl (by rw [← hsame.leadingWalId]; exact le_rfl)) hinv.leadPos hinv.seq_pos
  obtain ⟨w, hw, hok⟩ := hall.winner
  rw [hs.toReady.close_eq, ← hsame.leadingWalId]
  refine hinv.mountable ⟨w, hw, ?_⟩ ?_
  · rw [hsame.leadingWalId]
    obtain ⟨f, hf, hlen, -⟩ := hs.sb.file
    set slot := (db.sbGeneration + 1).toNat % sbSlots
    have hlt : slot < sbSlots := Nat.mod_lt _ (by decide)
    have hoff := slot_le_length hlt hlen
    have hfile : db.writeSuperblockLocked.disk.superblock = some (db.superblockFile f) := by
      simp [Db.writeSuperblockLocked, hf]
    have hself : sbSlot (db.superblockFile f) slot = some (db.superblockOf (db.sbGeneration + 1)) :=
      sbSlot_writeAt_self (sbSlotValid_superblockOf hs.leadPos hs.seq_pos _) hoff
    obtain ⟨f', hf', -, -, hall⟩ := (sbAll_of_winner hw).file
    rw [hfile] at hf'
    cases hf'
    have hge : (db.sbGeneration + 1).toNat ≤ w.generation.toNat := hall slot _ hlt hself
    rw [toNat_succ_uInt64 hgen] at hge
    omega
  · rw [happ.strays, hsame.leadingWalId]
    exact hs.strayLe

/-- Where recovery resumes tells whether it replayed anything past the write offset. -/
lemma Inv.resume_le_iff {db₁ : Db} (hi : db.Inv) (hl : db₁.Loaded) (hlead : db₁.lead = db.lead) :
    (scanVolume db₁).leadingWriteOff ≤ db.leadingWriteOff ↔ db.Inert := by
  obtain ⟨gen, m, heq, -⟩ := scanVolume_eq hl.content
  have hoff : (scanVolume db₁).leadingWriteOff = (frame db₁.leadingWalId segDataStart
      (walk db.lead db.lead.length segDataStart)).committedEnd := by rw [heq, hlead]
  have hwalk := hi.leadLog.walk_eq hi.off_le le_rfl
  obtain ⟨fin, hfin⟩ := isLog_walk (f := db.lead) le_rfl segDataStart
  obtain ⟨fin', htail⟩ := isLog_walk (f := db.lead) le_rfl db.leadingWriteOff
  obtain ⟨ps, qs, hsplit, hps, -, hqs, -⟩ := @frame_split _ db₁.leadingWalId _ _ _ hfin
  rw [hoff]
  constructor
  · intro hle p hp
    -- a marked record would end at or before the offset recovery resumes at
    have hmem : p ∈ ps ++ qs := by
      rw [← hsplit, hwalk]
      exact mem_append_right _ hp
    rcases mem_append.mp hmem with hin | hin
    · have hend := (hps.mem hin).2.2
      have hstart := (htail.mem hp).2.1
      have hspan := p.2.span_pos
      omega
    · exact hqs p hin
  · intro hinert
    rw [hwalk, frame_append, (Frame.foldl_applied_of_open hinert).2]
    obtain ⟨_, _, -, -, hrest, -⟩ := @frame_split _ db₁.leadingWalId _ _ _ hi.leadLog
    exact hrest.le

end Db

/-- Any directory an open accepts, then mutations, a close and a reopen: the answers stay the same
and recovery resumes no later than the engine would have written next, exactly when the bytes left
behind the write offset hold no commit-marked record that a walk reaches. -/
theorem reopen_stable_iff_tail_inert (disk : Disk) (names : List UInt32) (want : UInt64)
    (format : Bool) (db₀ : Db) (hopen : Db.open disk names want format = .ok db₀)
    (hlist : (disk.opened want format).Listable names)
    (hseq : ∀ r ∈ (disk.opened want format).records, r.hdr.seq.toNat + 1 < 2 ^ 64) (hties : db₀.Ties) (ops : List Op)
    (hops : Run.Guarded (fun db op => (db.step op).1) Db.Mutates db₀ ops)
    (hgen : (db₀.run ops).sbGeneration.toNat + 1 < 2 ^ 64) (names' : List UInt32)
    (hlist' : (db₀.run ops).close.Listable names') (want' : UInt64) (hwant : want' % 512 = 0) (format' : Bool) :
    (∃ db₂, Db.open (db₀.run ops).close names' want' format' = .ok db₂ ∧
        (∀ key outLen, db₂.getKey key outLen = (db₀.run ops).getKey key outLen) ∧
        db₂.leadingWriteOff ≤ (db₀.run ops).leadingWriteOff) ↔
      (db₀.run ops).Inert := by
  obtain ⟨db₁, lead, rfl, hm, hmount⟩ := Db.open_mounted hopen hlist
  have hs := (hm.steady hmount hseq hties).run hops
  have hclose := hs.mountable_close hgen
  set db := (scanVolume db₁).run ops
  obtain ⟨db₂, hload, hm₂⟩ := hclose.load hlist' hwant format'
  have hopen₂ : Db.open db.close names' want' format' = .ok (scanVolume db₂) := by
    rw [Db.open, hload]
    rfl
  have hlead : db₂.lead = db.lead := by
    have hfile := hm₂.file
    rw [hm₂.lead_eq, hm₂.disk_eq, hs.toReady.close_eq,
      (Db.sameLog_writeSuperblockLocked db).leadWal, hs.file] at hfile
    exact (Option.some.inj hfile).symm
  have hresume := hs.toInv.resume_le_iff hm₂.toLoaded hlead
  constructor
  · rintro ⟨db₃, hopen₃, -, hle⟩
    rw [hopen₂] at hopen₃
    cases hopen₃
    exact hresume.mp hle
  · intro hinert
    refine ⟨scanVolume db₂, hopen₂, ?_, hresume.mpr hinert⟩
    obtain ⟨db₃, hload₃, hscan⟩ := hs.toInv.reopen hs.ties hinert hclose hlist' hwant format'
    rw [hload] at hload₃
    cases hload₃
    exact (hscan db₂.sealedWals (List.Perm.refl _)).2.2

theorem reopen_stable_iff_tail_inert_one_put :
    ∃ db₂, Db.open ((Db.fresh 5120).run [maxPut 7]).close [1] 5120 false = .ok db₂ ∧
      (∀ key outLen, db₂.getKey key outLen = ((Db.fresh 5120).run [maxPut 7]).getKey key outLen) ∧
      db₂.leadingWriteOff ≤ ((Db.fresh 5120).run [maxPut 7]).leadingWriteOff := by
  obtain ⟨hput, hfew, hlisting⟩ := Db.used_one_put
  have hused := Db.used_fresh 5120
  have hopen : Db.open Disk.empty [1] 5120 true = .ok (Db.fresh 5120) :=
    Db.open_format (by decide) (by decide) (Db.listing_format 5120)
  have hmut : (Db.fresh 5120).Mutates (maxPut 7) :=
    ⟨by simp [maxPut], ⟨by decide, by decide⟩, by decide, fun _ => hused.clean.inert⟩
  have hfresh : (Db.fresh 5120).FewSegments := ⟨by decide, by decide⟩
  have hgen := hmut.generation hused.clean.toReady
  have hone : (Db.fresh 5120).sbGeneration.toNat = 1 := rfl
  refine (reopen_stable_iff_tail_inert Disk.empty [1] 5120 true (Db.fresh 5120) hopen ?_ ?_
    hused.sound.ties [maxPut 7] ⟨hmut, trivial⟩ ?_ [1]
    (hput.sound.listable_close hfew hlisting) 5120 (by decide) false).mpr hput.clean.inert
  · exact hfresh.listable hused.clean.toInv (fun _ h => h) hused.sound.strays (Db.listing_format 5120)
  · exact fun r hr => hused.seq_lt hr
  · show ((Db.fresh 5120).step (maxPut 7)).1.sbGeneration.toNat + 1 < 2 ^ 64
    omega

/-! The counterexample: the leading segment of the directory has a sector of zeros where a record was
lost, and an intact record behind it. The first record written later fills the gap. -/

def strandedRec : Rec := Rec.mk' 9 [7] recTxnCommit 5 5

def tornLead : Bytes := newFile 1 1 ++ (replicate 512 0 ++ strandedRec.encode)

def tornDisk : Disk :=
  { formatDisk Disk.empty 5120 with wal := Function.update (fun _ => none) 1 (some tornLead) }

lemma wal_tornDisk {id : UInt32} : (tornDisk.wal id).isSome ↔ id = 1 := by
  by_cases hid : id = 1 <;> simp [tornDisk, hid]

/-- No scan reaches the record behind the lost sector. -/
lemma records_tornDisk {r : Rec} : r ∉ tornDisk.records := by
  have hbase : fileRecs tornDisk.base = [] := by decide +kernel
  have hlead : fileRecs (some tornLead) = [] := by decide +kernel
  rintro ⟨off, hr | ⟨id, hr⟩⟩
  · rw [hbase] at hr
    exact absurd hr not_mem_nil
  · by_cases hid : id = 1
    · rw [show tornDisk.wal id = some tornLead by simp [tornDisk, hid], hlead] at hr
      exact absurd hr not_mem_nil
    · rw [show tornDisk.wal id = none by simp [tornDisk, hid]] at hr
      exact absurd hr not_mem_nil

lemma listable_tornDisk : tornDisk.Listable [1] where
  listing := by
    refine ⟨[1], nodup_singleton 1, ?_, List.Perm.refl _⟩
    intro id
    rw [wal_tornDisk, mem_singleton]
  length := by decide
  digits := by
    intro id hid
    rw [wal_tornDisk.mp hid]
    decide

/-- The engine right after it opened the torn directory. -/
def tornDb : Db :=
  match Db.open tornDisk [1] 5120 false with
  | .ok db => db
  | .error _ => Db.fresh 5120

lemma open_tornDisk : Db.open tornDisk [1] 5120 false = .ok tornDb := by
  have hok : (Db.open tornDisk [1] 5120 false).toBool = true := by decide +kernel
  unfold tornDb
  cases hopen : Db.open tornDisk [1] 5120 false with
  | error e => simp [hopen, Except.toBool] at hok
  | ok db => rfl

lemma steady_tornDb : tornDb.Steady := by
  have hopened : tornDisk.opened 5120 false = tornDisk := by
    unfold Disk.opened
    split <;> rfl
  have hlist : (tornDisk.opened 5120 false).Listable [1] := by
    rw [hopened]
    exact listable_tornDisk
  obtain ⟨db₁, lead, heq, hm, hmount⟩ := Db.open_mounted open_tornDisk hlist
  rw [hopened] at hm hmount
  rw [heq]
  refine hm.steady hmount (fun r hr => absurd hr records_tornDisk) ?_
  intro v hv
  rw [hm.toLoaded.versions_scanVolume, hm.disk_eq] at hv
  have := Db.disk_versions_seq (n := 0) (fun r hr => absurd hr records_tornDisk) hv
  omega

/-- The put that fills the lost sector. -/
def gapPut : Op := .mutate (.put 3 [1] false) .local

/-- The record behind the gap was not there before the close, and is there after the reopen. -/
theorem stranded_record_is_replayed : tornDisk.Listing [1] ∧ ∃ db₀ db₂, Db.open tornDisk [1] 5120 false = .ok db₀ ∧
      (db₀.step gapPut).2 = [.put 3 [1] false] ∧
      (db₀.step gapPut).1.getKey 9 dataMax = .error .ENOENT ∧
      (db₀.step gapPut).1.close.Listing [1] ∧
      Db.open (db₀.step gapPut).1.close [1] 5120 false = .ok db₂ ∧
      db₂.getKey 9 dataMax = .ok [7] := by
  obtain ⟨⟨hroom, hgen, hstay⟩, ⟨hgen', hlead, hids, hstrays⟩, hstep, hget, hok⟩ :
      let db := (tornDb.step gapPut).1
      (tornDb.Room gapPut ∧ tornDb.sbGeneration.toNat + 2 < 2 ^ 64 ∧ db.leadingWalId = tornDb.leadingWalId) ∧
      (db.sbGeneration.toNat + 1 < 2 ^ 64 ∧ db.leadingWalId = 1 ∧ db.close.walIds 1 = [1] ∧
        db.close.strays = []) ∧
      (tornDb.step gapPut).2 = [.put 3 [1] false] ∧ db.getKey 9 dataMax = .error .ENOENT ∧
      ∃ db₂ ∈ (Db.open db.close [1] 5120 false).toOption, db₂.getKey 9 dataMax = .ok [7] := by decide +kernel
  have hmount := (steady_tornDb.step ⟨by decide, hroom, hgen, absurd hstay⟩).mountable_close hgen'
  rw [hlead] at hmount
  obtain ⟨db₂, hopen, hkey⟩ := Db.exists_open hok
  exact ⟨listable_tornDisk.listing, tornDb, db₂, open_tornDisk, hstep, hget,
    hids ▸ hmount.listing_walIds hstrays, hopen, hkey⟩

end Picowal
