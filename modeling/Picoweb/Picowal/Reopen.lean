import Picoweb.Picowal.Recovery

/-!
# Closing and reopening

What a restart needs beyond the invariant: a superblock that names no segment past the leading one,
versions of one seq that read alike, and no record with a seq the engine has not given out. A volume that was
formatted and then only used keeps all of it, so its next open finds the same map.
-/

namespace Picowal

open ByteFile List

/-! ### Superblock slots -/

lemma slot_le_length {file : Bytes} {slot : ℕ} (hslot : slot < sbSlots) (hlen : 512 ≤ file.length) :
    slot * sectorBytes ≤ file.length := by
  simp only [sbSlots, sectorBytes] at *
  omega

lemma sbSlot_writeAt {file raw : Bytes} {slot : ℕ} (hraw : raw.length = sectorBytes)
    (hoff : slot * sectorBytes ≤ file.length) : sbSlot (writeAt file raw (slot * sectorBytes)) slot =
      if sbSlotValid (Superblock.decode raw) then some (Superblock.decode raw) else none := by
  have hlen : slot * sectorBytes ≤ (writeAt file raw (slot * sectorBytes)).length := by
    rw [length_writeAt hoff]
    omega
  have hread := readAt_of_drop (@drop_writeAt file raw _ hoff) hlen
  rw [hraw] at hread
  simp only [sbSlot, hread]

lemma sbSlot_writeAt_self {file : Bytes} {slot : ℕ} {sb : Superblock} (hv : sbSlotValid sb = true)
    (hoff : slot * sectorBytes ≤ file.length) :
    sbSlot (writeAt file sb.encode (slot * sectorBytes)) slot = some sb := by
  rw [sbSlot_writeAt sb.length_encode hoff, Superblock.decode_encode, if_pos hv]

/-- Writing one slot leaves the other alone. -/
lemma sbSlot_writeAt_ne {file raw : Bytes} {slot slot' : ℕ} (hraw : raw.length = sectorBytes)
    (hlen : 512 ≤ file.length) (hslot : slot < sbSlots) (hslot' : slot' < sbSlots) (hne : slot' ≠ slot) :
    sbSlot (writeAt file raw (slot * sectorBytes)) slot' = sbSlot file slot' := by
  have hread : readAt (writeAt file raw (slot * sectorBytes)) 512 (slot' * sectorBytes)
      = readAt file 512 (slot' * sectorBytes) := by
    simp only [sbSlots] at hslot hslot'
    rcases Nat.lt_or_gt_of_ne hne with hlt | hlt
    · have h0 : slot' = 0 := by omega
      have h1 : slot = 1 := by omega
      subst h0 h1
      exact readAt_congr (take_writeAt (n := 512) (by simpa using hlen) (by simp)) (by simp)
    · have h0 : slot = 0 := by omega
      have h1 : slot' = 1 := by omega
      subst h0 h1
      exact readAt_writeAt_after (by simpa [hraw] using hlen) (by simp [hraw])
  simp only [sbSlot, hread]

variable {db db' : Db}

lemma sbSlotValid_superblockOf (hlead : db.leadingWalId ≠ baseSegId)
    (hseq : 0 < db.nextSeq.toNat) (generation : UInt64) : sbSlotValid (db.superblockOf generation) = true := by
  have h1 : (1 : UInt32) ≤ db.leadingWalId := by
    have : db.leadingWalId.toNat ≠ 0 := fun h => hlead (UInt32.toNat_inj.mp h)
    exact Nat.one_le_iff_ne_zero.mpr this
  have h2 : (1 : UInt64) ≤ db.nextSeq := UInt64.le_iff_toNat_le.mpr hseq
  simp [sbSlotValid, Db.superblockOf, h1, h2, sbChecksum]

/-- The superblock file has a valid slot, and all its valid slots are as they should be. -/
structure Disk.SbAll (disk : Disk) (ok : Superblock → Prop) : Prop where
  file : ∃ f, disk.superblock = some f ∧ 512 ≤ f.length ∧ (∃ slot sb, slot < sbSlots ∧ sbSlot f slot = some sb) ∧
    ∀ slot sb, slot < sbSlots → sbSlot f slot = some sb → ok sb

/-- No valid slot names a segment past `lead`. -/
abbrev Disk.SbNames (disk : Disk) (lead : UInt32) : Prop :=
  disk.SbAll fun sb => sb.leadingWalId.toNat ≤ lead.toNat

lemma Disk.SbAll.winner {disk : Disk} {ok : Superblock → Prop} (h : disk.SbAll ok) :
    ∃ sb, sbWinner disk = some sb ∧ ok sb := by
  obtain ⟨f, hf, -, ⟨slot, sb, hslot, hsb⟩, hok⟩ := h.file
  obtain ⟨-, hnone⟩ | ⟨f', w, hf', hw, ⟨slot', hslot', hsb'⟩, -⟩ := sbWinner_cases disk
  · rw [hnone f hf slot hslot] at hsb
    cases hsb
  · rw [hf] at hf'
    cases hf'
    exact ⟨w, hw, hok slot' w hslot' hsb'⟩

/-- A superblock write puts a valid slot in place. -/
lemma Db.SbFrom.all (h : SbFrom db db') {ok ok' : Superblock → Prop}
    (hs : db.disk.SbAll ok) (hkeep : ∀ sb, ok sb → ok' sb)
    (hnew : ok' (db'.superblockOf db'.sbGeneration)) (hlead : db'.leadingWalId ≠ baseSegId)
    (hseq : 0 < db'.nextSeq.toNat) : db'.disk.SbAll ok' := by
  obtain ⟨f, hf, hlen, hex, hall⟩ := hs.file
  rcases h with ⟨hsame, -⟩ | ⟨file, hfile, -, hwrite⟩
  · exact ⟨f, hsame.trans hf, hlen, hex, fun slot sb hslot hsb => hkeep sb (hall slot sb hslot hsb)⟩
  · rw [hf] at hfile
    cases hfile
    set slot := db'.sbGeneration.toNat % sbSlots
    have hlt : slot < sbSlots := Nat.mod_lt _ (by decide)
    have hoff := slot_le_length hlt hlen
    have hself := sbSlot_writeAt_self (sbSlotValid_superblockOf hlead hseq db'.sbGeneration) hoff
    refine ⟨_, hwrite, ?_, ⟨slot, _, hlt, hself⟩, ?_⟩
    · rw [length_writeAt hoff]
      exact hlen.trans (le_max_left _ _)
    · intro slot' sb hslot' hsb
      by_cases hne : slot' = slot
      · subst hne
        rw [hself] at hsb
        cases hsb
        exact hnew
      · rw [sbSlot_writeAt_ne (Superblock.length_encode _) hlen hlt hslot' hne] at hsb
        exact hkeep sb (hall slot' sb hslot' hsb)

/-- Both slots of a formatted volume hold the same superblock. -/
lemma sbSlot_formatDisk (disk : Disk) (segmentBytes : UInt64) :
    ∃ f, (formatDisk disk segmentBytes).superblock = some f ∧ 512 ≤ f.length ∧
      ∀ slot < sbSlots, sbSlot f slot = some (formatSuperblock segmentBytes) := by
  set sb := formatSuperblock segmentBytes with hsb
  have hv : sbSlotValid sb = true := by
    simp [hsb, sbSlotValid, formatSuperblock, sbChecksum]
  set f := writeAt (disk.superblock.getD []) sb.encode 0 with hf
  have hlen : 512 ≤ f.length := by
    rw [length_writeAt (Nat.zero_le _), Superblock.length_encode]
    exact le_max_right _ _
  have h0 : sbSlot f 0 = some sb := by
    have := @sbSlot_writeAt_self (disk.superblock.getD []) 0 _ hv (by simp)
    rwa [Nat.zero_mul] at this
  have h1 := @sbSlot_writeAt_self f 1 _ hv (by simpa using hlen)
  have h0' := @sbSlot_writeAt_ne f _ 1 0 sb.length_encode hlen (by decide) (by decide) (by decide)
  refine ⟨writeAt f sb.encode sectorBytes, rfl, ?_, ?_⟩
  · rw [length_writeAt hlen]
    exact hlen.trans (le_max_left _ _)
  · intro slot hslot
    obtain rfl | rfl : slot = 0 ∨ slot = 1 := by
      simp only [sbSlots] at hslot
      omega
    · exact h0'.trans h0
    · exact h1

lemma sbAll_formatDisk (disk : Disk) (segmentBytes : UInt64) :
    (formatDisk disk segmentBytes).SbAll fun sb => sb = formatSuperblock segmentBytes := by
  obtain ⟨f, hf, hlen, hslots⟩ := sbSlot_formatDisk disk segmentBytes
  refine ⟨f, hf, hlen, ⟨0, _, by decide, hslots 0 (by decide)⟩, ?_⟩
  intro slot sb hslot hsb
  rw [hslots slot hslot] at hsb
  exact (Option.some.inj hsb).symm

namespace Db

/-! ### Versions of one seq -/

/-- Versions of one key and one seq read the same. -/
def Ties (db : Db) : Prop :=
  ∀ v ∈ db.versions, ∀ w ∈ db.versions, v.key = w.key → v.stamp = w.stamp → db.answer v = db.answer w

lemma answer_congr {e : IndexEntry} (h : db'.readEntry e.key e = db.readEntry e.key e) : db'.answer e = db.answer e := by
  funext outLen
  rw [answer, answer, h]

lemma answer_of_resolve_eq {e : IndexEntry}
    (h : db'.resolveReadFd e.segId = db.resolveReadFd e.segId) : db'.answer e = db.answer e :=
  answer_congr (readEntry_of_resolve_eq h _)

/-- Entries that answer alike have the same value. -/
lemma value_of_answer {v w : IndexEntry} (h : db'.answer v = db.answer w) : db'.value v = db.value w := by
  -- at a length both fit in, the answer is the value
  have hans : ∀ (db : Db) {e : IndexEntry}, e.len.toNat ≤ max v.len.toNat w.len.toNat →
      (db.answer e (max v.len.toNat w.len.toNat)).toOption = db.value e := by
    intro db e hle
    rw [answer, value, if_neg (not_lt.mpr hle)]
    split_ifs <;> rfl
  rw [← hans db' (le_max_left _ _), ← hans db (le_max_right _ _), h]

section Ties

variable {db db' : Db} {rs : List (ℕ × Rec)} {committed : Bool}

/-- Versions that share a seq after an append are one version, or were there before. -/
lemma Appended.same_stamp (h : Appended db rs committed db') (hi : db.Inv) {e e' : IndexEntry}
    (he : e ∈ db'.versions) (he' : e' ∈ db'.versions) (hstamp : e.stamp = e'.stamp) :
    e = e' ∨ e ∈ db.versions ∧ e' ∈ db.versions := by
  have hnew : ∀ e ∈ db.versions, ∀ e' ∈ db.unitEntries rs, e.stamp < e'.stamp :=
    fun e he e' he' => (hi.seq e he).trans_le (h.stamp_mem he').1
  rw [h.versions hi] at he he'
  cases committed with
  | false =>
    simp only [Bool.false_eq_true, if_false, not_mem_nil, Set.ofPred_false, Set.union_empty] at he he'
    exact .inr ⟨he, he'⟩
  | true =>
    rcases he with he | he <;> rcases he' with he' | he'
    · exact .inr ⟨he, he'⟩
    · exact absurd hstamp (hnew e he e' he').ne
    · exact absurd hstamp (hnew e' he' e he).ne'
    · have hnd : ((db.unitEntries rs).map IndexEntry.stamp).Nodup := by
        rw [List.Nodup, pairwise_map]
        exact (pairwise_stamp h.toLogged).imp fun hlt => hlt.ne
      exact .inl (inj_on_of_nodup_map hnd he he' hstamp)

lemma Appended.ties (h : Appended db rs committed db') (hi : db.Inv) (ht : db.Ties) : db'.Ties := by
  have hans : ∀ {e}, e ∈ db.versions → db'.answer e = db.answer e :=
    fun he => answer_congr (h.readEntry_eq hi he _)
  intro v hv w hw hk hstamp
  rcases h.same_stamp hi hv hw hstamp with rfl | ⟨hv, hw⟩
  · rfl
  · rw [hans hv, hans hw]
    exact ht v hv w hw hk hstamp

lemma Rotated.ties (h : Rotated db db') (hi : db.Inv) (hinert : db.Inert)
    (hroom : db.leadingWalId.toNat + 1 < 2 ^ 32) (ht : db.Ties) : db'.Ties := by
  have hans : ∀ {e}, e ∈ db.versions → db'.answer e = db.answer e :=
    fun he => answer_congr (h.readEntry_eq hi hroom he _)
  intro v hv w hw hk hstamp
  rw [h.versions hi hinert hroom] at hv hw
  rw [hans hv, hans hw]
  exact ht v hv w hw hk hstamp

lemma Inv.ties_folded (hi : db.Inv) (hsealed : baseSegId ∉ db.sealedWals) (ho : db.Ordered)
    (ht : db.Ties) : db.folded.Ties := by
  have hlt : ∀ {x y}, x ∈ segEntries baseSegId db.copyBase → y ∈ db.leadFrame.applied → x.stamp < y.stamp := by
    intro x y hx hy
    obtain ⟨e, he, -, hs, -⟩ := hi.mem_copyEntries hsealed hx
    obtain ⟨hf, -, hseg⟩ := mem_foldSelection.mp he
    rw [hs]
    exact ho e (settled_of_segId_ne (hi.represents.sound hf).1 hseg) y hy
  have hlead : ∀ {y}, y ∈ db.leadFrame.applied → db.folded.answer y = db.answer y := by
    intro y hy
    apply answer_of_resolve_eq
    rw [(mem_leadFrame hy).1, hi.resolve_lead]
    exact (hi.folded hsealed ho).resolve_lead.trans (congrArg some hi.lead_folded)
  intro x hx y hy hk hstamp
  rw [versions, db.settled_folded, hi.leadFrame_folded] at hx hy
  rcases hx with hx | hx <;> rcases hy with hy | hy
  · have hnd : ((segEntries baseSegId db.copyBase).map IndexEntry.key).Nodup := by
      rw [hi.map_key_copyEntries hsealed]
      exact db.nodup_key_foldSelection
    rw [inj_on_of_nodup_map hnd hx hy hk]
  · exact absurd hstamp (hlt hx hy).ne
  · exact absurd hstamp (hlt hy hx).ne'
  · rw [hlead hx, hlead hy]
    exact ht x (.inr hx) y (.inr hy) hk hstamp

end Ties

/-! ### Seqs on disk -/

/-- Every record on disk, committed or not, has a seq the engine has given out. -/
def SeqsUsed (db : Db) : Prop := ∀ r ∈ db.disk.records, r.hdr.seq.toNat < db.nextSeq.toNat

lemma Clean.fileRecs_lead (hc : db.Clean) : fileRecs (db.disk.wal db.leadingWalId) = db.leadRecs := by
  rw [hc.file, leadRecs, ← hc.tight]
  rfl

lemma Appended.seqsUsed {rs : List (ℕ × Rec)} {committed : Bool}
    (h : Appended db rs committed db') (hc : db.Clean) (hs : db.SeqsUsed) : db'.SeqsUsed := by
  have hnext : db.nextSeq.toNat ≤ db'.nextSeq.toNat := by
    rw [h.nextSeq]
    exact Nat.le_add_right _ _
  have hlead := (h.clean hc).fileRecs_lead
  rw [h.leadingWalId, h.leadRecs hc.toInv, ← hc.fileRecs_lead] at hlead
  rintro r ⟨off, hr | ⟨id, hr⟩⟩
  · rw [h.base] at hr
    exact (hs r ⟨off, .inl hr⟩).trans_le hnext
  · by_cases hid : id = db.leadingWalId
    · subst hid
      rw [hlead, mem_append] at hr
      rcases hr with hr | hr
      · exact (hs r ⟨off, .inr ⟨_, hr⟩⟩).trans_le hnext
      · exact (h.seq_mem hr).2
    · rw [h.wal id hid] at hr
      exact (hs r ⟨off, .inr ⟨id, hr⟩⟩).trans_le hnext

lemma fileRecs_newFile (segId generation : UInt32) : fileRecs (some (newFile segId generation)) = [] := by
  exact walk_of_lt (by simp)

lemma fileEntries_newFile (segId generation : UInt32) : fileEntries segId (some (newFile segId generation)) = [] := by
  show (frame _ _ (fileRecs (some (newFile segId generation)))).applied = []
  rw [fileRecs_newFile]
  rfl

lemma Rotated.seqsUsed (h : Rotated db db') (hs : db.SeqsUsed) : db'.SeqsUsed := by
  rintro r ⟨off, hr | ⟨id, hr⟩⟩
  · rw [h.base] at hr
    rw [h.nextSeq]
    exact hs r ⟨off, .inl hr⟩
  · rw [h.nextSeq]
    by_cases hid : id = db.leadingWalId + 1
    · subst hid
      rw [h.wal, Function.update_self, fileRecs_newFile] at hr
      simp at hr
    · rw [h.wal, Function.update_of_ne hid] at hr
      exact hs r ⟨off, .inr ⟨id, hr⟩⟩

lemma Inv.seqsUsed_folded (hi : db.Inv) (hsealed : baseSegId ∉ db.sealedWals)
    (hs : db.SeqsUsed) : db.folded.SeqsUsed := by
  rintro r ⟨off, hr | ⟨id, hr⟩⟩
  · have hrecs : fileRecs db.folded.disk.base = db.copies :=
      (hi.isLog_copyBase hsealed).walk_eq_self le_rfl
    rw [hrecs] at hr
    have hmem : r ∈ db.copies.map Prod.snd := mem_map.mpr ⟨(off, r), hr, rfl⟩
    obtain ⟨-, -, e, he, data, -, -, rfl⟩ := hi.copies_valid hsealed hmem
    exact hi.seq e (hi.represents.sound (mem_foldSelection.mp he).1).1
  · rw [wal_folded] at hr
    split_ifs at hr
    · simp [fileRecs] at hr
    · exact hs r ⟨off, .inr ⟨id, hr⟩⟩

/-! ### States that survive a restart -/

structure Sound (db : Db) : Prop extends Inv db where
  ordered : db.Ordered
  sealedPos : baseSegId ∉ db.sealedWals
  ties : db.Ties
  sb : db.disk.SbNames db.leadingWalId
  strays : db.disk.strays = []

lemma Appended.sound {rs : List (ℕ × Rec)} {committed : Bool}
    (h : Appended db rs committed db') (hs : db.Sound) : db'.Sound where
  toInv := h.inv hs.toInv
  ordered := h.ordered hs.toInv hs.ordered
  sealedPos := by rw [h.sealedWals]; exact hs.sealedPos
  ties := h.ties hs.toInv hs.ties
  sb := by
    refine h.sb.all hs.sb ?_ le_rfl (h.inv hs.toInv).leadPos h.ready.seq_pos
    rw [h.leadingWalId]
    exact fun _ hle => hle
  strays := by rw [h.strays, hs.strays]

lemma Rotated.sound (h : Rotated db db') (hs : db.Sound) (hinert : db.Inert)
    (hroom : db.leadingWalId.toNat + 1 < 2 ^ 32) : db'.Sound where
  toInv := h.inv hs.toInv hinert hroom
  ordered := h.ordered
  sealedPos := h.sealedPos hs.toInv hs.sealedPos
  ties := h.ties hs.toInv hinert hroom hs.ties
  sb := by
    refine h.sb.all hs.sb ?_ le_rfl (h.inv hs.toInv hinert hroom).leadPos ?_
    · rw [h.leadingWalId, toNat_succ_uInt32 hroom]
      exact fun _ hle => hle.trans (Nat.le_succ _)
    · rw [h.nextSeq]
      exact hs.seq_pos
  strays := by rw [h.strays, hs.strays]

lemma Sound.folded (hs : db.Sound) : db.folded.Sound where
  toInv := hs.toInv.folded hs.sealedPos hs.ordered
  ordered := hs.toInv.ordered_folded hs.sealedPos hs.ordered
  sealedPos := not_mem_nil
  ties := hs.toInv.ties_folded hs.sealedPos hs.ordered hs.ties
  sb := ⟨hs.sb.file⟩
  strays := hs.strays

lemma Sound.writeSuperblockLocked (hs : db.Sound) : db.writeSuperblockLocked.Sound :=
  (appended_writeSuperblockLocked hs.toReady).sound hs

/-- Every operation keeps the state sound, provided a segment that is sealed has nothing committed
past its end. -/
theorem Sound.step (hs : db.Sound) {op : Op} (hroom : db.Room op)
    (hinert : (db.step op).1.leadingWalId ≠ db.leadingWalId → db.Inert) : (db.step op).1.Sound := by
  by_cases hop : op = .checkpoint
  · subst hop
    rcases hs.toInv.checkpoint_cases hs.sealedPos with h | ⟨-, h⟩
    · show db.checkpoint.1.Sound
      rw [h]
      exact hs
    · show db.checkpoint.1.Sound
      rw [h]
      exact hs.folded.writeSuperblockLocked
  · obtain ⟨db₁, rs, committed, h₁, happ, -, -⟩ := (step_cases hs.toReady hroom hop).cases
    rcases h₁ with rfl | hrot
    · exact happ.sound hs
    · have hne : (db.step op).1.leadingWalId ≠ db.leadingWalId := by
        rw [happ.leadingWalId, hrot.leadingWalId]
        exact (Rotated.succ_ne hroom.1 le_rfl).symm
      exact happ.sound (hrot.sound hs (hinert hne) hroom.1)

lemma sound_fresh (segmentBytes : UInt64) : (fresh segmentBytes).Sound where
  toInv := (clean_fresh segmentBytes).toInv
  ordered := (clean_fresh segmentBytes).ordered
  sealedPos := not_mem_nil
  ties := by
    intro e he
    have hfind := (clean_fresh segmentBytes).represents.top e he
    obtain ⟨e', hf, -⟩ := hfind
    cases hf
  sb := by
    obtain ⟨f, hf, hlen, hex, hall⟩ := (sbAll_formatDisk Disk.empty segmentBytes).file
    refine ⟨f, hf, hlen, hex, ?_⟩
    intro slot sb hslot hsb
    rw [hall slot sb hslot hsb]
    exact le_rfl
  strays := rfl

/-! ### The next open -/

/-- The WAL files fit the id array of `load_or_format`, and no id has more than eight digits. -/
def FewSegments (db : Db) : Prop :=
  db.sealedWals.length + 1 ≤ maxWalIds ∧ db.leadingWalId.toNat < 10 ^ 8
deriving Decidable

lemma Inv.wal_le (hi : db.Inv) {id : UInt32} (h : (db.disk.wal id).isSome) : id.toNat ≤ db.leadingWalId.toNat := by
  rcases hi.walId id h with hs | rfl
  · exact (hi.sealedLt id hs).le
  · exact le_rfl

lemma Inv.mountable (hi : db.Inv)
    (hsb : ∃ sb, sbWinner db.disk = some sb ∧ sb.leadingWalId.toNat ≤ db.leadingWalId.toNat)
    (hstrays : ∀ id ∈ db.disk.strays, id.toNat ≤ db.leadingWalId.toNat) : db.disk.Mountable db.leadingWalId where
  sb := hsb
  leadFile := by
    obtain ⟨h, hh⟩ := hi.leadHdr
    exact ⟨db.lead, h, hi.file, hh⟩
  baseFile := hi.baseHdr
  walLe := fun _ hid => hi.wal_le hid
  strayLe := hstrays

lemma Sound.mountable (hs : db.Sound) : db.disk.Mountable db.leadingWalId := by
  refine hs.toInv.mountable hs.sb.winner ?_
  rw [hs.strays]
  simp

/-- A directory with no other WAL files than the engine's can be listed. -/
lemma FewSegments.listable (hf : db.FewSegments) (hi : db.Inv) {disk : Disk}
    (hwal : ∀ id, (disk.wal id).isSome → (db.disk.wal id).isSome) (hstrays : disk.strays = [])
    {names : List UInt32} (hn : disk.Listing names) : disk.Listable names where
  listing := hn
  length := by
    obtain ⟨ids, hnd, hids, hperm⟩ := hn
    have hsub : ids ⊆ db.leadingWalId :: db.sealedWals := by
      intro id hid
      rcases hi.walId id (hwal id ((hids id).mp hid)) with hs | rfl
      · exact mem_cons_of_mem _ hs
      · exact mem_cons_self
    have hle := (subperm_of_subset hnd hsub).length_le
    rw [hperm.length_eq, hstrays, append_nil, length_map]
    exact hle.trans hf.1
  digits := fun id hid => (hi.wal_le (hwal id hid)).trans_lt hf.2

lemma Ready.close_eq (h : db.Ready) : db.close = db.writeSuperblockLocked.disk := by
  simp [close, h.linked]

/-- Two engines that know the same versions, in the same files, answer alike. -/
lemma getKey_congr {V : Set IndexEntry} (h : db.index.Represents V)
    (h' : db'.index.Represents V) (hres : db'.resolveReadFd = db.resolveReadFd)
    (htie : ∀ v ∈ V, ∀ w ∈ V, v.key = w.key → v.stamp = w.stamp → db.answer v = db.answer w)
    (key : UInt32) (outLen : ℕ) : db'.getKey key outLen = db.getKey key outLen := by
  have hans : ∀ e, db'.answer e outLen = db.answer e outLen :=
    fun e => congrFun (answer_of_resolve_eq (congrFun hres e.segId)) outLen
  have hmap := h'.map_congr h (fun e => db'.answer e outLen) (fun e => db.answer e outLen) key
    fun v hv w hw hkv hkw hstamp =>
      (hans v).trans (congrFun (htie v hv w hw (hkv.trans hkw.symm) hstamp) outLen)
  rw [getKey_eq, getKey_eq, ← hmap]

/-- The order of the sealed list does not matter to the scan. -/
lemma Loaded.perm (hl : db.Loaded) {ids : List UInt32} (hperm : ids.Perm db.sealedWals) :
    ({ db with sealedWals := ids } : Db).Loaded :=
  { hl with
    sealedLt := fun id hid => hl.sealedLt id (hperm.mem_iff.mp hid)
    walId := fun id hid => (hl.walId id hid).imp_left hperm.mem_iff.mpr }

/-- Recovery of the directory that an engine without a committed tail closed finds its versions. -/
lemma Inv.recovered {db₁ : Db} (hi : db.Inv) (hinert : db.Inert) (hm : db₁.MountedFrom db.close db.leadingWalId) :
    (scanVolume db₁).index.Represents db.versions ∧ (scanVolume db₁).resolveReadFd = db.resolveReadFd := by
  have hclose := hi.toReady.close_eq
  have hsame := sameLog_writeSuperblockLocked db
  have hdisk : db₁.disk.base = db.disk.base ∧ db₁.disk.wal = db.disk.wal := by
    rw [hm.disk_eq, hclose]
    exact ⟨hsame.base, hsame.disk_wal⟩
  have hversions : db₁.disk.versions = db.versions := by
    rw [← hi.disk_versions hinert, Disk.versions, Disk.versions, hdisk.1, hdisk.2]
  obtain ⟨hsd, hsf, hsl, -⟩ := scanVolume_same db₁
  refine ⟨hversions ▸ hm.toLoaded.represents_scanVolume, ?_⟩
  funext id
  simp only [resolveReadFd, leadingContent, hsd, hsf, hsl, hm.linked, hi.linked, hm.lead_eq, hdisk.1, hdisk.2]

/-- A restart finds the versions the engine had, and gives the answers it gave, in whatever order the
sealed segments are scanned. -/
theorem Inv.reopen (hi : db.Inv) (hties : db.Ties) (hinert : db.Inert)
    (hmount : db.close.Mountable db.leadingWalId) {names : List UInt32}
    (hlist : db.close.Listable names) {want : UInt64} (hwant : want % 512 = 0) (format : Bool) :
    ∃ db₁, loadOrFormat db.close names want format = .ok db₁ ∧ ∀ ids, ids.Perm db₁.sealedWals →
        ({ db₁ with sealedWals := ids } : Db).MountedFrom db.close db.leadingWalId ∧
        (scanVolume { db₁ with sealedWals := ids }).index.Represents db.versions ∧
        ∀ key outLen, (scanVolume { db₁ with sealedWals := ids }).getKey key outLen = db.getKey key outLen := by
  obtain ⟨db₁, hload, hm⟩ := hmount.load hlist hwant format
  refine ⟨db₁, hload, ?_⟩
  intro ids hperm
  have hm' : ({ db₁ with sealedWals := ids } : Db).MountedFrom db.close db.leadingWalId :=
    { hm with
      toLoaded := hm.toLoaded.perm hperm
      sealedWal := fun id hid => hm.sealedWal id (hperm.mem_iff.mp hid) }
  obtain ⟨hrep, hres⟩ := hi.recovered hinert hm'
  exact ⟨hm', hrep, getKey_congr hi.represents hrep hres hties⟩

/-- The directory a sound engine closes can be mounted and listed. -/
lemma Sound.mountable_close (hs : db.Sound) : db.close.Mountable db.leadingWalId := by
  rw [hs.toReady.close_eq, ← (sameLog_writeSuperblockLocked db).leadingWalId]
  exact hs.writeSuperblockLocked.mountable

lemma Sound.strays_close (hs : db.Sound) : db.close.strays = [] := by
  rw [hs.toReady.close_eq]
  exact hs.writeSuperblockLocked.strays

lemma Sound.listable_close (hs : db.Sound) (hfew : db.FewSegments) {names : List UInt32}
    (hn : db.close.Listing names) : db.close.Listable names := by
  refine hfew.listable hs.toInv ?_ hs.strays_close hn
  intro id hid
  rwa [hs.toReady.close_eq, (sameLog_writeSuperblockLocked db).disk_wal] at hid

end Db

end Picowal
