import Picoweb.Picowal.CrashPoint

/-!
# Checkpoints that are interrupted

A checkpoint replaces `base.dat` by the live records and then unlinks the sealed segments, the one
sealed last first. The new base has no tombstones, so a crash between two unlinks may leave a put in a
segment that is still there without the delete that followed it in one that is gone.
-/

namespace Picowal

open ByteFile List

namespace Db

/-- The directory a crash after the first `k` effects of a checkpoint leaves. -/
def crashDisk (db : Db) (k : ℕ) : Disk := (db.checkpointEffects.take k).foldl Disk.apply db.disk

/-- The versions in the sealed segments once the first `n` of them are unlinked. -/
def remaining (db : Db) (n : ℕ) : Set IndexEntry :=
  {e | ∃ id ∈ db.sealedWals, id ∉ db.sealedWals.take n ∧ e ∈ fileEntries id (db.disk.wal id)}

/-- The new base is in place and the first `n` sealed segments are unlinked. -/
structure Unlinked (db : Db) (n : ℕ) (disk : Disk) : Prop where
  base : disk.base = some db.copyBase
  wal : ∀ id, disk.wal id = if id ∈ db.sealedWals.take n then none else db.disk.wal id

/-- The effects of a checkpoint that has something to do. -/
lemma Sound.checkpointEffects_eq {db : Db} (hs : db.Sound) (hsome : (db.readOnly || db.sealedWals.isEmpty) = false) :
    ∃ sbs, db.checkpointEffects = .writeBaseTmp db.copyBase :: .renameBase :: (db.sealedWals.map .unlinkWal ++ sbs) ∧
      ∀ i, sbs.take i = [] ∨ ∃ content, sbs.take i = [.writeSuperblock content] ∧
        db.folded.writeSuperblockLocked.disk.superblock = some content := by
  have hif : ¬ (db.readOnly || db.sealedWals.isEmpty) = true := by simp [hsome]
  cases hsb : db.disk.superblock with
  | none =>
    refine ⟨[], ?_, fun i => .inl take_nil⟩
    rw [checkpointEffects, if_neg hif, hs.toInv.mapM_foldRecord hs.sealedPos, hsb]
    rfl
  | some file =>
    refine ⟨[.writeSuperblock (db.folded.superblockFile file)], ?_, ?_⟩
    · rw [checkpointEffects, if_neg hif, hs.toInv.mapM_foldRecord hs.sealedPos, hsb]
      rfl
    · intro i
      cases i with
      | zero => exact .inl rfl
      | succ i =>
        have hfold : db.folded.disk.superblock = some file := hsb
        refine .inr ⟨_, by rw [take_succ_cons, take_nil], ?_⟩
        simp only [Db.writeSuperblockLocked, hfold]

/-- At a crash point the files are those before the checkpoint, or the new base is in place. -/
lemma Sound.crashDisk_cases {db : Db} (hs : db.Sound) (k : ℕ) : (db.crashDisk k).strays = db.disk.strays ∧
      ((db.crashDisk k).superblock = db.disk.superblock ∨
        (db.crashDisk k).superblock = db.folded.writeSuperblockLocked.disk.superblock) ∧
      (Effect.renameBase ∉ db.checkpointEffects.take k ∧
          (db.crashDisk k).base = db.disk.base ∧ (db.crashDisk k).wal = db.disk.wal ∨
        Effect.renameBase ∈ db.checkpointEffects.take k ∧ db.Unlinked (k - 2) (db.crashDisk k)) := by
  unfold crashDisk
  cases hsome : (db.readOnly || db.sealedWals.isEmpty) with
  | true =>
    have heff : db.checkpointEffects = [] := by rw [checkpointEffects, if_pos hsome]
    rw [heff, take_nil]
    exact ⟨rfl, .inl rfl, .inl ⟨not_mem_nil, rfl, rfl⟩⟩
  | false =>
    obtain ⟨sbs, heff, hsbs⟩ := hs.checkpointEffects_eq hsome
    rw [heff]
    match k with
    | 0 => exact ⟨rfl, .inl rfl, .inl ⟨not_mem_nil, rfl, rfl⟩⟩
    | 1 => exact ⟨rfl, .inl rfl, .inl ⟨by simp, rfl, rfl⟩⟩
    | j + 2 =>
      set disk := [Effect.writeBaseTmp db.copyBase, .renameBase].foldl Disk.apply db.disk with hdisk
      have hunl : ∀ content, db.Unlinked j
          { ((db.sealedWals.take j).map Effect.unlinkWal).foldl Disk.apply disk with
            superblock := content } := by
        intro content
        rw [foldl_apply_unlinkWal]
        exact ⟨rfl, fun id => foldl_unlink _ _ id⟩
      have htake : (Effect.writeBaseTmp db.copyBase :: .renameBase ::
          (db.sealedWals.map .unlinkWal ++ sbs)).take (j + 2)
          = [Effect.writeBaseTmp db.copyBase, .renameBase] ++
            ((db.sealedWals.take j).map .unlinkWal ++ sbs.take (j - db.sealedWals.length)) := by
        rw [take_succ_cons, take_succ_cons, take_append, length_map, map_take]
        rfl
      rw [htake, foldl_append, foldl_append]
      rcases hsbs (j - db.sealedWals.length) with hsb | ⟨content, hsb, hfile⟩
      · rw [hsb]
        refine ⟨?_, .inl ?_, .inr ⟨by simp, hunl _⟩⟩
        · rw [foldl_apply_unlinkWal]
          rfl
        · rw [foldl_apply_unlinkWal]
          rfl
      · rw [hsb]
        refine ⟨?_, .inr hfile.symm, .inr ⟨by simp, hunl _⟩⟩
        rw [foldl_apply_unlinkWal]
        rfl

/-- What a crash point leaves. -/
lemma Sound.leftBy_crashDisk {db : Db} (hs : db.Sound) (k : ℕ) : db.LeftBy (db.crashDisk k) := by
  obtain ⟨hstrays, hsb, hfiles⟩ := hs.crashDisk_cases k
  have hlead : (db.crashDisk k).wal db.leadingWalId = db.disk.wal db.leadingWalId := by
    rcases hfiles with ⟨-, -, hwal⟩ | ⟨-, hu⟩
    · rw [hwal]
    · rw [hu.wal, if_neg fun hmem => hs.toInv.sealed_ne (mem_of_mem_take hmem) rfl]
  refine { sb := ?_, strays := hstrays.trans hs.strays, base := ?_, lead := ?_, wal := ?_ }
  · rcases hsb with hsb | hsb
    · exact hs.sb.congr hsb
    · have hsame := sameLog_writeSuperblockLocked db.folded
      have hf := hs.folded.writeSuperblockLocked.sb
      rw [hsame.leadingWalId] at hf
      exact hf.congr hsb
  · rcases hfiles with ⟨-, hbase, -⟩ | ⟨-, hu⟩
    · rw [hbase]
      exact hs.baseHdr
    · exact ⟨_, _, hu.base, readFileHdr_newFile _ _ _⟩
  · obtain ⟨h, hh⟩ := hs.leadHdr
    exact ⟨db.lead, h, by rw [hlead, hs.file], hh⟩
  · intro id hid
    rcases hfiles with ⟨-, -, hwal⟩ | ⟨-, hu⟩
    · rwa [hwal] at hid
    · rw [hu.wal] at hid
      split_ifs at hid
      · cases hid
      · exact hid

/-! ### After the rename -/

/-- A deleted key that comes back once the first `n` sealed segments are unlinked: its tombstone is
not in the leading segment, and of its versions in the sealed segments that are left the newest is
live. -/
def Resurrects (db : Db) (n : ℕ) (key : UInt32) : Prop :=
  (∃ e, db.index.find key = some e ∧ e.tombstone = true ∧ e.segId ≠ db.leadingWalId) ∧
    ∃ v ∈ db.remaining n, v.key = key ∧ v.tombstone = false ∧ ∀ w ∈ db.remaining n, w.key = key → w.stamp ≤ v.stamp

lemma remaining_subset {db : Db} {n : ℕ} {e : IndexEntry} (h : e ∈ db.remaining n) : e ∈ db.settled := by
  obtain ⟨id, hid, -, he⟩ := h
  exact .inr (mem_flatMap.mpr ⟨id, hid, he⟩)

section Unlinked

variable {db db₁ : Db} {n : ℕ} {disk : Disk} (hu : db.Unlinked n disk) (hs : db.Sound)
  (hinert : db.Inert) (hm : db₁.MountedFrom disk db.leadingWalId)

include hu hs hinert hm

/-- The new base, the sealed segments that are left, and the leading segment. -/
lemma Unlinked.mem_versions {e : IndexEntry} :
    e ∈ (scanVolume db₁).versions ↔
      e ∈ segEntries baseSegId db.copyBase ∨ e ∈ db.remaining n ∨ e ∈ db.leadFrame.applied := by
  have hlead : fileEntries db.leadingWalId (disk.wal db.leadingWalId) = db.leadFrame.applied := by
    rw [hu.wal, if_neg fun hmem => hs.toInv.sealed_ne (mem_of_mem_take hmem) rfl, hs.file,
      ← hs.toInv.segEntries_lead hinert]
    rfl
  rw [hm.toLoaded.versions_scanVolume, hm.disk_eq]
  constructor
  · rintro (he | ⟨id, he⟩)
    · rw [hu.base] at he
      exact .inl he
    · by_cases hid : id = db.leadingWalId
      · subst hid
        exact .inr (.inr (hlead ▸ he))
      · rw [hu.wal] at he
        split_ifs at he with htake
        · exact absurd he not_mem_nil
        · obtain ⟨b, -, hb, -⟩ := mem_fileEntries he
          have hmem := (hs.walId id (by rw [hb]; rfl)).resolve_right hid
          exact .inr (.inl ⟨id, hmem, htake, he⟩)
  · rintro (he | ⟨id, -, htake, he⟩ | he)
    · left
      rw [hu.base]
      exact he
    · right
      refine ⟨id, ?_⟩
      rw [hu.wal, if_neg htake]
      exact he
    · exact .inr ⟨db.leadingWalId, hlead.symm ▸ he⟩

omit hinert in
lemma Unlinked.answer_eq {e : IndexEntry} (he : e ∈ db.remaining n ∨ e ∈ db.leadFrame.applied) :
    (scanVolume db₁).answer e = db.answer e := by
  refine hm.answer_eq hs.linked ?_
  rcases he with ⟨id, hid, htake, he⟩ | he
  · obtain rfl := segId_of_mem_fileEntries he
    have h0 : e.segId ≠ baseSegId := fun h0 => hs.sealedPos (h0 ▸ hid)
    rw [Disk.file, Disk.file, if_neg h0, if_neg h0, hu.wal, if_neg htake]
  · rw [(mem_leadFrame he).1, Disk.file, Disk.file, if_neg hs.leadPos, if_neg hs.leadPos, hu.wal,
      if_neg fun hmem => hs.toInv.sealed_ne (mem_of_mem_take hmem) rfl]

lemma Unlinked.standsFor : StandsFor (scanVolume db₁) db := by
  obtain ⟨hdisk, hfd, hlead, -⟩ := scanVolume_same db₁
  have hbase : (scanVolume db₁).resolveReadFd baseSegId = some db.copyBase := by
    rw [resolveReadFd_base, hdisk, hm.disk_eq, hu.base]
  have hid : (scanVolume db₁).leadingWalId = db.leadingWalId := hlead.trans hm.lead_eq
  intro x hx
  rcases (hu.mem_versions hs hinert hm).1 hx with hx | hx
  · obtain ⟨e, he, hk, hstamp, hans⟩ := hs.toInv.answer_copyEntry hs.sealedPos hbase hx
    obtain ⟨hf, -, hseg⟩ := mem_foldSelection.mp he
    refine ⟨e, (hs.represents.sound hf).1, hk.symm, hstamp.symm, ?_, hans⟩
    obtain ⟨-, -, -, -, hxseg, -⟩ := hs.toInv.mem_copyEntries hs.sealedPos hx
    rw [hid, hxseg]
    exact ⟨fun h => absurd h hseg, fun h => absurd h.symm hs.leadPos⟩
  · refine ⟨x, ?_, rfl, rfl, by rw [hid], hu.answer_eq hs hm hx⟩
    rcases hx with hx | hx
    · exact .inl (remaining_subset hx)
    · exact .inr hx

/-- Of a key whose tombstone is not in the leading segment, only the sealed segments that are left
still have versions. -/
lemma Unlinked.mem_remaining {key : UInt32} {e : IndexEntry} (hf : db.index.find key = some e)
    (hdead : e.tombstone = true) (hseg : e.segId ≠ db.leadingWalId) {y : IndexEntry}
    (hy : y ∈ (scanVolume db₁).versions) (hk : y.key = key) : y ∈ db.remaining n := by
  obtain ⟨he, hke⟩ := hs.represents.sound hf
  rcases (hu.mem_versions hs hinert hm).1 hy with hy | hy | hy
  · obtain ⟨o, ho, hko, -⟩ := hs.toInv.mem_copyEntries hs.sealedPos hy
    obtain ⟨hfo, hlive, -⟩ := mem_foldSelection.mp ho
    rw [← hko, hk, hf] at hfo
    cases hfo
    rw [hdead] at hlive
    cases hlive
  · exact hy
  · obtain ⟨e', hf', hle⟩ := hs.represents.top y (.inr hy)
    rw [hk, hf] at hf'
    cases hf'
    exact absurd (hs.ordered e (settled_of_segId_ne he hseg) y hy) (not_lt.mpr hle)

/-- A key that comes back is missing before the crash and not after it. -/
lemma Unlinked.getKey_of_resurrects {key : UInt32} (h : db.Resurrects n key) :
    db.getKey key dataMax = .error .ENOENT ∧ (scanVolume db₁).getKey key dataMax ≠ .error .ENOENT := by
  obtain ⟨⟨e, hf, hdead, hseg⟩, v, hv, hkv, hlive, hmax⟩ := h
  have hrep := hm.represents
  -- the newest version that is left is found, and it is live
  obtain ⟨y, hfy, hle⟩ := hrep.top v ((hu.mem_versions hs hinert hm).2 (.inr (.inl hv)))
  rw [hkv] at hfy
  obtain ⟨hy, hky⟩ := hrep.sound hfy
  have hyr := hu.mem_remaining hs hinert hm hf hdead hseg hy hky
  have hans : (scanVolume db₁).answer y = db.answer v := by
    rw [hu.answer_eq hs hm (.inl hyr)]
    exact hs.ties y (.inl (remaining_subset hyr)) v (.inl (remaining_subset hv))
      (hky.trans hkv.symm) (le_antisymm (hmax y hyr hky) hle)
  rw [getKey_of_find hf (by decide), getKey_of_find hfy (by decide), hans]
  exact ⟨db.answer_of_tombstone hdead _,
    hs.toInv.answer_ne_of_live hs.sealedPos (.inl (remaining_subset hv)) hlive _⟩

/-- A crash point after the rename changes the answers for a key exactly if the key comes back. -/
theorem Unlinked.getKey_eq_iff (key : UInt32) :
    (∀ outLen, (scanVolume db₁).getKey key outLen = db.getKey key outLen) ↔ ¬ db.Resurrects n key := by
  have hstand := hu.standsFor hs hinert hm
  have hmem {e : IndexEntry} := hu.mem_versions hs hinert hm (e := e)
  have hrep := hm.represents
  constructor
  · intro heq hback
    obtain ⟨hmissing, hfound⟩ := hu.getKey_of_resurrects hs hinert hm hback
    exact hfound ((heq dataMax).trans hmissing)
  · intro hnot outLen
    by_cases hkept : ∀ e, db.index.find key = some e →
        ∃ x ∈ (scanVolume db₁).versions, x.key = key ∧ x.stamp = e.stamp
    · exact hstand.getKey_eq hs.represents hrep hs.ties hkept outLen
    · push Not at hkept
      obtain ⟨e, hf, hgone⟩ := hkept
      obtain ⟨he, hke⟩ := hs.represents.sound hf
      -- only a tombstone outside the leading segment is not stood for
      have hseg : e.segId ≠ db.leadingWalId := by
        intro hseg
        rcases he with he | he
        · exact hs.toInv.segId_ne_of_settled he hseg
        · exact hgone e (hmem.2 (.inr (.inr he))) hke rfl
      have hdead : e.tombstone = true := by
        by_contra hlive
        have hsel : e ∈ db.foldSelection :=
          mem_foldSelection.mpr ⟨by rw [hke]; exact hf, by simpa using hlive, hseg⟩
        obtain ⟨x, hx, hkx, hsx, -⟩ := hs.toInv.exists_copyEntry hs.sealedPos hsel
        exact hgone x (hmem.2 (.inl hx)) (hkx.trans hke) hsx
      by_cases hout : outLen = 0
      · rw [hout, getKey_zero, getKey_zero]
      · rw [getKey_of_find hf hout, db.answer_of_tombstone hdead]
        cases hfy : (scanVolume db₁).index.find key with
        | none => exact getKey_of_find_none hfy hout
        | some y =>
          obtain ⟨hy, hky⟩ := hrep.sound hfy
          have hyr := hu.mem_remaining hs hinert hm hf hdead hseg hy hky
          rw [getKey_of_find hfy hout]
          apply answer_of_tombstone
          by_contra hlive
          refine hnot ⟨⟨e, hf, hdead, hseg⟩, y, hyr, hky, by simpa using hlive, ?_⟩
          intro w hw hkw
          obtain ⟨y', hfy', hle⟩ := hrep.top w (hmem.2 (.inr (.inl hw)))
          rw [hkw, hfy] at hfy'
          cases hfy'
          exact hle

end Unlinked

/-! ### Reachable states -/

/-- The directories an engine leaves when it stops: closed, crashed before or inside a checkpoint, or
with the end of its leading segment lost. -/
inductive Left (db : Db) : Disk → Prop
  | closed : Left db db.close
  | crashed (k : ℕ) : Left db (db.crashDisk k)
  | cut (n : ℕ) (hn : segDataStart ≤ n) : Left db (db.disk.truncate db.leadingWalId n)

/-- The states of a volume that was formatted, used, and restarted any number of times. No counter
wraps on the way, a segment is sealed and a directory recovered only with nothing committed behind the
write offset, and a directory is opened within the limits of its listing. -/
inductive Reached : Db → Prop
  | format {db : Db} (h : db.Formatted) : Reached db
  | step {db : Db} (h : Reached db) (op : Op) (hroom : db.Room op)
      (hinert : (db.step op).1.leadingWalId ≠ db.leadingWalId → db.Inert) : Reached (db.step op).1
  | restart {db db' : Db} {disk : Disk} {names : List UInt32} {want : UInt64} {format : Bool}
      (h : Reached db) (hinert : db.Inert) (hleft : Left db disk) (hlist : disk.Listable names)
      (hseq : ∀ r ∈ disk.records, r.hdr.seq.toNat + 1 < 2 ^ 64)
      (hopen : Db.open disk names want format = .ok db') : Reached db'

section Left

variable {db : Db} {disk : Disk} (h : Left db disk) (hs : db.Sound)

include h hs

lemma Left.leftBy : db.LeftBy disk := by
  cases h with
  | closed => exact hs.leftBy_close
  | crashed k => exact hs.leftBy_crashDisk k
  | cut n hn => exact hs.leftBy_truncate hn

lemma Left.standsFor (hinert : db.Inert) {db₁ : Db} (hm : db₁.MountedFrom disk db.leadingWalId) :
    StandsFor (scanVolume db₁) db := by
  cases h with
  | closed =>
    have hsame := sameLog_writeSuperblockLocked db
    have hclose := hs.toReady.close_eq
    exact (hs.same_of_files hinert hm (by rw [hclose]; exact hsame.base) (by rw [hclose]; exact hsame.disk_wal)).2
  | crashed k =>
    obtain ⟨-, -, ⟨-, hbase, hwal⟩ | ⟨-, hu⟩⟩ := hs.crashDisk_cases k
    · exact (hs.same_of_files hinert hm hbase hwal).2
    · exact hu.standsFor hs hinert hm
  | cut n hn => exact hs.standsFor_truncate hinert hm

end Left

theorem Reached.sound {db : Db} (h : db.Reached) : db.Sound := by
  induction h with
  | format h =>
    obtain ⟨segmentBytes, rfl⟩ := h.eq_fresh
    exact sound_fresh segmentBytes
  | step h op hroom hinert ih => exact ih.step hroom hinert
  | @restart db db' disk names want format h hinert hleft hlist hseq hopen ih =>
    have hby := hleft.leftBy ih
    have hmount := hby.mountable ih
    obtain ⟨sb, hsb, -⟩ := hmount.sb
    have hopened : disk.opened want format = disk := by simp only [Disk.opened, hsb]
    obtain ⟨db₁, lead, rfl, hm, hmount'⟩ := open_mounted hopen (by rwa [hopened])
    rw [hopened] at hm hmount'
    obtain rfl := hmount'.lead_unique hmount
    exact hby.sound_scanVolume ih hm hseq (hleft.standsFor ih hinert hm)

/-- The states of fault-free runs are reachable. -/
lemma Formatted.reached_run {db : Db} (h : db.Formatted) {ops : List Op} (hroom : db.RoomFor ops) :
    (db.run ops).Reached := by
  have hstep : ∀ (s : Db) (op : Op), s.Reached ∧ s.Used → s.Room op → (s.step op).1.Reached ∧ (s.step op).1.Used :=
    fun s op hs hok => ⟨hs.1.step op hok fun _ => hs.2.clean.inert, hs.2.step hok⟩
  have hused : db.Used := by
    obtain ⟨segmentBytes, rfl⟩ := h.eq_fresh
    exact used_fresh segmentBytes
  exact (Run.Guarded.invariant hstep hroom ⟨.format h, hused⟩).1

/-- A crash point before the rename changes nothing; one after it changes the answers exactly if a
deleted key comes back. -/
lemma Sound.crashDisk_recovers {db : Db} (hs : db.Sound) (hinert : db.Inert) (k : ℕ) {db₁ : Db}
    (hm : db₁.MountedFrom (db.crashDisk k) db.leadingWalId) :
    (∀ key outLen, (scanVolume db₁).getKey key outLen = db.getKey key outLen) ↔
      (Effect.renameBase ∈ db.checkpointEffects.take k → ∀ key, ¬ db.Resurrects (k - 2) key) := by
  obtain ⟨-, -, ⟨hnot, hbase, hwal⟩ | ⟨hmem, hu⟩⟩ := hs.crashDisk_cases k
  · obtain ⟨hversions, hstand⟩ := hs.same_of_files hinert hm hbase hwal
    refine ⟨fun _ h => absurd h hnot, fun _ key outLen => ?_⟩
    refine hstand.getKey_eq hs.represents hm.represents hs.ties ?_ outLen
    intro e hf
    obtain ⟨he, hk⟩ := hs.represents.sound hf
    exact ⟨e, hversions ▸ he, hk, rfl⟩
  · constructor
    · intro heq _ key
      exact (hu.getKey_eq_iff hs hinert hm key).mp (heq key)
    · intro hnot key
      exact (hu.getKey_eq_iff hs hinert hm key).mpr (hnot hmem key)

end Db

/-- A crash at any point of a checkpoint is recovered to the map before it, exactly when the base was
not yet replaced or no key comes back that was deleted. -/
theorem checkpoint_crash_recovers_iff (db : Db) (hr : db.Reached) (hinert : db.Inert)
    (hfew : db.FewSegments) (k : ℕ) (names : List UInt32) (hn : (db.crashDisk k).Listing names)
    (want : UInt64) (hwant : want % 512 = 0) (format : Bool) :
    (∃ db', Db.open (db.crashDisk k) names want format = .ok db' ∧
        ∀ key outLen, db'.getKey key outLen = db.getKey key outLen) ↔
      (Effect.renameBase ∈ db.checkpointEffects.take k → ∀ key, ¬ db.Resurrects (k - 2) key) := by
  have hs := hr.sound
  have hby := hs.leftBy_crashDisk k
  obtain ⟨db₁, hload, hm⟩ := (hby.mountable hs).load (hby.listable hs hfew hn) hwant format
  have hopen : Db.open (db.crashDisk k) names want format = .ok (scanVolume db₁) := by
    rw [Db.open, hload]
    rfl
  rw [← hs.crashDisk_recovers hinert k hm]
  constructor
  · rintro ⟨db', hopen', heq⟩
    rw [hopen] at hopen'
    cases hopen'
    exact heq
  · exact fun heq => ⟨_, hopen, heq⟩

theorem checkpoint_crash_recovers_two_puts :
    let db := (Db.fresh 5120).run [maxPut 7, maxPut 8]
    Effect.renameBase ∈ db.checkpointEffects.take 2 ∧ ∃ db', Db.open (db.crashDisk 2) [1, 2] 5120 false = .ok db' ∧
        ∀ key outLen, db'.getKey key outLen = db.getKey key outLen := by
  intro db
  -- one evaluation for all that is to be known of the run
  obtain ⟨hroom, hlead, hids, hstrays, hrename, hfew, hlive⟩ : (Db.fresh 5120).RoomFor [maxPut 7, maxPut 8] ∧
      db.leadingWalId = 2 ∧ (db.crashDisk 2).walIds 2 = [1, 2] ∧ (db.crashDisk 2).strays = [] ∧
      Effect.renameBase ∈ db.checkpointEffects.take 2 ∧ db.FewSegments ∧
      ∀ e ∈ db.index.entries, e.tombstone = false := by decide +kernel
  have hreached := (Db.formatted_fresh).reached_run hroom
  have hs := hreached.sound
  have hmount := (hs.leftBy_crashDisk 2).mountable hs
  rw [hlead] at hmount
  have hn := hmount.listing_walIds hstrays
  rw [hids] at hn
  refine ⟨hrename, ?_⟩
  refine (checkpoint_crash_recovers_iff db hreached ((Db.used_fresh 5120).run hroom).clean.inert
    hfew 2 [1, 2] hn 5120 (by decide) false).mpr ?_
  rintro - key ⟨⟨e, hf, hdead, -⟩, -⟩
  rw [hlive e (Index.mem_entries.mpr ((Index.find_key hf).symm ▸ hf))] at hdead
  cases hdead

/-! The counterexample: a put, its delete and a put of another key, in a segment each. The delete's
segment was sealed last, so it is the first to be unlinked. -/

def tinyPut (key : UInt32) (durability : Durability) : Op :=
  .mutate (.put key [1] false) durability

def tinyDelete (key : UInt32) : Op := .mutate (.delete key) .local

theorem interrupted_checkpoint_revives_key :
    let db := (Db.fresh 1024).run [tinyPut 7 .local, tinyDelete 7, tinyPut 8 .local]
    db.Reached ∧ (db.crashDisk 3).Listing [1, 3] ∧ db.getKey 7 dataMax = .error .ENOENT ∧
      ∃ db', Db.open (db.crashDisk 3) [1, 3] 1024 false = .ok db' ∧ db'.getKey 7 dataMax ≠ .error .ENOENT := by
  intro db
  obtain ⟨hroom, hlead, hids, hstrays, hgone⟩ :
      (Db.fresh 1024).RoomFor [tinyPut 7 .local, tinyDelete 7, tinyPut 8 .local] ∧ db.leadingWalId = 3 ∧
      (db.crashDisk 3).walIds 3 = [1, 3] ∧ (db.crashDisk 3).strays = [] ∧ db.getKey 7 dataMax = .error .ENOENT := by
    decide +kernel
  have hreached : db.Reached := (Db.formatted_fresh).reached_run hroom
  have hmount := (hreached.sound.leftBy_crashDisk 3).mountable hreached.sound
  rw [hlead] at hmount
  have hn := hmount.listing_walIds hstrays
  rw [hids] at hn
  have hok : ∃ db' ∈ (Db.open (db.crashDisk 3) [1, 3] 1024 false).toOption, db'.getKey 7 dataMax ≠ .error .ENOENT := by
    have hsort : discoverWalIds [1, 3] = [1, 3] := mergeSort_of_pairwise (by decide)
    simp only [Db.open, loadOrFormat, loadVolume, hsort]
    decide +kernel
  obtain ⟨db', hopen, hkey⟩ := Db.exists_open hok
  exact ⟨hreached, hn, hgone, db', hopen, hkey⟩

end Picowal
