import Picoweb.Picowal.Cut
import Picoweb.Picowal.Stale

/-!
# Directories a stop leaves behind

An engine may stop at a close, between two effects of a checkpoint, or with a part of its leading
segment lost. Every version recovery finds in what is left stands for one of the engine's versions:
it is that version, or the copy a checkpoint made of it.
-/

namespace Picowal

open ByteFile

def Disk.file (disk : Disk) (segId : UInt32) : Option Bytes :=
  if segId = baseSegId then disk.base else disk.wal segId

lemma Disk.SbAll.congr {disk disk' : Disk} {ok : Superblock → Prop} (h : disk.SbAll ok)
    (heq : disk'.superblock = disk.superblock) : disk'.SbAll ok := by
  obtain ⟨f, hf, hrest⟩ := h.file
  exact ⟨f, heq.trans hf, hrest⟩

namespace Db

lemma resolveReadFd_of_linked {db : Db} (h : db.leadingFd = .linked) (segId : UInt32) :
    db.resolveReadFd segId = db.disk.file segId := by
  unfold resolveReadFd Disk.file leadingContent
  by_cases h0 : segId = baseSegId
  · rw [if_pos h0, if_pos h0]
  · rw [if_neg h0, if_neg h0, h]
    by_cases hl : segId = db.leadingWalId
    · rw [if_pos hl, hl]
    · rw [if_neg hl]

/-- Every version of `db'` stands for a version of `db`, one in the leading segment for one in the
leading segment. -/
def StandsFor (db' db : Db) : Prop :=
  ∀ x ∈ db'.versions, ∃ o ∈ db.versions, o.key = x.key ∧ o.stamp = x.stamp ∧
    (o.segId = db.leadingWalId ↔ x.segId = db'.leadingWalId) ∧ db'.answer x = db.answer o

section StandsFor

variable {db db' : Db} (h : StandsFor db' db)

include h

lemma StandsFor.ties (ht : db.Ties) : db'.Ties := by
  intro x hx y hy hk hstamp
  obtain ⟨o, ho, hko, hso, -, hao⟩ := h x hx
  obtain ⟨p, hp, hkp, hsp, -, hap⟩ := h y hy
  rw [hao, hap]
  exact ht o ho p hp (hko.trans (hk.trans hkp.symm)) (hso.trans (hstamp.trans hsp.symm))

lemma StandsFor.ordered (hi : db.Inv) (hi' : db'.Inv) (hord : db.Ordered) : db'.Ordered := by
  intro x hx y hy
  obtain ⟨o, ho, -, hso, hlo, -⟩ := h x (.inl hx)
  obtain ⟨p, hp, -, hsp, hlp, -⟩ := h y (.inr hy)
  have hset : o ∈ db.settled := by
    refine settled_of_segId_ne ho fun hseg => ?_
    exact hi'.segId_ne_of_settled hx (hlo.mp hseg)
  have hlead : p ∈ db.leadFrame.applied := by
    rcases hp with hp | hp
    · exact absurd (hlp.mpr (mem_leadFrame hy).1) (hi.segId_ne_of_settled hp)
    · exact hp
  rw [← hso, ← hsp]
  exact hord o hset p hlead

/-- The answers are the same for a key whose newest version is still stood for. -/
lemma StandsFor.getKey_eq (hrep : db.index.Represents db.versions)
    (hrep' : db'.index.Represents db'.versions) (ht : db.Ties) {key : UInt32}
    (hkey : ∀ e, db.index.find key = some e → ∃ x ∈ db'.versions, x.key = key ∧ x.stamp = e.stamp)
    (outLen : ℕ) : db'.getKey key outLen = db.getKey key outLen := by
  have hfind : (db'.index.find key).map (fun e => db'.answer e outLen)
      = (db.index.find key).map fun e => db.answer e outLen := by
    refine hrep'.map_eq hrep _ _ key ?_ ?_ ?_
    · intro x hx hk
      obtain ⟨o, ho, hko, hso, -⟩ := h x hx
      exact ⟨o, ho, hko.trans hk, hso.ge⟩
    · intro o ho hk
      obtain ⟨e, hf, hle⟩ := hrep.top o ho
      rw [hk] at hf
      obtain ⟨x, hx, hkx, hsx⟩ := hkey e hf
      exact ⟨x, hx, hkx, hsx ▸ hle⟩
    · intro x hx w hw hkx hkw hstamp
      obtain ⟨o, ho, hko, hso, -, hao⟩ := h x hx
      rw [hao, ht o ho w hw (hko.trans (hkx.trans hkw.symm)) (hso.trans hstamp)]
  rw [Db.getKey_eq, Db.getKey_eq, hfind]

end StandsFor

/-! ### What every stop leaves in place -/

/-- The parts of the directory that no stop takes away. -/
structure LeftBy (db : Db) (disk : Disk) : Prop where
  sb : disk.SbNames db.leadingWalId
  strays : disk.strays = []
  base : ∃ f h, disk.base = some f ∧ readFileHdr f baseSegId = some h
  lead : ∃ f h, disk.wal db.leadingWalId = some f ∧ readFileHdr f db.leadingWalId = some h
  wal : ∀ id, (disk.wal id).isSome → (db.disk.wal id).isSome

section LeftBy

variable {db : Db} {disk : Disk} (h : db.LeftBy disk) (hs : db.Sound)

include h hs

lemma LeftBy.mountable : disk.Mountable db.leadingWalId where
  sb := h.sb.winner
  leadFile := h.lead
  baseFile := h.base
  walLe := fun id hid => hs.toInv.wal_le (h.wal id hid)
  strayLe := by
    rw [h.strays]
    simp

lemma LeftBy.listable (hfew : db.FewSegments) {names : List UInt32} (hn : disk.Listing names) : disk.Listable names :=
  hfew.listable hs.toInv h.wal h.strays hn

lemma LeftBy.wal_base : disk.wal baseSegId = none := by
  by_contra hne
  rcases hs.walId baseSegId (h.wal _ (Option.isSome_iff_ne_none.mpr hne)) with hmem | hmem
  · exact hs.sealedPos hmem
  · exact hs.leadPos hmem.symm

/-- Recovery of what is left makes a sound state. -/
lemma LeftBy.sound_scanVolume {db₁ : Db} (hm : db₁.MountedFrom disk db.leadingWalId)
    (hseq : ∀ r ∈ disk.records, r.hdr.seq.toNat + 1 < 2 ^ 64)
    (hstand : StandsFor (scanVolume db₁) db) : (scanVolume db₁).Sound := by
  obtain ⟨hdisk, -, hlead, hsealed⟩ := scanVolume_same db₁
  have hi : (scanVolume db₁).Inv := hm.toLoaded.inv_scanVolume (by rwa [hm.disk_eq])
  refine { toInv := hi, ordered := hstand.ordered hs.toInv hi hs.ordered, sealedPos := ?_
           ties := hstand.ties hs.ties, sb := ?_, strays := ?_ }
  · intro hmem
    rcases hm.sealedWal _ hmem with hw | hw
    · rw [h.wal_base hs] at hw
      cases hw
    · rw [h.strays] at hw
      exact absurd hw List.not_mem_nil
  · rw [hdisk, hm.disk_eq, hlead, hm.lead_eq]
    exact h.sb
  · rw [hdisk, hm.disk_eq]
    exact h.strays

end LeftBy

lemma MountedFrom.represents {db₁ : Db} {disk : Disk} {lead : UInt32} (hm : db₁.MountedFrom disk lead) :
    (scanVolume db₁).index.Represents (scanVolume db₁).versions := by
  rw [hm.toLoaded.versions_scanVolume]
  exact hm.toLoaded.represents_scanVolume

lemma MountedFrom.answer_eq {db db₁ : Db} {disk : Disk} {lead : UInt32}
    (hm : db₁.MountedFrom disk lead) (hl : db.leadingFd = .linked) {e : IndexEntry}
    (hfile : disk.file e.segId = db.disk.file e.segId) : (scanVolume db₁).answer e = db.answer e := by
  obtain ⟨hdisk, hfd, -, -⟩ := scanVolume_same db₁
  apply answer_of_resolve_eq
  rw [resolveReadFd_of_linked (hfd.trans hm.linked), resolveReadFd_of_linked hl, hdisk, hm.disk_eq, hfile]

/-! ### A close, and a tail that is lost -/

section Kept

variable {db db₁ : Db} {disk : Disk} (hs : db.Sound) (hinert : db.Inert)

include hs

lemma Sound.leftBy_close : db.LeftBy db.close := by
  have hsame := sameLog_writeSuperblockLocked db
  have hc := hs.writeSuperblockLocked
  rw [hs.toReady.close_eq]
  refine { sb := ?_, strays := hc.strays, base := hc.baseHdr, lead := ?_, wal := ?_ }
  · rw [← hsame.leadingWalId]
    exact hc.sb
  · obtain ⟨h, hh⟩ := hs.leadHdr
    exact ⟨db.lead, h, by rw [hsame.leadWal, hs.file], hh⟩
  · intro id hid
    rwa [hsame.disk_wal] at hid

lemma Sound.leftBy_truncate {n : ℕ} (hn : segDataStart ≤ n) : db.LeftBy (db.disk.truncate db.leadingWalId n) where
  sb := hs.sb.congr rfl
  strays := hs.strays
  base := hs.baseHdr
  lead := by
    obtain ⟨h, hh⟩ := hs.leadHdr
    refine ⟨db.lead.take n, h, Disk.wal_truncate_self hs.file n, ?_⟩
    rw [← hh]
    exact readFileHdr_congr (n := n) (by rw [List.take_take, Nat.min_self]) hn _
  wal := by
    intro id hid
    by_cases hl : id = db.leadingWalId
    · rw [hl, hs.file]
      rfl
    · rwa [Disk.wal_truncate_of_ne hl] at hid

include hinert

/-- With the same files, recovery finds the same versions. -/
lemma Sound.same_of_files (hm : db₁.MountedFrom disk db.leadingWalId)
    (hbase : disk.base = db.disk.base) (hwal : disk.wal = db.disk.wal) :
    (scanVolume db₁).versions = db.versions ∧ StandsFor (scanVolume db₁) db := by
  have hversions : (scanVolume db₁).versions = db.versions := by
    rw [hm.toLoaded.versions_scanVolume, hm.disk_eq, ← hs.toInv.disk_versions hinert,
      Disk.versions, Disk.versions, hbase, hwal]
  refine ⟨hversions, ?_⟩
  intro x hx
  refine ⟨x, hversions ▸ hx, rfl, rfl, ?_, hm.answer_eq hs.linked ?_⟩
  · rw [(scanVolume_same db₁).2.2.1, hm.lead_eq]
  · rw [Disk.file, Disk.file, hbase, hwal]

/-- A cut tail only takes versions away. -/
lemma Sound.standsFor_truncate {n : ℕ} (hm : db₁.MountedFrom (db.disk.truncate db.leadingWalId n) db.leadingWalId) :
    StandsFor (scanVolume db₁) db := by
  have hcut : CutTo db n { db₁ with sealedWals := db.sealedWals } :=
    ⟨hm.linked, hm.disk_eq, hm.lead_eq, List.Perm.refl _⟩
  obtain ⟨hdisk, hfd, hlead, -⟩ := scanVolume_same db₁
  have hread : ∀ {e}, e ∈ db.versionsAt n → (scanVolume db₁).answer e = db.answer e := by
    intro e he
    have hres : (scanVolume db₁).resolveReadFd e.segId
        = ({ db₁ with sealedWals := db.sealedWals } : Db).resolveReadFd e.segId := by
      simp only [resolveReadFd, leadingContent, hdisk, hfd, hlead]
    exact answer_congr ((readEntry_of_resolve_eq hres _).trans (hcut.readEntry_eq hs he _))
  have hmem : ∀ {e}, e ∈ (db.disk.truncate db.leadingWalId n).versions → e ∈ db.versionsAt n := by
    rintro e (he | ⟨id, he⟩)
    · exact .inl (.inl he)
    · by_cases hid : id = db.leadingWalId
      · subst hid
        rw [Disk.wal_truncate_self hs.file] at he
        exact .inr he
      · rw [Disk.wal_truncate_of_ne hid] at he
        obtain ⟨b, -, hb, -⟩ := mem_fileEntries he
        have hsealed := (hs.walId id (by rw [hb]; rfl)).resolve_right hid
        exact .inl (.inr (List.mem_flatMap.mpr ⟨id, hsealed, he⟩))
  intro x hx
  rw [hm.toLoaded.versions_scanVolume, hm.disk_eq] at hx
  have hat := hmem hx
  refine ⟨x, ?_, rfl, rfl, ?_, hread hat⟩
  · rcases hat with hat | hat
    · exact .inl hat
    · right
      rw [← hs.toInv.segEntries_lead hinert]
      exact segEntries_take hat
  · rw [hlead, hm.lead_eq]

end Kept

end Db

end Picowal
