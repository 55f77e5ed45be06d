import Picoweb.Picowal.Mutate

/-!
# The engine's invariant

The committed records of `base.dat`, the sealed segments and the leading segment are the versions the
engine holds, and its index keeps a newest version of every key among them. Appending and rotating
keep this.
-/

namespace Picowal

open ByteFile List

/-- The entries of a file that may be missing. -/
def fileEntries (segId : UInt32) (f : Option Bytes) : List IndexEntry :=
  match f with
  | none => []
  | some f => segEntries segId f

namespace Db

/-- The records of the leading segment up to the write offset. -/
def leadRecs (db : Db) : List (ℕ × Rec) := walk db.lead db.leadingWriteOff segDataStart

/-- What a scan of the leading segment up to the write offset makes of it. -/
def leadFrame (db : Db) : Frame := frame db.leadingWalId segDataStart db.leadRecs

def baseEntries (db : Db) : List IndexEntry := fileEntries baseSegId db.disk.base

def sealedEntries (db : Db) : List IndexEntry :=
  db.sealedWals.flatMap fun id => fileEntries id (db.disk.wal id)

/-- The versions outside the leading segment. -/
def settled (db : Db) : Set IndexEntry := {e | e ∈ db.baseEntries ∨ e ∈ db.sealedEntries}

def versions (db : Db) : Set IndexEntry := db.settled ∪ {e | e ∈ db.leadFrame.applied}

/-- No record that a walk past the write offset meets is commit-marked. -/
def Inert (db : Db) : Prop :=
  ∀ p ∈ walk db.lead db.lead.length db.leadingWriteOff, p.2.commit = false

/-- The segments of the engine are those of the directory. -/
structure Laid (db : Db) : Prop where
  leadPos : db.leadingWalId ≠ baseSegId
  leadHdr : ∃ h, readFileHdr db.lead db.leadingWalId = some h
  baseHdr : ∃ f h, db.disk.base = some f ∧ readFileHdr f baseSegId = some h
  sealedLt : ∀ id ∈ db.sealedWals, id.toNat < db.leadingWalId.toNat
  walId : ∀ id, (db.disk.wal id).isSome → id ∈ db.sealedWals ∨ id = db.leadingWalId

structure Inv (db : Db) : Prop extends Ready db, Laid db where
  leadLog : IsLog db.lead segDataStart db.leadRecs db.leadingWriteOff
  represents : db.index.Represents db.versions
  seq : ∀ e ∈ db.versions, e.stamp < db.nextSeq.toNat
  fresh : ∀ t : UInt64, db.nextSeq.toNat ≤ t.toNat → db.leadFrame.Fresh t

lemma Inv.sealed_ne {db : Db} (h : db.Inv) {id : UInt32} (hid : id ∈ db.sealedWals) : id ≠ db.leadingWalId := by
  rintro rfl
  exact lt_irrefl _ (h.sealedLt _ hid)

/-- A header is read off the first sector. -/
lemma readFileHdr_congr {f g : Bytes} {n : ℕ} (hfg : f.take n = g.take n) (hn : 512 ≤ n)
    (segId : UInt32) : readFileHdr f segId = readFileHdr g segId := by
  simp only [readFileHdr, preadFull]
  rw [readAt_congr hfg (by simpa using hn)]

@[simp] lemma readFileHdr_newFile (segId generation : UInt32) (rest : Bytes) :
    readFileHdr (newFile segId generation ++ rest) segId = some (fileHdr segId generation) := by
  have hraw : readAt (newFile segId generation ++ rest) 512 0 = some (fileHdr segId generation).encode := by
    have hdrop : (newFile segId generation ++ rest).drop 0 = (fileHdr segId generation).encode ++ rest := rfl
    have := readAt_of_drop hdrop (Nat.zero_le _)
    simpa using this
  simp [readFileHdr, preadFull, hraw]

lemma readFileHdr_newFile_self (segId generation : UInt32) :
    readFileHdr (newFile segId generation) segId = some (fileHdr segId generation) := by
  simpa using readFileHdr_newFile segId generation []

/-! ### Appending -/

section Append

variable {db db' : Db} {rs : List (ℕ × Rec)} {committed : Bool}

lemma Logged.settled (h : Logged db rs db') (hi : db.Inv) : db'.settled = db.settled := by
  have hsealed : db'.sealedEntries = db.sealedEntries := by
    unfold sealedEntries
    rw [h.sealedWals]
    apply flatMap_congr
    intro id hid
    rw [h.wal id (hi.sealed_ne hid)]
  simp only [Db.settled, baseEntries, h.base, hsealed]

lemma Logged.isLog (h : Logged db rs db') (hi : db.Inv) :
    IsLog db'.lead segDataStart (db.leadRecs ++ rs) db'.leadingWriteOff :=
  IsLog.append (hi.leadLog.congr h.take.symm le_rfl) h.log

lemma Logged.leadRecs (h : Logged db rs db') (hi : db.Inv) : db'.leadRecs = db.leadRecs ++ rs :=
  (h.isLog hi).walk_eq_self h.ready.off_le

lemma Logged.leadFrame (h : Logged db rs db') (hi : db.Inv) :
    db'.leadFrame = rs.foldl (Frame.step db.leadingWalId) db.leadFrame := by
  simp only [Db.leadFrame, h.leadRecs hi, h.leadingWalId, frame_append]

/-- The frame after a committed unit: nothing is pending, and the log ends with a commit. -/
lemma Appended.frame_commit (h : Appended db rs true db') (hi : db.Inv) : db'.leadFrame.pending = [] ∧
      db'.leadFrame.applied = db.leadFrame.applied ++ db.unitEntries rs ∧
      db'.leadFrame.committedEnd = db'.leadingWriteOff := by
  rw [h.leadFrame hi]
  obtain ⟨init, last, rfl, hinit, hlast⟩ := h.marks
  have hlen := h.len
  rw [length_append] at hlen
  have htxn := h.txnId
  obtain ⟨h1, h2, h3⟩ := @Frame.foldl_commit db.leadingWalId _ _ _ _ (hi.fresh db.nextSeq le_rfl)
    (fun p hp => ⟨htxn p (mem_append_left _ hp), hinit p hp⟩)
    ⟨htxn last (by simp), hlast⟩ hlen
  obtain ⟨b, -, ho, -, hend⟩ := h.log.append_inv
  refine ⟨h1, h2, ?_⟩
  rw [h3, ho]
  exact hend

/-- A committed unit is applied; one that is not leaves the applied entries alone. -/
lemma Appended.applied (h : Appended db rs committed db') (hi : db.Inv) : db'.leadFrame.applied
      = db.leadFrame.applied ++ (if committed then db.unitEntries rs else []) := by
  cases committed with
  | true => exact (h.frame_commit hi).2.1
  | false =>
    rw [h.leadFrame hi, (Frame.foldl_applied_of_open h.marks).1]
    simp

lemma Appended.versions (h : Appended db rs committed db') (hi : db.Inv) :
    db'.versions = db.versions ∪ {e | e ∈ if committed then db.unitEntries rs else []} := by
  simp only [Db.versions, h.settled hi, h.applied hi]
  ext e
  simp [or_assoc]

/-- No later transaction can be taken for a part of what is pending. -/
lemma Appended.fresh (h : Appended db rs committed db') (hi : db.Inv) {t : UInt64}
    (ht : db'.nextSeq.toNat ≤ t.toNat) : db'.leadFrame.Fresh t := by
  have hnext := h.nextSeq
  cases committed with
  | true => exact .inl (h.frame_commit hi).1
  | false =>
    rw [h.leadFrame hi]
    rcases rs.eq_nil_or_concat' with rfl | ⟨rs, last, rfl⟩
    · exact hi.fresh t (by simpa [h.nextSeq] using ht)
    · right
      have hlast := h.txnId last (by simp)
      rw [foldl_append, foldl_cons, foldl_nil,
        (Frame.step_open _ _ (h.marks last (by simp))).2.1, hlast]
      rintro rfl
      rw [length_append, length_singleton] at hnext
      omega

/-- The seqs of a unit are the next ones. -/
lemma Logged.seq_mem (h : Logged db rs db') {p : ℕ × Rec} (hp : p ∈ rs) :
    db.nextSeq.toNat ≤ p.2.hdr.seq.toNat ∧ p.2.hdr.seq.toNat < db'.nextSeq.toNat := by
  have hmem : p.2.hdr.seq.toNat ∈ range' db.nextSeq.toNat rs.length := by
    rw [← h.seqs]
    exact mem_map_of_mem hp
  rw [mem_range'_1] at hmem
  rw [h.nextSeq]
  exact hmem

lemma Logged.stamp_mem (h : Logged db rs db') {e : IndexEntry} (he : e ∈ db.unitEntries rs) :
    db.nextSeq.toNat ≤ e.stamp ∧ e.stamp < db'.nextSeq.toNat := by
  obtain ⟨p, hp, rfl⟩ := mem_map.mp he
  exact h.seq_mem hp

theorem Appended.inv (h : Appended db rs committed db') (hi : db.Inv) : db'.Inv where
  toReady := h.ready
  leadPos := by rw [h.leadingWalId]; exact hi.leadPos
  leadHdr := by
    rw [readFileHdr_congr h.take hi.leadLog.le, h.leadingWalId]
    exact hi.leadHdr
  leadLog := by
    rw [h.leadRecs hi]
    exact h.isLog hi
  baseHdr := by rw [h.base]; exact hi.baseHdr
  sealedLt := by rw [h.sealedWals, h.leadingWalId]; exact hi.sealedLt
  walId := by
    intro id hid
    rw [h.sealedWals, h.leadingWalId]
    by_cases hl : id = db.leadingWalId
    · exact .inr hl
    · rw [h.wal id hl] at hid
      exact hi.walId id hid
  represents := by
    rw [h.versions hi, h.index]
    cases committed with
    | true => exact hi.represents.foldl_upsert _
    | false => simpa using hi.represents
  seq := by
    intro e he
    have hnext := h.nextSeq
    rw [h.versions hi] at he
    rcases he with he | he
    · have := hi.seq e he
      omega
    · cases committed with
      | true => exact (h.stamp_mem he).2
      | false => simp at he
  fresh := fun t ht => h.fresh hi ht

end Append

/-! ### Rotation -/

section Rotate

variable {db db' : Db}

/-- With nothing committed past the write offset, the whole segment holds what the engine applied. -/
lemma Inv.segEntries_lead (hi : db.Inv) (hinert : db.Inert) :
    segEntries db.leadingWalId db.lead = db.leadFrame.applied := by
  rw [segEntries, hi.leadLog.walk_eq hi.off_le le_rfl, frame_append]
  exact (Frame.foldl_applied_of_open hinert).1

lemma Rotated.succ_ne (hroom : db.leadingWalId.toNat + 1 < 2 ^ 32) {id : UInt32}
    (hid : id.toNat ≤ db.leadingWalId.toNat) : id ≠ db.leadingWalId + 1 := by
  rintro rfl
  rw [toNat_succ_uInt32 hroom] at hid
  omega

lemma Rotated.wal_of_le (h : Rotated db db') (hroom : db.leadingWalId.toNat + 1 < 2 ^ 32)
    {id : UInt32} (hid : id.toNat ≤ db.leadingWalId.toNat) : db'.disk.wal id = db.disk.wal id := by
  rw [h.wal]
  exact Function.update_of_ne (succ_ne hroom hid) _ _

lemma Rotated.leadRecs (h : Rotated db db') : db'.leadRecs = [] := by
  rw [Db.leadRecs, h.writeOff]
  exact walk_of_lt (by simp)

lemma Rotated.settled (h : Rotated db db') (hi : db.Inv) (hinert : db.Inert)
    (hroom : db.leadingWalId.toNat + 1 < 2 ^ 32) : db'.settled = db.versions := by
  have hsealed : db'.sealedEntries = db.leadFrame.applied ++ db.sealedEntries := by
    unfold sealedEntries
    rw [h.sealedWals, flatMap_cons, h.wal_of_le hroom le_rfl, hi.file]
    congr 1
    · exact hi.segEntries_lead hinert
    · apply flatMap_congr
      intro id hid
      rw [h.wal_of_le hroom (hi.sealedLt id hid).le]
  ext e
  simp only [Db.settled, Db.versions, baseEntries, h.base, hsealed, mem_append, Set.mem_union, Set.mem_ofPred_eq]
  tauto

lemma Rotated.versions (h : Rotated db db') (hi : db.Inv) (hinert : db.Inert)
    (hroom : db.leadingWalId.toNat + 1 < 2 ^ 32) : db'.versions = db.versions := by
  rw [Db.versions, h.settled hi hinert hroom, Db.leadFrame, h.leadRecs]
  simp [frame, Frame.start]

lemma Rotated.sealedPos (h : Rotated db db') (hi : db.Inv) (hs : baseSegId ∉ db.sealedWals) :
    baseSegId ∉ db'.sealedWals := by
  rw [h.sealedWals, mem_cons]
  exact not_or.mpr ⟨hi.leadPos.symm, hs⟩

theorem Rotated.inv (h : Rotated db db') (hi : db.Inv) (hinert : db.Inert)
    (hroom : db.leadingWalId.toNat + 1 < 2 ^ 32) : db'.Inv where
  toReady := h.ready hi.seq_pos
  leadPos := by
    rw [h.leadingWalId]
    intro h0
    have := congrArg UInt32.toNat h0
    rw [toNat_succ_uInt32 hroom] at this
    simp [baseSegId] at this
  leadHdr := by
    rw [h.lead]
    exact ⟨_, readFileHdr_newFile_self _ _⟩
  leadLog := by
    rw [h.leadRecs, h.writeOff]
    rfl
  baseHdr := by rw [h.base]; exact hi.baseHdr
  sealedLt := by
    intro id hid
    rw [h.leadingWalId, toNat_succ_uInt32 hroom]
    rw [h.sealedWals] at hid
    rcases mem_cons.mp hid with rfl | hid
    · exact Nat.lt_succ_self _
    · exact (hi.sealedLt id hid).trans (Nat.lt_succ_self _)
  walId := by
    intro id hid
    rw [h.sealedWals, h.leadingWalId]
    by_cases hl : id = db.leadingWalId + 1
    · exact .inr hl
    · rw [h.wal, Function.update_of_ne hl] at hid
      left
      rcases hi.walId id hid with hid | rfl
      · exact mem_cons_of_mem _ hid
      · exact mem_cons_self
  represents := by
    rw [h.versions hi hinert hroom, h.index]
    exact hi.represents
  seq := by
    rw [h.versions hi hinert hroom, h.nextSeq]
    exact hi.seq
  fresh := by
    intro t _
    left
    rw [Db.leadFrame, h.leadRecs]
    rfl

end Rotate

end Db

end Picowal
