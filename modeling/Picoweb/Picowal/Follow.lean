import Picoweb.Picowal.Rejected
import Picoweb.Picowal.Cut

/-!
# Following the leading segment

A replica asks for the bytes of the primary's leading segment behind those it has and ingests them. The
primary goes on appending, rotating and checkpointing between the rounds, and the segment id and the write
offset the replica works with may be old.
-/

namespace Picowal

open ByteFile List

abbrev replMaxSegments : ℕ := 256

/-- One round of the loop of `sync_leading_segment`. -/
def syncLeadingRound (primary replica : Db) (segId : UInt32) (remoteWriteOff : ℕ) : Db :=
  let localOff := match (replica.listSegments replMaxSegments).find? fun s => s.segId == segId with
    | some s => segDataStart + s.bytes
    | none => segDataStart
  if localOff ≥ remoteWriteOff then replica
  else
    match primary.replReadLeading segId localOff replChunkMax with
    | .error _ => replica
    | .ok [] => replica
    | .ok chunk => (replica.replIngestSegment segId localOff chunk).1

/-- A primary and the replica that follows it. -/
structure Following where
  primary : Db
  replica : Db

namespace Following

inductive Act where
  | mutate (op : Op)
  | sync (segId : UInt32) (remoteWriteOff : ℕ)

def step (s : Following) : Act → Following
  | .mutate op => { s with primary := (s.primary.step op).1 }
  | .sync segId off => { s with replica := syncLeadingRound s.primary s.replica segId off }

/-- No counter of the primary wraps. -/
def Room (s : Following) : Act → Prop
  | .mutate op => s.primary.Room op
  | .sync _ _ => True

/-- The replica leads no newer segment, and of the same segment it has the start of what the primary has. -/
def Behind (s : Following) : Prop :=
  s.replica.leadingWalId.toNat ≤ s.primary.leadingWalId.toNat ∧
    (s.replica.leadingWalId = s.primary.leadingWalId →
      s.replica.leadingWriteOff ≤ s.primary.leadingWriteOff ∧
      s.replica.lead.take s.replica.leadingWriteOff = s.primary.lead.take s.replica.leadingWriteOff)

end Following

namespace Db

variable {p p' r : Db} {segId : UInt32} {data : Bytes}

/-- The leading segment is the same and may have more at its end. -/
structure Grown (p p' : Db) : Prop where
  leadingWalId : p'.leadingWalId = p.leadingWalId
  off_le : p.leadingWriteOff ≤ p'.leadingWriteOff
  take : p'.lead.take p.leadingWriteOff = p.lead.take p.leadingWriteOff

lemma Appended.grown {rs : List (ℕ × Rec)} {committed : Bool} (h : Appended p rs committed p') : Grown p p' :=
  ⟨h.leadingWalId, h.log.le, h.take⟩

lemma Grown.take_of_le (h : Grown p p') {n : ℕ} (hn : n ≤ p.leadingWriteOff) : p'.lead.take n = p.lead.take n := by
  rw [← Nat.min_eq_left hn, ← take_take, h.take, take_take]

/-- A step adds to the leading segment, or starts the next one. -/
lemma Clean.lead_step (hc : p.Clean) {op : Op} (hroom : p.Room op) : Grown p (p.step op).1 ∨
    (p.step op).1.leadingWalId.toNat = p.leadingWalId.toNat + 1 ∧
      (p.step op).1.lead.take segDataStart = newFile (p.step op).1.leadingWalId 1 := by
  by_cases hop : op = .checkpoint
  · subst hop
    left
    show Grown p p.checkpoint.1
    rcases hc.toInv.checkpoint_cases hc.sealedPos with heq | ⟨-, heq⟩
    · rw [heq]
      exact ⟨rfl, le_rfl, rfl⟩
    · rw [heq]
      have hg := (appended_writeSuperblockLocked hc.folded.toReady).grown
      exact ⟨hg.leadingWalId, hg.off_le, hg.take.trans (by rw [hc.toInv.lead_folded]; rfl)⟩
  · obtain ⟨p₁, rs, committed, rfl | hrot, happ, -, -⟩ := (step_cases hc.toReady hroom hop).cases
    · exact .inl happ.grown
    · right
      have hg := happ.grown
      have htake := hg.take
      rw [hrot.writeOff, hrot.lead, take_of_length_le (length_newFile _ _).le] at htake
      rw [htake, hg.leadingWalId, hrot.leadingWalId, UInt32.toNat_add, UInt32.toNat_one, Nat.mod_eq_of_lt hroom.1]
      exact ⟨rfl, rfl⟩

/-- What the replica counts as written is the start of the primary's leading segment. -/
structure Copies (p r : Db) : Prop where
  linked : r.leadingFd = .linked
  lead_le : r.leadingWriteOff ≤ r.lead.length
  off_le : r.leadingWriteOff ≤ p.leadingWriteOff
  take : r.lead.take r.leadingWriteOff = p.lead.take r.leadingWriteOff

lemma Copies.grown (h : Copies p r) (hg : Grown p p') : Copies p' r :=
  ⟨h.linked, h.lead_le, h.off_le.trans hg.off_le, h.take.trans (hg.take_of_le h.off_le).symm⟩

/-- A scan commits no further than it reads. -/
lemma committedEnd_walk {f : Bytes} {off stop : ℕ} (hoff : off ≤ stop) (hstop : stop ≤ f.length) :
    (frame segId off (walk f stop off)).committedEnd ≤ stop := by
  have hlen : (f.take stop).length = stop := by simp [hstop]
  rw [← walk_take hstop]
  obtain ⟨fin, hlog⟩ := isLog_walk (le_refl (f.take stop).length) off
  obtain ⟨ps, qs, -, hps, -⟩ := @frame_split _ segId _ _ _ hlog
  exact (hps.le_length (by rwa [hlen])).trans_eq hlen

/-- Bytes of the primary's segment that follow the replica's copy extend the copy. -/
lemma Copies.ingest (h : Copies p r) (hdata : data ≠ []) (hend : r.leadingWriteOff + data.length ≤ p.leadingWriteOff)
    (htake : p.lead.take (r.leadingWriteOff + data.length) = p.lead.take r.leadingWriteOff ++ data) :
    Copies p (r.replIngestSegment r.leadingWalId r.leadingWriteOff data).1 ∧
      (r.replIngestSegment r.leadingWalId r.leadingWriteOff data).1.leadingWalId = r.leadingWalId := by
  unfold replIngestSegment
  simp only [ne_eq, not_true_eq_false, false_and, if_false, length_pos_iff.mpr hdata, if_true, h.linked,
    reduceCtorEq, and_false]
  split_ifs with hmod
  · exact ⟨h, rfl⟩
  · set r₁ := (r.setLeading (pwriteFull (r.leadingContent.getD []) data r.leadingWriteOff)).syncLeading with hr₁
    have hset : r₁.leadingFd = .linked ∧ r₁.leadingWalId = r.leadingWalId ∧
        r₁.lead = writeAt r.lead data r.leadingWriteOff := by
      simp [hr₁, syncLeading, setLeading, lead, leadingContent, h.linked, pwriteFull]
    obtain ⟨hfd, hid, hlead⟩ := hset
    set scanned := r₁.replay (r₁.leadingContent.getD []) r.leadingWalId r.leadingWriteOff (r.leadingWriteOff + data.length)
    have hsame := (countAppends_spec { scanned.1 with leadingWriteOff := scanned.2 } 1).1
    have hlead' := hsame.lead.trans hlead
    have hlen := @length_writeAt r.leadingWriteOff r.lead data h.lead_le
    have hfin : scanned.2 ≤ r.leadingWriteOff + data.length := by
      refine ((scanFileRange_eq _ _ _ _ _ _).2.1).trans_le (committedEnd_walk (Nat.le_add_right _ _) ?_)
      show _ ≤ r₁.lead.length
      rw [hlead, hlen]
      exact le_max_right _ _
    refine ⟨⟨hsame.fd.trans hfd, ?_, ?_, ?_⟩, hsame.leadingWalId.trans hid⟩
    · rw [hlead', hsame.writeOff, hlen]
      exact hfin.trans (le_max_right _ _)
    · rw [hsame.writeOff]
      exact hfin.trans hend
    · -- both are cut down from what the write and the chunk reach
      rw [hlead', hsame.writeOff, ← Nat.min_eq_left hfin, ← take_take, ← take_take,
        take_writeAt_end h.lead_le, h.take, htake]

/-- A chunk is rejected, or ingested at the end of the leading segment, which may have been adopted for it. -/
lemma replIngestSegment_target {off : ℕ} (hoff : segDataStart ≤ off) : (r.replIngestSegment segId off data).1 = r ∨
    ∃ r₁ : Db, (r₁ = r ∧ segId = r.leadingWalId ∨ r₁ = r.adoptLeading segId) ∧ r₁.leadingWriteOff = off ∧
      r.replIngestSegment segId off data = r₁.replIngestSegment segId off data := by
  have hid : (r.adoptLeading segId).leadingWalId = segId := rfl
  have hstart : (r.adoptLeading segId).leadingWriteOff = segDataStart := rfl
  by_cases heq : segId = r.leadingWalId
  · by_cases hend : r.leadingWriteOff = off
    · exact .inr ⟨r, .inl ⟨rfl, heq⟩, hend, rfl⟩
    · left
      unfold replIngestSegment
      split_ifs <;> grind
  · -- only at the start of its data, where the adopted segment ends
    unfold replIngestSegment
    split_ifs <;> grind

lemma copies_adoptLeading (hheader : p.lead.take segDataStart = newFile p.leadingWalId 1)
    (hoff : segDataStart ≤ p.leadingWriteOff) : Copies p (r.adoptLeading p.leadingWalId) := by
  have hlead : (r.adoptLeading p.leadingWalId).lead = newFile p.leadingWalId 1 := by
    simp [lead, leadingContent, adoptLeading]
  refine ⟨rfl, ?_, hoff, ?_⟩
  · rw [hlead, length_newFile]
    exact le_rfl
  · rw [hlead]
    exact (take_of_length_le (length_newFile _ _).le).trans hheader.symm

/-- What the primary answers is what follows the offset in its leading segment. -/
lemma replReadLeading_ok {off cap : ℕ} (h : p.replReadLeading segId off cap = .ok data) :
    segId = p.leadingWalId ∧ segDataStart ≤ off ∧ off + data.length ≤ p.leadingWriteOff ∧
      p.lead.take (off + data.length) = p.lead.take off ++ data := by
  unfold replReadLeading at h
  split_ifs at h with hoff hid hrange
  dsimp only at h
  split at h
  · cases h
  · rename_i out hread
    cases h
    have hlen := length_of_readAt hread
    simp only [preadFull, readAt, Option.ite_none_right_eq_some, Option.some.injEq] at hread
    refine ⟨not_not.mp hid, by omega, by omega, ?_⟩
    rw [take_add, hlen, ← hread.2]
    rfl

/-- The replica never leads a newer segment than the primary, and of the same one it has the start. -/
structure Follows (p r : Db) : Prop where
  clean : p.Clean
  header : p.lead.take segDataStart = newFile p.leadingWalId 1
  behind : r.leadingWalId.toNat ≤ p.leadingWalId.toNat
  copies : r.leadingWalId = p.leadingWalId → Copies p r

lemma Follows.mutate (h : Follows p r) {op : Op} (hroom : p.Room op) : Follows (p.step op).1 r := by
  have hc := (h.clean.step hroom).1
  rcases h.clean.lead_step hroom with hg | ⟨hid, hheader⟩
  · refine ⟨hc, ?_, hg.leadingWalId ▸ h.behind, fun heq => (h.copies (heq.trans hg.leadingWalId)).grown hg⟩
    rw [hg.take_of_le h.clean.leadLog.le, h.header, hg.leadingWalId]
  · have hlt := h.behind
    refine ⟨hc, hheader, by omega, fun heq => ?_⟩
    rw [heq] at hlt
    omega

/-- Whatever the replica believes about the primary, a round keeps it behind. -/
lemma Follows.sync (h : Follows p r) (segId : UInt32) (remoteWriteOff : ℕ) :
    Follows p (syncLeadingRound p r segId remoteWriteOff) := by
  unfold syncLeadingRound
  dsimp only
  generalize (match (r.listSegments replMaxSegments).find? fun s => s.segId == segId with
    | some s => segDataStart + s.bytes
    | none => segDataStart) = off
  split_ifs
  · exact h
  · split
    · exact h
    · exact h
    · rename_i data hdata hread
      obtain ⟨rfl, hstart, hend, htake⟩ := replReadLeading_ok hread
      rcases @replIngestSegment_target r p.leadingWalId data off hstart with heq | ⟨r₁, hr₁, rfl, heq⟩
      · rw [heq]
        exact h
      · have hcopy : Copies p r₁ ∧ r₁.leadingWalId = p.leadingWalId := by
          rcases hr₁ with ⟨rfl, hid⟩ | rfl
          · exact ⟨h.copies hid.symm, hid.symm⟩
          · exact ⟨copies_adoptLeading h.header h.clean.leadLog.le, rfl⟩
        obtain ⟨hnew, hid⟩ := hcopy.1.ingest hdata hend htake
        rw [hcopy.2] at hnew hid
        rw [heq]
        exact ⟨h.clean, h.header, (congrArg UInt32.toNat hid).le, fun _ => hnew⟩

lemma follows_fresh (n m : UInt64) : Follows (fresh n) (fresh m) where
  clean := clean_fresh n
  header := by
    rw [lead_fresh]
    exact take_of_length_le (length_newFile _ _).le
  behind := le_rfl
  copies := fun _ => ⟨rfl, by rw [lead_fresh, length_newFile]; exact le_rfl, le_rfl, by rw [lead_fresh, lead_fresh]⟩

end Db

/-- Two freshly formatted volumes, of which one follows the other: whatever the primary does between the
rounds, and whatever old position the replica asks from, it stays behind. -/
theorem replica_leading_prefix (n m : UInt64) (acts : List Following.Act)
    (hroom : Run.Guarded Following.step Following.Room ⟨Db.fresh n, Db.fresh m⟩ acts) :
    (acts.foldl Following.step ⟨Db.fresh n, Db.fresh m⟩).Behind := by
  have hstep : ∀ (s : Following) (a : Following.Act), s.primary.Follows s.replica → s.Room a →
      (s.step a).primary.Follows (s.step a).replica := by
    intro s a hs hok
    cases a with
    | mutate op => exact hs.mutate hok
    | sync segId off => exact hs.sync segId off
  have h := Run.Guarded.invariant hstep hroom (Db.follows_fresh n m)
  exact ⟨h.behind, fun heq => ⟨(h.copies heq).off_le, (h.copies heq).take⟩⟩

/-- A write on the primary and a round of the replica. -/
theorem replica_leading_prefix_put :
    ([.mutate (.mutate (.put 1 [7] false) .local), .sync 1 1024].foldl Following.step
      ⟨Db.fresh 4096, Db.fresh 4096⟩).Behind :=
  replica_leading_prefix _ _ _ ⟨by show Db.Room _ _; decide, trivial, trivial⟩

end Picowal
