import Picoweb.Picowal.Mutate

/-!
# Mutations that are accepted

What exactly an implicit put or delete does when nothing speaks against it: the segment is rotated if
the record does not fit, and the record is written. Runs on known inputs are followed with these.
-/

namespace Picowal

open ByteFile

namespace Db

structure Accepting (db : Db) : Prop extends Ready db where
  writable : db.readOnly = false
  unfenced : db.fence = none

/-- The state whose leading segment takes a record of `span` bytes. -/
def roomFor (db : Db) (span : ℕ) : Db :=
  if db.leadingWriteOff + span > db.segmentBytes.toNat then db.rotateLocked else db

lemma roomFor_cases (db : Db) (span : ℕ) : db.leadingWriteOff + span ≤ db.segmentBytes.toNat ∧ db.roomFor span = db ∨
      db.segmentBytes.toNat < db.leadingWriteOff + span ∧ Rotated db (db.roomFor span) := by
  unfold roomFor
  split_ifs with h
  · exact .inr ⟨h, rotated_rotateLocked db⟩
  · exact .inl ⟨not_lt.mp h, rfl⟩

lemma Accepting.roomFor {db : Db} (h : db.Accepting) (span : ℕ) :
    (db.roomFor span).Accepting ∧ (db.roomFor span).nextSeq = db.nextSeq ∧
      (db.roomFor span).segmentBytes = db.segmentBytes ∧
      (db.roomFor span).index = db.index ∧ (db.roomFor span).disk.base = db.disk.base := by
  rcases db.roomFor_cases span with ⟨-, heq⟩ | ⟨-, hrot⟩
  · rw [heq]
    exact ⟨h, rfl, rfl, rfl, rfl⟩
  · exact ⟨⟨hrot.ready h.seq_pos, hrot.readOnly.trans h.writable, hrot.fence.trans h.unfenced⟩,
      hrot.nextSeq, hrot.segmentBytes, hrot.index, hrot.base⟩

lemma Wrote.accepting {db db' : Db} {r : Rec} {durable : Bool} (h : Wrote db r durable db')
    (ha : db.Accepting) : db'.Accepting :=
  ⟨h.ready, h.readOnly.trans ha.writable, h.fence.trans ha.unfenced⟩

/-- A record that fits an empty segment is written, after a rotation if there is no room. -/
lemma Accepting.appendCommitted {db : Db} (h : db.Accepting)
    (hroom : db.nextSeq.toNat + 1 < 2 ^ 64) (key : UInt32) {data : Bytes}
    (hdata : data.length ≤ dataMax) (tombstone : Bool) (durability : Durability)
    (hfit : segDataStart + alignUp512 (recordHdrBytes + data.length) ≤ db.segmentBytes.toNat) :
    let db₁ := db.roomFor (alignUp512 (recordHdrBytes + data.length))
    (db.appendCommitted key data tombstone durability).2 = .ok () ∧
      Wrote db₁ (db₁.newRecord key data tombstone 0 true) (decide (durability ≠ .fireAndForget))
        (db.appendCommitted key data tombstone durability).1 := by
  obtain ⟨ha, hseq, hseg, -⟩ := h.roomFor (alignUp512 (recordHdrBytes + data.length))
  refine appendCommitted_wrote ha.toReady (by rw [hseq]; exact hroom) hdata ?_
  have hopen : db.leadingFd ≠ .closed := by simp [h.linked]
  unfold appendRecordLocked
  rw [if_neg hopen]
  simp only [Bool.not_true, Bool.false_eq_true, if_false]
  rcases db.roomFor_cases (alignUp512 (recordHdrBytes + data.length)) with ⟨hle, heq⟩ | ⟨hlt, hrot⟩
  · rw [if_neg (not_lt.mpr hle), heq, writeRecordLocked_eq h.toReady]
  · have heq : db.roomFor (alignUp512 (recordHdrBytes + data.length)) = db.rotateLocked :=
      if_pos hlt
    have hoff : ¬ db.rotateLocked.leadingWriteOff + alignUp512 (recordHdrBytes + data.length)
        > db.rotateLocked.segmentBytes.toNat := by
      rw [← heq, hrot.writeOff, hseg]
      exact not_lt.mpr hfit
    rw [if_pos hlt, if_neg hoff, ← heq, writeRecordLocked_eq ha.toReady]

lemma Accepting.step_put {db : Db} (h : db.Accepting) (hroom : db.nextSeq.toNat + 1 < 2 ^ 64)
    (key : UInt32) {data : Bytes} (hpos : data.length ≠ 0) (hdata : data.length ≤ dataMax) (durability : Durability)
    (hfit : segDataStart + alignUp512 (recordHdrBytes + data.length) ≤ db.segmentBytes.toNat) :
    let db₁ := db.roomFor (alignUp512 (recordHdrBytes + data.length))
    (db.step (.mutate (.put key data false) durability)).2 = [.put key data false] ∧
      Wrote db₁ (db₁.newRecord key data false 0 true) (decide (durability ≠ .fireAndForget))
        (db.step (.mutate (.put key data false) durability)).1 := by
  obtain ⟨hok, hw⟩ := h.appendCommitted hroom key hdata false durability hfit
  have hlen : ¬ (data.length = 0 ∨ data.length > dataMax) := by
    rintro (h0 | h0)
    · exact hpos h0
    · exact absurd hdata (not_le.mpr h0)
  have hstep : db.step (.mutate (.put key data false) durability)
      = ((db.appendCommitted key data false durability).1, [.put key data false]) := by
    have heq : db.mutateReq (.put key data false) durability
        = ((db.appendCommitted key data false durability).1, .ok ()) := by
      rw [← hok, mutateReq, putKeyDur, if_neg hlen]
      simp [fenceGate, h.unfenced, h.writable]
    simp only [step, heq]
  rw [hstep]
  exact ⟨rfl, hw⟩

end Db

end Picowal
