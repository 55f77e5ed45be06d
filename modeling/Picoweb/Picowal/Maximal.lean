import Picoweb.Picowal.Fresh
import Picoweb.Picowal.Writes

/-!
# One maximal record per segment

With segments of 5120 bytes a record of 4096 payload bytes fills a segment, so a run of such puts
takes a new segment id each time.
-/

namespace Picowal

open ByteFile List

def maxBlob : Bytes := replicate dataMax 1

lemma length_maxBlob : maxBlob.length = dataMax := length_replicate

attribute [irreducible] maxBlob

def maxPut (key : UInt32) : Op := .mutate (.put key maxBlob false) .local

namespace Db

/-- The engine accepts mutations and has 5120-byte segments; the leading one is empty or full. -/
structure Small (db : Db) : Prop extends Accepting db where
  segmentBytes : db.segmentBytes = 5120
  off : db.leadingWriteOff = 512 ∨ db.leadingWriteOff = 5120

lemma accepting_fresh (segmentBytes : UInt64) : (fresh segmentBytes).Accepting where
  toReady := (clean_fresh segmentBytes).toReady
  writable := rfl
  unfenced := rfl

lemma small_fresh : (fresh 5120).Small where
  toAccepting := accepting_fresh 5120
  segmentBytes := rfl
  off := .inl rfl

/-- The segment the next maximal record goes to. -/
def nextRoom (db : Db) : Db := db.roomFor (alignUp512 (recordHdrBytes + maxBlob.length))

def maxRecord (db : Db) (key : UInt32) : Rec := db.nextRoom.newRecord key maxBlob false 0 true

lemma maxRecord_span (db : Db) (key : UInt32) : (db.maxRecord key).span = 4608 := by
  have hl : (UInt32.ofNat maxBlob.length).toNat = 4096 := by
    rw [length_maxBlob]
    rfl
  show alignUp512 (40 + (UInt32.ofNat maxBlob.length).toNat) = 4608
  rw [hl]
  rfl

lemma maxRecord_entry (db : Db) (key : UInt32) (segId : UInt32) (off : ℕ) : (db.maxRecord key).entry segId off =
      { key, segId, offset := off, len := .ofNat maxBlob.length, seq := db.nextRoom.nextSeq
        tombstone := false } := newRecord_entry segId off

variable {db : Db}

lemma Small.nextRoom_cases (h : db.Small) : (db.leadingWriteOff = 512 ∧ db.nextRoom = db ∨
      db.leadingWriteOff = 5120 ∧ Rotated db db.nextRoom) ∧
      db.nextRoom.leadingWriteOff = 512 ∧ db.nextRoom.Small := by
  have hspan : alignUp512 (recordHdrBytes + maxBlob.length) = 4608 := by
    rw [length_maxBlob]
    rfl
  have hseg : db.segmentBytes.toNat = 5120 := by
    rw [h.segmentBytes]
    rfl
  obtain ⟨ha, -, hsb, -⟩ := h.toAccepting.roomFor (alignUp512 (recordHdrBytes + maxBlob.length))
  have hcases := db.roomFor_cases (alignUp512 (recordHdrBytes + maxBlob.length))
  rw [hspan] at hcases
  have hoff := h.off
  rcases hcases with ⟨hle, heq⟩ | ⟨hlt, hrot⟩
  · have h512 : db.leadingWriteOff = 512 := by omega
    have hn : db.nextRoom = db := by rw [nextRoom, hspan, heq]
    rw [hn]
    exact ⟨.inl ⟨h512, rfl⟩, h512, h⟩
  · have h5120 : db.leadingWriteOff = 5120 := by omega
    rw [← hspan] at hrot
    exact ⟨.inr ⟨h5120, hrot⟩, hrot.writeOff, ha, hsb.trans h.segmentBytes, .inl hrot.writeOff⟩

/-- A maximal put fills the next segment. -/
lemma Small.step_maxPut (h : db.Small) (hroom : db.nextSeq.toNat + 1 < 2 ^ 64) (key : UInt32) :
    Appended db.nextRoom [(512, db.maxRecord key)] true (db.step (maxPut key)).1 ∧
      (db.step (maxPut key)).2 = [.put key maxBlob false] ∧ (db.step (maxPut key)).1.Small ∧
      (db.step (maxPut key)).1.leadingWriteOff = 5120 := by
  obtain ⟨-, hoff, hsmall⟩ := h.nextRoom_cases
  have hl : maxBlob.length = dataMax := length_maxBlob
  have hfit : segDataStart + alignUp512 (recordHdrBytes + maxBlob.length) ≤ db.segmentBytes.toNat := by
    rw [hl, h.segmentBytes]
    decide
  obtain ⟨hreq, hw⟩ := h.toAccepting.step_put hroom key (by rw [hl]; decide) hl.le .local hfit
  have happ : Appended db.nextRoom [(512, db.maxRecord key)] true (db.step (maxPut key)).1 := by
    rw [← hoff]
    exact hw.toAppended
  obtain ⟨-, -, hend⟩ := happ.log
  rw [hoff, maxRecord_span] at hend
  exact ⟨happ, hreq, ⟨hw.accepting hsmall.toAccepting,
    happ.segmentBytes.trans hsmall.segmentBytes, .inr hend.symm⟩, hend.symm⟩

/-- A maximal record indexed under the id of an empty `base.dat` cannot be read. -/
lemma getKey_of_empty_base {db db' : Db} {key : UInt32}
    (hfind : db'.index.find key = some ((db.maxRecord key).entry baseSegId 512))
    (hbase : db'.disk.base = some (newFile baseSegId 1)) : db'.getKey key dataMax = .error .unset := by
  have hlen : (UInt32.ofNat maxBlob.length).toNat = dataMax := by
    rw [length_maxBlob]
    rfl
  have hread : db'.readEntry key ((db.maxRecord key).entry baseSegId 512) = .error .unset := by
    have hres : db'.resolveReadFd baseSegId = some (newFile baseSegId 1) := by
      rw [resolveReadFd_base, hbase]
    have hnone : readAt (newFile baseSegId 1) 40 512 = none :=
      readAt_eq_none (by decide) (by simp)
    simp only [readEntry, maxRecord_entry, hres, hnone]
  rw [getKey, hfind]
  simp only [hread]
  rw [maxRecord_entry]
  simp [hlen]

/-! ### Runs of maximal puts -/

/-- The state after maximal puts of the keys, one segment each. -/
structure FilledBy (keys : List UInt32) (db : Db) : Prop extends Small db where
  id : db.leadingWalId.toNat = max keys.length 1
  fill : db.leadingWriteOff = if keys = [] then 512 else 5120
  next : db.nextSeq.toNat = keys.length + 1
  base : db.disk.base = some (newFile baseSegId 1)
  absent : ∀ key, key ∉ keys → db.index.find key = none

variable {keys : List UInt32}

lemma FilledBy.step_facts (h : FilledBy keys db) (key : UInt32) (hlen : keys.length < 2 ^ 32 := by omega) :
    Appended db.nextRoom [(512, db.maxRecord key)] true (db.step (maxPut key)).1 ∧
      (db.step (maxPut key)).2 = [.put key maxBlob false] ∧
      (db.step (maxPut key)).1.Small ∧ (db.step (maxPut key)).1.leadingWriteOff = 5120 ∧
      db.nextRoom.index = db.index ∧ db.nextRoom.disk.base = db.disk.base ∧
      db.nextRoom.nextSeq = db.nextSeq := by
  obtain ⟨happ, hreq, hsmall, hfull⟩ := h.step_maxPut (by rw [h.next]; omega) key
  refine ⟨happ, hreq, hsmall, hfull, ?_⟩
  obtain ⟨⟨-, hn⟩ | ⟨-, hrot⟩, -⟩ := h.nextRoom_cases
  · rw [hn]
    exact ⟨rfl, rfl, rfl⟩
  · exact ⟨hrot.index, hrot.base, hrot.nextSeq⟩

/-- The segment the next maximal record goes to has the next id. -/
lemma FilledBy.nextRoom_id (h : FilledBy keys db) (hlen : keys.length + 1 < 2 ^ 32) :
    (db.nextRoom = db ∨ Rotated db db.nextRoom ∧ db.leadingWalId.toNat + 1 < 2 ^ 32) ∧
      db.nextRoom.leadingWalId.toNat = keys.length + 1 := by
  have hid := h.id
  have hfill := h.fill
  obtain ⟨⟨hw, hn⟩ | ⟨hw, hrot⟩, -⟩ := h.nextRoom_cases
  · have hnil : keys = [] := by
      by_contra hne
      rw [if_neg hne] at hfill
      omega
    refine ⟨.inl hn, ?_⟩
    rw [hn, hid, hnil]
    rfl
  · have hne : keys ≠ [] := by
      rintro rfl
      rw [if_pos rfl] at hfill
      omega
    have hpos := length_pos_iff.mpr hne
    have hroom : db.leadingWalId.toNat + 1 < 2 ^ 32 := by omega
    refine ⟨.inr ⟨hrot, hroom⟩, ?_⟩
    rw [hrot.leadingWalId, toNat_succ_uInt32 hroom]
    omega

lemma FilledBy.step (h : FilledBy keys db) (hlen : keys.length + 1 < 2 ^ 32) (key : UInt32) :
    FilledBy (keys ++ [key]) (db.step (maxPut key)).1 := by
  obtain ⟨happ, -, hsmall, hfull, hidx, hbase, hnext⟩ := h.step_facts key
  refine ⟨hsmall, ?_, by simp [hfull], ?_, ?_, ?_⟩
  · rw [happ.leadingWalId, (h.nextRoom_id hlen).2]
    simp
  · rw [happ.nextSeq, hnext, h.next, length_append]
    rfl
  · rw [happ.base, hbase, h.base]
  · intro k hk
    rw [mem_append, mem_singleton, not_or] at hk
    rw [happ.index, if_pos rfl, Index.find_foldl_upsert, hidx, Latest.foldl_upsert_of_ne]
    · exact h.absent k hk.1
    · intro e he
      obtain ⟨p, hp, rfl⟩ := mem_map.mp he
      rw [mem_singleton.mp hp]
      exact fun hke => hk.2 hke.symm

/-- The put after as many as there are ids gets the id of `base.dat`. -/
lemma FilledBy.wrapped (h : FilledBy keys db) (hlen : keys.length + 1 = 2 ^ 32) :
    Rotated db db.nextRoom ∧ db.nextRoom.leadingWalId = baseSegId := by
  have hne : keys ≠ [] := by
    rintro rfl
    simp at hlen
  have hid := h.id
  obtain ⟨⟨hw, -⟩ | ⟨-, hrot⟩, -⟩ := h.nextRoom_cases
  · have hfill := h.fill
    rw [if_neg hne] at hfill
    omega
  · refine ⟨hrot, ?_⟩
    have hmax : max keys.length 1 = keys.length := by omega
    rw [hrot.leadingWalId, ← UInt32.toNat_inj, UInt32.toNat_add, hid, hmax]
    show (keys.length + 1) % 2 ^ 32 = 0
    rw [hlen, Nat.mod_self]

lemma filledBy_fresh : FilledBy [] (fresh 5120) where
  toSmall := small_fresh
  id := rfl
  fill := rfl
  next := rfl
  base := rfl
  absent := fun _ _ => rfl

end Db

end Picowal
