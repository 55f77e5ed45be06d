import Picoweb.Picowal.Db

/-!
# Recovery scan

`scan_file_range` walks the records of one file, holds a transaction back until its commit-marked
record and drops it when another transaction starts first. `scan_volume` runs it over `base.dat`, the
sealed segments and the leading segment.
-/

namespace Picowal

open ByteFile

/-- The reads and checks one turn of the scan loop makes before it looks at the transaction; `none`
where the loop breaks. -/
def readRecord (f : Bytes) (stop off : ℕ) : Option Rec :=
  if off + recordHdrBytes ≤ stop then
    match preadFull f recordHdrBytes off with
    | none => none
    | some raw =>
      if raw.all (· == 0) then none
      else
        let h := RecordHdr.decode raw
        if h.magic ≠ recMagic then none
        else if h.len.toNat > dataMax then none
        else if h.flags &&& ~~~(recTombstone ||| recTxnCommit) ≠ 0 then none
        else if off + alignUp512 (recordHdrBytes + h.len.toNat) > stop then none
        else
          match preadFull f h.len.toNat (off + recordHdrBytes) with
          | none => none
          | some payload =>
            if recChecksum h.key h.len h.flags h.seq h.txnId payload ≠ h.checksum then none
            else some ⟨h, payload⟩
  else none

/-- Where the scan says a record lies. -/
def Rec.entry (r : Rec) (segId : UInt32) (off : ℕ) : IndexEntry where
  key := r.hdr.key
  segId := segId
  offset := off
  len := r.hdr.len
  seq := r.hdr.seq
  tombstone := r.tombstone

/-- The locals of `scan_file_range` and the two fields of the engine it changes. -/
structure ScanState where
  off : ℕ
  lastCommittedEnd : ℕ
  maxSeq : UInt64
  pending : List IndexEntry
  pendingTxnId : UInt64
  index : Index
  schemaGen : UInt64

/-- The rest of one turn of the loop. -/
def scanStep (segId : UInt32) (st : ScanState) (r : Rec) : ScanState :=
  -- a different txn_id appeared before the previous one committed: that one was abandoned
  let kept := if st.pending ≠ [] ∧ r.hdr.txnId ≠ st.pendingTxnId then [] else st.pending
  let pending :=
    if kept.length < txnMaxOps then kept ++ [r.entry segId st.off] else kept
  let st' : ScanState :=
    { st with
      off := st.off + r.span
      maxSeq := if r.hdr.seq > st.maxSeq then r.hdr.seq else st.maxSeq
      pending := pending
      pendingTxnId := r.hdr.txnId }
  if r.commit then
    { st' with
      index := pending.foldl Index.upsert st.index
      schemaGen := (pending.map IndexEntry.key).foldl bumpSchemaGen st.schemaGen
      pending := []
      lastCommittedEnd := st.off + r.span }
  else st'

lemma decode_magic_of_zeros {raw : Bytes} (h : raw.all (· == 0) = true) : (RecordHdr.decode raw).magic = 0 := by
  have hz : ∀ bs : Bytes, (∀ b ∈ bs, b = 0) → leNat bs = 0 := by
    intro bs hbs
    induction bs with
    | nil => rfl
    | cons b bs ih =>
      simp only [List.mem_cons, forall_eq_or_imp] at hbs
      simp [leNat, hbs.1, ih hbs.2]
  have hraw : ∀ b ∈ raw, b = 0 := by simpa using h
  have : field raw 0 4 = 0 := hz _ fun b hb => hraw b (by simpa using List.mem_of_mem_take hb)
  simp [RecordHdr.decode, this]

/-- The scan takes a record exactly when its bytes are in the file, it is valid and it ends by
`stop`. -/
lemma readRecord_eq_some {f : Bytes} {stop off : ℕ} {r : Rec} : readRecord f stop off = some r ↔
      (∃ raw, readAt f 40 off = some raw ∧ RecordHdr.decode raw = r.hdr) ∧
        readAt f r.hdr.len.toNat (off + 40) = some r.payload ∧ r.Valid ∧ off + r.span ≤ stop := by
  constructor
  · intro h
    unfold readRecord at h
    split_ifs at h with h1
    split at h
    · cases h
    · rename_i raw hraw
      dsimp only at h
      split_ifs at h with h2 h3 h4 h5 h6
      split at h
      · cases h
      · rename_i payload hpay
        split_ifs at h with h7
        cases h
        refine ⟨⟨raw, hraw, rfl⟩, hpay, ?_, not_lt.mp h6⟩
        exact ⟨not_not.mp h3, not_lt.mp h4, length_of_readAt hpay, not_not.mp h5, not_not.mp h7⟩
  · rintro ⟨⟨raw, hraw, hdec⟩, hpay, hv, hstop⟩
    have h1 : off + recordHdrBytes ≤ stop := le_trans (by have := r.hdr_le_span; omega) hstop
    have h2 : ¬ raw.all (· == 0) = true := by
      intro hz
      have := decode_magic_of_zeros hz
      rw [hdec, hv.magic] at this
      exact absurd this (by decide)
    have h6 : ¬ off + alignUp512 (recordHdrBytes + r.hdr.len.toNat) > stop := not_lt.mpr hstop
    unfold readRecord
    simp only [hraw, hdec, if_pos h1, if_neg h2, hv.magic, hv.flags,
      if_neg (not_lt.mpr hv.len_le), if_neg h6, hpay, hv.checksum, ne_eq, not_true, if_false]

lemma readRecord_le {f : Bytes} {stop off : ℕ} {r : Rec} (h : readRecord f stop off = some r) :
    off + r.span ≤ stop := (readRecord_eq_some.mp h).2.2.2

@[simp] lemma scanStep_off (segId : UInt32) (st : ScanState) (r : Rec) :
    (scanStep segId st r).off = st.off + r.span := by
  unfold scanStep
  split_ifs <;> rfl

def scanLoop (f : Bytes) (segId : UInt32) (stop : ℕ) (st : ScanState) : ScanState :=
  match _h : readRecord f stop st.off with
  | none => st
  | some r => scanLoop f segId stop (scanStep segId st r)
termination_by stop - st.off
decreasing_by
  have h1 := readRecord_le _h
  have h2 := r.span_pos
  rw [scanStep_off]
  omega

def scanFileRange (f : Bytes) (segId : UInt32) (startOff stopOff : ℕ) (index : Index)
    (schemaGen : UInt64) : ScanState :=
  scanLoop f segId stopOff
    { off := startOff, lastCommittedEnd := startOff, maxSeq := 0, pending := []
      pendingTxnId := 0, index, schemaGen }

/-- What `scan_volume` carries from file to file. -/
structure VolumeScan where
  index : Index
  schemaGen : UInt64
  overallMaxSeq : UInt64

/-- One file of `scan_volume`'s loop; a file that cannot be opened, or that ends with its header, is
passed over. -/
def VolumeScan.file (acc : VolumeScan) (segId : UInt32) (content : Option Bytes) : VolumeScan :=
  match content with
  | none => acc
  | some f =>
    if segDataStart < f.length then
      let st := scanFileRange f segId segDataStart f.length acc.index acc.schemaGen
      { index := st.index, schemaGen := st.schemaGen
        overallMaxSeq :=
          if st.maxSeq > acc.overallMaxSeq then st.maxSeq else acc.overallMaxSeq }
    else acc

def scanVolume (db : Db) : Db :=
  let acc : VolumeScan := { index := Index.clear, schemaGen := db.schemaGen, overallMaxSeq := 0 }
  let acc := acc.file baseSegId db.disk.base
  let acc := db.sealedWals.foldl (fun acc id => acc.file id (db.disk.wal id)) acc
  let lead := db.leadingContent.getD []
  let leadingStop := if db.leadingContent.isSome then lead.length else segDataStart
  let st := scanFileRange lead db.leadingWalId segDataStart leadingStop acc.index acc.schemaGen
  let overallMaxSeq :=
    if st.maxSeq > acc.overallMaxSeq then st.maxSeq else acc.overallMaxSeq
  { db with
    index := st.index
    schemaGen := st.schemaGen
    leadingWriteOff := st.lastCommittedEnd
    nextSeq := if overallMaxSeq + 1 > db.nextSeq then overallMaxSeq + 1 else db.nextSeq }

end Picowal
