import Picoweb.Picowal.Scan

/-!
# Logs and their transactions

The records a scan meets (`walk`) and what it makes of their transactions (`Frame`) do not depend on
each other, so the scan of a file is the second applied to the first. `IsLog` says that a list of
records lies in a file between two offsets, whatever stands after them.
-/

namespace Picowal

open ByteFile List

/-- The record at an offset, with the whole file to look at. -/
abbrev recordAt (f : Bytes) (off : ℕ) : Option Rec := readRecord f f.length off

variable {f : Bytes} {off stop : ℕ} {r : Rec}

lemma readRecord_iff_recordAt (hstop : stop ≤ f.length) :
    readRecord f stop off = some r ↔ recordAt f off = some r ∧ off + r.span ≤ stop := by
  simp only [readRecord_eq_some]
  constructor
  · rintro ⟨hh, hp, hv, hs⟩
    exact ⟨⟨hh, hp, hv, hs.trans hstop⟩, hs⟩
  · rintro ⟨⟨hh, hp, hv, -⟩, hs⟩
    exact ⟨hh, hp, hv, hs⟩

lemma recordAt_valid (h : recordAt f off = some r) : r.Valid :=
  (readRecord_eq_some.mp h).2.2.1

/-- A record is read off its own bytes only. -/
lemma recordAt_congr {g : Bytes} {n : ℕ} (hfg : f.take n = g.take n)
    (h : recordAt f off = some r) (hn : off + r.span ≤ n) : recordAt g off = some r := by
  obtain ⟨⟨raw, hraw, hdec⟩, hpay, hv, hs⟩ := readRecord_eq_some.mp h
  have hspan := r.hdr_le_span
  simp only [recordHdrBytes] at hspan
  have hlen := congrArg length hfg
  simp only [length_take] at hlen
  refine readRecord_eq_some.mpr ⟨⟨raw, ?_, hdec⟩, ?_, hv, by omega⟩
  · rw [← readAt_congr hfg (by omega), hraw]
  · rw [← readAt_congr hfg (by omega), hpay]

/-- An encoded record is read back. -/
lemma recordAt_of_drop {rest : Bytes} (hv : r.Valid)
    (h : f.drop off = r.encode ++ rest) (hoff : off ≤ f.length) : recordAt f off = some r := by
  have hl := congrArg length h
  simp only [length_drop, length_append, hv.length_encode] at hl
  refine readRecord_eq_some.mpr ⟨⟨r.hdr.encode, ?_, by simp⟩, ?_, hv, by omega⟩
  · have hdrop : f.drop off = r.hdr.encode ++ (r.payload ++
        (replicate (r.span - (recordHdrBytes + r.hdr.len.toNat)) 0 ++ rest)) := by
      rw [h, Rec.encode, append_assoc, append_assoc]
    have := readAt_of_drop hdrop hoff
    simpa using this
  · have hspan := r.hdr_le_span
    simp only [recordHdrBytes] at hspan
    have hd : f.drop (off + 40) = r.payload ++
        (replicate (r.span - (recordHdrBytes + r.hdr.len.toNat)) 0 ++ rest) := by
      rw [← drop_drop, h, Rec.encode]
      simp
    have := readAt_of_drop hd (by omega)
    rwa [hv.payload_len] at this

/-! ### Walks -/

/-- The records a scan from `off` meets before it breaks off. -/
def walk (f : Bytes) (stop off : ℕ) : List (ℕ × Rec) :=
  match _h : readRecord f stop off with
  | none => []
  | some r => (off, r) :: walk f stop (off + r.span)
termination_by stop - off
decreasing_by
  have h1 := readRecord_le _h
  have h2 := r.span_pos
  omega

lemma walk_of_none (h : readRecord f stop off = none) : walk f stop off = [] := by
  rw [walk]; split
  · rfl
  · rename_i r hr; simp [h] at hr

lemma walk_of_some (h : readRecord f stop off = some r) :
    walk f stop off = (off, r) :: walk f stop (off + r.span) := by
  rw [walk]; split
  · rename_i hr; simp [h] at hr
  · rename_i r' hr
    rw [h] at hr
    cases hr
    rfl

lemma readRecord_of_lt (h : stop < off + 40) : readRecord f stop off = none := by
  have : ¬ off + recordHdrBytes ≤ stop := by simp only [recordHdrBytes]; omega
  simp [readRecord, this]

lemma walk_of_lt (h : stop < off + 40) : walk f stop off = [] := walk_of_none (readRecord_of_lt h)

/-- The records `rs` lie in `f` one after the other, from `off` to `fin`. -/
def IsLog (f : Bytes) : ℕ → List (ℕ × Rec) → ℕ → Prop
  | off, [], fin => off = fin
  | off, (o, r) :: rs, fin => o = off ∧ recordAt f off = some r ∧ IsLog f (off + r.span) rs fin

namespace IsLog

variable {fin : ℕ} {rs : List (ℕ × Rec)}

lemma le (h : IsLog f off rs fin) : off ≤ fin := by
  induction rs generalizing off with
  | nil => exact le_of_eq h
  | cons p rs ih =>
    obtain ⟨-, -, h⟩ := h
    exact le_trans (Nat.le_add_right _ _) (ih h)

/-- A log that holds a record ends inside the file. -/
lemma le_length (h : IsLog f off rs fin) (hoff : off ≤ f.length) : fin ≤ f.length := by
  induction rs generalizing off with
  | nil => exact h ▸ hoff
  | cons p rs ih =>
    obtain ⟨-, hr, h⟩ := h
    exact ih h (readRecord_le hr)

lemma congr {g : Bytes} {n : ℕ} (hfg : f.take n = g.take n)
    (h : IsLog f off rs fin) (hn : fin ≤ n) : IsLog g off rs fin := by
  induction rs generalizing off with
  | nil => exact h
  | cons p rs ih =>
    obtain ⟨ho, hr, h⟩ := h
    exact ⟨ho, recordAt_congr hfg hr (h.le.trans hn), ih h⟩

lemma append {ss : List (ℕ × Rec)} {a b c : ℕ} (h₁ : IsLog f a rs b)
    (h₂ : IsLog f b ss c) : IsLog f a (rs ++ ss) c := by
  induction rs generalizing a with
  | nil =>
    obtain rfl : a = b := h₁
    exact h₂
  | cons p rs ih =>
    obtain ⟨ho, hr, h₁⟩ := h₁
    exact ⟨ho, hr, ih h₁⟩

lemma single (h : recordAt f off = some r) : IsLog f off [(off, r)] (off + r.span) := ⟨rfl, h, rfl⟩

lemma append_inv {ss : List (ℕ × Rec)} {a c : ℕ} (h : IsLog f a (rs ++ ss) c) :
    ∃ b, IsLog f a rs b ∧ IsLog f b ss c := by
  induction rs generalizing a with
  | nil => exact ⟨a, rfl, h⟩
  | cons p rs ih =>
    obtain ⟨ho, hr, h⟩ := h
    obtain ⟨b, h₁, h₂⟩ := ih h
    exact ⟨b, ⟨ho, hr, h₁⟩, h₂⟩

/-- Every record of the log is where the list says, and ends by `fin`. -/
lemma mem (h : IsLog f off rs fin) {o : ℕ}
    (hm : (o, r) ∈ rs) : recordAt f o = some r ∧ off ≤ o ∧ o + r.span ≤ fin := by
  induction rs generalizing off with
  | nil => simp at hm
  | cons p rs ih =>
    obtain ⟨rfl, hr, h⟩ := h
    rcases mem_cons.mp hm with heq | hm
    · cases heq
      exact ⟨hr, le_rfl, h.le⟩
    · obtain ⟨h1, h2, h3⟩ := ih h hm
      exact ⟨h1, by omega, h3⟩

/-- A walk over a log goes through it and on. -/
lemma walk_eq (h : IsLog f off rs fin) (hfin : fin ≤ stop) (hstop : stop ≤ f.length) :
    walk f stop off = rs ++ walk f stop fin := by
  induction rs generalizing off with
  | nil =>
    obtain rfl : off = fin := h
    rfl
  | cons p rs ih =>
    obtain ⟨o, r⟩ := p
    obtain ⟨rfl, hr, h⟩ := h
    have hrec : readRecord f stop o = some r :=
      (readRecord_iff_recordAt hstop).mpr ⟨hr, h.le.trans hfin⟩
    rw [walk_of_some hrec, ih h, cons_append]

/-- A walk that stops where the log ends sees exactly the log. -/
lemma walk_eq_self (h : IsLog f off rs fin) (hfin : fin ≤ f.length) : walk f fin off = rs := by
  rw [h.walk_eq le_rfl hfin, walk_of_lt (by omega), append_nil]

/-- A walk that stops earlier sees the records that end by its stop. -/
lemma walk_cut {cut : ℕ} (h : IsLog f off rs fin) (hcut : cut ≤ fin) (hfin : fin ≤ f.length) :
    walk f cut off = rs.takeWhile fun p => decide (p.1 + p.2.span ≤ cut) := by
  induction rs generalizing off with
  | nil =>
    obtain rfl : off = fin := h
    rw [walk_of_lt (by omega), takeWhile_nil]
  | cons p rs ih =>
    obtain ⟨o, r⟩ := p
    obtain ⟨rfl, hr, h⟩ := h
    by_cases hle : o + r.span ≤ cut
    · have hrec : readRecord f cut o = some r :=
        (readRecord_iff_recordAt (hcut.trans hfin)).mpr ⟨hr, hle⟩
      rw [walk_of_some hrec, ih h]
      simp [hle]
    · have hrec : readRecord f cut o = none := by
        cases hc : readRecord f cut o with
        | none => rfl
        | some r' =>
          obtain ⟨hr', hle'⟩ := (readRecord_iff_recordAt (hcut.trans hfin)).mp hc
          rw [hr] at hr'
          cases hr'
          exact absurd hle' hle
      rw [walk_of_none hrec]
      simp [hle]

end IsLog

/-- What a walk meets is a log. -/
lemma isLog_walk (hstop : stop ≤ f.length) (off : ℕ) : ∃ fin, IsLog f off (walk f stop off) fin := by
  induction hn : stop - off using Nat.strongRecOn generalizing off with
  | ind n ih =>
    cases hr : readRecord f stop off with
    | none => exact ⟨off, by rw [walk_of_none hr]; rfl⟩
    | some r =>
      have hle := readRecord_le hr
      have hpos := r.span_pos
      obtain ⟨fin, hfin⟩ := ih (stop - (off + r.span)) (by omega) (off + r.span) rfl
      refine ⟨fin, ?_⟩
      rw [walk_of_some hr]
      exact ⟨rfl, ((readRecord_iff_recordAt hstop).mp hr).1, hfin⟩

/-! ### Transactions -/

/-- The state of the scan's transaction buffering, with the entries applied so far in place of the
index. -/
structure Frame where
  pending : List IndexEntry
  pendingTxnId : UInt64
  applied : List IndexEntry
  committedEnd : ℕ
  maxSeq : UInt64

def Frame.start (off : ℕ) : Frame :=
  { pending := [], pendingTxnId := 0, applied := [], committedEnd := off, maxSeq := 0 }

/-- The pending list once a record has joined it. -/
def Frame.join (fr : Frame) (segId : UInt32) (off : ℕ) (r : Rec) : List IndexEntry :=
  let kept := if fr.pending ≠ [] ∧ r.hdr.txnId ≠ fr.pendingTxnId then [] else fr.pending
  if kept.length < txnMaxOps then kept ++ [r.entry segId off] else kept

def Frame.step (segId : UInt32) (fr : Frame) (p : ℕ × Rec) : Frame :=
  let pending := fr.join segId p.1 p.2
  if p.2.commit then
    { pending := [], pendingTxnId := p.2.hdr.txnId, applied := fr.applied ++ pending
      committedEnd := p.1 + p.2.span
      maxSeq := if p.2.hdr.seq > fr.maxSeq then p.2.hdr.seq else fr.maxSeq }
  else
    { pending, pendingTxnId := p.2.hdr.txnId, applied := fr.applied
      committedEnd := fr.committedEnd
      maxSeq := if p.2.hdr.seq > fr.maxSeq then p.2.hdr.seq else fr.maxSeq }

/-- What a scan from `off` makes of the records `rs`. -/
def frame (segId : UInt32) (off : ℕ) (rs : List (ℕ × Rec)) : Frame :=
  rs.foldl (Frame.step segId) (Frame.start off)

lemma frame_append (segId : UInt32) (off : ℕ) (rs ss : List (ℕ × Rec)) :
    frame segId off (rs ++ ss) = ss.foldl (Frame.step segId) (frame segId off rs) := by
  simp [frame]

/-- The scan loop is the transaction buffering over the walk. -/
lemma scanLoop_eq (f : Bytes) (segId : UInt32) (stop : ℕ) (st : ScanState) (idx : Index)
    (fr : Frame) (hp : st.pending = fr.pending) (ht : st.pendingTxnId = fr.pendingTxnId)
    (hi : st.index = fr.applied.foldl Index.upsert idx)
    (he : st.lastCommittedEnd = fr.committedEnd) (hm : st.maxSeq = fr.maxSeq) :
    let fr' := (walk f stop st.off).foldl (Frame.step segId) fr
    (scanLoop f segId stop st).index = fr'.applied.foldl Index.upsert idx ∧
      (scanLoop f segId stop st).lastCommittedEnd = fr'.committedEnd ∧
      (scanLoop f segId stop st).maxSeq = fr'.maxSeq := by
  induction hn : stop - st.off using Nat.strongRecOn generalizing st fr with
  | ind n ih =>
    cases hr : readRecord f stop st.off with
    | none =>
      have hl : scanLoop f segId stop st = st := by
        rw [scanLoop]; split
        · rfl
        · rename_i r h; simp [hr] at h
      rw [hl, walk_of_none hr]
      exact ⟨hi, he, hm⟩
    | some r =>
      have hl : scanLoop f segId stop st = scanLoop f segId stop (scanStep segId st r) := by
        rw [scanLoop]; split
        · rename_i h; simp [hr] at h
        · rename_i r' h
          rw [hr] at h
          cases h
          rfl
      have hle := readRecord_le hr
      have hpos := r.span_pos
      rw [hl, walk_of_some hr, ← scanStep_off segId st r]
      refine ih (stop - (scanStep segId st r).off) (by rw [scanStep_off]; omega) _ _ ?_ ?_ ?_ ?_ ?_ rfl
      all_goals
        cases hc : r.commit <;>
          simp [scanStep, Frame.step, Frame.join, hc, hp, ht, hi, he, hm]

lemma scanFileRange_of_lt {segId : UInt32} {startOff stopOff : ℕ} {idx : Index}
    {gen : UInt64} (h : stopOff < startOff + 40) : scanFileRange f segId startOff stopOff idx gen =
      { off := startOff, lastCommittedEnd := startOff, maxSeq := 0, pending := []
        pendingTxnId := 0, index := idx, schemaGen := gen } := by
  rw [scanFileRange, scanLoop]
  split
  · rfl
  · rename_i r hr
    simp [readRecord_of_lt h] at hr

/-- `scan_file_range` in terms of the walk and its transactions. -/
lemma scanFileRange_eq (f : Bytes) (segId : UInt32) (startOff stopOff : ℕ) (idx : Index) (gen : UInt64) :
    let fr := frame segId startOff (walk f stopOff startOff)
    (scanFileRange f segId startOff stopOff idx gen).index = fr.applied.foldl Index.upsert idx ∧
      (scanFileRange f segId startOff stopOff idx gen).lastCommittedEnd = fr.committedEnd ∧
      (scanFileRange f segId startOff stopOff idx gen).maxSeq = fr.maxSeq :=
  scanLoop_eq f segId stopOff _ idx (Frame.start startOff) rfl rfl rfl rfl rfl

end Picowal
