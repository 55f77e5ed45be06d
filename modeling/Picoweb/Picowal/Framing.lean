import Picoweb.Picowal.Log

/-!
# What the scan makes of a transaction

The records of one transaction lie side by side, so a scan that reaches the first of them with
nothing pending, or with leftovers of another transaction, holds exactly the transaction's records
back until the commit-marked one and then applies them all.
-/

namespace Picowal

open ByteFile List

variable {e : IndexEntry} {rs : List (ℕ × Rec)} {segId : UInt32}

namespace Frame

/-- No record of transaction `t` is pending. -/
def Fresh (fr : Frame) (t : UInt64) : Prop := fr.pending = [] ∨ fr.pendingTxnId ≠ t

variable {fr : Frame}

lemma join_of_fresh {r : Rec} (h : fr.Fresh r.hdr.txnId) (segId : UInt32) (off : ℕ) :
    fr.join segId off r = [r.entry segId off] := by
  rcases h with h | h
  · simp [join, h]
  · by_cases hp : fr.pending = []
    · simp [join, hp]
    · simp [join, hp, h.symm]

lemma join_of_same {r : Rec} (h : fr.pendingTxnId = r.hdr.txnId) (hlen : fr.pending.length < txnMaxOps)
    (segId : UInt32) (off : ℕ) : fr.join segId off r = fr.pending ++ [r.entry segId off] := by
  simp [join, h, hlen]

lemma step_open (fr : Frame) (segId : UInt32) {p : ℕ × Rec} (hc : p.2.commit = false) :
    (fr.step segId p).pending = fr.join segId p.1 p.2 ∧ (fr.step segId p).pendingTxnId = p.2.hdr.txnId ∧
      (fr.step segId p).applied = fr.applied ∧
      (fr.step segId p).committedEnd = fr.committedEnd := by
  simp [step, hc]

lemma step_commit (fr : Frame) (segId : UInt32) {p : ℕ × Rec} (hc : p.2.commit = true) :
    (fr.step segId p).pending = [] ∧ (fr.step segId p).applied = fr.applied ++ fr.join segId p.1 p.2 ∧
      (fr.step segId p).committedEnd = p.1 + p.2.span := by
  simp [step, hc]

/-- Records without a commit mark apply nothing. -/
lemma foldl_applied_of_open (h : ∀ p ∈ rs, p.2.commit = false) : (rs.foldl (step segId) fr).applied = fr.applied ∧
      (rs.foldl (step segId) fr).committedEnd = fr.committedEnd := by
  induction rs generalizing fr with
  | nil => exact ⟨rfl, rfl⟩
  | cons p rs ih =>
    obtain ⟨-, -, h3, h4⟩ := fr.step_open segId (h p mem_cons_self)
    obtain ⟨i1, i2⟩ := @ih (fr.step segId p) fun q hq => h q (mem_cons_of_mem _ hq)
    exact ⟨i1.trans h3, i2.trans h4⟩

/-- A record of a new transaction joins all of its records before. -/
lemma join_foldl {t : UInt64} (hfr : fr.Fresh t) (hrs : ∀ p ∈ rs, p.2.hdr.txnId = t ∧ p.2.commit = false)
    (hlen : rs.length < txnMaxOps) {p : ℕ × Rec} (hp : p.2.hdr.txnId = t) :
    (rs.foldl (step segId) fr).join segId p.1 p.2 = (rs ++ [p]).map fun p => p.2.entry segId p.1 := by
  induction rs using List.reverseRecOn generalizing p with
  | nil => exact join_of_fresh (by rwa [hp]) segId p.1
  | append_singleton rs q ih =>
    rw [length_append] at hlen
    obtain ⟨ht, hc⟩ := hrs q (by simp)
    obtain ⟨hpend, hid, -⟩ := (rs.foldl (step segId) fr).step_open segId hc
    rw [ih (fun r hr => hrs r (mem_append_left _ hr)) (by omega) ht] at hpend
    rw [foldl_append, foldl_cons, foldl_nil, join_of_same (hid.trans (ht.trans hp.symm))
      (by rw [hpend]; simpa using hlen), hpend]
    simp only [map_append, map_singleton]

/-- The records of a new transaction with its commit: they are all applied. -/
lemma foldl_commit {segId : UInt32} {t : UInt64} {rs : List (ℕ × Rec)} {last : ℕ × Rec} {fr : Frame}
    (hfr : fr.Fresh t) (hrs : ∀ p ∈ rs, p.2.hdr.txnId = t ∧ p.2.commit = false)
    (hlast : last.2.hdr.txnId = t ∧ last.2.commit = true) (hlen : rs.length < txnMaxOps) :
    ((rs ++ [last]).foldl (step segId) fr).pending = [] ∧ ((rs ++ [last]).foldl (step segId) fr).applied
        = fr.applied ++ (rs ++ [last]).map (fun p => p.2.entry segId p.1) ∧
      ((rs ++ [last]).foldl (step segId) fr).committedEnd = last.1 + last.2.span := by
  obtain ⟨h1, h2, h3⟩ := (rs.foldl (step segId) fr).step_commit segId hlast.2
  rw [join_foldl hfr hrs hlen hlast.1, (foldl_applied_of_open fun p hp => (hrs p hp).2).1] at h2
  rw [foldl_append]
  exact ⟨h1, h2, h3⟩

/-- Records that each commit on their own are applied as they come. -/
lemma foldl_single (hfr : fr.pending = []) (h : ∀ p ∈ rs, p.2.commit = true) : (rs.foldl (step segId) fr).applied
      = fr.applied ++ rs.map (fun p => p.2.entry segId p.1) := by
  induction rs generalizing fr with
  | nil => simp
  | cons p rs ih =>
    obtain ⟨h1, h2, -⟩ := fr.step_commit segId (h p mem_cons_self)
    rw [foldl_cons, ih h1 fun q hq => h q (mem_cons_of_mem _ hq), h2,
      join_of_fresh (.inl hfr), map_cons, append_assoc, singleton_append]

lemma mem_join {off : ℕ} {r : Rec} (h : e ∈ fr.join segId off r) : e ∈ fr.pending ∨ e = r.entry segId off := by
  set kept := if fr.pending ≠ [] ∧ r.hdr.txnId ≠ fr.pendingTxnId then [] else fr.pending with hdef
  have hkept (hx : e ∈ kept) : e ∈ fr.pending := by
    rw [hdef] at hx
    split_ifs at hx
    · simp at hx
    · exact hx
  have hjoin : fr.join segId off r = if kept.length < txnMaxOps then kept ++ [r.entry segId off] else kept := rfl
  rw [hjoin] at h
  split_ifs at h
  · rw [mem_append, mem_singleton] at h
    exact h.imp_left hkept
  · exact .inl (hkept h)

/-- Everything the buffering holds or has applied is the entry of a record it was given. -/
lemma mem_of_foldl (h : e ∈ (rs.foldl (step segId) fr).applied ∨ e ∈ (rs.foldl (step segId) fr).pending) :
    (e ∈ fr.applied ∨ e ∈ fr.pending) ∨ ∃ p ∈ rs, e = p.2.entry segId p.1 := by
  induction rs generalizing fr with
  | nil => exact .inl h
  | cons p rs ih =>
    rcases ih h with h | ⟨q, hq, rfl⟩
    · have hjoin : e ∈ fr.applied ∨ e ∈ fr.join segId p.1 p.2 := by
        cases hc : p.2.commit with
        | true => simpa [fr.step_commit segId hc] using h
        | false => simpa [fr.step_open segId hc] using h
      rcases hjoin with h | h
      · exact .inl (.inl h)
      · rcases mem_join h with h | rfl
        · exact .inl (.inr h)
        · exact .inr ⟨p, mem_cons_self, rfl⟩
    · exact .inr ⟨q, mem_cons_of_mem _ hq, rfl⟩

/-- Scanned records only add to what is applied. -/
lemma applied_subset_foldl (h : e ∈ fr.applied) : e ∈ (rs.foldl (step segId) fr).applied := by
  induction rs generalizing fr with
  | nil => exact h
  | cons p rs ih =>
    apply ih
    cases hc : p.2.commit with
    | true =>
      rw [(fr.step_commit segId hc).2.1]
      exact mem_append_left _ h
    | false => rwa [(fr.step_open segId hc).2.2.1]

/-- The greater of two seqs, as the code takes it. -/
lemma toNat_max_le {a b : UInt64} {n : ℕ} : (if b > a then b else a).toNat ≤ n ↔ a.toNat ≤ n ∧ b.toNat ≤ n := by
  split_ifs with h
  · have := UInt64.lt_iff_toNat_lt.mp h
    omega
  · have := mt UInt64.lt_iff_toNat_lt.mpr h
    omega

lemma step_maxSeq (fr : Frame) (segId : UInt32) (p : ℕ × Rec) :
    (fr.step segId p).maxSeq = if p.2.hdr.seq > fr.maxSeq then p.2.hdr.seq else fr.maxSeq := by
  cases hc : p.2.commit <;> simp [step, hc]

lemma foldl_maxSeq_le {n : ℕ} : (rs.foldl (step segId) fr).maxSeq.toNat ≤ n ↔
    fr.maxSeq.toNat ≤ n ∧ ∀ p ∈ rs, p.2.hdr.seq.toNat ≤ n := by
  induction rs generalizing fr with
  | nil => simp
  | cons p rs ih => rw [foldl_cons, ih, step_maxSeq, toNat_max_le, forall_mem_cons, and_assoc]

end Frame

/-- The highest seq of a scan is that of the records it meets. -/
lemma frame_maxSeq_le {off n : ℕ} : (frame segId off rs).maxSeq.toNat ≤ n ↔ ∀ p ∈ rs, p.2.hdr.seq.toNat ≤ n :=
  Frame.foldl_maxSeq_le.trans (and_iff_right (Nat.zero_le _))

/-- The scan stops applying after the last commit: what comes before is a log of its own that leaves
nothing pending, and what comes after is one that is not marked. -/
lemma frame_split {f : Bytes} {segId : UInt32} {off fin : ℕ} {rs : List (ℕ × Rec)} (h : IsLog f off rs fin) :
    ∃ ps qs, rs = ps ++ qs ∧ IsLog f off ps (frame segId off rs).committedEnd ∧
      IsLog f (frame segId off rs).committedEnd qs fin ∧ (∀ q ∈ qs, q.2.commit = false) ∧ (frame segId off ps).pending = [] ∧
      (frame segId off ps).applied = (frame segId off rs).applied := by
  induction rs using List.reverseRecOn generalizing fin with
  | nil => exact ⟨[], [], rfl, rfl, h, by simp, rfl, rfl⟩
  | append_singleton rs p ih =>
    obtain ⟨b, hrs, hp⟩ := h.append_inv
    have hstep : frame segId off (rs ++ [p]) = (frame segId off rs).step segId p := by
      rw [frame_append]
      rfl
    cases hc : p.2.commit with
    | true =>
      obtain ⟨h1, -, h3⟩ := (frame segId off rs).step_commit segId hc
      have hend : fin = p.1 + p.2.span := by
        obtain ⟨ho, -, hfin⟩ := hp
        rw [ho]
        exact hfin.symm
      refine ⟨rs ++ [p], [], by simp, ?_, ?_, by simp, ?_, rfl⟩
      · rw [hstep, h3, ← hend]
        exact h
      · rw [hstep, h3]
        exact hend.symm
      · rw [hstep, h1]
    | false =>
      obtain ⟨-, -, h3, h4⟩ := (frame segId off rs).step_open segId hc
      obtain ⟨ps, qs, hsplit, hlog, hrest, hqs, hpend, happ⟩ := ih hrs
      refine ⟨ps, qs ++ [p], by rw [hsplit, append_assoc], ?_, ?_, ?_, hpend, ?_⟩
      · rw [hstep, h4]
        exact hlog
      · rw [hstep, h4]
        exact hrest.append hp
      · exact forall_mem_append.2 ⟨hqs, forall_mem_singleton.2 hc⟩
      · rw [hstep, h3, happ]

/-- The entries a scan of the whole file applies. -/
def segEntries (segId : UInt32) (f : Bytes) : List IndexEntry :=
  (frame segId segDataStart (walk f f.length segDataStart)).applied

lemma mem_frame_applied {off : ℕ} (h : e ∈ (frame segId off rs).applied) : ∃ p ∈ rs, e = p.2.entry segId p.1 := by
  rcases Frame.mem_of_foldl (.inl h) with h | h
  · simp [Frame.start] at h
  · exact h

lemma mem_segEntries {f : Bytes} (h : e ∈ segEntries segId f) :
    ∃ r, recordAt f e.offset = some r ∧ e = r.entry segId e.offset := by
  obtain ⟨p, hp, rfl⟩ := mem_frame_applied h
  obtain ⟨fin, hfin⟩ := isLog_walk (f := f) le_rfl segDataStart
  exact ⟨p.2, (hfin.mem hp).1, rfl⟩

end Picowal
