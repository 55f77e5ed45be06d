import Picoweb.Tls.Engine

/-!
# Sealing application data

`pw_tls_app_seal_iov` cuts its fragments into records of at most 16 KiB and puts them behind each other into
TX. It first looks whether all of them fit, so that a call for at most eight fragments either seals
everything, or nothing, or has used up the sequence numbers of the write key.
-/

namespace Tls

open List Engine

namespace Engine

open ByteFile

variable {S : Suite} {eng : Engine S}

/-! ### What sealing leaves alone -/

/-- Only the side of the engine that seals has moved. -/
def OnlySeals (eng eng' : Engine S) : Prop :=
  ∃ tx write appOut recordsOut, eng' = { eng with tx := tx, write := write, appOut := appOut, recordsOut := recordsOut }

lemma OnlySeals.refl : OnlySeals eng eng := ⟨_, _, _, _, rfl⟩

lemma OnlySeals.trans {eng₁ eng₂ : Engine S} (h₁ : OnlySeals eng eng₁) (h₂ : OnlySeals eng₁ eng₂) :
    OnlySeals eng eng₂ := by
  obtain ⟨_, _, _, _, rfl⟩ := h₁
  obtain ⟨_, _, _, _, rfl⟩ := h₂
  exact ⟨_, _, _, _, rfl⟩

variable {eng' : Engine S}

lemma OnlySeals.state (h : OnlySeals eng eng') : eng'.state = eng.state := by
  obtain ⟨_, _, _, _, rfl⟩ := h
  rfl

variable {plaintext : Bytes}

lemma OnlySeals.sealTx {inner : ContentType} (h : eng.sealTx inner plaintext = some eng') : OnlySeals eng eng' := by
  obtain ⟨p, -, rfl⟩ := Option.map_eq_some_iff.mp h
  exact ⟨_, _, _, _, rfl⟩

/-- The loop that seals goes on until it can do nothing, or sets the state where it fails. -/
lemma sealLoop_cases (fuel : ℕ) (eng : Engine S) : ∃ eng₁, OnlySeals eng eng₁ ∧ eng.recordsOut ≤ eng₁.recordsOut ∧
    (eng.sealLoop fuel = (true, eng₁) ∧ (eng.appOut.length < fuel → eng₁.trySealOne = (.idle, eng₁)) ∨
      eng.sealLoop fuel = (false, eng₁.setFailed .internal)) := by
  induction fuel generalizing eng with
  | zero => exact ⟨eng, .refl, le_rfl, .inl ⟨rfl, nofun⟩⟩
  | succ fuel ih =>
    by_cases h : eng.Sealable
    · obtain ⟨record, write, -, hone⟩ := trySealOne_of_sealable h
      rw [sealLoop_of_progress fuel hone]
      have hshort : (eng.appOut.drop maxPlaintext).length < eng.appOut.length := by
        have := length_pos_of_ne_nil h.1
        rw [length_drop]
        simp only [maxPlaintext]
        omega
      obtain ⟨eng₁, honly, hcount, hend⟩ := ih { eng with
        tx := eng.tx ++ record, write := write, appOut := eng.appOut.drop maxPlaintext, recordsOut := eng.recordsOut + 1 }
      refine ⟨eng₁, .trans ⟨_, _, _, _, rfl⟩ honly, (Nat.le_succ _).trans hcount, hend.imp_left ?_⟩
      exact fun ⟨hloop, hidle⟩ => ⟨hloop, fun hfuel => hidle (hshort.trans_le (Nat.le_of_lt_succ hfuel))⟩
    · obtain ⟨rc, hrc, hone, -⟩ := trySealOne_of_not_sealable h
      cases rc with
      | error => exact ⟨eng, .refl, le_rfl, .inr (sealLoop_of_error fuel hone)⟩
      | idle => exact ⟨eng, .refl, le_rfl, .inl ⟨sealLoop_of_idle fuel hone, fun _ => hone⟩⟩
      | progress => exact absurd rfl hrc

lemma OnlySeals.sealLoop {fuel : ℕ} (h : eng.sealLoop fuel = (true, eng')) : OnlySeals eng eng' := by
  obtain ⟨eng₁, honly, -, ⟨hloop, -⟩ | hloop⟩ := sealLoop_cases fuel eng
  · cases hloop.symm.trans h
    exact honly
  · cases hloop.symm.trans h

lemma OnlySeals.sealChunks (fuel : ℕ) (iov : List Bytes) : OnlySeals eng (sealChunks fuel iov eng).2 := by
  induction fuel generalizing eng iov with
  | zero => exact .refl
  | succ fuel ih =>
    unfold sealChunks
    split_ifs
    · exact .refl
    dsimp only
    split_ifs
    · exact .refl
    split
    · exact .refl
    next h => exact (OnlySeals.sealTx h).trans (ih _)

lemma OnlySeals.appSealIov (iov : List Bytes) : OnlySeals eng (eng.appSealIov iov).2 := by
  unfold Engine.appSealIov
  split_ifs
  · exact .refl
  dsimp only
  split_ifs
  · exact .refl
  · split
    · exact .refl
    next h => exact .sealTx h
  · exact .refl
  · exact .sealChunks _ _

lemma OnlySeals.sealHandshakeMsgs {msgs : List Bytes}
    (h : sealHandshakeMsgs msgs eng = (true, eng')) : OnlySeals eng eng' := by
  induction msgs generalizing eng with
  | nil =>
    cases h
    exact .refl
  | cons msg msgs ih =>
    unfold sealHandshakeMsgs at h
    split at h
    · cases h
    next hseal => exact (OnlySeals.sealTx hseal).trans (ih h)

lemma OnlySeals.emitSessionTicket (nst : Option Bytes) : OnlySeals eng (eng.emitSessionTicket nst).2 := by
  unfold Engine.emitSessionTicket
  split_ifs
  · exact .refl
  · split
    · exact .refl
    · split
      · exact .refl
      next h => exact .sealTx h

/-! ### How much a call seals -/

/-- `rec_overhead` -/
abbrev recOverhead : ℕ := recordHeaderLen + 1 + aeadTagLen

section TakeChunk

variable (iov : List Bytes) (chunk : ℕ)

lemma flatten_takeChunk : (takeChunk iov chunk).1.flatten = iov.flatten.take chunk ∧
    (takeChunk iov chunk).2.flatten = iov.flatten.drop chunk := by
  induction iov generalizing chunk with
  | nil => simp [takeChunk]
  | cons frag rest ih =>
    obtain ⟨htaken, hrest⟩ := ih (chunk - frag.length)
    unfold takeChunk
    rw [flatten_cons, take_append, drop_append]
    split_ifs with hzero hfrag hempty
    · simp [hzero]
    · subst hempty
      simpa using ih chunk
    · rw [take_of_length_le hfrag, drop_eq_nil_of_le hfrag, ← htaken, ← hrest]
      exact ⟨rfl, rfl⟩
    · have hzero' : chunk - frag.length = 0 := Nat.sub_eq_zero_of_le (not_le.mp hfrag).le
      simp [hzero']

lemma length_takeChunk : (takeChunk iov chunk).1.length ≤ iov.length ∧ (takeChunk iov chunk).2.length ≤ iov.length := by
  induction iov generalizing chunk with
  | nil => simp [takeChunk]
  | cons frag rest ih =>
    obtain ⟨htaken, hrest⟩ := ih (chunk - frag.length)
    unfold takeChunk
    split_ifs
    all_goals simp only [length_cons, length_nil]
    all_goals omega

end TakeChunk

/-- The engine after some records of application data, `n` bytes in all, have been sealed. -/
structure Sealed (eng eng' : Engine S) (n : ℕ) : Prop where
  only : OnlySeals eng eng'
  records : eng.recordsOut ≤ eng'.recordsOut
  length : eng'.tx.length = eng.tx.length + n + (eng'.recordsOut - eng.recordsOut) * recOverhead

lemma Sealed.zero : Sealed eng eng 0 := ⟨.refl, le_rfl, by simp⟩

lemma Sealed.trans {eng₁ eng₂ : Engine S} {n m : ℕ} (h₁ : Sealed eng eng₁ n) (h₂ : Sealed eng₁ eng₂ m) :
    Sealed eng eng₂ (n + m) := by
  refine ⟨h₁.only.trans h₂.only, h₁.records.trans h₂.records, ?_⟩
  have hrecords : eng₂.recordsOut - eng.recordsOut =
      (eng₁.recordsOut - eng.recordsOut) + (eng₂.recordsOut - eng₁.recordsOut) := by
    have := h₁.records
    have := h₂.records
    omega
  rw [h₂.length, h₁.length, hrecords, Nat.add_mul]
  omega

lemma Sealed.sealTx {inner : ContentType} (h : eng.sealTx inner plaintext = some eng') :
    Sealed eng eng' plaintext.length ∧ eng'.tx.length = eng.tx.length + plaintext.length + recOverhead := by
  have honly := OnlySeals.sealTx h
  obtain ⟨p, hp, rfl⟩ := Option.map_eq_some_iff.mp h
  have hlen : (eng.tx ++ p.1).length = eng.tx.length + plaintext.length + recOverhead := by
    rw [length_append, length_sealRecord hp]
    simp only [recOverhead]
    omega
  refine ⟨⟨honly, Nat.le_succ _, ?_⟩, hlen⟩
  rw [hlen, Nat.add_sub_cancel_left, Nat.one_mul]

/-- A record of a size that fits is not sealed only if the sequence numbers are used up. -/
lemma sealTx_eq_none (hlen : plaintext.length ≤ maxPlaintext)
    (hroom : plaintext.length + recOverhead ≤ txBufCap - eng.tx.length)
    (h : eng.sealTx ctApplicationData plaintext = none) : eng.write.seq = seqMax := by
  by_contra hseq
  have hsome : (sealRecord S.aead eng.write ctApplicationData ctApplicationData plaintext
      (txBufCap - eng.tx.length)).isSome := by
    refine isSome_sealRecord.mpr ⟨?_, hlen, hseq⟩
    simp only [recOverhead] at hroom
    omega
  rw [sealTx, Option.map_eq_none_iff] at h
  rw [h] at hsome
  cases hsome

lemma recordsOut_sealTx {inner : ContentType} (h : eng.sealTx inner plaintext = some eng') :
    eng'.recordsOut = eng.recordsOut + 1 ∧ eng'.write.seq = eng.write.seq + 1 := by
  obtain ⟨⟨record, dir⟩, hseal, rfl⟩ := Option.map_eq_some_iff.mp h
  obtain ⟨-, rfl, -⟩ := sealRecord_eq_some hseal
  exact ⟨rfl, rfl⟩

/-- `records` -/
abbrev recordsFor (total : ℕ) : ℕ := (total + maxPlaintext - 1) / maxPlaintext

/-- The fragments of each record of a call. -/
def cuts : ℕ → List Bytes → List (List Bytes)
  | 0, _ => []
  | fuel + 1, iov =>
    if iov.flatten = [] then []
    else (takeChunk iov maxPlaintext).1 :: cuts fuel (takeChunk iov maxPlaintext).2

lemma length_of_mem_cuts {fuel : ℕ} {iov taken : List Bytes} (h : taken ∈ cuts fuel iov) :
    taken.length ≤ iov.length := by
  induction fuel generalizing iov with
  | zero => cases h
  | succ fuel ih =>
    obtain ⟨hfirst, hrest⟩ := length_takeChunk iov maxPlaintext
    unfold cuts at h
    split_ifs at h
    · cases h
    · rcases mem_cons.mp h with rfl | h
      · exact hfirst
      · exact (ih h).trans hrest

/-- A record of these fragments is not sealed: they are too many, or no sequence number is left. -/
def Refused (seq : ℕ) (taken : List Bytes) : Prop := iovMaxFrags < taken.length ∨ seq = seqMax

/-- The loop seals everything, or stops at a record that is refused. -/
lemma sealChunks_spec {fuel : ℕ} {iov : List Bytes} (hfuel : iov.flatten.length ≤ fuel)
    (hroom : iov.flatten.length + recordsFor iov.flatten.length * recOverhead ≤ txBufCap - eng.tx.length) :
    ∃ n, Sealed eng (sealChunks fuel iov eng).2 n ∧ n ≤ iov.flatten.length ∧
      ((sealChunks fuel iov eng).1 = true → n = iov.flatten.length) ∧
      ((sealChunks fuel iov eng).1 = false →
        ∃ k taken, (cuts fuel iov)[k]? = some taken ∧ Refused (eng.write.seq + k) taken ∧
          (sealChunks fuel iov eng).2.recordsOut = eng.recordsOut + k ∧
          (sealChunks fuel iov eng).2.write.seq = eng.write.seq + k) := by
  induction fuel generalizing eng iov with
  | zero => exact ⟨0, .zero, Nat.zero_le _, fun _ => (Nat.le_zero.mp hfuel).symm, nofun⟩
  | succ fuel ih =>
    unfold sealChunks cuts
    split_ifs with hnil
    · exact ⟨0, .zero, Nat.zero_le _, fun _ => by rw [hnil]; rfl, nofun⟩
    have hpos : 0 < iov.flatten.length := length_pos_of_ne_nil hnil
    obtain ⟨htaken, hrest⟩ := flatten_takeChunk iov maxPlaintext
    have hchunk : (takeChunk iov maxPlaintext).1.flatten.length = min maxPlaintext iov.flatten.length := by
      rw [htaken, length_take]
    have hleft : (takeChunk iov maxPlaintext).2.flatten.length = iov.flatten.length - maxPlaintext := by
      rw [hrest, length_drop]
    generalize takeChunk iov maxPlaintext = p at *
    obtain ⟨taken, rest⟩ := p
    dsimp only at hchunk hleft ⊢
    split_ifs with hmany
    · exact ⟨0, .zero, Nat.zero_le _, nofun, fun _ => ⟨0, taken, rfl, .inl hmany, rfl, rfl⟩⟩
    simp only [recordsFor, recOverhead, recordHeaderLen, aeadTagLen, maxPlaintext] at hroom ih hchunk hleft
    split
    next hnone =>
      refine ⟨0, .zero, Nat.zero_le _, nofun, fun _ => ⟨0, taken, rfl, .inr (sealTx_eq_none ?_ ?_ hnone), rfl, rfl⟩⟩
      · rw [hchunk]
        exact min_le_left _ _
      · simp only [recOverhead, recordHeaderLen, aeadTagLen]
        omega
    next eng₁ hsome =>
      obtain ⟨hsealed, htx⟩ := Sealed.sealTx hsome
      simp only [recOverhead, recordHeaderLen, aeadTagLen] at htx
      have hroom' : rest.flatten.length + (rest.flatten.length + 16384 - 1) / 16384 * (5 + 1 + 16) ≤
          txBufCap - eng₁.tx.length := by omega
      obtain ⟨n, hsealed', hn, hall, hstop⟩ := ih (by omega) hroom'
      refine ⟨taken.flatten.length + n, hsealed.trans hsealed', by omega, fun h => ?_, fun h => ?_⟩
      · have := hall h
        omega
      · obtain ⟨k, stop, hk, hrefused, hcount, hseq⟩ := hstop h
        obtain ⟨hcount₁, hseq₁⟩ := recordsOut_sealTx hsome
        rw [hseq₁, Nat.add_assoc, Nat.add_comm 1] at hrefused hseq
        rw [hcount₁, Nat.add_assoc, Nat.add_comm 1] at hcount
        exact ⟨k + 1, stop, hk, hrefused, hcount, hseq⟩

/-- There is no room in TX for `total` bytes with their records, or no sequence number. -/
def Refuses (eng : Engine S) (total : ℕ) : Prop :=
  txBufCap - eng.tx.length < total + (if total = 0 then 1 else recordsFor total) * recOverhead ∨ eng.write.seq = seqMax

/-- A call that should seal `total` bytes has sealed all of them, or none, or has used up the sequence
numbers. -/
def SealOutcome (eng : Engine S) (total : ℕ) (r : Bool × Engine S) : Prop :=
  ∃ n, Sealed eng r.2 n ∧ n ≤ total ∧ (r.1 = true → n = total) ∧
    (r.1 = false → (n = 0 ∨ r.2.write.seq = seqMax) ∧ (eng.state = .app → r.2.Refuses total))

lemma SealOutcome.none {total : ℕ} (h : eng.state = .app → eng.Refuses total) : SealOutcome eng total (false, eng) :=
  ⟨0, .zero, Nat.zero_le _, nofun, fun _ => ⟨.inl rfl, h⟩⟩

/-- What `pw_tls_app_seal_iov` can do with at most eight fragments. -/
theorem appSealIov_spec {iov : List Bytes} (hfrags : iov.length ≤ iovMaxFrags) :
    SealOutcome eng iov.flatten.length (eng.appSealIov iov) := by
  unfold appSealIov
  dsimp only
  split_ifs with hstate htotal hroom hroom
  · exact .none fun happ => absurd happ hstate
  · exact .none fun _ => .inl (by rwa [if_pos htotal])
  · split
    next hnone =>
      refine .none fun _ => .inr (sealTx_eq_none (Nat.zero_le _) ?_ hnone)
      simpa [htotal] using hroom
    next eng₁ hsome =>
      exact ⟨0, (Sealed.sealTx hsome).1, Nat.zero_le _, fun _ => htotal.symm, nofun⟩
  · exact .none fun _ => .inl (by rwa [if_neg htotal])
  · obtain ⟨n, hsealed, hn, hall, hstop⟩ := sealChunks_spec le_rfl (not_lt.mp hroom)
    refine ⟨n, hsealed, hn, hall, fun h => ?_⟩
    obtain ⟨k, taken, hk, hrefused, -, hend⟩ := hstop h
    have hfew := (length_of_mem_cuts (mem_of_getElem? hk)).trans hfrags
    have hseq := hend.trans (hrefused.resolve_left hfew.not_gt)
    exact ⟨.inr hseq, fun _ => .inr hseq⟩

lemma appSealIov_of_exhausted (hseq : eng.write.seq = seqMax) (iov : List Bytes) :
    eng.appSealIov iov = (false, eng) := by
  unfold appSealIov
  dsimp only
  split_ifs with hstate htotal hroom hroom
  · rfl
  · rfl
  · rw [sealTx_of_exhausted hseq]
  · rfl
  · obtain ⟨total, hsucc⟩ := Nat.exists_eq_succ_of_ne_zero htotal
    have hne : iov.flatten ≠ [] := fun h => htotal (by rw [h]; rfl)
    rw [hsucc, sealChunks, if_neg hne]
    dsimp only
    rw [sealTx_of_exhausted hseq]
    split_ifs <;> rfl

/-! ### What a call that fails has sealed -/

/-- A record that is refused stops the loop, if nothing has stopped it before. -/
lemma sealChunks_of_refused {fuel k : ℕ} {iov taken : List Bytes} (hk : (cuts fuel iov)[k]? = some taken)
    (hrefused : Refused (eng.write.seq + k) taken) :
    (sealChunks fuel iov eng).1 = false ∧ (k = 0 → (sealChunks fuel iov eng).2 = eng) := by
  induction fuel generalizing eng iov k with
  | zero => simp [cuts] at hk
  | succ fuel ih =>
    unfold cuts at hk
    unfold sealChunks
    split_ifs at hk ⊢ with hnil
    · simp at hk
    dsimp only
    split_ifs with hmany
    · exact ⟨rfl, fun _ => rfl⟩
    split
    next => exact ⟨rfl, fun _ => rfl⟩
    next eng₁ hsome =>
      cases k with
      | zero =>
        obtain rfl := Option.some.inj hk
        rw [sealTx_of_exhausted (hrefused.resolve_left hmany)] at hsome
        cases hsome
      | succ k =>
        rw [Nat.add_comm k, ← Nat.add_assoc, ← (recordsOut_sealTx hsome).2] at hrefused
        exact ⟨(ih hk hrefused).1, nofun⟩

/-- Record `k` of a call is refused. -/
def RefusedAt (eng : Engine S) (iov : List Bytes) (k : ℕ) : Prop :=
  ∃ taken, (cuts iov.flatten.length iov)[k]? = some taken ∧ Refused (eng.write.seq + k) taken

/-- A record of the call is refused, and it is not the first one. -/
def StopsLate (eng : Engine S) (iov : List Bytes) : Prop :=
  eng.state = .app ∧
    iov.flatten.length + recordsFor iov.flatten.length * recOverhead ≤ txBufCap - eng.tx.length ∧
    ¬ eng.RefusedAt iov 0 ∧ ∃ k, eng.RefusedAt iov k

/-- Nothing has been put into TX. -/
def Unsealed (eng eng' : Engine S) : Prop :=
  eng'.tx = eng.tx ∧ eng'.write.seq = eng.write.seq ∧ eng'.recordsOut = eng.recordsOut

lemma StopsLate.appSealIov {iov : List Bytes} (h : eng.StopsLate iov) :
    (eng.appSealIov iov).1 = false ∧ ¬ eng.Unsealed (eng.appSealIov iov).2 := by
  obtain ⟨happ, hroom, hfirst, k, taken, hk, hrefused⟩ := h
  have htotal : iov.flatten.length ≠ 0 := fun h => by simp [h, cuts] at hk
  have hcall : eng.appSealIov iov = sealChunks iov.flatten.length iov eng := by
    rw [Engine.appSealIov, if_neg (not_not.mpr happ)]
    dsimp only
    rw [if_neg htotal, if_neg hroom.not_gt, if_neg htotal]
  have hfails := (sealChunks_of_refused hk hrefused).1
  rw [hcall]
  refine ⟨hfails, fun hsame => ?_⟩
  obtain ⟨-, -, -, -, hstop⟩ := sealChunks_spec le_rfl hroom
  obtain ⟨j, stop, hj, hat, hcount, -⟩ := hstop hfails
  -- The record at which the loop stopped is not the first one, so one has been counted.
  have hzero : j = 0 := by
    have := hsame.2.2
    omega
  subst hzero
  exact hfirst ⟨stop, hj, hat⟩

/-- A call that fails has sealed nothing exactly if it does not stop behind the first record. -/
theorem failed_seal_keeps_iff (eng : Engine S) (iov : List Bytes) :
    ((eng.appSealIov iov).1 = false → eng.Unsealed (eng.appSealIov iov).2) ↔ ¬ eng.StopsLate iov := by
  refine ⟨fun hkeeps hlate => hlate.appSealIov.2 (hkeeps hlate.appSealIov.1), fun hlate hfails => ?_⟩
  unfold appSealIov at hfails ⊢
  dsimp only at hfails ⊢
  split_ifs at hfails ⊢ with hstate htotal hroom hroom
  · exact ⟨rfl, rfl, rfl⟩
  · exact ⟨rfl, rfl, rfl⟩
  · split at hfails
    next => exact ⟨rfl, rfl, rfl⟩
    next => cases hfails
  · exact ⟨rfl, rfl, rfl⟩
  · obtain ⟨-, -, -, -, hstop⟩ := sealChunks_spec le_rfl (not_lt.mp hroom)
    obtain ⟨k, taken, hk, hrefused, -⟩ := hstop hfails
    have hfirst : eng.RefusedAt iov 0 := by
      by_contra hfirst
      exact hlate ⟨not_not.mp hstate, not_lt.mp hroom, hfirst, k, taken, hk, hrefused⟩
    obtain ⟨first, hzero, hat⟩ := hfirst
    rw [(sealChunks_of_refused hzero hat).2 rfl]
    exact ⟨rfl, rfl, rfl⟩

def keyed : Engine clearSuite := (init () false).installAppKeys .wiped .wiped

/-- A whole record, and nine bytes one by one. -/
def wholeThenNine : List Bytes := replicate maxPlaintext 0 :: replicate 9 [0]

/-- The first record stays in TX when the second one has too many fragments. -/
theorem failed_seal_leaves_record :
    (keyed.appSealIov wholeThenNine).1 = false ∧ ¬ keyed.Unsealed (keyed.appSealIov wholeThenNine).2 := by
  apply StopsLate.appSealIov
  have hlen : wholeThenNine.flatten.length = maxPlaintext + 9 := by
    rw [wholeThenNine, flatten_cons, length_append, length_replicate]
    rfl
  have htake : takeChunk wholeThenNine maxPlaintext = ([replicate maxPlaintext 0], replicate 9 [0]) := by
    rw [wholeThenNine, takeChunk, length_replicate]
    rfl
  have hcuts : cuts (maxPlaintext + 9) wholeThenNine = [[replicate maxPlaintext 0], replicate 9 [0]] := by
    rw [cuts, htake]
    rfl
  refine ⟨rfl, by rw [hlen]; decide, ?_, 1, ?_⟩
  · rintro ⟨first, hfirst, hrefused⟩
    rw [hlen, hcuts] at hfirst
    cases hfirst
    rcases hrefused with hmany | hseq
    · exact absurd hmany (by decide)
    · cases hseq
  · exact ⟨_, by rw [hlen, hcuts]; rfl, .inl (by decide)⟩

/-! ### Which records a call puts into TX -/

/-- The engine puts the records of some plaintexts into TX. -/
structure Emits (inner : ContentType) (eng : Engine S) (plains : List Bytes) (eng' : Engine S) : Prop where
  tx : eng'.tx = eng.tx ++ wireRecords S.aead inner eng.write plains
  write : eng'.write = eng.write.after plains.length
  seq : eng.write.seq ≤ seqMax → eng.write.seq + plains.length ≤ seqMax
  short : ∀ plain ∈ plains, plain.length ≤ maxPlaintext
  rx : eng'.rx = eng.rx
  state : eng'.state = eng.state ∨ eng'.state = .failed

namespace Emits

variable {inner : ContentType} {eng eng₁ eng₂ : Engine S} {plains more : List Bytes}

lemma refl (inner : ContentType) (eng : Engine S) : Emits inner eng [] eng where
  tx := (append_nil _).symm
  write := rfl
  seq := id
  short := nofun
  rx := rfl
  state := .inl rfl

lemma trans (h₁ : Emits inner eng plains eng₁) (h₂ : Emits inner eng₁ more eng₂) :
    Emits inner eng (plains ++ more) eng₂ where
  tx := by rw [h₂.tx, h₁.tx, h₁.write, wireRecords_append, append_assoc]
  write := by rw [h₂.write, h₁.write, Dir.after_after, length_append]
  seq hseq := by
    have hfirst := h₁.seq hseq
    have hwrite : eng₁.write.seq = eng.write.seq + plains.length := by rw [h₁.write, Dir.after]
    have hsecond := h₂.seq (hwrite ▸ hfirst)
    rw [length_append]
    omega
  short plain hmem := by
    rcases mem_append.1 hmem with hmem | hmem
    · exact h₁.short plain hmem
    · exact h₂.short plain hmem
  rx := h₂.rx.trans h₁.rx
  state := by
    rcases h₂.state with hsame | hfailed
    · rw [hsame]
      exact h₁.state
    · exact .inr hfailed

lemma sealTx {plain : Bytes} (h : eng.sealTx inner plain = some eng₁) :
    Emits inner eng [plain] eng₁ ∧ eng₁.appOut = eng.appOut := by
  obtain ⟨⟨record, dir⟩, hseal, rfl⟩ := Option.map_eq_some_iff.1 h
  obtain ⟨rfl, rfl, hlen, hseq⟩ := sealRecord_eq_some hseal
  refine ⟨⟨?_, rfl, fun hle => Nat.lt_of_le_of_ne hle hseq, ?_, rfl, .inl rfl⟩, rfl⟩
  · simp only [wireRecords, append_nil]
  · simpa using hlen

/-- The loop over APP_OUT moves its bytes into records. -/
lemma sealLoop (fuel : ℕ) (eng : Engine S) : ∃ plains, Emits ctApplicationData eng plains (eng.sealLoop fuel).2 ∧
    plains.flatten ++ (eng.sealLoop fuel).2.appOut = eng.appOut := by
  induction fuel generalizing eng with
  | zero => exact ⟨[], refl _ eng, rfl⟩
  | succ fuel ih =>
    by_cases hsealable : eng.Sealable
    · obtain ⟨record, write, hseal, hone⟩ := trySealOne_of_sealable hsealable
      obtain ⟨plains, hrest, hbytes⟩ := ih { eng with
        tx := eng.tx ++ record, write := write, appOut := eng.appOut.drop maxPlaintext, recordsOut := eng.recordsOut + 1 }
      rw [sealLoop_of_progress fuel hone]
      have hfirst := (sealTx (Option.map_eq_some_iff.2 ⟨_, hseal, rfl⟩)).1
      refine ⟨[eng.appOut.take maxPlaintext] ++ plains, trans ?_ hrest, ?_⟩
      · exact { hfirst with }
      · rw [flatten_append, flatten_singleton, append_assoc, hbytes, take_append_drop]
    · obtain ⟨rc, hrc, hone, -⟩ := trySealOne_of_not_sealable hsealable
      cases rc with
      | error =>
        rw [sealLoop_of_error fuel hone]
        exact ⟨[], ⟨(append_nil _).symm, rfl, id, nofun, rfl, .inr rfl⟩, rfl⟩
      | idle =>
        rw [sealLoop_of_idle fuel hone]
        exact ⟨[], refl _ eng, rfl⟩
      | progress => exact absurd rfl hrc

/-- The loop over the fragments seals them and leaves APP_OUT alone. -/
lemma sealChunks {fuel : ℕ} {iov : List Bytes} (hfuel : iov.flatten.length ≤ fuel)
    (h : sealChunks fuel iov eng = (true, eng₁)) :
    ∃ plains, Emits ctApplicationData eng plains eng₁ ∧ plains.flatten = iov.flatten ∧ eng₁.appOut = eng.appOut := by
  induction fuel generalizing eng iov with
  | zero =>
    cases h
    exact ⟨[], refl _ _, (length_eq_zero_iff.1 (Nat.le_zero.1 hfuel)).symm, rfl⟩
  | succ fuel ih =>
    rw [sealChunks] at h
    split at h
    · rename_i hnil
      cases h
      exact ⟨[], refl _ _, hnil.symm, rfl⟩
    · obtain ⟨htaken, hrest⟩ := flatten_takeChunk iov maxPlaintext
      have hleft : (takeChunk iov maxPlaintext).2.flatten.length ≤ fuel := by
        rw [hrest, length_drop]
        simp only [maxPlaintext]
        omega
      dsimp only at h
      split at h
      · cases h
      · split at h
        next => cases h
        next eng₂ hseal =>
          obtain ⟨hfirst, hout⟩ := sealTx hseal
          obtain ⟨plains, hmore, hflat, hout'⟩ := ih hleft h
          refine ⟨_, hfirst.trans hmore, ?_, hout'.trans hout⟩
          rw [flatten_append, flatten_singleton, hflat, htaken, hrest, take_append_drop]

lemma appSealIov {iov : List Bytes} (h : eng.appSealIov iov = (true, eng₁)) :
    ∃ plains, Emits ctApplicationData eng plains eng₁ ∧ plains.flatten = iov.flatten ∧ eng₁.appOut = eng.appOut := by
  simp only [Engine.appSealIov] at h
  split_ifs at h with happ hempty
  · cases h
  · cases h
  · have hnil : iov.flatten = [] := length_eq_zero_iff.1 hempty
    split at h
    next => cases h
    next eng₂ hseal =>
      cases h
      obtain ⟨hone, hout⟩ := sealTx hseal
      exact ⟨[[]], hone, hnil.symm, hout⟩
  · cases h
  · exact sealChunks le_rfl h

/-- The messages of a flight, one record each. -/
lemma sealHandshakeMsgs {msgs : List Bytes} (h : sealHandshakeMsgs msgs eng = (true, eng₁)) :
    Emits ctHandshake eng msgs eng₁ := by
  induction msgs generalizing eng with
  | nil =>
    cases h
    exact refl _ _
  | cons msg msgs ih =>
    rw [sealHandshakeMsgs] at h
    split at h
    next => cases h
    next eng₂ hseal => exact (sealTx hseal).1.trans (ih h)

end Emits

end Engine

end Tls
