import Picoweb.Crypto.ChaChaPoly
import Picoweb.Tls.Record

/-!
# Records sealed from fragments

`tls13_seal_record_iov` seals the fragments of a plaintext without joining them first. It writes the record
that `tls13_seal_record` writes for the joined plaintext, and `tls13_open_record` gives that plaintext back.
-/

namespace Tls

open ByteFile ChaChaPoly List

/-- The AEAD of the record layer: the tag stands behind the sealed text. -/
def chachaPoly (impl : ChaCha20.Impl) : Aead where
  encrypt key nonce aad text :=
    (aeadSeal impl key nonce aad text).1 ++ (aeadSeal impl key nonce aad text).2
  decrypt key nonce aad text :=
    if text.length < aeadTagLen then none
    else
      let innerLen := text.length - aeadTagLen
      aeadOpen impl key nonce aad (text.take innerLen) (text.drop innerLen)
  length_encrypt key nonce aad text := by
    rw [length_append, aeadSeal, length_xor, length_macData]
  length_decrypt key nonce aad text plain h := by
    split at h
    · exact absurd h (by simp)
    · rename_i hlen
      simp only [aeadOpen] at h
      split at h
      · rw [← Option.some.inj h, length_xor, length_take, Nat.min_eq_left (Nat.sub_le _ _)]
        exact Nat.sub_add_cancel (not_lt.mp hlen)
      · exact absurd h (by simp)

/-- What is sealed opens, on whichever path of the cipher. -/
lemma chachaPoly_decrypt_encrypt (impl impl' : ChaCha20.Impl) (key nonce aad text : Bytes) :
    (chachaPoly impl').decrypt key nonce aad ((chachaPoly impl).encrypt key nonce aad text) = some text := by
  have htag : (aeadSeal impl key nonce aad text).2.length = aeadTagLen :=
    length_macData _ _ _
  have hopen := aeadOpen_aeadSeal impl impl' key nonce aad text
  simp only [chachaPoly, length_append, htag, Nat.add_sub_cancel, take_left, drop_left]
  exact hopen

/-- `tls13_seal_record_iov`; `total_plaintext_len` is the length of all fragments. -/
def sealRecordIov (impl : ChaCha20.Impl) (dir : Dir) (inner outer : ContentType) (ptIov : List Bytes)
    (outCap : ℕ) : Option (Bytes × Dir) :=
  let total := (ptIov.map length).sum
  let cipherLen := total + 1 + aeadTagLen
  if 0xffff < cipherLen ∨ outCap < recordHeaderLen + cipherLen ∨ maxPlaintext < total ∨ dir.seq = seqMax ∨
      iovMaxFrags + 1 < ptIov.length + 1 then none
  else
    let header := recordHeader outer cipherLen
    -- the type goes behind the plaintext as a fragment of its own
    let sealed := aeadSealIov impl dir.key (buildNonce dir) header (ptIov ++ [[inner]])
    some (header ++ (sealed.1 ++ sealed.2), { dir with seq := dir.seq + 1 })

lemma sealRecordIov_eq (impl : ChaCha20.Impl) (dir : Dir) (inner outer : ContentType) {ptIov : List Bytes}
    (hfrags : ptIov.length ≤ iovMaxFrags) (outCap : ℕ) : sealRecordIov impl dir inner outer ptIov outCap =
      sealRecord (chachaPoly impl) dir inner outer ptIov.flatten outCap := by
  have hmany : ¬iovMaxFrags + 1 < ptIov.length + 1 := by omega
  simp only [sealRecordIov, sealRecord, aeadSealIov_eq, length_flatten, flatten_append, hmany, or_false]
  rfl

/-- The record length field says how long the record is. -/
lemma recordLen_recordHeader_append (outer : ContentType) {len : ℕ} (hlen : len ≤ 0xffff) (body : Bytes) :
    recordLen (recordHeader outer len ++ body) = len := by
  have hhigh : (UInt8.ofNat (len / 256)).toNat = len / 256 := by
    rw [UInt8.toNat_ofNat']
    omega
  have hlow : (UInt8.ofNat len).toNat = len % 256 := UInt8.toNat_ofNat'
  simp only [recordLen, recordHeader, cons_append, getD_cons_succ, getD_cons_zero]
  omega

/-- An AEAD that opens what it sealed opens a sealed record again. -/
lemma openRecord_sealRecord {aead aead' : Aead} {dir dir' : Dir} {inner outer : ContentType}
    {plaintext record : Bytes} {outCap : ℕ}
    (hopen : ∀ key nonce aad text, aead'.decrypt key nonce aad (aead.encrypt key nonce aad text) = some text)
    (hinner : inner ≠ 0) (hseal : sealRecord aead dir inner outer plaintext outCap = some (record, dir')) :
    openRecord aead' dir record = some (inner, plaintext, dir') := by
  simp only [sealRecord] at hseal
  split_ifs at hseal with hfits
  obtain ⟨rfl, rfl⟩ := Prod.mk.inj (Option.some.inj hseal)
  have hheader : (recordHeader outer (plaintext.length + 1 + aeadTagLen)).length = recordHeaderLen := rfl
  have hcipher : plaintext.length + 1 + aeadTagLen ≤ 0xffff := by omega
  have htype : (plaintext ++ [inner]).rdropWhile (· = 0) = plaintext ++ [inner] :=
    rdropWhile_concat_neg _ _ _ (by simpa using hinner)
  rw [openRecord, recordLen_recordHeader_append outer hcipher, if_neg]
  · rw [take_left' hheader, drop_left' hheader, hopen]
    dsimp only
    rw [htype, reverse_append]
    simp only [reverse_singleton, singleton_append, reverse_reverse]
  · simp only [length_append, aead.length_encrypt, length_singleton]
    omega

lemma openRecord_wireRecord {aead aead' : Aead} {inner : ContentType}
    (hopen : ∀ key nonce aad text, aead'.decrypt key nonce aad (aead.encrypt key nonce aad text) = some text)
    (hinner : inner ≠ 0) {dir : Dir} {plain : Bytes} (hlen : plain.length ≤ maxPlaintext) (hseq : dir.seq ≠ seqMax) :
    openRecord aead' dir (wireRecord aead inner dir plain) = some (inner, plain, dir.after 1) := by
  have hseal : (sealRecord aead dir inner ctApplicationData plain
      (recordHeaderLen + plain.length + 1 + aeadTagLen)).isSome :=
    isSome_sealRecord.2 ⟨le_rfl, hlen, hseq⟩
  obtain ⟨⟨record, dir'⟩, hseal⟩ := Option.isSome_iff_exists.1 hseal
  obtain ⟨rfl, rfl, -, -⟩ := sealRecord_eq_some hseal
  exact openRecord_sealRecord hopen hinner hseal

/-- Fragments are sealed as the text they make up, and the record opens to that text and its type. -/
theorem sealRecordIov_seals_joined (impl impl' : ChaCha20.Impl) (dir : Dir) (inner outer : ContentType)
    (ptIov : List Bytes) (outCap : ℕ) (hinner : inner ≠ 0) (hseq : dir.seq < seqMax)
    (hlen : ptIov.flatten.length ≤ maxPlaintext) (hfrags : ptIov.length ≤ iovMaxFrags) :
    sealRecordIov impl dir inner outer ptIov outCap =
        sealRecord (chachaPoly impl) dir inner outer ptIov.flatten outCap ∧
      (recordHeaderLen + ptIov.flatten.length + 1 + aeadTagLen ≤ outCap →
        ∃ record dir', sealRecordIov impl dir inner outer ptIov outCap = some (record, dir') ∧
          openRecord (chachaPoly impl') dir record = some (inner, ptIov.flatten, dir')) := by
  rw [sealRecordIov_eq impl dir inner outer hfrags outCap]
  refine ⟨rfl, fun hcap => ?_⟩
  have hsome : (sealRecord (chachaPoly impl) dir inner outer ptIov.flatten outCap).isSome :=
    isSome_sealRecord.2 ⟨hcap, hlen, hseq.ne⟩
  obtain ⟨⟨record, dir'⟩, hseal⟩ := Option.isSome_iff_exists.1 hsome
  exact ⟨record, dir', hseal, openRecord_sealRecord (chachaPoly_decrypt_encrypt impl impl') hinner hseal⟩

/-- Three fragments, one of them empty, with zeros at the end. -/
theorem sealRecordIov_seals_joined_zeros :
    ∃ record dir', sealRecordIov .sse2 Dir.wiped ctApplicationData ctApplicationData [[1, 2], [], [0, 0]] 64 =
        some (record, dir') ∧
      openRecord (chachaPoly .scalar) Dir.wiped record = some (ctApplicationData, [1, 2, 0, 0], dir') :=
  (sealRecordIov_seals_joined .sse2 .scalar Dir.wiped ctApplicationData ctApplicationData
    [[1, 2], [], [0, 0]] 64 (by decide) (by decide) (by decide) (by decide)).2 (by decide)

end Tls
