import Picoweb.Lib.ByteFile
import Mathlib.Data.List.DropRight

/-!
# The TLS 1.3 record layer

`record.c`: sealing and opening one record. The AEAD itself is a parameter; of it only the lengths of its
results are assumed.
-/

namespace Tls

open ByteFile List

abbrev recordHeaderLen : ℕ := 5
abbrev aeadTagLen : ℕ := 16
abbrev maxPlaintext : ℕ := 16384
abbrev maxCiphertext : ℕ := maxPlaintext + 256 + aeadTagLen
abbrev seqMax : ℕ := 2 ^ 64 - 1

/-- `PW_IOV_MAX_FRAGS` -/
abbrev iovMaxFrags : ℕ := 8

/-- `tls_content_type_t`, as the byte on the wire. -/
abbrev ContentType := UInt8

abbrev ctChangeCipherSpec : ContentType := 20
abbrev ctAlert : ContentType := 21
abbrev ctHandshake : ContentType := 22
abbrev ctApplicationData : ContentType := 23

/-- `tls_record_dir_t` -/
structure Dir where
  key : Bytes
  staticIv : Bytes
  seq : ℕ
  deriving DecidableEq, Repr

/-- A direction without keys, as it is before the handshake and after a wipe. -/
def Dir.wiped : Dir := ⟨replicate 32 0, replicate 12 0, 0⟩

/-- `aead_chacha20_poly1305_seal` and `_open` from key, nonce and additional data: the sealed text carries
its tag at the end. -/
structure Aead where
  encrypt : Bytes → Bytes → Bytes → Bytes → Bytes
  decrypt : Bytes → Bytes → Bytes → Bytes → Option Bytes
  length_encrypt : ∀ key nonce aad text, (encrypt key nonce aad text).length = text.length + aeadTagLen
  length_decrypt : ∀ key nonce aad text plain, decrypt key nonce aad text = some plain →
    plain.length + aeadTagLen = text.length

/-- `tls13_build_nonce`: the sequence number, eight bytes big endian, is added to the end of the IV. -/
def buildNonce (dir : Dir) : Bytes :=
  let seq := (leBytes 8 dir.seq).reverse
  let start := dir.staticIv.length - 8
  dir.staticIv.take start ++ zipWith (· ^^^ ·) (dir.staticIv.drop start) seq

def recordHeader (outer : ContentType) (len : ℕ) : Bytes :=
  [outer, 3, 3, UInt8.ofNat (len / 256), UInt8.ofNat len]

def recordLen (record : Bytes) : ℕ := (record.getD 3 0).toNat * 256 + (record.getD 4 0).toNat

/-- `tls13_seal_record`, and `tls13_seal_record_iov` on the joined fragments: the record and the moved
direction, or nothing where the function returns 0. -/
def sealRecord (aead : Aead) (dir : Dir) (inner outer : ContentType) (plaintext : Bytes) (outCap : ℕ) :
    Option (Bytes × Dir) :=
  let cipherLen := plaintext.length + 1 + aeadTagLen
  if 0xffff < cipherLen ∨ outCap < recordHeaderLen + cipherLen ∨ maxPlaintext < plaintext.length ∨
      dir.seq = seqMax then none
  else
    let header := recordHeader outer cipherLen
    some (header ++ aead.encrypt dir.key (buildNonce dir) header (plaintext ++ [inner]),
      { dir with seq := dir.seq + 1 })

/-- `tls13_open_record`: the content type and the plaintext of a record, and the moved direction. -/
def openRecord (aead : Aead) (dir : Dir) (record : Bytes) : Option (ContentType × Bytes × Dir) :=
  if record.length < recordHeaderLen + aeadTagLen ∨ dir.seq = seqMax ∨
      recordLen record + recordHeaderLen ≠ record.length then none
  else
    match aead.decrypt dir.key (buildNonce dir) (record.take recordHeaderLen)
        (record.drop recordHeaderLen) with
    | none => none
    | some text =>
      -- the zeros at the end are padding, the last other byte is the type
      match (text.rdropWhile (· = 0)).reverse with
      | [] => none
      | inner :: plain => some (inner, plain.reverse, { dir with seq := dir.seq + 1 })

/-- The bytes of the record after `tls13_open_record`, which decrypts in place once the tag is right. -/
def openInPlace (aead : Aead) (dir : Dir) (record : Bytes) : Bytes :=
  if record.length < recordHeaderLen + aeadTagLen ∨ dir.seq = seqMax ∨
      recordLen record + recordHeaderLen ≠ record.length then record
  else
    match aead.decrypt dir.key (buildNonce dir) (record.take recordHeaderLen)
        (record.drop recordHeaderLen) with
    | none => record
    | some text => record.take recordHeaderLen ++ text ++ record.drop (recordHeaderLen + text.length)

lemma length_sealRecord {aead : Aead} {dir dir' : Dir} {inner outer : ContentType} {plaintext out : Bytes}
    {outCap : ℕ} (h : sealRecord aead dir inner outer plaintext outCap = some (out, dir')) :
    out.length = recordHeaderLen + plaintext.length + 1 + aeadTagLen := by
  simp only [sealRecord] at h
  split_ifs at h
  obtain ⟨rfl, -⟩ := Prod.mk.inj (Option.some.inj h)
  simp only [length_append, aead.length_encrypt, recordHeader, length_cons, length_nil, recordHeaderLen]
  omega

lemma isSome_sealRecord {aead : Aead} {dir : Dir} {inner outer : ContentType} {plaintext : Bytes}
    {outCap : ℕ} : (sealRecord aead dir inner outer plaintext outCap).isSome ↔
      recordHeaderLen + plaintext.length + 1 + aeadTagLen ≤ outCap ∧ plaintext.length ≤ maxPlaintext ∧
        dir.seq ≠ seqMax := by
  simp only [sealRecord, aeadTagLen, maxPlaintext]
  split_ifs with h
  · simp only [Option.isSome_none, Bool.false_eq_true, false_iff]
    omega
  · simp only [Option.isSome_some, true_iff]
    omega

/-! ### Records in a byte stream -/

/-- RX starts with a complete record. -/
def HasRecord (rx : Bytes) : Prop := recordHeaderLen ≤ rx.length ∧ recordHeaderLen + recordLen rx ≤ rx.length
deriving Decidable

/-- The record at the head of RX, and RX behind it. -/
def headRecord (rx : Bytes) : Bytes := rx.take (recordHeaderLen + recordLen rx)

def behindRecord (rx : Bytes) : Bytes := rx.drop (recordHeaderLen + recordLen rx)

lemma headRecord_append_behindRecord (rx : Bytes) : headRecord rx ++ behindRecord rx = rx :=
  take_append_drop _ _

def Dir.after (dir : Dir) (n : ℕ) : Dir := { dir with seq := dir.seq + n }

@[simp] lemma Dir.after_after (dir : Dir) (n m : ℕ) : (dir.after n).after m = dir.after (n + m) := by
  simp only [Dir.after, Nat.add_assoc]

def wireRecord (aead : Aead) (inner : ContentType) (dir : Dir) (plain : Bytes) : Bytes :=
  let header := recordHeader ctApplicationData (plain.length + 1 + aeadTagLen)
  header ++ aead.encrypt dir.key (buildNonce dir) header (plain ++ [inner])

/-- The records of some plaintexts, each under the next sequence number. -/
def wireRecords (aead : Aead) (inner : ContentType) : Dir → List Bytes → Bytes
  | _, [] => []
  | dir, plain :: plains => wireRecord aead inner dir plain ++ wireRecords aead inner (dir.after 1) plains

lemma wireRecords_append (aead : Aead) (inner : ContentType) (dir : Dir) (a b : List Bytes) :
    wireRecords aead inner dir (a ++ b) =
      wireRecords aead inner dir a ++ wireRecords aead inner (dir.after a.length) b := by
  induction a generalizing dir with
  | nil => rfl
  | cons plain plains ih =>
    simp only [cons_append, wireRecords, ih, append_assoc, length_cons, Dir.after_after]
    rw [Nat.add_comm 1]

lemma length_wireRecord (aead : Aead) (inner : ContentType) (dir : Dir) (plain : Bytes) :
    (wireRecord aead inner dir plain).length = recordHeaderLen + plain.length + 1 + aeadTagLen := by
  simp only [wireRecord, length_append, aead.length_encrypt, recordHeader, length_cons,
    length_nil, recordHeaderLen]
  omega

lemma sealRecord_eq_some {aead : Aead} {inner : ContentType} {dir dir' : Dir} {plain record : Bytes}
    {outCap : ℕ} (h : sealRecord aead dir inner ctApplicationData plain outCap = some (record, dir')) :
    record = wireRecord aead inner dir plain ∧ dir' = dir.after 1 ∧ plain.length ≤ maxPlaintext ∧ dir.seq ≠ seqMax := by
  simp only [sealRecord] at h
  split_ifs at h with hfits
  obtain ⟨rfl, rfl⟩ := Prod.mk.inj (Option.some.inj h)
  exact ⟨rfl, rfl, by omega, by omega⟩

end Tls
