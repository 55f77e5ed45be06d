import Picoweb.Quic.Packet

/-!
# Which packets are read inside the datagram

All three parsers check a length before they read so much, except that both long headers take the packet number
off the length field without a look at it. A length field below the length of the packet number gives the AEAD
nearly `2 ^ 64` bytes, since the check of the scratch buffer behind it wraps around as well.
-/

namespace Quic

open ByteFile Bounded AesGcm List

section Reads

variable {keys : Keys} {scratch msg : Bytes} {off : ℕ}

lemma connectionId_ensures (off : ℕ) :
    Ensures (connectionId msg off) fun r => off + 1 ≤ r.2 ∧ r.2 ≤ off + 21 ∧ r.2 ≤ msg.length := by
  refine .check fun hroom => ?_
  refine .fetch (by omega) fun len _ => ?_
  refine .check fun hlen => ?_
  have hcid : maxCidLen = 20 := rfl
  refine .fetches (by omega) fun cid _ => ?_
  exact .pure ⟨by omega, by dsimp only; omega, by omega⟩

lemma tokenField_ensures (hoff : off ≤ msg.length) :
    Ensures (tokenField msg off) fun r => off + 1 ≤ r.2 ∧ r.2 ≤ off + 264 ∧ r.2 ≤ msg.length := by
  refine .bind (varintDecode_ensures (by omega)) fun r hr => ?_
  refine .check fun hv => .check fun hroom => ?_
  have htoken : maxTokenLen = 256 := rfl
  refine .fetches (by omega) fun token _ => ?_
  exact .pure ⟨by omega, by dsimp only; omega, by dsimp only; omega⟩

/-- The sum with the length field does not wrap around: numbers of variable length are below `2 ^ 62`. -/
lemma lengthField_ensures (hoff : off ≤ msg.length) (hsmall : off ≤ 2 ^ 32) :
    Ensures (lengthField msg off) fun r => off + 1 ≤ r.2 ∧ r.2 + r.1 ≤ msg.length ∧ r.1 < 2 ^ 62 := by
  refine .bind (varintDecode_ensures (by omega)) fun r hr => ?_
  obtain ⟨hv, h1, h8, -⟩ := hr
  refine .check fun hroom => ?_
  rw [sizeAdd_of_lt (by omega)] at hroom
  exact .pure ⟨by omega, by omega, hv⟩

/-- Where the packet number stands, and how much the length field may state. -/
def LongHeader.Inside (msg : Bytes) (h : LongHeader) : Prop :=
  8 ≤ h.pnOff ∧ h.pnOff + h.length ≤ msg.length ∧ h.length < 2 ^ 62

lemma longHeader_ensures (type : UInt8) (hasToken : Bool) (msg : Bytes) :
    Ensures (longHeader type hasToken msg) (LongHeader.Inside msg) := by
  refine .check fun hlen => ?_
  refine .fetch (by omega) fun byte0 _ => ?_
  refine .check fun _ => ?_
  refine .fetches (by omega) fun ver _ => ?_
  refine .check fun _ => ?_
  refine .bind (connectionId_ensures 5) fun d hd => ?_
  refine .bind (connectionId_ensures d.2) fun s hs => ?_
  have htoken : Ensures (optionalToken hasToken msg s.2) fun r =>
      7 ≤ r.2 ∧ r.2 ≤ 2 ^ 32 ∧ r.2 ≤ msg.length := by
    refine .ite (fun _ => (tokenField_ensures (by omega)).mono fun r hr => by omega) fun _ => ?_
    exact .pure (by dsimp only; omega)
  refine .bind htoken fun t ht => ?_
  refine .bind (lengthField_ensures ht.2.2 ht.2.1) fun l hl => ?_
  exact .pure ⟨by dsimp only; omega, hl.2.1, hl.2.2⟩

lemma maskAt_ensures (pnOff : ℕ) : Ensures (maskAt keys msg pnOff) fun mask =>
      pnOff + 20 ≤ msg.length ∧ mask = maskOf keys.hp ((msg.drop (pnOff + 4)).take sampleLen) := by
  refine .check fun hroom => ?_
  have hsampleLen : sampleLen = 16 := rfl
  refine .fetches (by omega) fun sample hsample => ?_
  exact .pure ⟨by omega, by rw [hsample]⟩

lemma pnLenOf_pos (byte0 : UInt8) : 1 ≤ pnLenOf byte0 := Nat.le_add_left ..

lemma pnLenOf_le (byte0 : UInt8) : pnLenOf byte0 ≤ 4 := by
  have hand : (byte0 &&& 0x03).toNat < 2 ^ 2 := by
    exact Nat.and_lt_two_pow _ (by decide)
  rw [pnLenOf]
  omega

lemma length_maskPn {hp sample pn : Bytes} (hpn : pn.length ≤ 4) : (maskPn (maskOf hp sample) pn).length = pn.length := by
  rw [maskPn, length_zipWith, length_drop, maskOf, Aes.length_encryptBlock]
  omega

lemma length_slice {pos n : ℕ} (h : pos + n ≤ msg.length) : ((msg.drop pos).take n).length = n := by
  rw [length_take, length_drop]
  omega

variable (byte0 : UInt8) {pnOff : ℕ} {pn : Bytes}

def rebuilt (scratch header : Bytes) (byte0 : UInt8) (pnOff : ℕ) (pn : Bytes) : Bytes :=
  overwrite (overwrite (overwrite scratch 0 header) 0 [byte0]) pnOff pn

/-- With room in the scratch buffer the header is copied. -/
lemma rebuildHeader_eq_ok (hmsg : pnOff + pn.length ≤ msg.length) (hpos : 0 < pnOff)
    (hroom : pnOff + pn.length ≤ scratch.length) :
    rebuildHeader scratch msg byte0 pnOff pn = .ok (rebuilt scratch (msg.take (pnOff + pn.length)) byte0 pnOff pn) ∧
      (rebuilt scratch (msg.take (pnOff + pn.length)) byte0 pnOff pn).length = scratch.length := by
  have hfetch : fetches msg 0 (pnOff + pn.length) = .ok (msg.take (pnOff + pn.length)) := by
    rw [fetches, if_pos (by omega), drop_zero]
  have h₁ : 0 + (msg.take (pnOff + pn.length)).length ≤ scratch.length := by
    rw [length_take]
    omega
  have l₁ := length_overwrite h₁
  have h₂ : 0 + [byte0].length ≤ (overwrite scratch 0 (msg.take (pnOff + pn.length))).length := by
    rw [length_singleton]
    omega
  have l₂ := length_overwrite h₂
  have h₃ : pnOff + pn.length ≤ (overwrite (overwrite scratch 0 (msg.take (pnOff + pn.length))) 0 [byte0]).length := by
    rw [l₂, l₁]
    exact hroom
  constructor
  · rw [rebuildHeader, if_neg (by omega), hfetch, ok_bind, store_eq h₁, ok_bind, store_eq h₂, ok_bind, store_eq h₃,
      rebuilt]
  · rw [rebuilt, length_overwrite h₃, l₂, l₁]

lemma rebuildHeader_ensures (hmsg : pnOff + pn.length ≤ msg.length) (hpos : 0 < pnOff) :
    Ensures (rebuildHeader scratch msg byte0 pnOff pn) fun buf =>
      buf.length = scratch.length ∧ pnOff + pn.length ≤ scratch.length := by
  by_cases hroom : pnOff + pn.length ≤ scratch.length
  · obtain ⟨hbuf, hlen⟩ := rebuildHeader_eq_ok byte0 hmsg hpos hroom
    rw [hbuf]
    exact ⟨hlen, hroom⟩
  · rw [rebuildHeader, if_pos (by omega)]
    exact .reject

lemma aeadRanges_ensures {hdrLen ctLen : ℕ} (hscratch : hdrLen + ctLen ≤ scratch.length)
    (hmsg : hdrLen + ctLen + tagLen ≤ msg.length) (hsize : msg.length < 2 ^ 64) :
    Ensures (aeadRanges scratch msg hdrLen ctLen) fun _ => True := by
  refine .fetches (by omega) fun aad _ => ?_
  refine .fetches (by omega) fun ct _ => ?_
  rw [sizeAdd_of_lt (by omega)]
  refine .fetches hmsg fun tag _ => ?_
  refine .fetches hscratch fun _ _ => ?_
  exact .pure trivial

lemma aeadRanges_fault {hdrLen ctLen : ℕ} (hscratch : hdrLen ≤ scratch.length) (hmsg : msg.length < hdrLen + ctLen) :
    aeadRanges scratch msg hdrLen ctLen = .error .fault := by
  rw [aeadRanges, fetches, if_pos (by omega), fetches, if_neg (by omega)]
  rfl

/-- A length field that covers the packet number. -/
lemma longRanges_ensures {length hdrLen pnLen : ℕ} (hle : pnLen ≤ length) (hlt : length < 2 ^ 62)
    (hmsg : hdrLen + (length - pnLen) ≤ msg.length) (hsize : msg.length < 2 ^ 63) :
    Ensures (longRanges scratch msg length hdrLen pnLen) fun _ => True := by
  rw [longRanges, sizeSub_of_le hle (by omega)]
  refine .check fun henc => ?_
  rw [sizeSub_of_le (by omega) (by omega), sizeAdd_of_lt (by omega)]
  refine .check fun hfits => ?_
  exact aeadRanges_ensures (by omega) (by omega) (by omega)

/-- A length field below the packet number: both differences wrap around, and the sum wraps back. -/
lemma longRanges_of_lt {length pnOff pnLen : ℕ} (hlt : length < pnLen) (hpnLen : pnLen ≤ 4) (hpnOff : pnOff < 2 ^ 63)
    (hsize : msg.length < 2 ^ 63) (hscratch : scratch.length < 2 ^ 63) (hroom : pnOff + pnLen ≤ scratch.length) :
    longRanges scratch msg length (pnOff + pnLen) pnLen =
      if tagLen ≤ pnOff + length then .error .fault else reject := by
  have htag : tagLen = 16 := rfl
  have hct : sizeSub (sizeSub length pnLen) tagLen = length + 2 ^ 64 - pnLen - 16 := by
    rw [sizeSub_of_lt hlt, sizeSub_of_le (by omega) (by omega)]
  by_cases hwraps : tagLen ≤ pnOff + length
  · have hsum : sizeAdd (pnOff + pnLen) (length + 2 ^ 64 - pnLen - 16) = pnOff + length - 16 := by
      rw [sizeAdd]
      omega
    rw [if_pos hwraps, longRanges, hct, sizeSub_of_lt hlt, if_neg (by omega), if_neg (by omega)]
    exact aeadRanges_fault hroom (by omega)
  · have hsum : sizeAdd (pnOff + pnLen) (length + 2 ^ 64 - pnLen - 16) = pnOff + length + 2 ^ 64 - 16 := by
      rw [sizeAdd]
      omega
    rw [if_neg hwraps, longRanges, hct, sizeSub_of_lt hlt, if_neg (by omega), if_pos (by omega)]

end Reads

/-- The mask of a packet whose number stands at `pnOff`. -/
def maskIn (keys : Keys) (msg : Bytes) (pnOff : ℕ) : Bytes :=
  maskOf keys.hp ((msg.drop (pnOff + 4)).take sampleLen)

def pnIn (keys : Keys) (msg : Bytes) (pnOff pnLen : ℕ) : Bytes :=
  maskPn (maskIn keys msg pnOff) ((msg.drop pnOff).take pnLen)

section Unmask

variable {keys : Keys} {msg : Bytes} {pnOff pnLen : ℕ}

lemma maskAt_eq_ok (h : pnOff + 20 ≤ msg.length) : maskAt keys msg pnOff = .ok (maskIn keys msg pnOff) := by
  have hsampleLen : sampleLen = 16 := rfl
  rw [maskAt, if_neg (by omega), fetches, if_pos (by omega)]
  rfl

lemma maskAt_eq_reject (h : msg.length < pnOff + 20) : maskAt keys msg pnOff = reject := by
  rw [maskAt, if_pos (by omega)]

lemma length_pnIn (keys : Keys) (hpnLen : pnLen ≤ 4) (h : pnOff + pnLen ≤ msg.length) :
    (pnIn keys msg pnOff pnLen).length = pnLen := by
  have hslice : ((msg.drop pnOff).take pnLen).length = pnLen := length_slice h
  rw [pnIn, maskIn, length_maskPn (hslice.trans_le hpnLen), hslice]

end Unmask

/-! ### Long headers -/

section Long

variable {keys : Keys} {scratch msg : Bytes} {h : LongHeader}

def LongHeader.unmasked (h : LongHeader) (keys : Keys) (msg : Bytes) : UInt8 :=
  unmaskByte0 0x0f h.byte0 (maskIn keys msg h.pnOff)

/-- The length of the packet number, which the first byte states under its mask. -/
def LongHeader.pnLen (h : LongHeader) (keys : Keys) (msg : Bytes) : ℕ := pnLenOf (h.unmasked keys msg)

lemma LongHeader.pnLen_le (h : LongHeader) (keys : Keys) (msg : Bytes) : h.pnLen keys msg ≤ 4 := pnLenOf_le _

/-- The scratch buffer when the ranges are handed to the AEAD. -/
def LongHeader.buffer (h : LongHeader) (keys : Keys) (scratch msg : Bytes) : Bytes :=
  rebuilt scratch (msg.take (h.pnOff + h.pnLen keys msg)) (h.unmasked keys msg) h.pnOff
    (pnIn keys msg h.pnOff (h.pnLen keys msg))

lemma LongHeader.length_buffer (h : LongHeader) (hpos : 0 < h.pnOff) (hmsg : h.pnOff + h.pnLen keys msg ≤ msg.length)
    (hroom : h.pnOff + h.pnLen keys msg ≤ scratch.length) : (h.buffer keys scratch msg).length = scratch.length := by
  have hpn := length_pnIn keys (h.pnLen_le keys msg) hmsg
  rw [← hpn] at hmsg hroom
  have hlen := (rebuildHeader_eq_ok (h.unmasked keys msg) hmsg hpos hroom).2
  rw [hpn] at hlen
  exact hlen

/-- With a sample, what is left is to copy the header and to find the ranges. -/
lemma longSealed_of_sample (hsample : h.pnOff + 20 ≤ msg.length) : longSealed keys scratch msg h =
      (rebuildHeader scratch msg (h.unmasked keys msg) h.pnOff (pnIn keys msg h.pnOff (h.pnLen keys msg)) >>=
        fun buf => longRanges buf msg h.length (h.pnOff + h.pnLen keys msg) (h.pnLen keys msg) >>=
        fun r => pure ⟨h.unmasked keys msg, beNat (pnIn keys msg h.pnOff (h.pnLen keys msg)), h.pnLen keys msg,
          r.1, r.2.1, r.2.2⟩) := by
  have hpnLen := h.pnLen_le keys msg
  have hfetch : fetches msg h.pnOff (h.pnLen keys msg) = .ok ((msg.drop h.pnOff).take (h.pnLen keys msg)) :=
    if_pos (by omega)
  rw [longSealed, maskAt_eq_ok hsample, ok_bind]
  dsimp only
  rw [← LongHeader.unmasked, ← LongHeader.pnLen, hfetch, ok_bind, ← pnIn]

/-- With room for the header too, all comes down to the ranges. -/
lemma longSealed_of_room (hpos : 0 < h.pnOff) (hsample : h.pnOff + 20 ≤ msg.length)
    (hroom : h.pnOff + h.pnLen keys msg ≤ scratch.length) : longSealed keys scratch msg h =
      (longRanges (h.buffer keys scratch msg) msg h.length (h.pnOff + h.pnLen keys msg) (h.pnLen keys msg) >>=
        fun r => pure ⟨h.unmasked keys msg, beNat (pnIn keys msg h.pnOff (h.pnLen keys msg)), h.pnLen keys msg,
          r.1, r.2.1, r.2.2⟩) := by
  have hpnLen := h.pnLen_le keys msg
  have hmsg : h.pnOff + h.pnLen keys msg ≤ msg.length := by omega
  have hpn := length_pnIn keys hpnLen hmsg
  have hbuild := (rebuildHeader_eq_ok (h.unmasked keys msg) (hpn.symm ▸ hmsg) hpos (hpn.symm ▸ hroom)).1
  rw [hpn] at hbuild
  rw [longSealed_of_sample hsample, hbuild, ok_bind, LongHeader.buffer]

/-- There is a sample, the scratch buffer takes the header, and the length field states less than the packet
number takes. With less than a tag before the payload the size wraps around once only, and is refused. -/
structure LongHeader.LengthShort (h : LongHeader) (keys : Keys) (cap : ℕ) (msg : Bytes) : Prop where
  sample : h.pnOff + 20 ≤ msg.length
  room : h.pnOff + h.pnLen keys msg ≤ cap
  short : h.length < h.pnLen keys msg
  wraps : tagLen ≤ h.pnOff + h.length

/-- What can happen on the way to the AEAD. -/
lemma longSealed_inside_iff (keys : Keys) (hin : h.Inside msg) (hmsg : msg.length < 2 ^ 63)
    (hscratch : scratch.length < 2 ^ 63) :
    Ensures (longSealed keys scratch msg h) (fun _ => True) ↔ ¬ h.LengthShort keys scratch.length msg := by
  obtain ⟨h8, hlen, h62⟩ := hin
  have hpnLen := h.pnLen_le keys msg
  by_cases hsample : h.pnOff + 20 ≤ msg.length
  swap
  · rw [longSealed, maskAt_eq_reject (by omega)]
    exact iff_of_true rfl fun hshort => hsample hshort.sample
  by_cases hroom : h.pnOff + h.pnLen keys msg ≤ scratch.length
  swap
  · have hpn := length_pnIn keys hpnLen (show h.pnOff + h.pnLen keys msg ≤ msg.length by omega)
    rw [longSealed_of_sample hsample, rebuildHeader, if_pos (by omega)]
    exact iff_of_true rfl fun hshort => hroom hshort.room
  rw [longSealed_of_room (by omega) hsample hroom]
  have hbuf := h.length_buffer (Nat.zero_lt_of_lt h8) ((Nat.add_le_add_left hpnLen _).trans (by omega)) hroom
  by_cases hlt : h.length < h.pnLen keys msg
  · rw [longRanges_of_lt hlt hpnLen (by omega) hmsg (by omega) (by omega)]
    by_cases hwraps : tagLen ≤ h.pnOff + h.length
    · rw [if_pos hwraps]
      exact iff_of_false nofun fun hnot => hnot ⟨hsample, hroom, hlt, hwraps⟩
    · rw [if_neg hwraps]
      exact iff_of_true rfl fun hshort => hwraps hshort.wraps
  · refine iff_of_true (.bind (longRanges_ensures (by omega) h62 (by omega) hmsg) fun r _ => ?_) fun hshort => ?_
    · exact .pure trivial
    · exact hlt hshort.short

lemma longOpened_ensures (h : LongHeader) (s : Sealed) : Ensures (longOpened keys h s) fun _ => True := by
  rw [longOpened]
  cases openSealed keys s with
  | none => exact .reject
  | some pt => exact .pure trivial

/-- Either long packet: the header is read inside, and then it depends on the length field. -/
lemma long_inside_iff (type : UInt8) (hasToken : Bool) (hmsg : msg.length < 2 ^ 63) (hscratch : scratch.length < 2 ^ 63) :
    Ensures (longHeader type hasToken msg >>= fun h => longSealed keys scratch msg h >>= longOpened keys h)
        (fun _ => True) ↔
      ∀ h, longHeader type hasToken msg = .ok h → ¬ h.LengthShort keys scratch.length msg := by
  have hheader := longHeader_ensures type hasToken msg
  cases hh : longHeader type hasToken msg with
  | error e =>
    rw [hh] at hheader
    exact iff_of_true hheader nofun
  | ok h =>
    rw [hh] at hheader
    rw [ok_bind]
    have hiff := longSealed_inside_iff keys hheader hmsg hscratch
    constructor
    · rintro hin h' h'eq
      cases h'eq
      refine hiff.1 ?_
      cases hs : longSealed keys scratch msg h with
      | error e =>
        rw [hs] at hin
        exact hin
      | ok s => exact trivial
    · intro hnot
      exact .bind (hiff.2 (hnot h rfl)) fun s _ => longOpened_ensures h s

end Long

lemma shortRanges_ensures {scratch msg : Bytes} (hdrLen : ℕ) (hmsg : msg.length < 2 ^ 63) :
    Ensures (shortRanges scratch msg hdrLen) fun _ => True := by
  refine .check fun hlen => .check fun hroom => ?_
  exact aeadRanges_ensures (by omega) (by omega) (by omega)

lemma shortSealed_ensures (keys : Keys) {scratch msg : Bytes} (dcidLen : ℕ) (hmsg : msg.length < 2 ^ 63) :
    Ensures (shortSealed keys scratch msg dcidLen) fun _ => 1 + dcidLen ≤ msg.length := by
  refine .check fun _ => .check fun hlen => ?_
  refine .fetch (by omega) fun masked0 _ => ?_
  refine .check fun _ => ?_
  refine .bind (maskAt_ensures (1 + dcidLen)) fun mask hmask => ?_
  have hpnLen := pnLenOf_le (unmaskByte0 0x1f masked0 mask)
  refine .check fun hroom => ?_
  refine .fetches (by omega) fun masked hmasked => ?_
  have hpn : (maskPn mask masked).length = pnLenOf (unmaskByte0 0x1f masked0 mask) := by
    have hslice : masked.length = pnLenOf (unmaskByte0 0x1f masked0 mask) := by
      rw [hmasked]
      exact length_slice (by omega)
    rw [hmask.2, length_maskPn (hslice.trans_le hpnLen), ← hmask.2, hslice]
  refine .bind (rebuildHeader_ensures _ (by omega) (by omega)) fun buf _ => ?_
  refine .bind (shortRanges_ensures _ hmsg) fun r _ => ?_
  exact .pure (by omega)

/-- The 1-RTT parser compares before it subtracts. -/
lemma shortParse_ensures (keys : Keys) {scratch msg : Bytes} (dcidLen : ℕ) (hmsg : msg.length < 2 ^ 63) :
    Ensures (shortParse keys scratch msg dcidLen) fun _ => True := by
  refine .bind (shortSealed_ensures keys dcidLen hmsg) fun s hs => ?_
  rw [shortOpened]
  cases openSealed keys s with
  | none => exact .reject
  | some pt => exact .fetches hs fun dcid _ => .pure trivial

/-- No read, no write and no range of the AEAD is outside its buffer. An object has less than `2 ^ 63` bytes. -/
theorem packets_inside_iff (keys : Keys) {scratch msg : Bytes} (dcidLen : ℕ) (hmsg : msg.length < 2 ^ 63)
    (hscratch : scratch.length < 2 ^ 63) : (Ensures (initialParse keys scratch msg) (fun _ => True) ↔
        ∀ h, longHeader 0xc0 true msg = .ok h → ¬ h.LengthShort keys scratch.length msg) ∧
      (Ensures (handshakeParse keys scratch msg) (fun _ => True) ↔
        ∀ h, longHeader 0xe0 false msg = .ok h → ¬ h.LengthShort keys scratch.length msg) ∧
      Ensures (shortParse keys scratch msg dcidLen) fun _ => True :=
  ⟨long_inside_iff 0xc0 true hmsg hscratch, long_inside_iff 0xe0 false hmsg hscratch,
    shortParse_ensures keys dcidLen hmsg⟩

/-- A packet with ids of eight bytes, and 24 bytes behind the length field. -/
def longPacket (byte0 : UInt8) (token : Bytes) (length : UInt8) : Bytes :=
  [byte0, 0, 0, 0, 1, 8, 1, 2, 3, 4, 5, 6, 7, 8, 8, 1, 2, 3, 4, 5, 6, 7, 8] ++ token ++ [length] ++
    replicate 24 0

def longHeaderOf (byte0 : UInt8) (token : Bytes) (length : ℕ) : LongHeader :=
  ⟨byte0, [1, 2, 3, 4, 5, 6, 7, 8], [1, 2, 3, 4, 5, 6, 7, 8], [], length, 24 + token.length⟩

/-- Packets whose length field is right get to the AEAD. -/
theorem packets_inside_iff_long :
    let keys : Keys := ⟨replicate 16 0, replicate 12 0, replicate 16 0⟩
    let scratch : Bytes := replicate 2048 0
    longHeader 0xc0 true (longPacket 0xc0 [0] 24) = .ok (longHeaderOf 0xc0 [0] 24) ∧
      Ensures (initialParse keys scratch (longPacket 0xc0 [0] 24)) (fun _ => True) ∧
      longHeader 0xe0 false (longPacket 0xe0 [] 24) = .ok (longHeaderOf 0xe0 [] 24) ∧
      Ensures (handshakeParse keys scratch (longPacket 0xe0 [] 24)) fun _ => True := by
  intro keys scratch
  have hcap : scratch.length < 2 ^ 63 := length_replicate.trans_lt (by decide)
  have hinitial : longHeader 0xc0 true (longPacket 0xc0 [0] 24) = .ok (longHeaderOf 0xc0 [0] 24) := rfl
  have hhandshake : longHeader 0xe0 false (longPacket 0xe0 [] 24) = .ok (longHeaderOf 0xe0 [] 24) := rfl
  have hlong {h h' : LongHeader} {msg : Bytes} (hlen : h'.length = 24) (heq : (.ok h' : Parse LongHeader) = .ok h) :
      ¬ h.LengthShort keys scratch.length msg := by
    cases heq
    intro hshort
    have hle := hshort.short.trans_le (h.pnLen_le keys msg)
    omega
  refine ⟨hinitial, (packets_inside_iff keys 0 (by decide) hcap).1.2 fun h heq => ?_, hhandshake,
    (packets_inside_iff keys 0 (by decide) hcap).2.1.2 fun h heq => ?_⟩
  · exact hlong rfl (hinitial.symm.trans heq)
  · exact hlong rfl (hhandshake.symm.trans heq)

lemma lengthShort_of_zero (keys : Keys) {msg : Bytes} {h : LongHeader} (hoff : tagLen ≤ h.pnOff)
    (hsample : h.pnOff + 20 ≤ msg.length) {cap : ℕ} (hcap : h.pnOff + 4 ≤ cap) (hzero : h.length = 0) :
    h.LengthShort keys cap msg := by
  have hpnLen := h.pnLen_le keys msg
  refine ⟨hsample, by omega, ?_, by omega⟩
  rw [hzero]
  exact pnLenOf_pos _

/-- With a length field of zero the AEAD is handed nearly `2 ^ 64` bytes. -/
theorem length_field_wraps :
    let keys : Keys := ⟨replicate 16 0, replicate 12 0, replicate 16 0⟩
    let scratch : Bytes := replicate 2048 0
    ¬ Ensures (initialParse keys scratch (longPacket 0xc0 [0] 0)) (fun _ => True) ∧
      ¬ Ensures (handshakeParse keys scratch (longPacket 0xe0 [] 0)) (fun _ => True) := by
  intro keys scratch
  have hcap : scratch.length = 2048 := length_replicate
  have hinitial : longHeader 0xc0 true (longPacket 0xc0 [0] 0) = .ok (longHeaderOf 0xc0 [0] 0) := rfl
  have hhandshake : longHeader 0xe0 false (longPacket 0xe0 [] 0) = .ok (longHeaderOf 0xe0 [] 0) := rfl
  refine ⟨fun hin => ?_, fun hin => ?_⟩
  · refine (long_inside_iff 0xc0 true (by decide) (by omega)).1 hin _ hinitial ?_
    exact lengthShort_of_zero keys (by decide) (by decide) (by rw [hcap]; decide) rfl
  · refine (long_inside_iff 0xe0 false (by decide) (by omega)).1 hin _ hhandshake ?_
    exact lengthShort_of_zero keys (by decide) (by decide) (by rw [hcap]; decide) rfl

end Quic
