import Picoweb.Quic.PacketBounds

/-!
# What was built is taken apart again

The mask comes from a sample that masking does not change, so that both sides make the same one. Behind it the
header of the receiver is that of the sender, and the payload opens if the packet number survived its truncation.
-/

namespace Quic

open ByteFile Bounded AesGcm List

def sealedBody (keys : Keys) (header : Bytes) (pn : ℕ) (pt : Bytes) : Bytes :=
  (gcmSeal keys.key (makeNonce keys.iv pn) header pt).1 ++ (gcmSeal keys.key (makeNonce keys.iv pn) header pt).2

lemma length_sealedBody (keys : Keys) (header : Bytes) (pn : ℕ) (pt : Bytes) :
    (sealedBody keys header pn pt).length = pt.length + tagLen := by
  rw [sealedBody, length_append, length_gcmSeal_fst, length_gcmSeal_snd]

/-- The mask, from what stands behind a packet number. -/
def bodyMask (hp body : Bytes) (pnLen : ℕ) : Bytes := maskOf hp ((body.drop (4 - pnLen)).take sampleLen)

/-- A packet on the wire: the first byte and the packet number are masked. -/
def wire (hp : Bytes) (bits byte0 : UInt8) (mid pn body : Bytes) : Bytes :=
  let mask := bodyMask hp body pn.length
  unmaskByte0 bits byte0 mask :: mid ++ maskPn mask pn ++ body

section Wire

lemma length_maskPn_bodyMask {pn : Bytes} (hpn : pn.length ≤ 4) (hp body : Bytes) (n : ℕ) :
    (maskPn (bodyMask hp body n) pn).length = pn.length := length_maskPn hpn

/-- The sample starts behind the longest packet number. -/
lemma drop_sample (b : UInt8) (mid body : Bytes) {q : Bytes} (hq : q.length ≤ 4) :
    (b :: mid ++ q ++ body).drop (1 + mid.length + 4) = body.drop (4 - q.length) := by
  have hlen : (b :: mid ++ q).length = 1 + mid.length + q.length := by
    rw [length_append, length_cons]
    omega
  rw [drop_append, drop_of_length_le (by omega), nil_append]
  congr 1
  omega

lemma unmaskByte0_unmaskByte0 (bits byte0 : UInt8) (mask : Bytes) :
    unmaskByte0 bits (unmaskByte0 bits byte0 mask) mask = byte0 := by
  rw [unmaskByte0, unmaskByte0, UInt8.xor_assoc, UInt8.xor_self, UInt8.xor_zero]

/-- Bits that the mask leaves alone. -/
lemma unmaskByte0_and {bits keep : UInt8} (h : bits &&& keep = 0) (byte0 : UInt8) (mask : Bytes) :
    unmaskByte0 bits byte0 mask &&& keep = byte0 &&& keep := by
  have hzero : bits.toNat &&& keep.toNat = 0 := by rw [← UInt8.toNat_and, h, UInt8.toNat_zero]
  apply UInt8.toNat_inj.1
  rw [unmaskByte0, UInt8.toNat_and, UInt8.toNat_and, UInt8.toNat_xor, UInt8.toNat_and, Nat.and_xor_distrib_right,
    Nat.and_assoc, hzero, Nat.and_zero, Nat.xor_zero]

/-- A short header shows its form under the mask. -/
lemma short_form {byte0 : UInt8} (hform : byte0 &&& 0x80 = 0) (hfixed : byte0 &&& 0x40 ≠ 0) (mask : Bytes) :
    ¬ (unmaskByte0 0x1f byte0 mask &&& 0x80 ≠ 0 ∨ unmaskByte0 0x1f byte0 mask &&& 0x40 = 0) := by
  rw [unmaskByte0_and rfl, unmaskByte0_and rfl]
  exact not_or.2 ⟨not_not.2 hform, hfixed⟩

variable (keys : Keys) (hp : Bytes) (bits byte0 : UInt8) (mid body : Bytes)

lemma drop_wire (pn : Bytes) :
    (wire hp bits byte0 mid pn body).drop (1 + mid.length) = maskPn (bodyMask hp body pn.length) pn ++ body := by
  rw [wire, append_assoc]
  exact drop_left' (by rw [length_cons, Nat.add_comm])

variable {pn : Bytes} (hpn : pn.length ≤ 4)
include hpn

lemma length_wire : (wire hp bits byte0 mid pn body).length = 1 + mid.length + pn.length + body.length := by
  rw [wire, length_append, length_append, length_cons, length_maskPn_bodyMask hpn]
  omega

lemma hpApplyMask_eq_wire :
    hpApplyMask hp bits (byte0 :: mid ++ pn ++ body) (1 + mid.length) pn.length = wire hp bits byte0 mid pn body := by
  have hmask : maskOf hp (((byte0 :: mid ++ pn ++ body).drop (1 + mid.length + 4)).take sampleLen) =
      bodyMask hp body pn.length := by
    rw [drop_sample _ _ _ hpn, bodyMask]
  have hfirst (b : UInt8) : overwrite (byte0 :: mid ++ pn ++ body) 0 [b] = b :: mid ++ pn ++ body := rfl
  have hlen (b : UInt8) : (b :: mid).length = 1 + mid.length := by
    rw [length_cons, Nat.add_comm]
  have hslice (b : UInt8) : ((b :: mid ++ pn ++ body).drop (1 + mid.length)).take pn.length = pn := by
    rw [← hlen b, append_assoc, drop_left, take_left]
  rw [hpApplyMask, hmask, hfirst, hslice, ← hlen, overwrite_append (length_maskPn_bodyMask hpn hp body pn.length)]
  rfl

lemma maskIn_wire :
    maskIn keys (wire keys.hp bits byte0 mid pn body) (1 + mid.length) = bodyMask keys.hp body pn.length := by
  have hlen := length_maskPn_bodyMask hpn keys.hp body pn.length
  rw [maskIn, wire, drop_sample _ _ _ (hlen.trans_le hpn), hlen, bodyMask]

lemma drop_wire_header : (wire hp bits byte0 mid pn body).drop (1 + mid.length + pn.length) = body := by
  have h := drop_add_of_drop (drop_wire hp bits byte0 mid body pn)
  rwa [length_maskPn_bodyMask hpn] at h

/-- The packet number comes out of its mask. -/
lemma pnIn_wire : pnIn keys (wire keys.hp bits byte0 mid pn body) (1 + mid.length) pn.length = pn := by
  have hlen := length_maskPn_bodyMask hpn keys.hp body pn.length
  have hslice : ((wire keys.hp bits byte0 mid pn body).drop (1 + mid.length)).take pn.length =
      maskPn (bodyMask keys.hp body pn.length) pn := by
    rw [drop_wire]
    exact take_left' hlen
  rw [pnIn, maskIn_wire keys bits byte0 mid body hpn, hslice]
  apply zipWith_xor_twice
  rw [length_drop, bodyMask, maskOf, Aes.length_encryptBlock]
  omega

/-- The header in the scratch buffer is that of the sender. -/
lemma take_rebuilt (scratch : Bytes) :
    (rebuilt scratch ((wire hp bits byte0 mid pn body).take (1 + mid.length + pn.length)) byte0 (1 + mid.length) pn).take
      (1 + mid.length + pn.length) = byte0 :: mid ++ pn := by
  have hq := length_maskPn_bodyMask hpn hp body pn.length
  have hlen (b : UInt8) : (b :: mid).length = 1 + mid.length := by
    rw [length_cons, Nat.add_comm]
  have hhead : (wire hp bits byte0 mid pn body).take (1 + mid.length + pn.length) =
      unmaskByte0 bits byte0 (bodyMask hp body pn.length) :: mid ++ maskPn (bodyMask hp body pn.length) pn := by
    exact take_left' (by rw [length_append, hlen, hq])
  have hcopy (header : Bytes) : overwrite scratch 0 header = header ++ scratch.drop header.length := by
    rw [overwrite, take_zero, nil_append, Nat.zero_add]
  have hfirst (a b : UInt8) (rest : Bytes) : overwrite (a :: rest) 0 [b] = b :: rest := rfl
  rw [hhead, rebuilt, hcopy, cons_append, cons_append, hfirst, ← cons_append, ← cons_append,
    ← hlen byte0, overwrite_append hq.symm]
  exact take_left' (by rw [length_append])

end Wire

section Protect

variable (cap : ℕ) (keys : Keys) (bits byte0 : UInt8) (mid pt : Bytes) (pn : ℕ) {pnLen : ℕ}

/-- With room for all of it and enough for a sample, this is the packet. -/
lemma protect_eq (hpnLen : pnLen ≤ 4) : protect cap keys bits (byte0 :: mid) pn pnLen pt =
      if cap < 1 + mid.length + pnLen + pt.length + tagLen ∨ pnLen + pt.length < 4 then none
      else some (wire keys.hp bits byte0 mid (beBytes pnLen pn)
        (sealedBody keys (byte0 :: mid ++ beBytes pnLen pn) pn pt)) := by
  have htag : tagLen = 16 := rfl
  have hsampleLen : sampleLen = 16 := rfl
  have hlen : (byte0 :: mid).length = 1 + mid.length := by rw [length_cons, Nat.add_comm]
  have hbody := length_sealedBody keys (byte0 :: mid ++ beBytes pnLen pn) pn pt
  have hmask := hpApplyMask_eq_wire keys.hp bits byte0 mid
    (sealedBody keys (byte0 :: mid ++ beBytes pnLen pn) pn pt) ((length_beBytes pnLen pn).trans_le hpnLen)
  rw [length_beBytes] at hmask
  have hout : (byte0 :: mid ++ beBytes pnLen pn).length = 1 + mid.length + pnLen := by
    rw [length_append, hlen, length_beBytes]
  rw [protect, put, hlen, length_beBytes]
  by_cases hput : cap < 1 + mid.length + pnLen
  · rw [if_pos hput, if_pos (by omega)]
    rfl
  · rw [if_neg hput, Option.bind_eq_bind, Option.bind_some, hout]
    by_cases hcap : cap < 1 + mid.length + pnLen + pt.length + tagLen
    · rw [if_pos hcap, if_pos (.inl hcap)]
    · rw [if_neg hcap]
      dsimp only
      rw [append_assoc _ _ (gcmSeal _ _ _ _).2, ← sealedBody, length_append]
      by_cases hsample : pnLen + pt.length < 4
      · rw [if_pos (by omega), if_pos (.inr hsample)]
      · rw [if_neg (by omega), if_neg (by omega), hmask]

end Protect

/-! ### Taking apart -/

section Open

variable {keys : Keys} {bits byte0 : UInt8} {mid pn ct tag scratch : Bytes}

/-- The ranges handed to the AEAD are those that the sender sealed. -/
lemma aeadRanges_wire (hpn : pn.length ≤ 4) (htag : tag.length = tagLen) {buf : Bytes}
    (hbuf : buf.take (1 + mid.length + pn.length) = byte0 :: mid ++ pn)
    (hroom : 1 + mid.length + pn.length + ct.length ≤ buf.length)
    (hsize : (wire keys.hp bits byte0 mid pn (ct ++ tag)).length < 2 ^ 64) :
    aeadRanges buf (wire keys.hp bits byte0 mid pn (ct ++ tag)) (1 + mid.length + pn.length) ct.length =
      .ok (byte0 :: mid ++ pn, ct, tag) := by
  have hlen := length_wire keys.hp bits byte0 mid (ct ++ tag) hpn
  rw [length_append] at hlen
  have hdrop := drop_wire_header keys.hp bits byte0 mid (ct ++ tag) hpn
  have haad : fetches buf 0 (1 + mid.length + pn.length) = .ok (byte0 :: mid ++ pn) := by
    rw [fetches, if_pos (by omega), drop_zero, hbuf]
  have hct := fetches_of_drop hdrop (by omega)
  have htagged : fetches (wire keys.hp bits byte0 mid pn (ct ++ tag)) (1 + mid.length + pn.length + ct.length) tagLen =
      .ok tag := by
    have hrest := (drop_add_of_drop hdrop).trans (append_nil tag).symm
    rw [← htag]
    exact fetches_of_drop hrest (by omega)
  rw [aeadRanges, haad, hct, sizeAdd_of_lt (by omega), htagged, fetches, if_pos hroom]
  rfl

/-- A 1-RTT packet on the wire up to the AEAD. -/
lemma shortSealed_wire (hdcid : mid.length ≤ maxCidLen) (hform : byte0 &&& 0x80 = 0) (hfixed : byte0 &&& 0x40 ≠ 0)
    (hpnLen : pnLenOf byte0 = pn.length) (hmin : 5 ≤ pn.length + ct.length) (htag : tag.length = tagLen)
    (hroom : 1 + mid.length + pn.length + ct.length ≤ scratch.length)
    (hsize : (wire keys.hp 0x1f byte0 mid pn (ct ++ tag)).length < 2 ^ 64) :
    shortSealed keys scratch (wire keys.hp 0x1f byte0 mid pn (ct ++ tag)) mid.length =
      .ok ⟨byte0, beNat pn, pn.length, byte0 :: mid ++ pn, ct, tag⟩ := by
  have h16 : tagLen = 16 := rfl
  have hpn : pn.length ≤ 4 := hpnLen ▸ pnLenOf_le byte0
  have hlen := length_wire keys.hp 0x1f byte0 mid (ct ++ tag) hpn
  rw [length_append] at hlen
  have hmask := maskIn_wire keys 0x1f byte0 mid (ct ++ tag) hpn
  have hpnIn := pnIn_wire keys 0x1f byte0 mid (ct ++ tag) hpn
  have hfirst : fetch (wire keys.hp 0x1f byte0 mid pn (ct ++ tag)) 0 =
      .ok (unmaskByte0 0x1f byte0 (bodyMask keys.hp (ct ++ tag) pn.length)) := rfl
  have hmsg : 1 + mid.length + pn.length ≤ (wire keys.hp 0x1f byte0 mid pn (ct ++ tag)).length := by omega
  have hscratch : 1 + mid.length + pn.length ≤ scratch.length := by omega
  have hbuild := rebuildHeader_eq_ok byte0 hmsg (by omega) hscratch
  have htake := take_rebuilt keys.hp 0x1f byte0 mid (ct ++ tag) hpn scratch
  have hct : (wire keys.hp 0x1f byte0 mid pn (ct ++ tag)).length - (1 + mid.length + pn.length) - tagLen = ct.length := by
    omega
  rw [shortSealed, if_neg (by omega), if_neg (by omega), hfirst, ok_bind, if_neg (short_form hform hfixed _)]
  dsimp only
  rw [maskAt_eq_ok (by omega), ok_bind, hmask, unmaskByte0_unmaskByte0, hpnLen, if_neg (by omega), fetches,
    if_pos (by omega), ok_bind, ← hmask, ← pnIn, hpnIn, hbuild.1, ok_bind, shortRanges, if_neg (by omega), hct,
    if_neg (by omega), aeadRanges_wire hpn htag htake (by omega) hsize]
  rfl

lemma shortByte0_spec (spin keyPhase : Bool) {pnLen : ℕ} (h1 : 1 ≤ pnLen) (h4 : pnLen ≤ 4) :
    pnLenOf (shortByte0 spin keyPhase pnLen) = pnLen ∧ shortByte0 spin keyPhase pnLen &&& 0x80 = 0 ∧
      shortByte0 spin keyPhase pnLen &&& 0x40 ≠ 0 ∧ decide (shortByte0 spin keyPhase pnLen &&& 0x20 ≠ 0) = spin ∧
      decide (shortByte0 spin keyPhase pnLen &&& 0x04 ≠ 0) = keyPhase := by
  have hcases : pnLen = 1 ∨ pnLen = 2 ∨ pnLen = 3 ∨ pnLen = 4 := by omega
  rcases hcases with rfl | rfl | rfl | rfl <;> cases spin <;> cases keyPhase <;> decide

def ShortPkt.header (pkt : ShortPkt) : Bytes :=
  shortByte0 pkt.spin pkt.keyPhase pkt.pnLen :: pkt.dcid ++ beBytes pkt.pnLen pkt.pn

/-- The packet that `quic_short_build` puts on the wire. -/
def shortWire (keys : Keys) (pkt : ShortPkt) : Bytes :=
  wire keys.hp 0x1f (shortByte0 pkt.spin pkt.keyPhase pkt.pnLen) pkt.dcid (beBytes pkt.pnLen pkt.pn)
    (sealedBody keys pkt.header pkt.pn pkt.payload)

lemma length_shortWire (keys : Keys) {pkt : ShortPkt} (h4 : pkt.pnLen ≤ 4) :
    (shortWire keys pkt).length = 1 + pkt.dcid.length + pkt.pnLen + pkt.payload.length + tagLen := by
  rw [shortWire, length_wire _ _ _ _ _ ((length_beBytes ..).trans_le h4), length_beBytes, length_sealedBody,
    Nat.add_assoc _ _ tagLen]

lemma shortBuild_eq {cap : ℕ} {pkt : ShortPkt} (hdcid : pkt.dcid.length ≤ maxCidLen) (h1 : 1 ≤ pkt.pnLen)
    (h4 : pkt.pnLen ≤ 4) : shortBuild cap pkt keys =
      if cap < 1 + pkt.dcid.length + pkt.pnLen + pkt.payload.length + tagLen ∨ pkt.pnLen + pkt.payload.length < 4 then none
      else some (shortWire keys pkt) := by
  have hprotect := protect_eq cap keys 0x1f (shortByte0 pkt.spin pkt.keyPhase pkt.pnLen) pkt.dcid pkt.payload pkt.pn h4
  rw [shortBuild, if_neg (by omega), put]
  by_cases hfirst : cap < 1 + pkt.dcid.length
  · rw [if_pos (by omega : cap < _ ∨ _)]
    split
    · rfl
    · rw [Option.bind_eq_bind, Option.bind_some, put, if_pos]
      · rfl
      · exact hfirst
  · rw [if_neg, Option.bind_eq_bind, Option.bind_some, put, if_neg]
    · exact hprotect
    · exact hfirst
    · rw [length_nil, length_singleton]
      omega

variable {pkt : ShortPkt} (hdcid : pkt.dcid.length ≤ maxCidLen) (h1 : 1 ≤ pkt.pnLen) (h4 : pkt.pnLen ≤ 4)
  (hmin : 5 ≤ pkt.pnLen + pkt.payload.length) (hroom : (shortWire keys pkt).length ≤ scratch.length)
  (hsize : (shortWire keys pkt).length < 2 ^ 64)
include hdcid h1 h4 hmin hroom hsize

/-- What the receiver hands to the AEAD: the header and the sealed payload of the sender, and the number that is
left of theirs. -/
lemma shortSealed_shortWire : shortSealed keys scratch (shortWire keys pkt) pkt.dcid.length =
      .ok ⟨shortByte0 pkt.spin pkt.keyPhase pkt.pnLen, pkt.pn % 256 ^ pkt.pnLen, pkt.pnLen, pkt.header,
        (gcmSeal keys.key (makeNonce keys.iv pkt.pn) pkt.header pkt.payload).1,
        (gcmSeal keys.key (makeNonce keys.iv pkt.pn) pkt.header pkt.payload).2⟩ := by
  obtain ⟨hpnLen, hform, hfixed, -⟩ := shortByte0_spec pkt.spin pkt.keyPhase h1 h4
  have hlen : (beBytes pkt.pnLen pkt.pn).length = pkt.pnLen := length_beBytes ..
  have hwire := length_shortWire keys h4
  have hct : (gcmSeal keys.key (makeNonce keys.iv pkt.pn) pkt.header pkt.payload).1.length = pkt.payload.length :=
    length_gcmSeal_fst ..
  have hsealed := shortSealed_wire hdcid hform hfixed (hpnLen.trans hlen.symm) (hmin.trans_eq (by rw [hlen, hct]))
    (length_gcmSeal_snd ..) (hroom.trans' (by rw [hwire, hlen, hct]; omega)) hsize
  rw [hlen, beNat_beBytes] at hsealed
  exact hsealed

/-- A 1-RTT packet that is long enough and whose number was not truncated comes out as it went in. -/
lemma shortParse_shortWire (hpn : pkt.pn < 256 ^ pkt.pnLen) :
    shortParse keys scratch (shortWire keys pkt) pkt.dcid.length = .ok pkt := by
  obtain ⟨-, -, -, hspin, hphase⟩ := shortByte0_spec pkt.spin pkt.keyPhase h1 h4
  have hfetch : fetches (shortWire keys pkt) 1 pkt.dcid.length = .ok pkt.dcid := by
    have hwire := length_shortWire keys h4
    rw [fetches, if_pos (by omega), shortWire, wire, append_assoc, cons_append, drop_one, tail_cons, take_left]
  rw [shortParse, shortSealed_shortWire hdcid h1 h4 hmin hroom hsize, ok_bind, shortOpened, openSealed,
    Nat.mod_eq_of_lt hpn, gcmOpen_gcmSeal, hfetch]
  simp only [hspin, hphase]
  rfl

/-- A packet whose number was truncated is refused where the rest of the number makes another nonce. -/
lemma shortParse_eq_reject (h : (Aes.encryptBlock (Aes.init keys.key)
    (startBlock (makeNonce keys.iv (pkt.pn % 256 ^ pkt.pnLen)))).getD 0 0 ≠
      (Aes.encryptBlock (Aes.init keys.key) (startBlock (makeNonce keys.iv pkt.pn))).getD 0 0) :
    shortParse keys scratch (shortWire keys pkt) pkt.dcid.length = reject := by
  rw [shortParse, shortSealed_shortWire hdcid h1 h4 hmin hroom hsize, ok_bind, shortOpened, openSealed,
    gcmOpen_eq_none _ _ h]

end Open

end Quic
