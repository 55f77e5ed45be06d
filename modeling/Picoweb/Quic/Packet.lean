import Picoweb.Crypto.AesGcm
import Picoweb.Quic.Varint

/-!
# Packets

`packet.c` takes apart Initial, Handshake and 1-RTT packets, and builds 1-RTT packets. A packet is a header, a
packet number of one to four bytes, a sealed payload and its tag; the first byte and the packet number are masked
by what a block of the sealed part encrypts to. The sender truncates the packet number, and the nonce is made from
the number each side has.
-/

namespace Quic

open ByteFile Bounded AesGcm

/-- `quic_initial_keys_t` -/
structure Keys where
  key : Bytes
  iv : Bytes
  hp : Bytes
  deriving DecidableEq, Repr

abbrev maxCidLen : ℕ := 20

abbrev maxTokenLen : ℕ := 256

abbrev sampleLen : ℕ := 16

/-- `make_nonce` -/
def makeNonce (iv : Bytes) (pn : ℕ) : Bytes :=
  (List.range ivLen).map fun j => iv.getD j 0 ^^^ if 4 ≤ j then UInt8.ofNat (pn >>> (8 * (11 - j))) else 0

def maskOf (hp sample : Bytes) : Bytes := Aes.encryptBlock (Aes.init hp) sample

def maskPn (mask pn : Bytes) : Bytes := List.zipWith (· ^^^ ·) pn (mask.drop 1)

/-! ### Building -/

/-- Bytes behind those that are there, if they still fit. -/
def put (cap : ℕ) (out bytes : Bytes) : Option Bytes :=
  if cap < out.length + bytes.length then none else some (out ++ bytes)

/-- `hp_apply_mask` on a packet with its number at `pnOff`. -/
def hpApplyMask (hp : Bytes) (bits : UInt8) (out : Bytes) (pnOff pnLen : ℕ) : Bytes :=
  let mask := maskOf hp ((out.drop (pnOff + 4)).take sampleLen)
  let out := overwrite out 0 [out.getD 0 0 ^^^ (mask.getD 0 0 &&& bits)]
  overwrite out pnOff (maskPn mask ((out.drop pnOff).take pnLen))

/-- The end of the builder: the packet number, the sealed payload and its tag, and the mask over them. -/
def protect (cap : ℕ) (keys : Keys) (bits : UInt8) (out : Bytes) (pn pnLen : ℕ) (pt : Bytes) : Option Bytes := do
  let pnOff := out.length
  let out ← put cap out (beBytes pnLen pn)
  if cap < out.length + pt.length + tagLen then none
  else
    let (ct, tag) := gcmSeal keys.key (makeNonce keys.iv pn) out pt
    let out := out ++ ct ++ tag
    if out.length < pnOff + 4 + sampleLen then none
    else some (hpApplyMask keys.hp bits out pnOff pnLen)

/-- `quic_initial_pkt_t` and `quic_handshake_pkt_t`, which has no token. -/
structure LongPkt where
  version : ℕ
  dcid : Bytes
  scid : Bytes
  token : Bytes
  pn : ℕ
  pnLen : ℕ
  payload : Bytes
  deriving DecidableEq, Repr

def quicV1 : ℕ := 1

/-- `quic_short_pkt_t` -/
structure ShortPkt where
  dcid : Bytes
  pn : ℕ
  pnLen : ℕ
  payload : Bytes
  spin : Bool
  keyPhase : Bool
  deriving DecidableEq, Repr

def shortByte0 (spin keyPhase : Bool) (pnLen : ℕ) : UInt8 :=
  0x40 ||| (if spin then 0x20 else 0) ||| (if keyPhase then 0x04 else 0) ||| UInt8.ofNat (pnLen - 1)

/-- `quic_short_build` -/
def shortBuild (cap : ℕ) (pkt : ShortPkt) (keys : Keys) : Option Bytes := do
  if maxCidLen < pkt.dcid.length ∨ pkt.pnLen < 1 ∨ 4 < pkt.pnLen then none
  else do
    let out ← put cap [] [shortByte0 pkt.spin pkt.keyPhase pkt.pnLen]
    let out ← put cap out pkt.dcid
    protect cap keys 0x1f out pkt.pn pkt.pnLen pkt.payload

/-! ### Taking apart -/

def connectionId (msg : Bytes) (off : ℕ) : Parse (Bytes × ℕ) :=
  if msg.length < off + 1 then reject
  else do
    let len ← fetch msg off
    if maxCidLen < len.toNat ∨ msg.length < off + 1 + len.toNat then reject
    else do
      let cid ← fetches msg (off + 1) len.toNat
      pure (cid, off + 1 + len.toNat)

/-- What stands before the packet number of a long header. -/
structure LongHeader where
  byte0 : UInt8
  dcid : Bytes
  scid : Bytes
  token : Bytes
  /-- What the length field states: the packet number, the sealed payload and the tag. -/
  length : ℕ
  pnOff : ℕ
  deriving DecidableEq, Repr

/-- The length field; what it states has to be there. -/
def lengthField (msg : Bytes) (off : ℕ) : Parse (ℕ × ℕ) := do
  let (v, n) ← varintDecode msg off (msg.length - off)
  let off := off + n
  if msg.length < sizeAdd off v then reject else pure (v, off)

def tokenField (msg : Bytes) (off : ℕ) : Parse (Bytes × ℕ) := do
  let (v, n) ← varintDecode msg off (msg.length - off)
  let off := off + n
  if maxTokenLen < v then reject
  else if msg.length < off + v then reject
  else do
    let token ← fetches msg off v
    pure (token, off + v)

/-- A Handshake packet has no token. -/
def optionalToken (hasToken : Bool) (msg : Bytes) (off : ℕ) : Parse (Bytes × ℕ) :=
  if hasToken then tokenField msg off else pure ([], off)

def longHeader (type : UInt8) (hasToken : Bool) (msg : Bytes) : Parse LongHeader :=
  if msg.length < 7 then reject
  else do
    let byte0 ← fetch msg 0
    if byte0 &&& 0xf0 ≠ type then reject
    else do
      let ver ← fetches msg 1 4
      if beNat ver ≠ quicV1 then reject
      else do
        let (dcid, off) ← connectionId msg 5
        let (scid, off) ← connectionId msg off
        let (token, off) ← optionalToken hasToken msg off
        let (length, off) ← lengthField msg off
        pure ⟨byte0, dcid, scid, token, length, off⟩

/-- The mask for a packet whose number stands at `pnOff`. -/
def maskAt (keys : Keys) (msg : Bytes) (pnOff : ℕ) : Parse Bytes :=
  if msg.length < pnOff + 4 + sampleLen then reject
  else do
    let sample ← fetches msg (pnOff + 4) sampleLen
    pure (maskOf keys.hp sample)

def unmaskByte0 (bits byte0 : UInt8) (mask : Bytes) : UInt8 := byte0 ^^^ (mask.getD 0 0 &&& bits)

def pnLenOf (byte0 : UInt8) : ℕ := (byte0 &&& 0x03).toNat + 1

/-- What is handed to the AEAD. -/
structure Sealed where
  byte0 : UInt8
  pn : ℕ
  pnLen : ℕ
  aad : Bytes
  ct : Bytes
  tag : Bytes
  deriving DecidableEq, Repr

/-- The header is copied to the scratch buffer, and what was masked is put back into it. -/
def rebuildHeader (scratch msg : Bytes) (byte0 : UInt8) (pnOff : ℕ) (pn : Bytes) : Parse Bytes :=
  if scratch.length < pnOff + pn.length then reject
  else do
    let header ← fetches msg 0 (pnOff + pn.length)
    let scratch ← store scratch 0 header
    let scratch ← store scratch 0 [byte0]
    store scratch pnOff pn

/-- The ranges of a call to the AEAD: the header in the scratch buffer, the sealed text and the tag in the
datagram, and the place behind the header for what is opened. -/
def aeadRanges (scratch msg : Bytes) (hdrLen ctLen : ℕ) : Parse (Bytes × Bytes × Bytes) := do
  let aad ← fetches scratch 0 hdrLen
  let ct ← fetches msg hdrLen ctLen
  let tag ← fetches msg (sizeAdd hdrLen ctLen) tagLen
  let _ ← fetches scratch hdrLen ctLen
  pure (aad, ct, tag)

/-- The ranges of a long packet. The length field is compared with nothing before the packet number is taken off
it. -/
def longRanges (scratch msg : Bytes) (length hdrLen pnLen : ℕ) : Parse (Bytes × Bytes × Bytes) :=
  if sizeSub length pnLen < tagLen then reject
  else if scratch.length < sizeAdd hdrLen (sizeSub (sizeSub length pnLen) tagLen) then reject
  else aeadRanges scratch msg hdrLen (sizeSub (sizeSub length pnLen) tagLen)

/-- A long packet up to the call of the AEAD. -/
def longSealed (keys : Keys) (scratch msg : Bytes) (h : LongHeader) : Parse Sealed := do
  let mask ← maskAt keys msg h.pnOff
  let byte0 := unmaskByte0 0x0f h.byte0 mask
  let pnLen := pnLenOf byte0
  let masked ← fetches msg h.pnOff pnLen
  let pn := maskPn mask masked
  let scratch ← rebuildHeader scratch msg byte0 h.pnOff pn
  let (aad, ct, tag) ← longRanges scratch msg h.length (h.pnOff + pnLen) pnLen
  pure ⟨byte0, beNat pn, pnLen, aad, ct, tag⟩

/-- `aes128_gcm_open` of what is handed to it. -/
def openSealed (keys : Keys) (s : Sealed) : Option Bytes :=
  gcmOpen keys.key (makeNonce keys.iv s.pn) s.aad s.ct s.tag

/-- What a long packet holds once it is open. -/
def longOpened (keys : Keys) (h : LongHeader) (s : Sealed) : Parse LongPkt :=
  match openSealed keys s with
  | none => reject
  | some pt => pure ⟨quicV1, h.dcid, h.scid, h.token, s.pn, s.pnLen, pt⟩

/-- `quic_initial_parse` -/
def initialParse (keys : Keys) (scratch msg : Bytes) : Parse LongPkt := do
  let h ← longHeader 0xc0 true msg
  let s ← longSealed keys scratch msg h
  longOpened keys h s

/-- `quic_handshake_parse` -/
def handshakeParse (keys : Keys) (scratch msg : Bytes) : Parse LongPkt := do
  let h ← longHeader 0xe0 false msg
  let s ← longSealed keys scratch msg h
  longOpened keys h s

/-- The ranges of a 1-RTT packet, which goes up to the end of the datagram. -/
def shortRanges (scratch msg : Bytes) (hdrLen : ℕ) : Parse (Bytes × Bytes × Bytes) :=
  if msg.length < hdrLen + tagLen then reject
  else if scratch.length < hdrLen + (msg.length - hdrLen - tagLen) then reject
  else aeadRanges scratch msg hdrLen (msg.length - hdrLen - tagLen)

/-- A 1-RTT packet up to the call of the AEAD. -/
def shortSealed (keys : Keys) (scratch msg : Bytes) (dcidLen : ℕ) : Parse Sealed :=
  if maxCidLen < dcidLen then reject
  else if msg.length < 1 + dcidLen + 1 + 4 + tagLen then reject
  else do
    let masked0 ← fetch msg 0
    if masked0 &&& 0x80 ≠ 0 ∨ masked0 &&& 0x40 = 0 then reject
    else do
      let pnOff := 1 + dcidLen
      let mask ← maskAt keys msg pnOff
      let byte0 := unmaskByte0 0x1f masked0 mask
      let pnLen := pnLenOf byte0
      if msg.length < pnOff + pnLen + tagLen then reject
      else do
        let masked ← fetches msg pnOff pnLen
        let pn := maskPn mask masked
        let scratch ← rebuildHeader scratch msg byte0 pnOff pn
        let (aad, ct, tag) ← shortRanges scratch msg (pnOff + pnLen)
        pure ⟨byte0, beNat pn, pnLen, aad, ct, tag⟩

/-- What a 1-RTT packet holds once it is open. -/
def shortOpened (keys : Keys) (msg : Bytes) (dcidLen : ℕ) (s : Sealed) : Parse ShortPkt :=
  match openSealed keys s with
  | none => reject
  | some pt => do
    let dcid ← fetches msg 1 dcidLen
    pure ⟨dcid, s.pn, s.pnLen, pt, s.byte0 &&& 0x20 ≠ 0, s.byte0 &&& 0x04 ≠ 0⟩

/-- `quic_short_parse` -/
def shortParse (keys : Keys) (scratch msg : Bytes) (dcidLen : ℕ) : Parse ShortPkt := do
  let s ← shortSealed keys scratch msg dcidLen
  shortOpened keys msg dcidLen s

end Quic
