import Picoweb.Quic.CryptoStream
import Picoweb.Quic.Frames
import Picoweb.Quic.PacketRoundTrip
import Picoweb.Tls.KeySchedule

/-!
# Connections

The receiving side of `conn.c` for the three kinds of packets, and the sending of 1-RTT packets. A datagram is
opened with the keys of its kind, and its frames are handled one by one; what was handled before a bad frame
stays.
-/

namespace Quic

open ByteFile ByteText Bounded

inductive Role
  | client
  | server
  deriving DecidableEq, Repr

/-- What a connection keeps for the CRYPTO stream of its Initial or Handshake packets. -/
structure Epoch where
  rx : CryptoRx
  pktsRcvd : UInt64
  cryptoBytesRcvd : UInt64
  ackElicitingRcvd : UInt64
  deriving DecidableEq, Repr

/-- `quic_conn_t`, as far as its packets are received and 1-RTT packets are sent. -/
structure Conn where
  role : Role
  initialKeysReady : Bool
  initialKeys : Keys
  peerDcid : Bytes
  peerScid : Bytes
  peerAddrsKnown : Bool
  initial : Epoch
  ourScid : Bytes
  handshakeKeysReady : Bool
  handshakeRxKeys : Keys
  handshake : Epoch
  appKeysReady : Bool
  appTxKeys : Keys
  appRxKeys : Keys
  appTxNextPn : UInt64
  appPktsRcvd : UInt64
  streams : List StreamRx
  deriving DecidableEq, Repr

/-- The `scratch` array of the receiving functions. -/
def scratch : Bytes := List.replicate 2048 0

@[simp] lemma length_scratch : scratch.length = 2048 := List.length_replicate

/-- `QUIC_V1_INITIAL_SALT` -/
def initialSalt : Bytes := [
  0x38, 0x76, 0x2c, 0xf7, 0xf5, 0x59, 0x34, 0xb3, 0x4d, 0x17, 0x9a, 0xe6, 0xa4, 0xc8, 0x0c, 0xad,
  0xcc, 0xbb, 0x7f, 0x0a]

/-- `quic_initial_derive` -/
def initialDerive (dcid : Bytes) (isServer : Bool) : Keys :=
  let secret := Sha256.hkdfExtract initialSalt dcid
  let side := (Tls.hkdfExpandLabel secret (if isServer then "server in" else "client in") [] 32).getD []
  { key := (Tls.hkdfExpandLabel side "quic key" [] 16).getD []
    iv := (Tls.hkdfExpandLabel side "quic iv" [] 12).getD []
    hp := (Tls.hkdfExpandLabel side "quic hp" [] 16).getD [] }

/-! ### Frames -/

/-- The loop over the frames of a payload. -/
def walkFrames {σ : Type} (handle : σ → Frame → Bool × σ) : ℕ → Bytes → σ → Parse Unit × σ
  | 0, _, s => (.error .stuck, s)
  | fuel + 1, payload, s =>
    if payload = [] then (.ok (), s)
    else
      match frameDecode payload with
      | .error e => (.error e, s)
      | .ok (frame, n) =>
        match handle s frame with
        | (false, s) => (reject, s)
        | (true, s) => walkFrames handle fuel (payload.drop n) s

/-- The frames of Initial and Handshake packets. All but five kinds are refused. -/
def Epoch.handle (e : Epoch) : Frame → Bool × Epoch
  | .crypto offset data =>
    match e.rx.stage offset data with
    | (.error, rx) => (false, { e with rx := rx })
    | (_, rx) => (true, { e with
        rx := rx
        cryptoBytesRcvd := e.cryptoBytesRcvd + UInt64.ofNat data.length
        ackElicitingRcvd := e.ackElicitingRcvd + 1 })
  | .ping => (true, { e with ackElicitingRcvd := e.ackElicitingRcvd + 1 })
  | .padding _ | .ack .. | .connectionClose .. => (true, e)
  | _ => (false, e)

def Epoch.receive (e : Epoch) (payload : Bytes) : Parse Unit × Epoch :=
  walkFrames Epoch.handle (payload.length + 1) payload { e with pktsRcvd := e.pktsRcvd + 1 }

/-- The slot of a stream, or a free one that is set up for it. -/
def claimStream (streams : List StreamRx) (streamId : ℕ) : Option (ℕ × List StreamRx) :=
  match streams.findIdx? fun s => s.inUse && s.streamId = streamId with
  | some i => some (i, streams)
  | none =>
    match streams.findIdx? fun s => !s.inUse with
    | none => none
    | some i => some (i, streams.set i (.init streamId))

/-- The frames of 1-RTT packets. Only STREAM frames do something, and two kinds are refused. -/
def handleApp (streams : List StreamRx) : Frame → Bool × List StreamRx
  | .newToken _ | .handshakeDone => (false, streams)
  | .stream streamId offset data fin =>
    match claimStream streams streamId with
    | none => (false, streams)
    | some (i, streams) =>
      match (streams.getD i (.init streamId)).ingest offset data fin with
      | (.error, s) => (false, streams.set i s)
      | (_, s) => (true, streams.set i s)
  | _ => (true, streams)

namespace Conn

/-! ### Receiving -/

/-- The connection ids that `quic_conn_recv_initial` looks at before anything is opened. -/
def peekIds (dgram : Bytes) : Parse (Bytes × Bytes) :=
  if dgram.length < 7 then reject
  else do
    let byte0 ← fetch dgram 0
    if byte0 &&& 0xc0 ≠ 0xc0 ∨ byte0 &&& 0x30 ≠ 0 then reject
    else do
      let ver ← fetches dgram 1 4
      if beNat ver ≠ quicV1 then reject
      else do
        let dcidLen ← fetch dgram 5
        if maxCidLen < dcidLen.toNat ∨ dgram.length - 6 < dcidLen.toNat then reject
        else do
          let dcid ← fetches dgram 6 dcidLen.toNat
          let off := 6 + dcidLen.toNat
          if dgram.length ≤ off then reject
          else do
            let scidLen ← fetch dgram off
            if maxCidLen < scidLen.toNat ∨ dgram.length - (off + 1) < scidLen.toNat then reject
            else do
              let scid ← fetches dgram (off + 1) scidLen.toNat
              pure (dcid, scid)

/-- `quic_conn_force_derive_initial_keys` when no keys are there. The server opens what the client sealed. -/
def deriveInitialKeys (c : Conn) (dcid : Bytes) : Conn :=
  { c with initialKeysReady := true, initialKeys := initialDerive dcid (c.role ≠ .server) }

/-- The first datagram fixes the keys and both ids; later ones have to name the same id. -/
def pin (c : Conn) (dcid scid : Bytes) : Parse Conn :=
  if c.initialKeysReady then if dcid ≠ c.peerDcid then reject else pure c
  else pure { c.deriveInitialKeys dcid with peerDcid := dcid, peerScid := scid, peerAddrsKnown := true }

/-- The connection as it is when an Initial packet is opened. -/
def pinned (c : Conn) (dgram : Bytes) : Parse Conn := do
  let (dcid, scid) ← peekIds dgram
  c.pin dcid scid

/-- `quic_conn_recv_initial` -/
def recvInitial (c : Conn) (dgram : Bytes) : Parse Unit × Conn :=
  match c.pinned dgram with
  | .error e => (.error e, c)
  | .ok c =>
    match initialParse c.initialKeys scratch dgram with
    | .error e => (.error e, c)
    | .ok pkt =>
      let (rc, initial) := c.initial.receive pkt.payload
      (rc, { c with initial := initial })

/-- What `quic_conn_recv_handshake` checks before it opens a datagram. -/
def checkHandshake (c : Conn) (dgram : Bytes) : Parse Unit :=
  if c.handshakeKeysReady = false then reject
  else if dgram.length < 7 then reject
  else do
    let byte0 ← fetch dgram 0
    if byte0 &&& 0xc0 ≠ 0xc0 ∨ byte0 &&& 0x30 ≠ 0x20 then reject
    else do
      let ver ← fetches dgram 1 4
      if beNat ver ≠ quicV1 then reject else pure ()

/-- `quic_conn_recv_handshake` -/
def recvHandshake (c : Conn) (dgram : Bytes) : Parse Unit × Conn :=
  match (do c.checkHandshake dgram; handshakeParse c.handshakeRxKeys scratch dgram : Parse LongPkt) with
  | .error e => (.error e, c)
  | .ok pkt =>
    let (rc, handshake) := c.handshake.receive pkt.payload
    (rc, { c with handshake := handshake })

/-- What `quic_conn_recv_app` checks before it opens a datagram. -/
def checkApp (c : Conn) (dgram : Bytes) : Parse Unit :=
  if c.appKeysReady = false then reject
  else if dgram.length < 1 then reject
  else do
    let byte0 ← fetch dgram 0
    if byte0 &&& 0x80 ≠ 0 ∨ byte0 &&& 0x40 = 0 then reject else pure ()

/-- The call of `quic_short_parse` in `quic_conn_recv_app`. -/
def openApp (c : Conn) (dgram : Bytes) : Parse ShortPkt := do
  c.checkApp dgram
  shortParse c.appRxKeys scratch dgram c.ourScid.length

/-- `quic_conn_recv_app` -/
def recvApp (c : Conn) (dgram : Bytes) : Parse Unit × Conn :=
  match c.openApp dgram with
  | .error e => (.error e, c)
  | .ok pkt =>
    if pkt.dcid ≠ c.ourScid then (reject, c)
    else
      let (rc, streams) := walkFrames handleApp (pkt.payload.length + 1) pkt.payload c.streams
      (rc, { c with appPktsRcvd := c.appPktsRcvd + 1, streams := streams })

/-- `quic_conn_emit_app` into a buffer of `cap` bytes. -/
def emitApp (c : Conn) (payload : Bytes) (cap : ℕ) : Option Bytes × Conn :=
  if c.appKeysReady = false ∨ c.peerAddrsKnown = false then (none, c)
  else if cap < 1 + c.peerScid.length + 2 + 16 + payload.length then (none, c)
  else if maxCidLen < c.peerScid.length then (none, c)
  else
    match shortBuild cap ⟨c.peerScid, c.appTxNextPn.toNat, 2, payload, false, false⟩ c.appTxKeys with
    | none => (none, c)
    | some packet => (some packet, { c with appTxNextPn := c.appTxNextPn + 1 })

end Conn

end Quic
