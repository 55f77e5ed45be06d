import Picoweb.Quic.Varint

/-!
# Frames

`quic_frame_decode` takes one frame off the front of a payload. Runs of padding are one frame, and a type it does
not know is a frame of one byte.
-/

namespace Quic

open ByteFile Bounded

/-- `quic_frame_t` -/
inductive Frame
  | padding (count : ℕ)
  | ping
  | ack (largest delay firstRange : ℕ) (ranges : List (ℕ × ℕ)) (ecn : Option (ℕ × ℕ × ℕ))
  | resetStream (streamId appErrorCode finalSize : ℕ)
  | stopSending (streamId appErrorCode : ℕ)
  | crypto (offset : ℕ) (data : Bytes)
  | newToken (token : Bytes)
  | stream (streamId offset : ℕ) (data : Bytes) (fin : Bool)
  | maxData (max : ℕ)
  | maxStreamData (streamId max : ℕ)
  | maxStreams (uni : Bool) (max : ℕ)
  | dataBlocked (limit : ℕ)
  | streamDataBlocked (streamId limit : ℕ)
  | streamsBlocked (uni : Bool) (limit : ℕ)
  | newConnectionId (seqNo retirePriorTo : ℕ) (cid resetToken : Bytes)
  | retireConnectionId (seqNo : ℕ)
  | pathChallenge (data : Bytes)
  | pathResponse (data : Bytes)
  | connectionClose (errorCode frameType : ℕ) (reason : Bytes)
  | connectionCloseApp (errorCode : ℕ) (reason : Bytes)
  | handshakeDone
  | unknown (type : UInt8)
  deriving DecidableEq, Repr

/-- `read_varint`: a number and the offset behind it. -/
def readVarint (msg : Bytes) (off : ℕ) : Parse (ℕ × ℕ) :=
  if msg.length ≤ off then reject
  else do
    let (v, n) ← varintDecode msg off (msg.length - off)
    pure (v, off + n)

/-- A number that is there in some frames only. -/
def readIf (msg : Bytes) (present : Bool) (default off : ℕ) : Parse (ℕ × ℕ) :=
  if present then readVarint msg off else pure (default, off)

/-- The pairs of gap and range of an ACK frame. -/
def ackRanges (msg : Bytes) : ℕ → ℕ → Parse (List (ℕ × ℕ) × ℕ)
  | 0, off => pure ([], off)
  | count + 1, off => do
    let (gap, off) ← readVarint msg off
    let (len, off) ← readVarint msg off
    let (ranges, off) ← ackRanges msg count off
    pure ((gap, len) :: ranges, off)

/-- `n` numbers one behind the other. -/
def readVarints (msg : Bytes) : ℕ → ℕ → Parse (List ℕ × ℕ)
  | 0, off => pure ([], off)
  | n + 1, off => do
    let (v, off) ← readVarint msg off
    let (vs, off) ← readVarints msg n off
    pure (v :: vs, off)

/-- `len` bytes, if they are there. -/
def readBytes (msg : Bytes) (off len : ℕ) : Parse (Bytes × ℕ) :=
  if msg.length - off < len then reject
  else do
    let bytes ← fetches msg off len
    pure (bytes, off + len)

def zeros (msg : Bytes) (off : ℕ) : ℕ := ((msg.drop off).takeWhile (· = 0)).length

def decodeAck (msg : Bytes) (hasEcn : Bool) (off : ℕ) : Parse (Frame × ℕ) := do
  let (largest, off) ← readVarint msg off
  let (delay, off) ← readVarint msg off
  let (rangeCount, off) ← readVarint msg off
  let (firstRange, off) ← readVarint msg off
  let (ranges, off) ← ackRanges msg rangeCount off
  if hasEcn then do
    let (ect0, off) ← readVarint msg off
    let (ect1, off) ← readVarint msg off
    let (ce, off) ← readVarint msg off
    pure (.ack largest delay firstRange ranges (some (ect0, ect1, ce)), off)
  else pure (.ack largest delay firstRange ranges none, off)

/-- Three bits of the type say which fields are there. -/
def decodeStream (msg : Bytes) (t : UInt8) (off : ℕ) : Parse (Frame × ℕ) := do
  let (streamId, off) ← readVarint msg off
  let (offset, off) ← readIf msg (t &&& 0x04 ≠ 0) 0 off
  let (length, off) ← readIf msg (t &&& 0x02 ≠ 0) (msg.length - off) off
  let (data, off) ← readBytes msg off length
  pure (.stream streamId offset data (t &&& 0x01 ≠ 0), off)

def decodeNewConnectionId (msg : Bytes) (off : ℕ) : Parse (Frame × ℕ) := do
  let (seqNo, off) ← readVarint msg off
  let (retirePriorTo, off) ← readVarint msg off
  if seqNo < retirePriorTo then reject
  else if msg.length ≤ off then reject
  else do
    let len ← fetch msg off
    let off := off + 1
    if len.toNat < 1 ∨ 20 < len.toNat then reject
    else if msg.length - off < len.toNat + 16 then reject
    else do
      let cid ← fetches msg off len.toNat
      let token ← fetches msg (off + len.toNat) 16
      pure (.newConnectionId seqNo retirePriorTo cid token, off + len.toNat + 16)

def decodeNumbers (msg : Bytes) (n : ℕ) (frame : List ℕ → Frame) (off : ℕ) : Parse (Frame × ℕ) := do
  let (vs, off) ← readVarints msg n off
  pure (frame vs, off)

def decodeCrypto (msg : Bytes) (off : ℕ) : Parse (Frame × ℕ) := do
  let (offset, off) ← readVarint msg off
  let (length, off) ← readVarint msg off
  let (data, off) ← readBytes msg off length
  pure (.crypto offset data, off)

/-- A token is not empty. -/
def decodeNewToken (msg : Bytes) (off : ℕ) : Parse (Frame × ℕ) := do
  let (length, off) ← readVarint msg off
  if length = 0 then reject
  else do
    let (token, off) ← readBytes msg off length
    pure (.newToken token, off)

def decodeClose (msg : Bytes) (isApp : Bool) (off : ℕ) : Parse (Frame × ℕ) := do
  let (errorCode, off) ← readVarint msg off
  let (frameType, off) ← readIf msg (!isApp) 0 off
  let (length, off) ← readVarint msg off
  let (reason, off) ← readBytes msg off length
  pure (if isApp then .connectionCloseApp errorCode reason else .connectionClose errorCode frameType reason, off)

def decodePath (msg : Bytes) (frame : Bytes → Frame) (off : ℕ) : Parse (Frame × ℕ) := do
  let (data, off) ← readBytes msg off 8
  pure (frame data, off)

/-- `quic_frame_decode` on a payload that is not empty: the frame and how many bytes it takes. -/
def frameDecode (msg : Bytes) : Parse (Frame × ℕ) := do
  let t ← fetch msg 0
  match t with
  | 0x00 => pure (.padding (1 + zeros msg 1), 1 + zeros msg 1)
  | 0x01 => pure (.ping, 1)
  | 0x02 => decodeAck msg false 1
  | 0x03 => decodeAck msg true 1
  | 0x04 => decodeNumbers msg 3 (fun vs => .resetStream (vs.getD 0 0) (vs.getD 1 0) (vs.getD 2 0)) 1
  | 0x05 => decodeNumbers msg 2 (fun vs => .stopSending (vs.getD 0 0) (vs.getD 1 0)) 1
  | 0x06 => decodeCrypto msg 1
  | 0x07 => decodeNewToken msg 1
  | 0x10 => decodeNumbers msg 1 (fun vs => .maxData (vs.getD 0 0)) 1
  | 0x11 => decodeNumbers msg 2 (fun vs => .maxStreamData (vs.getD 0 0) (vs.getD 1 0)) 1
  | 0x12 => decodeNumbers msg 1 (fun vs => .maxStreams false (vs.getD 0 0)) 1
  | 0x13 => decodeNumbers msg 1 (fun vs => .maxStreams true (vs.getD 0 0)) 1
  | 0x14 => decodeNumbers msg 1 (fun vs => .dataBlocked (vs.getD 0 0)) 1
  | 0x15 => decodeNumbers msg 2 (fun vs => .streamDataBlocked (vs.getD 0 0) (vs.getD 1 0)) 1
  | 0x16 => decodeNumbers msg 1 (fun vs => .streamsBlocked false (vs.getD 0 0)) 1
  | 0x17 => decodeNumbers msg 1 (fun vs => .streamsBlocked true (vs.getD 0 0)) 1
  | 0x18 => decodeNewConnectionId msg 1
  | 0x19 => decodeNumbers msg 1 (fun vs => .retireConnectionId (vs.getD 0 0)) 1
  | 0x1a => decodePath msg .pathChallenge 1
  | 0x1b => decodePath msg .pathResponse 1
  | 0x1c => decodeClose msg false 1
  | 0x1d => decodeClose msg true 1
  | 0x1e => pure (.handshakeDone, 1)
  | t => if 0x08 ≤ t ∧ t ≤ 0x0f then decodeStream msg t 1 else pure (.unknown t, 1)

end Quic
