import Picoweb.Lib.ByteFile

/-!
# One connection of the userspace TCP stack

The control block of a connection and everything `tcp.c` does to one: the advertised window, the
segments it emits, the retransmit queue with its round-trip estimator, congestion control, the calls of
the owner, and incoming segments. What a call does besides changing the control block is the list of its
outputs, in order.
-/

namespace Tcp

open ByteFile

/-! ### Segments and services -/

inductive State
  | closed
  | listen
  | synReceived
  | established
  | closeWait
  | lastAck
  deriving DecidableEq, Repr

structure Flags where
  fin : Bool := false
  syn : Bool := false
  rst : Bool := false
  psh : Bool := false
  ack : Bool := false
  deriving DecidableEq, Repr

structure Seg where
  srcIp : UInt32
  dstIp : UInt32
  srcPort : UInt16
  dstPort : UInt16
  seq : UInt32
  ack : UInt32
  flags : Flags
  window : UInt16
  payload : Bytes := []
  deriving DecidableEq, Repr

inductive Proto
  | tcp
  | udp
  deriving DecidableEq, Repr

/-- A registered service; `onOpen` and `onClose` say whether it defines these hooks. -/
structure Service where
  proto : Proto := .tcp
  port : UInt16
  onOpen : Bool
  onClose : Bool
  deriving DecidableEq, Repr

/-- What a service returns from `on_data`. -/
inductive Status
  | noOutput
  | output
  | outputAndClose
  | reset
  | error
  deriving DecidableEq, Repr

structure ConnInfo where
  remoteIp : UInt32
  remotePort : UInt16
  localIp : UInt32
  localPort : UInt16
  deriving DecidableEq, Repr

/-- What the stack does to the outside: segments and callbacks. A callback carries the state pointer
of the connection. The last four are notes of an observer: a SYN took the slot, the acknowledgement
of the handshake was accepted, a FIN was taken, a payload was handed over to be sent. -/
inductive Out
  | seg (s : Seg)
  | onOpen (info : ConnInfo) (state : Option ℕ)
  | onData (state : Option ℕ) (data : Bytes)
  | onClose (state : ℕ)
  | accepted
  | established
  | finTaken
  | offered (data : Bytes)
  deriving DecidableEq, Repr

/-! ### The control block -/

/-- A segment that has not been acknowledged. -/
structure RtxEntry where
  seq : UInt32
  payload : Bytes
  flags : Flags
  retrans : Bool
  txTimeMs : UInt64
  deriving DecidableEq, Repr

def RtxEntry.len (e : RtxEntry) : UInt32 := UInt32.ofNat e.payload.length

structure Conn where
  state : State := .closed
  localIp : UInt32 := 0
  remoteIp : UInt32 := 0
  localPort : UInt16 := 0
  remotePort : UInt16 := 0
  sndNxt : UInt32 := 0
  sndUna : UInt32 := 0
  rcvNxt : UInt32 := 0
  rcvWnd : UInt16 := 0
  rcvBufCap : UInt32 := 0
  rcvBufUsed : UInt32 := 0
  rtx : List RtxEntry := []
  srttMs : UInt32 := 0
  rttvarMs : UInt32 := 0
  rtoMs : UInt32 := 0
  cwnd : UInt32 := 0
  ssthresh : UInt32 := 0
  sndWnd : UInt32 := 0
  dupackN : UInt32 := 0
  recoverySeq : UInt32 := 0
  inRecovery : Bool := false
  svc : Option Service := none
  appState : Option ℕ := none
  opened : Bool := false
  deriving DecidableEq, Repr

abbrev rtxQueueMax : ℕ := 4
abbrev rtoInitMs : UInt32 := 1000
abbrev rtoMinMs : UInt32 := 200
abbrev rtoMaxMs : UInt32 := 60000
abbrev mss : ℕ := 1460
abbrev initCwnd : UInt32 := 14600
abbrev minCwnd : UInt32 := 2920
abbrev dupackThreshold : UInt32 := 3

/-- The size of the scratch buffer of `tcp_sendv`. -/
abbrev scratchCap : ℕ := 16384

/-- Runs `f` on what `r` left, keeping the outputs of both. -/
def andThen (r : Conn × List Out) (f : Conn → Conn × List Out) : Conn × List Out :=
  ((f r.1).1, r.2 ++ (f r.1).2)

namespace Conn

/-! ### Windows and control segments -/

def advertisedWnd (c : Conn) : UInt16 :=
  if c.rcvBufCap = 0 then 65535
  else if c.rcvBufUsed ≥ c.rcvBufCap then 0
  else if c.rcvBufCap - c.rcvBufUsed > 65535 then 65535
  else (c.rcvBufCap - c.rcvBufUsed).toUInt16

def refreshWnd (c : Conn) : Conn := { c with rcvWnd := c.advertisedWnd }

def segment (c : Conn) (seq : UInt32) (flags : Flags) (payload : Bytes) : Seg where
  srcIp := c.localIp
  dstIp := c.remoteIp
  srcPort := c.localPort
  dstPort := c.remotePort
  seq := seq
  ack := c.rcvNxt
  flags := flags
  window := c.rcvWnd
  payload := payload

def setRcvBufCap (c : Conn) (cap : UInt32) : Conn :=
  refreshWnd { c with rcvBufCap := cap, rcvBufUsed := 0 }

def rcvConsumed (c : Conn) (n : UInt32) : Conn × List Out :=
  if n = 0 then (c, [])
  else
    let used := if n ≥ c.rcvBufUsed then 0 else c.rcvBufUsed - n
    let c' := refreshWnd { c with rcvBufUsed := used }
    if c.rcvWnd = 0 ∧ c'.rcvWnd > 0 ∧ c.state = .established then
      (c', [.seg (c'.segment c'.sndNxt { ack := true } [])])
    else (c', [])

def emitCtrl (c : Conn) (flags : Flags) : Conn × List Out :=
  (c.refreshWnd, [.seg (c.refreshWnd.segment c.sndNxt flags [])])

def emitRst (seg : Seg) : Out :=
  if seg.flags.ack then
    .seg { srcIp := seg.dstIp, dstIp := seg.srcIp, srcPort := seg.dstPort, dstPort := seg.srcPort
           seq := seg.ack, ack := 0, flags := { rst := true }, window := 0 }
  else
    .seg { srcIp := seg.dstIp, dstIp := seg.srcIp, srcPort := seg.dstPort, dstPort := seg.srcPort
           seq := 0
           ack := seg.seq + (if seg.flags.syn then 1 else 0) + UInt32.ofNat seg.payload.length
           flags := { rst := true, ack := true }, window := 0 }

/-! ### Retransmission and congestion control -/

def flightSize (c : Conn) : UInt32 := c.rtx.foldl (fun sum e => sum + e.len) 0

def sendWindow (c : Conn) : UInt32 :=
  let cwnd := if c.cwnd ≠ 0 then c.cwnd else initCwnd
  let snd := if c.sndWnd ≠ 0 then c.sndWnd else 65535
  let lim := if cwnd < snd then cwnd else snd
  if c.flightSize ≥ lim then 0 else lim - c.flightSize

/-- `none` where the queue is full. -/
def rtxEnqueue (c : Conn) (e : RtxEntry) : Option Conn :=
  if c.rtx.length ≥ rtxQueueMax then none else some { c with rtx := c.rtx ++ [e] }

/-- One round-trip measurement moves the estimator and the timeout. -/
def sampleRtt (c : Conn) (r : UInt32) : Conn :=
  let (srtt, rttvar) :=
    if c.srttMs = 0 then (r, r / 2)
    else
      let diff := if c.srttMs > r then c.srttMs - r else r - c.srttMs
      ((7 * c.srttMs + r) / 8, (3 * c.rttvarMs + diff) / 4)
  let kvar := if 4 * rttvar < 1 then 1 else 4 * rttvar
  let rto := srtt + kvar
  let rto := if rto < rtoMinMs then rtoMinMs else rto
  let rto := if rto > rtoMaxMs then rtoMaxMs else rto
  { c with srttMs := srtt, rttvarMs := rttvar, rtoMs := rto }

def outstanding (ack : UInt32) (e : RtxEntry) : Bool :=
  decide ((ack - (e.seq + e.len)).toInt32 < 0)

/-- Drops the covered entries of the queue, and measures the round trip of those sent once. -/
def rtxOnAck (c : Conn) (ack : UInt32) (now : UInt64) : Conn :=
  c.rtx.foldl (fun c e =>
      if outstanding ack e then c
      else if ¬ e.retrans ∧ now ≠ 0 ∧ now ≥ e.txTimeMs then c.sampleRtt (now - e.txTimeMs).toUInt32
      else c)
    { c with rtx := c.rtx.filter (outstanding ack) }

def ccOnNewAck (c : Conn) (acked : UInt32) : Conn :=
  if acked = 0 then c
  else if c.inRecovery then
    if (c.sndUna - c.recoverySeq).toInt32 ≥ 0 then
      { c with inRecovery := false, cwnd := c.ssthresh, dupackN := 0 }
    else { c with dupackN := 0 }
  else if c.cwnd < c.ssthresh then
    let inc := if acked < UInt32.ofNat mss then acked else UInt32.ofNat mss
    { c with cwnd := c.cwnd + inc, dupackN := 0 }
  else
    let inc := UInt32.ofNat (mss * mss) / (if c.cwnd ≠ 0 then c.cwnd else 1)
    let inc := if inc = 0 then 1 else inc
    { c with cwnd := c.cwnd + inc, dupackN := 0 }

/-- The threshold of slow start after a loss. -/
def lossThreshold (c : Conn) : UInt32 :=
  let half := c.flightSize / 2
  if half ≥ minCwnd then half else minCwnd

def resendOldest (c : Conn) (txTime : RtxEntry → UInt64) : Conn × List Out :=
  match c.rtx with
  | [] => (c, [])
  | e :: rest =>
    let c := c.refreshWnd
    ({ c with rtx := { e with retrans := true, txTimeMs := txTime e } :: rest },
      [.seg (c.segment e.seq e.flags e.payload)])

def ccOnDupack (c : Conn) : Conn × List Out :=
  let c := { c with dupackN := c.dupackN + 1 }
  if c.dupackN < dupackThreshold then (c, [])
  else if c.inRecovery then ({ c with cwnd := c.cwnd + UInt32.ofNat mss }, [])
  else
    resendOldest
      { c with
        ssthresh := c.lossThreshold
        cwnd := c.lossThreshold + UInt32.ofNat (3 * mss)
        recoverySeq := c.sndNxt
        inRecovery := true } RtxEntry.txTimeMs

def ccOnRto (c : Conn) : Conn :=
  { c with ssthresh := c.lossThreshold, cwnd := UInt32.ofNat mss, dupackN := 0, inRecovery := false }

def tick (c : Conn) (now : UInt64) : Conn × List Out :=
  if c.state ≠ .established ∧ c.state ≠ .closeWait then (c, [])
  else
    match c.rtx with
    | [] => (c, [])
    | e :: _ =>
      let age := if now ≥ e.txTimeMs then now - e.txTimeMs else 0
      if age < c.rtoMs.toUInt64 then (c, [])
      else
        andThen (c.resendOldest fun _ => now) fun c =>
          let doubled := 2 * c.rtoMs.toUInt64
          let doubled := if doubled > rtoMaxMs.toUInt64 then rtoMaxMs.toUInt64 else doubled
          ({ c.ccOnRto with rtoMs := doubled.toUInt32 }, [])

/-! ### Sending -/

/-- The loop of `tcp_send_at` over what is left of the payload; `fuel` bounds its rounds. `false`
where the retransmit queue ran full on the way. -/
def sendLoop (now : UInt64) : ℕ → Bytes → Conn → Bool × Conn × List Out
  | 0, _, c => (true, c, [])
  | fuel + 1, rest, c =>
    if rest = [] then (true, c, [])
    else
      let chunk := rest.take mss
      let flags := { ack := true, psh := decide (rest.length ≤ mss) }
      let c := c.refreshWnd
      let seg := c.segment c.sndNxt flags chunk
      let sent := { seq := c.sndNxt, payload := chunk, flags := flags, retrans := false, txTimeMs := now }
      match if now ≠ 0 then c.rtxEnqueue sent else some c with
      | none => (false, c, [.seg seg])
      | some c =>
        let r := sendLoop now fuel (rest.drop mss) { c with sndNxt := c.sndNxt + UInt32.ofNat chunk.length }
        (r.1, r.2.1, .seg seg :: r.2.2)

/-- `tcp_send_at` turns the payload away before it sends anything. -/
def Refuses (c : Conn) (data : Bytes) (now : UInt64) : Prop :=
  c.state ≠ .established ∨ now ≠ 0 ∧ (c.rtx.length ≥ rtxQueueMax ∨ UInt32.ofNat data.length > c.sendWindow)
deriving Decidable

def sendAt (c : Conn) (data : Bytes) (now : UInt64) : Int32 × Conn × List Out :=
  if c.Refuses data now then (-1, c, [])
  else
    let c := { c with rtoMs := if c.rtoMs = 0 then rtoInitMs else c.rtoMs }
    let r := c.sendLoop now data.length data
    (if r.1 then (UInt32.ofNat data.length).toInt32 else -1, r.2)

/-- `tcp_send` sends without tracking. -/
def send (c : Conn) (data : Bytes) : Int32 × Conn × List Out := c.sendAt data 0

def sendv (c : Conn) (iov : List Bytes) : Int32 × Conn × List Out :=
  if c.state ≠ .established then (-1, c, [])
  else
    match iov with
    | [] => (0, c, [])
    | [frag] => c.send frag
    | _ => if iov.flatten.length > scratchCap then (-1, c, []) else c.send iov.flatten

/-- A send, with the note of what was handed over. -/
def offer (data : Bytes) (r : Conn × List Out) : Conn × List Out := (r.1, .offered data :: r.2)

/-- What the owner of a connection may call on it. -/
inductive Call
  | sendAt (data : Bytes) (now : UInt64)
  | sendv (iov : List Bytes)
  | setRcvBufCap (cap : UInt32)
  | rcvConsumed (n : UInt32)
  deriving DecidableEq, Repr

def call (c : Conn) : Call → Conn × List Out
  | .sendAt data now => offer data (c.sendAt data now).2
  | .sendv iov => offer iov.flatten (c.sendv iov).2
  | .setRcvBufCap cap => (c.setRcvBufCap cap, [])
  | .rcvConsumed n => c.rcvConsumed n

def calls (c : Conn) (l : List Call) : Conn × List Out :=
  l.foldl (fun r a => andThen r fun c => c.call a) (c, [])

/-! ### Services -/

/-- What the outside does while one segment is handled: the pointer `on_open` returns, what the
service's `on_data` returns, whether the caller gave an `on_data` of its own, and what that one calls
on the connection. -/
structure Behaviour where
  openState : Option ℕ := none
  status : Status := .noOutput
  iov : List Bytes := []
  callback : Bool := false
  calls : List Call := []
  deriving DecidableEq, Repr

/-- `false` where the service refused the connection. -/
def fireOpen (c : Conn) (b : Behaviour) : Bool × Conn × List Out :=
  match c.svc with
  | none => (true, c, [])
  | some svc =>
    if c.opened then (true, c, [])
    else if ¬ svc.onOpen then (true, { c with opened := true }, [])
    else
      let called := Out.onOpen ⟨c.remoteIp, c.remotePort, c.localIp, c.localPort⟩ b.openState
      match b.openState with
      | none =>
        let r := c.emitCtrl { rst := true }
        (false, { r.1 with state := .closed }, called :: r.2)
      | some p => (true, { c with appState := some p, opened := true }, [called])

def fireClose (c : Conn) : Conn × List Out :=
  match c.svc with
  | none => (c, [])
  | some svc =>
    if ¬ c.opened then (c, [])
    else
      ({ c with appState := none, opened := false },
        match c.appState with
        | some p => if svc.onClose then [.onClose p] else []
        | none => [])

/-- Ends the connection, as a reset does. -/
def shut (c : Conn) : Conn × List Out :=
  andThen c.fireClose fun c => ({ c with state := .closed }, [])

/-- `false` where the service ended the connection. -/
def driveServiceData (c : Conn) (data : Bytes) (b : Behaviour) : Bool × Conn × List Out :=
  let called := Out.onData c.appState data
  match b.status with
  | .noOutput => (true, c, [called])
  | .output =>
    let r := offer b.iov.flatten (c.sendv b.iov).2
    (true, r.1, called :: r.2)
  | .outputAndClose =>
    let r := andThen (offer b.iov.flatten (c.sendv b.iov).2) fun c =>
      andThen (c.emitCtrl { fin := true, ack := true }) fun c =>
        ({ c with sndNxt := c.sndNxt + 1, state := .lastAck }, [])
    (true, r.1, called :: r.2)
  | .reset | .error =>
    let r := andThen (c.emitCtrl { rst := true }) shut
    (false, r.1, called :: r.2)

/-- Hands the payload to the service, or to the caller's `on_data`. -/
def deliver (c : Conn) (data : Bytes) (b : Behaviour) : Bool × Conn × List Out :=
  match c.svc with
  | some _ => c.driveServiceData data b
  | none =>
    if b.callback then
      let r := c.calls b.calls
      (true, r.1, .onData none data :: r.2)
    else (true, c, [])

/-! ### Incoming segments -/

def rstOk (c : Conn) (seg : Seg) : Bool :=
  if c.state = .synReceived then decide (seg.seq = c.rcvNxt)
  else if seg.flags.ack then
    decide ((seg.ack - c.sndUna).toInt32 ≥ 0 ∧ (seg.ack - c.sndNxt).toInt32 ≤ 0 ∧ seg.seq = c.rcvNxt)
  else false

/-- Data on the acknowledgement that completes the handshake. -/
def takeFirst (c : Conn) (data : Bytes) (b : Behaviour) : Conn × List Out :=
  if data = [] then (c, [])
  else
    let r := c.deliver data b
    if ¬ r.1 then r.2
    else
      andThen r.2 fun c =>
        emitCtrl { c with rcvNxt := c.rcvNxt + UInt32.ofNat data.length } { ack := true }

def completes (c : Conn) (seg : Seg) : Prop := seg.flags.ack = true ∧ seg.ack = c.sndNxt
deriving Decidable

def receiveSynReceived (c : Conn) (seg : Seg) (now : UInt64) (b : Behaviour) : Conn × List Out :=
  if c.completes seg then
    let c := { rtxOnAck { c with sndUna := seg.ack } seg.ack now with state := .established }
    let r := c.fireOpen b
    if ¬ r.1 then (r.2.1, .established :: r.2.2)
    else andThen (r.2.1, .established :: r.2.2) fun c => c.takeFirst seg.payload b
  else (c, [])

/-- The acknowledgement of a segment on an established connection. -/
def onAck (c : Conn) (seg : Seg) (now : UInt64) : Conn × List Out :=
  if ¬ seg.flags.ack then (c, [])
  else
    let c := { c with sndWnd := if seg.window ≠ 0 then seg.window.toUInt32 else c.sndWnd }
    let adv := (seg.ack - c.sndUna).toInt32
    if adv > 0 then
      ((rtxOnAck { c with sndUna := seg.ack } seg.ack now).ccOnNewAck adv.toUInt32, [])
    else if seg.ack = c.sndUna ∧ c.rtx ≠ [] ∧ seg.payload = [] ∧ ¬ seg.flags.syn ∧ ¬ seg.flags.fin then
      c.ccOnDupack
    else (c, [])

/-- Data on an established connection; `false` where the segment is done with. -/
def takePayload (c : Conn) (data : Bytes) (b : Behaviour) : Bool × Conn × List Out :=
  if data = [] then (true, c, [])
  else if c.advertisedWnd = 0 ∨ data.length > c.advertisedWnd.toNat then
    (false, c.emitCtrl { ack := true })
  else
    let r := c.deliver data b
    if ¬ r.1 then r
    else
      (true, andThen r.2 fun c =>
        emitCtrl { c with
            rcvNxt := c.rcvNxt + UInt32.ofNat data.length
            rcvBufUsed :=
              if c.rcvBufCap > 0 then c.rcvBufUsed + UInt32.ofNat data.length else c.rcvBufUsed }
          { ack := true })

/-- A FIN on an established connection is answered by our own at once. -/
def takeFin (c : Conn) : Conn × List Out :=
  andThen (emitCtrl { c with rcvNxt := c.rcvNxt + 1, state := .closeWait } { ack := true }) fun c =>
    andThen (c.emitCtrl { fin := true, ack := true }) fun c =>
      andThen ({ c with sndNxt := c.sndNxt + 1, state := .lastAck }, [.finTaken]) fireClose

/-- What an in-order segment carries: data, and perhaps the end of the stream. -/
def takeBody (c : Conn) (seg : Seg) (b : Behaviour) : Conn × List Out :=
  let r := c.takePayload seg.payload b
  if r.1 ∧ seg.flags.fin then andThen r.2 takeFin else r.2

def receiveEstablished (c : Conn) (seg : Seg) (now : UInt64) (b : Behaviour) : Conn × List Out :=
  if (seg.seq - c.rcvNxt).toInt32 ≠ 0 then c.emitCtrl { ack := true }
  else andThen (c.onAck seg now) fun c => c.takeBody seg b

def receive (c : Conn) (seg : Seg) (now : UInt64) (b : Behaviour) : Conn × List Out :=
  if seg.flags.rst then if c.rstOk seg then c.shut else (c, [])
  else
    match c.state with
    | .synReceived => c.receiveSynReceived seg now b
    | .established => c.receiveEstablished seg now b
    | .lastAck => if seg.flags.ack ∧ seg.ack = c.sndNxt then c.shut else (c, [])
    | _ => (c, [emitRst seg])

end Conn

end Tcp
