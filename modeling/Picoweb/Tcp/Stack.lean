import Picoweb.Tcp.Conn
import Picoweb.Lib.Run

/-!
# The connection table of the userspace TCP stack

A stack has a fixed table of connections. An incoming segment is dropped, goes to the connection it
belongs to, or takes a closed slot as the SYN of a new one. A run is a sequence of incoming segments,
timer ticks and calls of the owner, with a log of what happened on which slot.
-/

namespace Tcp

open ByteFile Conn List

abbrev tableSize : ℕ := 256

abbrev Slot := Fin tableSize

structure Stack where
  conns : Slot → Conn
  localIp : UInt32
  listenPort : UInt16 := 0
  dispatch : Option (List Service) := none
  issSecret : Bytes := replicate 16 0

namespace Stack

/-- `tcp_listen`: slot 0 becomes the listening control block. -/
def listen (localIp : UInt32) (port : UInt16) : Stack where
  conns i := if i = 0 then { state := .listen, localIp := localIp, localPort := port } else {}
  localIp := localIp
  listenPort := port

def attachDispatch (localIp : UInt32) (services : List Service) : Stack where
  conns _ := {}
  localIp := localIp
  dispatch := some services

def setIssSecret (s : Stack) (secret : Bytes) : Stack :=
  { s with issSecret := (secret.take 16) ++ replicate (16 - secret.length) 0 }

/-- The initial sequence number of a connection: a keyed mix of its addresses, moved by the clock. -/
def issDerive (s : Stack) (seg : Seg) (now : UInt64) : UInt32 :=
  let k0 := UInt64.ofNat (leNat (s.issSecret.take 8))
  let k1 := UInt64.ofNat (leNat ((s.issSecret.drop 8).take 8))
  let v := (seg.dstIp.toUInt64 <<< 32) ^^^ seg.srcIp.toUInt64
  let v := v ^^^ ((seg.dstPort.toUInt64 <<< 16) ^^^ seg.srcPort.toUInt64)
  let v := v ^^^ k0
  let v := (v ^^^ (v >>> 33)) * 0xff51afd7ed558ccd
  let v := v ^^^ k1
  let v := (v ^^^ (v >>> 33)) * 0xc4ceb9fe1a85ec53
  let v := v ^^^ (v >>> 33)
  v.toUInt32 + (now <<< 18).toUInt32

/-! ### Where a segment goes -/

/-- The connection of the segment's four-tuple is neither closed nor the listening one. -/
def serves (c : Conn) (seg : Seg) : Bool :=
  decide (c.state ≠ .closed ∧ c.state ≠ .listen ∧ c.localPort = seg.dstPort ∧
    c.remotePort = seg.srcPort ∧ c.localIp = seg.dstIp ∧ c.remoteIp = seg.srcIp)

def findConn (s : Stack) (seg : Seg) : Option Slot :=
  (finRange tableSize).find? fun i => serves (s.conns i) seg

def allocConn (s : Stack) : Option Slot :=
  (finRange tableSize).find? fun i => decide ((s.conns i).state = .closed)

def dispatchLookup (services : List Service) (proto : Proto) (port : UInt16) : Option Service :=
  services.find? fun e => decide (e.port = port ∧ e.proto = proto)

/-- `none` where the port is not accepted; the service is absent without a dispatch table. -/
def portAccepts (s : Stack) (port : UInt16) : Option (Option Service) :=
  match s.dispatch with
  | some services => (dispatchLookup services .tcp port).map some
  | none => if port = s.listenPort then some none else none

inductive Route
  | drop
  | conn (i : Slot)
  | accept (i : Slot) (svc : Option Service)
  deriving DecidableEq, Repr

def route (s : Stack) (seg : Seg) : Route :=
  if seg.dstIp ≠ s.localIp then .drop
  else
    match s.portAccepts seg.dstPort with
    | none => .drop
    | some svc =>
      match s.findConn seg with
      | some i => .conn i
      | none =>
        if ¬ seg.flags.syn ∨ seg.flags.ack then .drop
        else
          match s.allocConn with
          | none => .drop
          | some i => .accept i svc

/-- The control block a SYN leaves in the slot it takes, before the answer. -/
def opening (c : Conn) (seg : Seg) (iss : UInt32) (svc : Option Service) : Conn :=
  { c with
    state := .synReceived
    localIp := seg.dstIp
    remoteIp := seg.srcIp
    localPort := seg.dstPort
    remotePort := seg.srcPort
    rcvNxt := seg.seq + 1
    sndNxt := iss
    sndUna := iss
    rcvWnd := 65535
    cwnd := initCwnd
    ssthresh := 0xffffffff
    sndWnd := if seg.window ≠ 0 then seg.window.toUInt32 else 65535
    dupackN := 0
    inRecovery := false
    recoverySeq := 0
    svc := svc
    appState := none
    opened := false }

/-- A SYN takes the slot and is answered. -/
def accept (c : Conn) (seg : Seg) (iss : UInt32) (svc : Option Service) : Conn × List Out :=
  andThen (opening c seg iss svc, [.accepted]) fun c =>
    andThen (c.emitCtrl { syn := true, ack := true }) fun c => ({ c with sndNxt := c.sndNxt + 1 }, [])

def put (s : Stack) (i : Slot) (r : Conn × List Out) : Stack × List (Slot × Out) :=
  ({ s with conns := Function.update s.conns i r.1 }, r.2.map fun o => (i, o))

/-- `tcp_input_at`. -/
def input (s : Stack) (seg : Seg) (now : UInt64) (b : Behaviour) : Stack × List (Slot × Out) :=
  match s.route seg with
  | .drop => (s, [])
  | .conn i => s.put i ((s.conns i).receive seg now b)
  | .accept i svc => s.put i (accept (s.conns i) seg (s.issDerive seg now) svc)

/-- `tcp_tick`: the slots in order. -/
def tick (s : Stack) (now : UInt64) : Stack × List (Slot × Out) :=
  ({ s with conns := fun i => ((s.conns i).tick now).1 },
    (finRange tableSize).flatMap fun i => ((s.conns i).tick now).2.map fun o => (i, o))

end Stack

inductive Event
  | input (seg : Seg) (now : UInt64) (b : Behaviour)
  | tick (now : UInt64)
  | call (i : Slot) (call : Call)
  deriving DecidableEq, Repr

/-- What an event does to the stack, and what it puts into the log. -/
def Stack.turn (s : Stack) : Event → Stack × List (Slot × Out)
  | .input seg now b => s.input seg now b
  | .tick now => s.tick now
  | .call i a => s.put i ((s.conns i).call a)

structure World where
  stack : Stack
  log : List (Slot × Out) := []

def World.step (w : World) (e : Event) : World where
  stack := (w.stack.turn e).1
  log := w.log ++ (w.stack.turn e).2

def onSlot (i : Slot) (log : List (Slot × Out)) : List Out :=
  (log.filter fun x => x.1 = i).map Prod.snd

/-! ### One slot -/

lemma onSlot_append (i : Slot) (l l' : List (Slot × Out)) : onSlot i (l ++ l') = onSlot i l ++ onSlot i l' := by
  simp only [onSlot, filter_append, map_append]

@[simp] lemma onSlot_tag_self (i : Slot) (l : List Out) : onSlot i (l.map fun o => (i, o)) = l := by
  induction l with
  | nil => rfl
  | cons o l ih => simpa [onSlot] using ih

lemma onSlot_tag_of_ne {i j : Slot} (h : j ≠ i) (l : List Out) : onSlot i (l.map fun o => (j, o)) = [] := by
  simp [onSlot, h]

/-- Each slot appears once in the pass over the table. -/
lemma onSlot_flatMap (i : Slot) (f : Slot → List Out) {slots : List Slot} (hnd : slots.Nodup)
    (hi : i ∈ slots) : onSlot i (slots.flatMap fun j => (f j).map fun o => (j, o)) = f i := by
  have hmiss (l : List Slot) (hl : i ∉ l) : onSlot i (l.flatMap fun j => (f j).map fun o => (j, o)) = [] := by
    induction l with
    | nil => rfl
    | cons j l ih =>
      rw [mem_cons, not_or] at hl
      rw [flatMap_cons, onSlot_append, onSlot_tag_of_ne (Ne.symm hl.1), ih hl.2, nil_append]
  induction slots with
  | nil => cases hi
  | cons j slots ih =>
    rw [nodup_cons] at hnd
    rw [flatMap_cons, onSlot_append]
    rcases mem_cons.1 hi with rfl | hmem
    · rw [onSlot_tag_self, hmiss slots hnd.1, append_nil]
    · have hne : j ≠ i := fun h => hnd.1 (h ▸ hmem)
      rw [onSlot_tag_of_ne hne, ih hnd.2 hmem, nil_append]

/-- What an event can do to a slot. -/
inductive SlotTurn (s : Stack) (i : Slot) : Event → Conn × List Out → Prop
  | idle (e : Event) : SlotTurn s i e (s.conns i, [])
  | receive {seg : Seg} {now : UInt64} {b : Behaviour} (h : s.route seg = .conn i) :
      SlotTurn s i (.input seg now b) ((s.conns i).receive seg now b)
  | accept {seg : Seg} {now : UInt64} {b : Behaviour} {svc : Option Service}
      (h : s.route seg = .accept i svc) :
      SlotTurn s i (.input seg now b) (Stack.accept (s.conns i) seg (s.issDerive seg now) svc)
  | tick (now : UInt64) : SlotTurn s i (.tick now) ((s.conns i).tick now)
  | call (a : Call) : SlotTurn s i (.call i a) ((s.conns i).call a)

namespace Stack

lemma put_self (s : Stack) (i : Slot) (r : Conn × List Out) :
    ((s.put i r).1.conns i, onSlot i (s.put i r).2) = r := by
  simp only [put, Function.update_self, onSlot_tag_self]

lemma put_of_ne (s : Stack) {i j : Slot} (h : j ≠ i) (r : Conn × List Out) :
    ((s.put j r).1.conns i, onSlot i (s.put j r).2) = (s.conns i, []) := by
  simp only [put, Function.update_of_ne (Ne.symm h), onSlot_tag_of_ne h]

/-- Everything an event does to a slot. -/
theorem turn_slot (s : Stack) (e : Event) (i : Slot) :
    SlotTurn s i e ((s.turn e).1.conns i, onSlot i (s.turn e).2) := by
  cases e with
  | input seg now b =>
    rw [turn, input]
    split
    · exact .idle _
    · rename_i j hroute
      by_cases hj : j = i
      · subst hj
        rw [put_self]
        exact .receive hroute
      · rw [put_of_ne s hj]
        exact .idle _
    · rename_i j svc hroute
      by_cases hj : j = i
      · subst hj
        rw [put_self]
        exact .accept hroute
      · rw [put_of_ne s hj]
        exact .idle _
  | tick now =>
    rw [turn, tick, onSlot_flatMap i _ (nodup_finRange _) (mem_finRange i)]
    exact .tick now
  | call j a =>
    rw [turn]
    by_cases hj : j = i
    · subst hj
      rw [put_self]
      exact .call a
    · rw [put_of_ne s hj]
      exact .idle _

lemma route_conn {s : Stack} {seg : Seg} {i : Slot} (h : s.route seg = .conn i) :
    (s.conns i).state ≠ .closed := by
  unfold route at h
  split at h
  · cases h
  split at h
  · cases h
  split at h
  · rename_i j hfind
    cases h
    have := find?_some hfind
    simp only [serves, decide_eq_true_eq] at this
    exact this.1
  · split at h
    · cases h
    · split at h <;> cases h

lemma route_accept {s : Stack} {seg : Seg} {i : Slot} {svc : Option Service} (h : s.route seg = .accept i svc) :
    s.portAccepts seg.dstPort = some svc ∧ (s.conns i).state = .closed := by
  unfold route at h
  split at h
  · cases h
  split at h
  · cases h
  rename_i hport
  split at h
  · cases h
  split at h
  · cases h
  split at h
  · cases h
  · rename_i halloc
    cases h
    have := find?_some halloc
    exact ⟨hport, by simpa using this⟩

end Stack

end Tcp
