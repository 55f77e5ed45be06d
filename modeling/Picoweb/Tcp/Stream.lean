import Picoweb.Tcp.Session

/-!
# The byte stream of a connection

The peer sends a byte stream from its initial sequence number on, and the network loses, repeats and
reorders the segments that carry slices of it. What the receiver passes on should always be a prefix
of the stream, and the next sequence number it expects should say how long that prefix is.
-/

namespace Tcp

open ByteFile Conn List

/-! ### What was passed on -/

/-- The bytes passed to `on_data`. -/
def heard : List Note → Bytes
  | [] => []
  | .data _ bytes :: ns => bytes ++ heard ns
  | _ :: ns => heard ns

def finsTaken (ns : List Note) : ℕ := ns.count .fin

@[simp] lemma heard_append (ns ns' : List Note) : heard (ns ++ ns') = heard ns ++ heard ns' := by
  induction ns with
  | nil => rfl
  | cons n ns ih => cases n <;> simp [heard, ih]

@[simp] lemma finsTaken_append (ns ns' : List Note) :
    finsTaken (ns ++ ns') = finsTaken ns + finsTaken ns' := count_append

/-- The notes pass nothing on and take no FIN. -/
def Quiet (ns : List Note) : Prop := heard ns = [] ∧ finsTaken ns = 0

namespace Session

lemma fireClose_quiet (k : Session) : Quiet k.fireClose.2 := by
  unfold fireClose
  split
  · exact ⟨rfl, rfl⟩
  · split
    · exact ⟨rfl, rfl⟩
    · split
      · split <;> exact ⟨rfl, rfl⟩
      · exact ⟨rfl, rfl⟩

lemma fireClose_frame (k : Session) : k.fireClose.1.state = k.state ∧ k.fireClose.1.rcvNxt = k.rcvNxt := by
  unfold fireClose
  split
  · exact ⟨rfl, rfl⟩
  · split <;> exact ⟨rfl, rfl⟩

lemma shut_quiet (k : Session) : Quiet k.shut.2 := k.fireClose_quiet

lemma fireOpen_quiet (k : Session) (b : Behaviour) : Quiet (k.fireOpen b).2.2 := by
  unfold fireOpen
  split
  · exact ⟨rfl, rfl⟩
  · split
    · exact ⟨rfl, rfl⟩
    · split
      · exact ⟨rfl, rfl⟩
      · split <;> exact ⟨rfl, rfl⟩

/-- A refused session is closed; any other keeps its state and its place in the stream. -/
lemma fireOpen_frame (k : Session) (b : Behaviour) :
    (k.fireOpen b).2.1.svc = k.svc ∧ (k.fireOpen b).2.1.rcvNxt = k.rcvNxt ∧
      (k.fireOpen b).2.1.state = if (k.fireOpen b).1 then k.state else .closed := by
  unfold fireOpen
  split
  · exact ⟨rfl, rfl, rfl⟩
  · split
    · exact ⟨rfl, rfl, rfl⟩
    · split
      · exact ⟨rfl, rfl, rfl⟩
      · split <;> exact ⟨rfl, rfl, rfl⟩

end Session

/-- The segment carries the slice of the stream at this offset. -/
structure Slice (stream : Bytes) (isn : UInt32) (seg : Seg) (off : ℕ) : Prop where
  seq : seg.seq = isn + 1 + UInt32.ofNat off
  payload : seg.payload = (stream.drop off).take seg.payload.length

/-- The connection on the slot goes on: no SYN takes the slot again, and what arrives for it are slices
of the stream. -/
def Carrying (stream : Bytes) (isn : UInt32) (i : Slot) (w : World) : Event → Prop
  | .input seg _ _ =>
    (∀ svc, w.stack.route seg ≠ .accept i svc) ∧
      (w.stack.route seg = .conn i → seg.payload ≠ [] → ∃ off, Slice stream isn seg off)
  | _ => True

/-- As `Carrying`, where besides a slice is less than a lap of the sequence numbers away from what was
passed on, data on the acknowledgement that completes the handshake starts at the expected sequence
number, and data finds a service or a callback. -/
def InStep (stream : Bytes) (isn : UInt32) (i : Slot) (w : World) : Event → Prop
  | .input seg _ b =>
    (∀ svc, w.stack.route seg ≠ .accept i svc) ∧ (w.stack.route seg = .conn i → seg.payload ≠ [] →
        (∃ off, Slice stream isn seg off ∧ off < (heard (w.notes i)).length + 2 ^ 32 ∧
          (heard (w.notes i)).length < off + 2 ^ 32) ∧
        ((w.stack.conns i).state = .synReceived → (w.stack.conns i).completes seg →
          seg.seq = (w.stack.conns i).rcvNxt) ∧
        ((w.stack.conns i).svc = none → b.callback = true))
  | _ => True

/-! ### One segment -/

/-- What was passed on is a prefix of the stream, and the session expects the byte behind it. -/
structure InStream (stream : Bytes) (isn : UInt32) (k : Session) (ns : List Note) : Prop where
  heard : heard ns <+: stream
  next : k.state ≠ .closed → k.rcvNxt = isn + 1 + UInt32.ofNat (Tcp.heard ns).length + UInt32.ofNat (finsTaken ns)
  fins : k.state = .synReceived ∨ k.state = .established → finsTaken ns = 0

namespace InStream

variable {stream : Bytes} {isn : UInt32} {k : Session} {ns : List Note}

/-- The end of the stream takes one sequence number. -/
lemma takeFin (h : InStream stream isn k ns) (hlive : k.state ≠ .closed) (hfins : finsTaken ns = 0) :
    InStream stream isn k.takeFin.1 (ns ++ k.takeFin.2) := by
  set k' : Session := { k with rcvNxt := k.rcvNxt + 1, state := .lastAck }
  obtain ⟨hsilent, hnofin⟩ := k'.fireClose_quiet
  have hheard : Tcp.heard k.takeFin.2 = [] := hsilent
  have hone : finsTaken k.takeFin.2 = 1 := by
    show finsTaken ([.fin] ++ k'.fireClose.2) = 1
    rw [finsTaken_append, hnofin]
    rfl
  refine ⟨?_, fun _ => ?_, ?_⟩
  · simpa [hheard] using h.heard
  · have hrcv : k.takeFin.1.rcvNxt = k.rcvNxt + 1 := k'.fireClose_frame.2
    rw [hrcv, h.next hlive, heard_append, finsTaken_append, hone, hfins]
    grind
  · have hstate : k.takeFin.1.state = .lastAck := k'.fireClose_frame.1
    rintro (hs | hs) <;> cases hstate.symm.trans hs

lemma quiet (h : InStream stream isn k ns) {k' : Session} {ns' : List Note} (hquiet : Quiet ns')
    (hnext : k'.state ≠ .closed → k'.rcvNxt = k.rcvNxt ∧ k.state ≠ .closed)
    (hfins : k'.state = .synReceived ∨ k'.state = .established → k.state = .synReceived ∨ k.state = .established) :
    InStream stream isn k' (ns ++ ns') where
  heard := by simpa [hquiet.1] using h.heard
  next hlive := by
    obtain ⟨hrcv, hk⟩ := hnext hlive
    simp [hquiet.1, hquiet.2, hrcv, h.next hk]
  fins hstate := by simp [hquiet.2, h.fins (hfins hstate)]

/-- A slice at the expected sequence number continues what was passed on. -/
lemma slice (h : InStream stream isn k ns) (hlive : k.state ≠ .closed) (hfins : finsTaken ns = 0)
    {seg : Seg} {off : ℕ} (hslice : Slice stream isn seg off)
    (hup : off < (Tcp.heard ns).length + 2 ^ 32) (hdown : (Tcp.heard ns).length < off + 2 ^ 32)
    (hseq : seg.seq = k.rcvNxt) : Tcp.heard ns ++ seg.payload <+: stream := by
  have hoff : off = (Tcp.heard ns).length := by
    have hsame := hslice.seq.symm.trans (hseq.trans (h.next hlive))
    rw [hfins] at hsame
    have hmod : UInt32.ofNat off = UInt32.ofNat (Tcp.heard ns).length := by grind
    have hnat := congrArg UInt32.toNat hmod
    simp only [UInt32.toNat_ofNat'] at hnat
    omega
  obtain ⟨rest, hrest⟩ := h.heard
  have hpay := hslice.payload
  rw [hoff, ← hrest, drop_left] at hpay
  rw [← hrest, prefix_append_right_inj, hpay]
  exact take_prefix _ _

/-- The session passes data on and expects the byte behind it. -/
lemma pass (h : InStream stream isn k ns) (hlive : k.state ≠ .closed) (hfins : finsTaken ns = 0)
    {data : Bytes} (hdata : Tcp.heard ns ++ data <+: stream) {k' : Session}
    (hrcv : k'.rcvNxt = k.rcvNxt + UInt32.ofNat data.length) (p : Option ℕ) :
    InStream stream isn k' (ns ++ [.data p data]) where
  heard := by simpa [Tcp.heard] using hdata
  next _ := by
    have hfins' : finsTaken (ns ++ [.data p data]) = 0 := by
      rw [finsTaken_append, hfins]
      rfl
    have hheard : Tcp.heard (ns ++ [.data p data]) = Tcp.heard ns ++ data := by simp [Tcp.heard]
    rw [hrcv, h.next hlive, hfins, hfins', hheard, length_append, UInt32.ofNat_add]
    grind
  fins _ := by
    rw [finsTaken_append, hfins]
    rfl

/-- The payload of a segment, where it continues what was passed on. -/
lemma taken (h : InStream stream isn k ns) (hstate : k.state = .established) {data : Bytes}
    {b : Behaviour} (hdata : data ≠ [] → Tcp.heard ns ++ data <+: stream)
    (hcall : data ≠ [] → k.svc = none → b.callback = true) {r : Bool × Session × List Note}
    (htaken : k.Taken data b r) : InStream stream isn r.2.1 (ns ++ r.2.2) ∧ finsTaken r.2.2 = 0 ∧
      (r.1 = true → r.2.1.state ≠ .closed) := by
  have hlive : k.state ≠ .closed := by rw [hstate]; decide
  have hfins := h.fins (.inr hstate)
  cases htaken with
  | empty | full => exact ⟨by simpa using h, rfl, fun _ => hlive⟩
  | unheard hne hsvc hsilent =>
    rw [hcall hne hsvc] at hsilent
    cases hsilent
  | called hne hsvc => exact ⟨h.pass hlive hfins (hdata hne) rfl none, rfl, fun _ => hlive⟩
  | served hne hsvc hstate' =>
    refine ⟨h.pass hlive hfins (hdata hne) rfl k.appState, rfl, fun _ => ?_⟩
    rcases hstate' with rfl | rfl
    · exact hlive
    · show State.lastAck ≠ .closed
      decide
  | ended hne hsvc =>
    obtain ⟨hsilent, hnofin⟩ := k.shut_quiet
    have hnofin' : finsTaken (.data k.appState data :: k.shut.2) = 0 := hnofin
    refine ⟨⟨?_, fun hopen => absurd rfl hopen, ?_⟩, hnofin', nofun⟩
    · simpa [Tcp.heard, hsilent] using hdata hne
    · rintro (hshut | hshut) <;> cases hshut

/-- What an in-order segment carries on an established session. -/
lemma takeBody (h : InStream stream isn k ns) (hstate : k.state = .established) {seg : Seg}
    {b : Behaviour} (hdata : seg.payload ≠ [] → Tcp.heard ns ++ seg.payload <+: stream)
    (hcall : seg.payload ≠ [] → k.svc = none → b.callback = true) (fits : Bool) :
    InStream stream isn (k.takeBody seg b fits).1 (ns ++ (k.takeBody seg b fits).2) := by
  obtain ⟨htaken, hnofin, hopen⟩ :=
    h.taken hstate hdata hcall (k.takePayload_taken seg.payload b fits)
  rw [Session.takeBody]
  split
  · rename_i hfin
    have hfins : finsTaken (ns ++ (k.takePayload seg.payload b fits).2.2) = 0 := by
      rw [finsTaken_append, h.fins (.inr hstate), hnofin]
    rw [← append_assoc]
    exact htaken.takeFin (hopen hfin.1) hfins
  · exact htaken

lemma shut (h : InStream stream isn k ns) : InStream stream isn k.shut.1 (ns ++ k.shut.2) :=
  h.quiet k.shut_quiet (fun hopen => absurd rfl hopen) fun hs => by rcases hs with hs | hs <;> cases hs

/-- The acknowledgement of the handshake, with what it carries. -/
lemma establish (h : InStream stream isn k ns) (hstate : k.state = .synReceived) {data : Bytes}
    {b : Behaviour} (hdata : data ≠ [] → Tcp.heard ns ++ data <+: stream)
    (hcall : data ≠ [] → k.svc = none → b.callback = true) :
    let r := Session.fireOpen { k with state := .established } b
    InStream stream isn r.2.1 (ns ++ .established :: r.2.2) ∧
      (r.1 = true → InStream stream isn (r.2.1.takePayload data b true).2.1
        (ns ++ .established :: r.2.2 ++ (r.2.1.takePayload data b true).2.2)) := by
  intro r
  obtain ⟨hsvc, hrcv, hopen⟩ := Session.fireOpen_frame { k with state := .established } b
  have hquiet : Quiet (.established :: r.2.2) := Session.fireOpen_quiet { k with state := .established } b
  have hin : InStream stream isn r.2.1 (ns ++ .established :: r.2.2) := by
    refine h.quiet hquiet (fun _ => ⟨hrcv, ?_⟩) fun _ => .inl hstate
    rw [hstate]
    decide
  refine ⟨hin, fun hgo => ?_⟩
  have hstate' : r.2.1.state = .established := hopen.trans (if_pos hgo)
  have hsame : Tcp.heard (ns ++ .established :: r.2.2) = Tcp.heard ns := by
    rw [heard_append, hquiet.1, append_nil]
  refine (hin.taken hstate' ?_ ?_ (r.2.1.takePayload_taken data b true)).1
  · rw [hsame]
    exact hdata
  · intro hne hnone
    exact hcall hne (hsvc.symm.trans hnone)

/-- Any segment, where its payload is a slice at the expected sequence number whenever it is taken. -/
lemma receive (h : InStream stream isn k ns) {seg : Seg} {b : Behaviour} {ok : Bool} (fits : Bool)
    (hsyn : k.state = .synReceived → seg.flags.rst = false → ok = true → seg.payload ≠ [] → seg.seq = k.rcvNxt)
    (hdata : k.state = .synReceived ∨ k.state = .established → seg.payload ≠ [] →
      seg.seq = k.rcvNxt → Tcp.heard ns ++ seg.payload <+: stream)
    (hcall : seg.payload ≠ [] → k.svc = none → b.callback = true) :
    InStream stream isn (k.receive seg b ok fits).1 (ns ++ (k.receive seg b ok fits).2) := by
  have hstay : InStream stream isn k (ns ++ []) := by simpa using h
  rw [Session.receive]
  split
  · cases ok with
    | false => exact hstay
    | true => exact h.shut
  · rename_i hrst
    split
    · rename_i hstate
      cases ok with
      | false => exact hstay
      | true =>
        have hfirst : seg.payload ≠ [] → Tcp.heard ns ++ seg.payload <+: stream := fun hne =>
          hdata (.inl hstate) hne (hsyn hstate (by simpa using hrst) rfl hne)
        have hopen := h.establish hstate hfirst hcall
        rw [if_neg (by simp)]
        dsimp only
        split
        · exact hopen.1
        · rename_i hgo
          have := hopen.2 (by simpa using hgo)
          simpa only [append_assoc] using this
    · rename_i hstate
      split
      · exact hstay
      · rename_i hseq
        exact h.takeBody hstate (fun hne => hdata (.inr hstate) hne (not_not.1 hseq)) hcall fits
    · cases ok with
      | false => exact hstay
      | true => exact h.shut
    · exact hstay

end InStream

/-! ### Runs -/

lemma InStream.step {stream : Bytes} {isn : UInt32} {i : Slot} {w : World} {e : Event}
    (h : InStream stream isn (w.session i) (w.notes i)) (hok : InStep stream isn i w e) :
    InStream stream isn ((w.step e).session i) ((w.step e).notes i) := by
  obtain ⟨r, hmove, hsession, hnotes⟩ := w.step_move e i
  rw [hsession, hnotes]
  cases hmove with
  | idle =>
    rw [append_nil]
    exact h
  | @receive seg now b fits hroute =>
    have hlive := Stack.route_conn hroute
    refine h.receive fits ?_ ?_ ?_
    · intro hstate hrst hgrant hne
      refine ((hok.2 hroute hne).2.1 hstate ?_)
      simpa [grants, hrst] using hgrant
    · intro hstate hne hseq
      obtain ⟨⟨off, hslice, hup, hdown⟩, -⟩ := hok.2 hroute hne
      exact h.slice hlive (h.fins hstate) hslice hup hdown hseq
    · intro hne hnone
      exact (hok.2 hroute hne).2.2 hnone
  | @accept _ _ _ svc hroute => exact absurd hroute (hok.1 svc)

/-- From its SYN on, and as long as every event is in step, a connection passes on a prefix of the
peer's stream, and while it is not closed it expects the byte behind that prefix and the FIN. -/
theorem passes_prefix_on (s : Stack) (syn : Seg) (now : UInt64) (b : Behaviour) (i : Slot)
    (svc : Option Service) (hsyn : s.route syn = .accept i svc) (stream : Bytes) (events : List Event)
    (hrun : Run.Guarded World.step (InStep stream syn.seq i) (World.step ⟨s, []⟩ (.input syn now b)) events) :
    let w := events.foldl World.step (World.step ⟨s, []⟩ (.input syn now b))
    heard (w.notes i) <+: stream ∧ ((w.stack.conns i).state ≠ .closed → (w.stack.conns i).rcvNxt =
          syn.seq + 1 + UInt32.ofNat (heard (w.notes i)).length + UInt32.ofNat (finsTaken (w.notes i))) := by
  intro w
  have hstart : InStream stream syn.seq ((World.step ⟨s, []⟩ (.input syn now b)).session i)
      ((World.step ⟨s, []⟩ (.input syn now b)).notes i) := by
    obtain ⟨hsession, hnotes⟩ := World.step_accept (w := ⟨s, []⟩) hsyn now b
    rw [hsession, hnotes]
    refine ⟨List.nil_prefix, fun _ => ?_, fun _ => rfl⟩
    show syn.seq + 1 = syn.seq + 1 + 0 + 0
    rw [UInt32.add_zero, UInt32.add_zero]
  have hend : InStream stream syn.seq (w.session i) (w.notes i) :=
    hrun.invariant (P := fun w => InStream stream syn.seq (w.session i) (w.notes i))
      (fun w e h hok => h.step hok) hstart
  exact ⟨hend.heard, hend.next⟩

/-! A peer sends two bytes, each in a segment of its own. The first segment is lost, and with it the
bare acknowledgement of the handshake. -/

def abSyn : Seg where
  srcIp := 2
  dstIp := 1
  srcPort := 4000
  dstPort := 80
  seq := 100
  ack := 0
  flags := { syn := true }
  window := 1024

/-- The segment of the peer at this offset. -/
def abSegment (off : ℕ) (payload : Bytes) : Event :=
  .input
    { abSyn with
      seq := 101 + UInt32.ofNat off
      ack := (Stack.listen 1 80).issDerive abSyn 0 + 1
      flags := { ack := true }
      payload := payload } 0 { callback := true }

def abStart : World := World.step ⟨Stack.listen 1 80, []⟩ (.input abSyn 0 {})

/-- The second byte is passed on as if it were the first. -/
theorem second_byte_passed_on_first : (Stack.listen 1 80).route abSyn = .accept 1 none ∧
      Run.Guarded World.step (Carrying [97, 98] abSyn.seq 1) abStart [abSegment 1 [98]] ∧
      ¬ heard ((abStart.step (abSegment 1 [98])).notes 1) <+: [97, 98] := by
  have hroute : abStart.stack.route
      { abSyn with
        seq := 102, ack := (Stack.listen 1 80).issDerive abSyn 0 + 1, flags := { ack := true }
        payload := [98] } = .conn 1 := by decide +kernel
  refine ⟨by decide +kernel, ⟨⟨fun svc h => ?_, fun _ _ => ⟨1, by decide, by decide⟩⟩, trivial⟩, by decide +kernel⟩
  cases hroute.symm.trans h

/-- In order, they are passed on as they are. -/
theorem passes_prefix_on_in_order : Run.Guarded World.step (InStep [97, 98] abSyn.seq 1) abStart [abSegment 0 [97]] ∧
      heard (([abSegment 0 [97]].foldl World.step abStart).notes 1) = [97] ∧
      heard (([abSegment 0 [97]].foldl World.step abStart).notes 1) <+: [97, 98] := by
  have hsyn : (Stack.listen 1 80).route abSyn = .accept 1 none := by decide +kernel
  have hroute : abStart.stack.route
      { abSyn with
        seq := 101, ack := (Stack.listen 1 80).issDerive abSyn 0 + 1, flags := { ack := true }
        payload := [97] } = .conn 1 := by decide +kernel
  have hrun : Run.Guarded World.step (InStep [97, 98] abSyn.seq 1) abStart [abSegment 0 [97]] := by
    refine ⟨⟨fun svc h => ?_, fun _ _ => ⟨⟨0, ⟨by decide, by decide⟩, by decide +kernel, by decide +kernel⟩,
      by decide +kernel, by decide +kernel⟩⟩, trivial⟩
    cases hroute.symm.trans h
  exact ⟨hrun, by decide +kernel,
    (passes_prefix_on (Stack.listen 1 80) abSyn 0 {} 1 none hsyn [97, 98] [abSegment 0 [97]] hrun).1⟩

end Tcp
