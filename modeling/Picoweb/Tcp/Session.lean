import Picoweb.Tcp.Stack

/-!
# Connections as the service sees them

A session is what a connection is to the service behind it: its state, the next sequence number it
takes, and the service with its state pointer, without windows, timers, retransmission and the segments
that go out. A connection refines its session: what an event does to the session and the callbacks
follows from the session alone, given whether the segment's acknowledgement is acceptable and its
payload fits the window.
-/

namespace Tcp

open ByteFile Conn List

/-! ### Notes -/

/-- The callbacks of a connection, and the points of its life an observer sees. -/
inductive Note
  | accepted
  | established
  | opened (state : Option ℕ)
  | data (state : Option ℕ) (bytes : Bytes)
  | fin
  | closed (state : ℕ)
  deriving DecidableEq, Repr

@[simp] def Out.note : Out → Option Note
  | .seg _ => none
  | .onOpen _ p => some (.opened p)
  | .onData p bytes => some (.data p bytes)
  | .onClose p => some (.closed p)
  | .accepted => some .accepted
  | .established => some .established
  | .finTaken => some .fin
  | .offered _ => none

def notes (l : List Out) : List Note := l.filterMap Out.note

@[simp] lemma notes_nil : notes [] = [] := rfl

@[simp] lemma notes_append (l l' : List Out) : notes (l ++ l') = notes l ++ notes l' :=
  filterMap_append

@[simp] lemma notes_cons (o : Out) (l : List Out) : notes (o :: l) = o.note.toList ++ notes l := by
  cases o <;> rfl

/-! ### Sessions -/

structure Session where
  state : State
  rcvNxt : UInt32
  svc : Option Service
  appState : Option ℕ
  opened : Bool
  deriving DecidableEq, Repr

namespace Session

def fireOpen (k : Session) (b : Behaviour) : Bool × Session × List Note :=
  match k.svc with
  | none => (true, k, [])
  | some svc =>
    if k.opened then (true, k, [])
    else if ¬ svc.onOpen then (true, { k with opened := true }, [])
    else
      match b.openState with
      | none => (false, { k with state := .closed }, [.opened none])
      | some p => (true, { k with appState := some p, opened := true }, [.opened (some p)])

def fireClose (k : Session) : Session × List Note :=
  match k.svc with
  | none => (k, [])
  | some svc =>
    if ¬ k.opened then (k, [])
    else
      ({ k with appState := none, opened := false },
        match k.appState with
        | some p => if svc.onClose then [.closed p] else []
        | none => [])

def shut (k : Session) : Session × List Note := ({ k.fireClose.1 with state := .closed }, k.fireClose.2)

def deliver (k : Session) (data : Bytes) (b : Behaviour) : Bool × Session × List Note :=
  match k.svc with
  | some _ =>
    match b.status with
    | .noOutput | .output => (true, k, [.data k.appState data])
    | .outputAndClose => (true, { k with state := .lastAck }, [.data k.appState data])
    | .reset | .error => (false, k.shut.1, .data k.appState data :: k.shut.2)
  | none => if b.callback then (true, k, [.data none data]) else (true, k, [])

/-- The payload of an acceptable segment; `fits` says whether the window has room for it. -/
def takePayload (k : Session) (data : Bytes) (b : Behaviour) (fits : Bool) : Bool × Session × List Note :=
  if data = [] then (true, k, [])
  else if ¬ fits then (false, k, [])
  else
    let r := k.deliver data b
    if ¬ r.1 then r
    else (true, { r.2.1 with rcvNxt := r.2.1.rcvNxt + UInt32.ofNat data.length }, r.2.2)

def takeFin (k : Session) : Session × List Note :=
  let k := { k with rcvNxt := k.rcvNxt + 1, state := .lastAck }
  (k.fireClose.1, .fin :: k.fireClose.2)

def takeBody (k : Session) (seg : Seg) (b : Behaviour) (fits : Bool) : Session × List Note :=
  let r := k.takePayload seg.payload b fits
  if r.1 ∧ seg.flags.fin then (r.2.1.takeFin.1, r.2.2 ++ r.2.1.takeFin.2) else r.2

/-- An incoming segment; `ok` says whether its reset or acknowledgement is accepted. -/
def receive (k : Session) (seg : Seg) (b : Behaviour) (ok fits : Bool) : Session × List Note :=
  if seg.flags.rst then if ok then k.shut else (k, [])
  else
    match k.state with
    | .synReceived =>
      if ¬ ok then (k, [])
      else
        let r := fireOpen { k with state := .established } b
        if ¬ r.1 then (r.2.1, .established :: r.2.2)
        else
          let q := r.2.1.takePayload seg.payload b true
          (q.2.1, .established :: r.2.2 ++ q.2.2)
    | .established => if seg.seq ≠ k.rcvNxt then (k, []) else k.takeBody seg b fits
    | .lastAck => if ok then k.shut else (k, [])
    | _ => (k, [])

/-- What becomes of a payload: there is none, the window is full, nobody listens, the caller's
callback hears it, or the service does and keeps, closes or ends the connection. -/
inductive Taken (k : Session) (data : Bytes) (b : Behaviour) : Bool × Session × List Note → Prop
  | empty (hdata : data = []) : Taken k data b (true, k, [])
  | full (hdata : data ≠ []) : Taken k data b (false, k, [])
  | unheard (hdata : data ≠ []) (hsvc : k.svc = none) (hcall : b.callback = false) :
      Taken k data b (true, { k with rcvNxt := k.rcvNxt + UInt32.ofNat data.length }, [])
  | called (hdata : data ≠ []) (hsvc : k.svc = none) :
      Taken k data b (true, { k with rcvNxt := k.rcvNxt + UInt32.ofNat data.length }, [.data none data])
  | served {state : State} (hdata : data ≠ []) (hsvc : k.svc ≠ none)
      (hstate : state = k.state ∨ state = .lastAck) :
      Taken k data b (true, { k with rcvNxt := k.rcvNxt + UInt32.ofNat data.length, state := state },
          [.data k.appState data])
  | ended (hdata : data ≠ []) (hsvc : k.svc ≠ none) :
      Taken k data b (false, k.shut.1, .data k.appState data :: k.shut.2)

lemma takePayload_taken (k : Session) (data : Bytes) (b : Behaviour) (fits : Bool) :
    Taken k data b (k.takePayload data b fits) := by
  unfold takePayload
  by_cases hdata : data = []
  · rw [if_pos hdata]
    exact .empty hdata
  rw [if_neg hdata]
  cases fits with
  | false => exact .full hdata
  | true =>
    rw [deliver]
    rcases hsvc : k.svc with _ | svc
    · rcases hcall : b.callback with _ | _
      · simpa [hsvc] using Taken.unheard hdata hsvc hcall
      · simpa [hsvc] using Taken.called (b := b) hdata hsvc
    · have hne : k.svc ≠ none := by simp [hsvc]
      rcases b.status with _ | _ | _ | _ | _
      · simpa [hsvc] using Taken.served (b := b) hdata hne (.inl rfl)
      · simpa [hsvc] using Taken.served (b := b) hdata hne (.inl rfl)
      · simpa [hsvc] using Taken.served (b := b) hdata hne (.inr rfl)
      · exact .ended hdata hne
      · exact .ended hdata hne

end Session

namespace Conn

def session (c : Conn) : Session where
  state := c.state
  rcvNxt := c.rcvNxt
  svc := c.svc
  appState := c.appState
  opened := c.opened

def seen (r : Conn × List Out) : Session × List Note := (r.1.session, notes r.2)

/-- The call does nothing the service sees. -/
def Hidden (c : Conn) (r : Conn × List Out) : Prop := seen r = (c.session, [])

lemma seen_andThen_eq (r : Conn × List Out) (f : Conn → Conn × List Out) :
    seen (andThen r f) = ((seen (f r.1)).1, (seen r).2 ++ (seen (f r.1)).2) := by
  simp only [seen, andThen, notes_append]

variable {f : Conn → Conn × List Out} {r : Conn × List Out}

lemma seen_andThen {g : Session → Session × List Note} (h : ∀ c, seen (f c) = g c.session) :
    seen (andThen r f) = ((g (seen r).1).1, (seen r).2 ++ (g (seen r).1).2) := by
  rw [seen_andThen_eq, h r.1]
  rfl

lemma seen_andThen_of_hidden (h : Hidden r.1 (f r.1)) : seen (andThen r f) = seen r := by
  rw [seen_andThen_eq, h, append_nil]
  rfl

variable {c : Conn}

lemma Hidden.ite {p : Prop} [Decidable p] {r' : Conn × List Out} (h : Hidden c r)
    (h' : Hidden c r') : Hidden c (if p then r else r') := by
  split
  · exact h
  · exact h'

/-- A change of fields outside the session, without outputs. -/
lemma Hidden.quiet {c' : Conn} (h : c'.session = c.session) : Hidden c (c', []) := by
  rw [Hidden, seen, h, notes_nil]

lemma Hidden.of_session_eq {c' : Conn} (h : Hidden c' r) (hc : c'.session = c.session) : Hidden c r := by
  rw [Hidden, ← hc]
  exact h

lemma Hidden.andThen (hr : Hidden c r) (hf : Hidden r.1 (f r.1)) : Hidden c (andThen r f) :=
  (seen_andThen_of_hidden hf).trans hr

lemma Hidden.offer (h : Hidden c r) (data : Bytes) : Hidden c (offer data r) := h

/-- The signed difference of two sequence numbers vanishes only where they are equal. -/
lemma sub_toInt32_eq_zero {a b : UInt32} : (a - b).toInt32 = 0 ↔ a = b := by
  constructor
  · intro h
    have h0 : a - b = 0 := congrArg Int32.toUInt32 h
    grind
  · rintro rfl
    simp

/-! ### What the service does not see -/

lemma emitCtrl_hidden (c : Conn) (flags : Flags) : Hidden c (c.emitCtrl flags) := rfl

lemma sampleRtt_session (c : Conn) (r : UInt32) : (c.sampleRtt r).session = c.session := rfl

lemma rtxOnAck_session (c : Conn) (ack : UInt32) (now : UInt64) : (c.rtxOnAck ack now).session = c.session := by
  refine foldlRecOn (motive := fun x : Conn => x.session = c.session) c.rtx _ rfl ?_
  intro x hx e _
  split_ifs
  · exact hx
  · rw [sampleRtt_session, hx]
  · exact hx

lemma ccOnNewAck_session (c : Conn) (n : UInt32) : (c.ccOnNewAck n).session = c.session := by
  unfold ccOnNewAck
  split_ifs <;> simp only [session]

lemma resendOldest_hidden (c : Conn) (t : RtxEntry → UInt64) : Hidden c (c.resendOldest t) := by
  unfold resendOldest
  split <;> rfl

lemma ccOnDupack_hidden (c : Conn) : Hidden c c.ccOnDupack := by
  refine .ite (.quiet (by simp only [session])) (.ite (.quiet (by simp only [session])) ?_)
  exact (resendOldest_hidden _ _).of_session_eq (by simp only [session])

lemma tick_hidden (c : Conn) (now : UInt64) : Hidden c (c.tick now) := by
  unfold tick
  split
  · rfl
  · split
    · rfl
    · refine .ite rfl ?_
      exact (resendOldest_hidden c _).andThen (.quiet (by simp only [session, ccOnRto]))

lemma sendLoop_hidden (now : UInt64) (fuel : ℕ) (rest : Bytes) (c : Conn) :
    Hidden c (c.sendLoop now fuel rest).2 := by
  induction fuel generalizing rest c with
  | zero => rfl
  | succ fuel ih =>
    unfold sendLoop
    split
    · rfl
    · dsimp only
      split
      · rfl
      · rename_i c' hq
        have hc' : c'.session = c.session := by
          unfold rtxEnqueue at hq
          split_ifs at hq <;> cases hq <;> rfl
        have := ih (rest.drop mss) { c' with sndNxt := c'.sndNxt + UInt32.ofNat (rest.take mss).length }
        rw [Hidden, Prod.ext_iff] at this ⊢
        exact ⟨this.1.trans hc', this.2⟩

lemma sendAt_hidden (c : Conn) (data : Bytes) (now : UInt64) : Hidden c (c.sendAt data now).2 := by
  unfold sendAt
  split
  · rfl
  · exact sendLoop_hidden now _ data { c with rtoMs := if c.rtoMs = 0 then rtoInitMs else c.rtoMs }

lemma sendv_hidden (c : Conn) (iov : List Bytes) : Hidden c (c.sendv iov).2 := by
  unfold sendv
  split
  · rfl
  · split
    · rfl
    · exact sendAt_hidden c _ 0
    · split
      · rfl
      · exact sendAt_hidden c _ 0

lemma rcvConsumed_hidden (c : Conn) (n : UInt32) : Hidden c (c.rcvConsumed n) := by
  unfold rcvConsumed
  dsimp only
  split_ifs <;> rfl

lemma call_hidden (c : Conn) (a : Call) : Hidden c (c.call a) := by
  cases a with
  | sendAt data now => exact (sendAt_hidden c data now).offer data
  | sendv iov => exact (sendv_hidden c iov).offer iov.flatten
  | setRcvBufCap cap => rfl
  | rcvConsumed n => exact rcvConsumed_hidden c n

lemma calls_hidden (c : Conn) (l : List Call) : Hidden c (c.calls l) := by
  refine foldlRecOn (motive := Hidden c) l _ rfl ?_
  intro r hr a _
  exact hr.andThen (call_hidden r.1 a)

lemma onAck_hidden (c : Conn) (seg : Seg) (now : UInt64) : Hidden c (c.onAck seg now) := by
  refine .ite rfl (.ite (.quiet ?_) (.ite ?_ (.quiet ?_)))
  · rw [ccOnNewAck_session, rtxOnAck_session]
    simp only [session]
  · exact (ccOnDupack_hidden _).of_session_eq (by simp only [session])
  · simp only [session]

/-! ### What the service sees -/

lemma seen_fireClose (c : Conn) : seen c.fireClose = c.session.fireClose := by
  rcases hsvc : c.svc with _ | svc
  · simp [fireClose, Session.fireClose, session, seen, hsvc]
  rcases hopen : c.opened with _ | _
  · simp [fireClose, Session.fireClose, session, seen, hsvc, hopen]
  rcases hp : c.appState with _ | p
  · simp [fireClose, Session.fireClose, session, seen, hsvc, hopen, hp]
  rcases hclose : svc.onClose with _ | _
  all_goals simp [fireClose, Session.fireClose, session, seen, hsvc, hopen, hp, hclose]

lemma seen_shut (c : Conn) : seen c.shut = c.session.shut := by
  have h := seen_fireClose c
  rw [shut, seen_andThen (g := fun k => ({ k with state := .closed }, [])) fun _ => rfl, h]
  simp only [Session.shut, append_nil]

lemma seen_fireOpen (c : Conn) (b : Behaviour) :
    ((c.fireOpen b).1, seen (c.fireOpen b).2) = c.session.fireOpen b := by
  rcases hsvc : c.svc with _ | svc
  · simp [fireOpen, Session.fireOpen, session, seen, hsvc]
  rcases hopen : c.opened with _ | _
  · rcases hook : svc.onOpen with _ | _
    · simp [fireOpen, Session.fireOpen, session, seen, hsvc, hopen, hook]
    rcases hp : b.openState with _ | p
    all_goals
      simp [fireOpen, Session.fireOpen, session, seen, hsvc, hopen, hook, hp, emitCtrl, refreshWnd]
  · simp [fireOpen, Session.fireOpen, session, seen, hsvc, hopen]

lemma seen_cons (o : Out) (n : Note) (h : o.note = some n) (r : Conn × List Out) :
    seen (r.1, o :: r.2) = ((seen r).1, n :: (seen r).2) := by
  simp only [seen, notes, filterMap_cons, h]

lemma seen_driveServiceData (c : Conn) (data : Bytes) (b : Behaviour) {svc : Service} (hsvc : c.svc = some svc) :
    ((c.driveServiceData data b).1, seen (c.driveServiceData data b).2) = c.session.deliver data b := by
  have hv := (sendv_hidden c b.iov).offer b.iov.flatten
  have hk : c.session.svc = some svc := hsvc
  rw [driveServiceData, Session.deliver, hk]
  rcases b.status with _ | _ | _ | _ | _
  · rfl
  · rw [seen_cons _ (.data c.appState data) rfl, hv]
    rfl
  · rw [seen_cons _ (.data c.appState data) rfl,
      seen_andThen (g := fun k => ({ k with state := .lastAck }, [])) fun _ => rfl, hv]
    simp only [hk]
    rfl
  all_goals
    show (false, seen (_, _ :: _)) = _
    rw [seen_cons _ (.data c.appState data) rfl, seen_andThen (g := Session.shut) seen_shut]
    rfl

lemma seen_deliver (c : Conn) (data : Bytes) (b : Behaviour) :
    ((c.deliver data b).1, seen (c.deliver data b).2) = c.session.deliver data b := by
  unfold deliver
  split
  · rename_i svc hsvc
    exact seen_driveServiceData c data b hsvc
  · rename_i hsvc
    have hc := calls_hidden c b.calls
    rw [Session.deliver, show c.session.svc = none from hsvc]
    split
    · rw [seen_cons _ (.data none data) rfl, hc]
    · rfl

/-- The payload is taken after a delivery the service did not end. -/
lemma seen_advance {data : Bytes} {b : Behaviour} (hf : ∀ c, seen (f c) =
      ({ c.session with rcvNxt := c.rcvNxt + UInt32.ofNat data.length }, [])) :
    seen (andThen (c.deliver data b).2 f) = ({ (c.session.deliver data b).2.1 with
          rcvNxt := (c.session.deliver data b).2.1.rcvNxt + UInt32.ofNat data.length },
        (c.session.deliver data b).2.2) := by
  have h := seen_deliver c data b
  rw [seen_andThen (g := fun k => ({ k with rcvNxt := k.rcvNxt + UInt32.ofNat data.length }, [])) hf, ← h]
  simp only [append_nil]

lemma seen_takeFirst (c : Conn) (data : Bytes) (b : Behaviour) :
    seen (c.takeFirst data b) = (c.session.takePayload data b true).2 := by
  have h := seen_deliver c data b
  have h₁ : (c.deliver data b).1 = (c.session.deliver data b).1 := congrArg Prod.fst h
  have h₂ : seen (c.deliver data b).2 = (c.session.deliver data b).2 := congrArg Prod.snd h
  unfold takeFirst Session.takePayload
  dsimp only
  rw [h₁]
  split
  · rfl
  · split
    · exact h₂
    · exact seen_advance fun _ => rfl

lemma seen_takePayload (c : Conn) (data : Bytes) (b : Behaviour) :
    ∃ fits, ((c.takePayload data b).1, seen (c.takePayload data b).2) = c.session.takePayload data b fits := by
  have h := seen_deliver c data b
  have h₁ : (c.deliver data b).1 = (c.session.deliver data b).1 := congrArg Prod.fst h
  unfold takePayload Session.takePayload
  by_cases hdata : data = []
  · simp only [hdata]
    exact ⟨true, rfl⟩
  by_cases hfull : c.advertisedWnd = 0 ∨ data.length > c.advertisedWnd.toNat
  · refine ⟨false, ?_⟩
    simp only [hdata, hfull]
    rfl
  · refine ⟨true, ?_⟩
    simp only [hdata, hfull, if_false, not_true]
    by_cases hdone : (c.deliver data b).1 = true
    · have hdone' := h₁ ▸ hdone
      simp only [hdone, hdone', not_true, if_false]
      rw [seen_advance fun _ => rfl]
    · have hdone' := h₁ ▸ hdone
      rw [if_pos hdone, if_pos hdone', h]

lemma seen_takeFin (c : Conn) : seen c.takeFin = c.session.takeFin := by
  have hclose (c : Conn) (l : List Out) :
      seen (andThen (c, l) fireClose) = (c.session.fireClose.1, notes l ++ c.session.fireClose.2) :=
    seen_andThen seen_fireClose
  exact hclose _ _

lemma seen_receiveSynReceived (c : Conn) (seg : Seg) (now : UInt64) (b : Behaviour)
    (hrst : seg.flags.rst = false) (hstate : c.state = .synReceived) (fits : Bool) :
    seen (c.receiveSynReceived seg now b) = c.session.receive seg b (decide (c.completes seg)) fits := by
  rw [receiveSynReceived, Session.receive, hrst, show c.session.state = _ from hstate]
  by_cases hok : c.completes seg
  · have hstart : ({ rtxOnAck { c with sndUna := seg.ack } seg.ack now with state := .established } : Conn).session =
          { c.session with state := .established } := by
      have := rtxOnAck_session { c with sndUna := seg.ack } seg.ack now
      simp only [session, Session.mk.injEq] at this ⊢
      simp only [this, and_self]
    have hopen := seen_fireOpen { rtxOnAck { c with sndUna := seg.ack } seg.ack now with state := .established } b
    rw [hstart] at hopen
    simp only [hok, if_true, ← hopen]
    split
    · rfl
    · rw [seen_andThen (g := fun k => (k.takePayload seg.payload b true).2) fun c =>
        seen_takeFirst c seg.payload b]
      rfl
  · simp only [hok]
    rfl

lemma seen_takeBody (c : Conn) (seg : Seg) (b : Behaviour) :
    ∃ fits, seen (c.takeBody seg b) = c.session.takeBody seg b fits := by
  obtain ⟨fits, hfits⟩ := seen_takePayload c seg.payload b
  refine ⟨fits, ?_⟩
  rw [takeBody, Session.takeBody, ← hfits]
  split
  · rw [seen_andThen seen_takeFin]
  · rfl

lemma seen_receiveEstablished (c : Conn) (seg : Seg) (now : UInt64) (b : Behaviour)
    (hrst : seg.flags.rst = false) (hstate : c.state = .established) (ok : Bool) :
    ∃ fits, seen (c.receiveEstablished seg now b) = c.session.receive seg b ok fits := by
  have hack := onAck_hidden c seg now
  obtain ⟨fits, hfits⟩ := seen_takeBody (c.onAck seg now).1 seg b
  refine ⟨fits, ?_⟩
  rw [receiveEstablished, Session.receive, hrst, show c.session.state = _ from hstate]
  by_cases hseq : seg.seq = c.rcvNxt
  · rw [if_neg (not_not.2 (sub_toInt32_eq_zero.2 hseq)), seen_andThen_eq, hack, hfits,
      show (c.onAck seg now).1.session = c.session from congrArg Prod.fst hack]
    simp only [Bool.false_eq_true, if_false, show seg.seq = c.session.rcvNxt from hseq, ne_eq,
      not_true, nil_append]
  · rw [if_pos (sub_toInt32_eq_zero.not.2 hseq), emitCtrl_hidden]
    simp only [Bool.false_eq_true, if_false, ne_eq, show ¬ seg.seq = c.session.rcvNxt from hseq,
      not_false_eq_true, if_true]

/-- What the connection's reset or acknowledgement check says of a segment. -/
def grants (c : Conn) (seg : Seg) : Bool :=
  if seg.flags.rst then c.rstOk seg else decide (c.completes seg)

/-- A connection refines its session. -/
theorem seen_receive (c : Conn) (seg : Seg) (now : UInt64) (b : Behaviour) :
    ∃ fits, seen (c.receive seg now b) = c.session.receive seg b (c.grants seg) fits := by
  rw [receive, grants]
  rcases hrst : seg.flags.rst with _ | _
  · rw [if_neg Bool.false_ne_true]
    rcases hstate : c.state
    case synReceived =>
      exact ⟨true, seen_receiveSynReceived c seg now b hrst hstate true⟩
    case established => exact seen_receiveEstablished c seg now b hrst hstate _
    all_goals
      refine ⟨true, ?_⟩
      rw [Session.receive, hrst, show c.session.state = _ from hstate]
    case lastAck =>
      by_cases hok : c.completes seg
      · have hok' := hok
        rw [completes] at hok'
        simp only [hok, hok', and_self, if_true, decide_true, seen_shut, if_false, Bool.false_eq_true]
      · have hok' := hok
        rw [completes] at hok'
        simp only [hok, hok']
        rfl
    all_goals
      simp only [emitRst]
      split <;> rfl
  · refine ⟨true, ?_⟩
    rw [Session.receive, hrst]
    by_cases hok : c.rstOk seg
    · simp only [hok, if_true, seen_shut]
    · simp only [hok]
      rfl

end Conn

/-! ### Slots -/

/-- What an event can do to the session on a slot, and the notes it leaves there. -/
inductive Move (s : Stack) (i : Slot) : Event → Session × List Note → Prop
  | idle (e : Event) : Move s i e ((s.conns i).session, [])
  | receive {seg : Seg} {now : UInt64} {b : Behaviour} (fits : Bool) (h : s.route seg = .conn i) :
      Move s i (.input seg now b) ((s.conns i).session.receive seg b ((s.conns i).grants seg) fits)
  | accept {seg : Seg} {now : UInt64} {b : Behaviour} {svc : Option Service}
      (h : s.route seg = .accept i svc) :
      Move s i (.input seg now b) (⟨.synReceived, seg.seq + 1, svc, none, false⟩, [.accepted])

namespace Stack

/-- Everything an event does to the session on a slot. -/
theorem turn_move (s : Stack) (e : Event) (i : Slot) :
    Move s i e (Conn.seen ((s.turn e).1.conns i, onSlot i (s.turn e).2)) := by
  have hturn := s.turn_slot e i
  generalize ((s.turn e).1.conns i, onSlot i (s.turn e).2) = r at hturn ⊢
  cases hturn with
  | idle => exact .idle e
  | receive hroute =>
    obtain ⟨fits, hfits⟩ := Conn.seen_receive (s.conns i) _ _ _
    rw [hfits]
    exact .receive fits hroute
  | accept hroute => exact .accept hroute
  | tick now =>
    rw [Conn.tick_hidden (s.conns i) now]
    exact .idle _
  | call a =>
    rw [Conn.call_hidden (s.conns i) a]
    exact .idle _

end Stack

namespace World

def session (w : World) (i : Slot) : Session := (w.stack.conns i).session

def notes (w : World) (i : Slot) : List Note := Tcp.notes (onSlot i w.log)

lemma step_move (w : World) (e : Event) (i : Slot) :
    ∃ r, Move w.stack i e r ∧ (w.step e).session i = r.1 ∧ (w.step e).notes i = w.notes i ++ r.2 := by
  refine ⟨_, w.stack.turn_move e i, rfl, ?_⟩
  simp only [notes, step, onSlot_append, notes_append, Conn.seen]

/-- A SYN that takes a slot. -/
lemma step_accept {w : World} {seg : Seg} {i : Slot} {svc : Option Service}
    (h : w.stack.route seg = .accept i svc) (now : UInt64) (b : Behaviour) :
    (w.step (.input seg now b)).session i = ⟨.synReceived, seg.seq + 1, svc, none, false⟩ ∧
      (w.step (.input seg now b)).notes i = w.notes i ++ [.accepted] := by
  have hput := w.stack.put_self i (Stack.accept (w.stack.conns i) seg (w.stack.issDerive seg now) svc)
  simp only [session, notes, step, Stack.turn, Stack.input, h, onSlot_append, notes_append]
  have hconn := congrArg Prod.fst hput
  have hout := congrArg Prod.snd hput
  dsimp only at hconn hout
  rw [hconn, hout]
  exact ⟨rfl, rfl⟩

end World

end Tcp
