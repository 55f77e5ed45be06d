import Picoweb.Tcp.Session

/-!
# Slots that serve one connection after the other

A SYN takes a closed slot and fills in a new control block. The receive-buffer accounting, the
retransmit queue and the round-trip estimator stay as the last connection left them. Stacks that differ
only inside closed slots should not be told apart later, and what a connection sends should come from
its own owner.
-/

namespace Tcp

open ByteFile Conn List

/-- The fields a SYN does not set. -/
structure Leftover where
  rcvBufCap : UInt32
  rcvBufUsed : UInt32
  rtx : List RtxEntry
  srttMs : UInt32
  rttvarMs : UInt32
  rtoMs : UInt32
  deriving DecidableEq

def Conn.leftover (c : Conn) : Leftover where
  rcvBufCap := c.rcvBufCap
  rcvBufUsed := c.rcvBufUsed
  rtx := c.rtx
  srttMs := c.srttMs
  rttvarMs := c.rttvarMs
  rtoMs := c.rtoMs

/-- A SYN makes slots equal that agree in what it leaves. -/
lemma Stack.accept_congr {c d : Conn} (h : c.leftover = d.leftover) (seg : Seg) (iss : UInt32)
    (svc : Option Service) : accept c seg iss svc = accept d seg iss svc := by
  simp only [leftover, Leftover.mk.injEq] at h
  obtain ⟨hcap, hused, hrtx, hsrtt, hvar, hrto⟩ := h
  have hopening : opening c seg iss svc = opening d seg iss svc := by
    simp only [opening, hcap, hused, hrtx, hsrtt, hvar, hrto]
  rw [accept, accept, hopening]

/-! ### Stacks that differ in closed slots -/

/-- The stacks are configured alike, and slots differ only where both are closed. -/
structure Stack.Same (s t : Stack) : Prop where
  localIp : s.localIp = t.localIp
  listenPort : s.listenPort = t.listenPort
  dispatch : s.dispatch = t.dispatch
  issSecret : s.issSecret = t.issSecret
  conns : ∀ i, s.conns i = t.conns i ∨ (s.conns i).state = .closed ∧ (t.conns i).state = .closed

lemma Conn.tick_of_closed {c : Conn} (h : c.state = .closed) (now : UInt64) : c.tick now = (c, []) := by
  rw [tick]
  simp [h]

def Conn.Call.offers : Call → List Out
  | .sendAt data _ => [.offered data]
  | .sendv iov => [.offered iov.flatten]
  | .setRcvBufCap _ | .rcvConsumed _ => []

/-- A call on a closed slot is without effect outside it. -/
lemma Conn.call_of_closed {c : Conn} (h : c.state = .closed) (a : Call) :
    (c.call a).1.state = .closed ∧ (c.call a).2 = a.offers := by
  have hne : c.state ≠ .established := by
    rw [h]
    decide
  cases a with
  | sendAt data now =>
    have hrefuse : c.Refuses data now := .inl hne
    rw [call, sendAt, if_pos hrefuse]
    exact ⟨h, rfl⟩
  | sendv iov =>
    have hsendv : c.sendv iov = (-1, c, []) := if_pos hne
    rw [call, hsendv]
    exact ⟨h, rfl⟩
  | setRcvBufCap cap => exact ⟨h, rfl⟩
  | rcvConsumed n =>
    rw [call, rcvConsumed]
    split
    · exact ⟨h, rfl⟩
    · rw [if_neg (by simp [hne])]
      exact ⟨h, rfl⟩

namespace Stack.Same

variable {s t : Stack}

lemma state_eq (h : s.Same t) (i : Slot) : (s.conns i).state = .closed ↔ (t.conns i).state = .closed := by
  rcases h.conns i with heq | ⟨hs, ht⟩
  · rw [heq]
  · simp only [hs, ht]

lemma findConn_eq (h : s.Same t) (seg : Seg) : s.findConn seg = t.findConn seg := by
  have hserves : (fun i => serves (s.conns i) seg) = fun i => serves (t.conns i) seg := by
    funext i
    rcases h.conns i with heq | ⟨hs, ht⟩
    · rw [heq]
    · simp [serves, hs, ht]
  rw [findConn, findConn, hserves]

lemma allocConn_eq (h : s.Same t) : s.allocConn = t.allocConn := by
  have hclosed : (fun i => decide ((s.conns i).state = .closed)) = fun i => decide ((t.conns i).state = .closed) := by
    funext i
    exact decide_eq_decide.2 (h.state_eq i)
  rw [allocConn, allocConn, hclosed]

lemma route_eq (h : s.Same t) (seg : Seg) : s.route seg = t.route seg := by
  have hport : s.portAccepts seg.dstPort = t.portAccepts seg.dstPort := by
    rw [portAccepts, portAccepts, h.dispatch, h.listenPort]
  rw [route, route, h.localIp, hport, h.findConn_eq, h.allocConn_eq]

/-- Putting the same connection into both keeps them the same. -/
lemma put (h : s.Same t) (i : Slot) {r q : Conn × List Out}
    (hconn : r.1 = q.1 ∨ r.1.state = .closed ∧ q.1.state = .closed) (hout : r.2 = q.2) :
    (s.put i r).2 = (t.put i q).2 ∧ (s.put i r).1.Same (t.put i q).1 := by
  refine ⟨?_, { h with conns := fun j => ?_ }⟩
  · simp only [Stack.put, hout]
  · by_cases hj : j = i
    · subst hj
      simpa only [Stack.put, Function.update_self] using hconn
    · simpa only [Stack.put, Function.update_of_ne hj] using h.conns j

end Stack.Same

/-- A SYN takes the slot in both stacks only where its leftovers agree and its retransmit queue is
empty. -/
def SlotsFresh (p : World × World) : Event → Prop
  | .input seg _ _ =>
    ∀ i svc, p.1.stack.route seg = .accept i svc →
      (p.1.stack.conns i).leftover = (p.2.stack.conns i).leftover ∧ (p.1.stack.conns i).rtx = []
  | _ => True

/-- Both worlds see the same event. -/
def stepBoth (p : World × World) (e : Event) : World × World := (p.1.step e, p.2.step e)

/-- One event does the same to both. -/
lemma Stack.Same.turn {v w : World} (h : v.stack.Same w.stack) {e : Event} (hok : SlotsFresh (v, w) e) :
    (v.stack.turn e).2 = (w.stack.turn e).2 ∧ (v.stack.turn e).1.Same (w.stack.turn e).1 := by
  cases e with
  | input seg now b =>
    have hroute := h.route_eq seg
    rcases hv : v.stack.route seg with _ | i | ⟨i, svc⟩
    · simp only [Stack.turn, Stack.input, ← hroute, hv]
      exact ⟨trivial, h⟩
    · simp only [Stack.turn, Stack.input, ← hroute, hv]
      rcases h.conns i with heq | ⟨hclosed, -⟩
      · rw [heq]
        exact h.put i (.inl rfl) rfl
      · exact absurd hclosed (route_conn hv)
    · have hsame := accept_congr (hok i svc hv).1 seg (w.stack.issDerive seg now) svc
      have hiss : v.stack.issDerive seg now = w.stack.issDerive seg now := by
        rw [issDerive, issDerive, h.issSecret]
      simp only [Stack.turn, Stack.input, ← hroute, hv, hiss, hsame]
      exact h.put i (.inl rfl) rfl
  | tick now =>
    have htick (i : Slot) : ((v.stack.conns i).tick now).2 = ((w.stack.conns i).tick now).2 := by
      rcases h.conns i with heq | ⟨hv, hw⟩
      · rw [heq]
      · rw [tick_of_closed hv, tick_of_closed hw]
    refine ⟨?_, { h with conns := fun i => ?_ }⟩
    · simp only [Stack.turn, Stack.tick, htick]
    · rcases h.conns i with heq | ⟨hv, hw⟩
      · left
        simp only [Stack.turn, Stack.tick, heq]
      · right
        simp only [Stack.turn, Stack.tick, tick_of_closed hv, tick_of_closed hw]
        exact ⟨hv, hw⟩
  | call i a =>
    rcases h.conns i with heq | ⟨hv, hw⟩
    · simp only [Stack.turn, heq]
      exact h.put i (.inl rfl) rfl
    · have hv' := call_of_closed hv a
      have hw' := call_of_closed hw a
      exact h.put i (.inr ⟨hv'.1, hw'.1⟩) (hv'.2.trans hw'.2.symm)

/-! ### Where the bytes of a segment come from -/

/-- The bytes are a piece of something that was handed over. -/
def Piece (offered : List Bytes) (bytes : Bytes) : Prop := bytes = [] ∨ ∃ d ∈ offered, bytes <:+: d

/-- What has been handed over on a slot since a SYN took it. -/
def offeredAfter (offered : List Bytes) : List Out → List Bytes
  | [] => offered
  | .accepted :: l => offeredAfter [] l
  | .offered d :: l => offeredAfter (d :: offered) l
  | _ :: l => offeredAfter offered l

/-- Every segment carries a piece of what was handed over since the SYN. -/
def OwnPayloads (offered : List Bytes) : List Out → Prop
  | [] => True
  | .accepted :: l => OwnPayloads [] l
  | .offered d :: l => OwnPayloads (d :: offered) l
  | .seg s :: l => Piece offered s.payload ∧ OwnPayloads offered l
  | _ :: l => OwnPayloads offered l

lemma offeredAfter_append (offered : List Bytes) (l l' : List Out) :
    offeredAfter offered (l ++ l') = offeredAfter (offeredAfter offered l) l' := by
  induction l generalizing offered with
  | nil => rfl
  | cons o l ih => cases o <;> exact ih _

lemma ownPayloads_append {offered : List Bytes} {l l' : List Out} :
    OwnPayloads offered (l ++ l') ↔ OwnPayloads offered l ∧ OwnPayloads (offeredAfter offered l) l' := by
  induction l generalizing offered with
  | nil => simp [OwnPayloads, offeredAfter]
  | cons o l ih => cases o <;> simp [OwnPayloads, offeredAfter, ih, and_assoc]

/-- The queue holds pieces of what was handed over. -/
def Covered (offered : List Bytes) (queue : List RtxEntry) : Prop := ∀ e ∈ queue, Piece offered e.payload

lemma Conn.rtxOnAck_rtx (c : Conn) (ack : UInt32) (now : UInt64) :
    (c.rtxOnAck ack now).rtx = c.rtx.filter (outstanding ack) := by
  refine foldlRecOn (motive := fun x : Conn => x.rtx = c.rtx.filter (outstanding ack)) c.rtx _ rfl ?_
  intro x hx e _
  split_ifs <;> exact hx

lemma Conn.ccOnNewAck_rtx (c : Conn) (n : UInt32) : (c.ccOnNewAck n).rtx = c.rtx := by
  unfold ccOnNewAck
  split_ifs <;> rfl

lemma Covered.cons {offered : List Bytes} {queue : List RtxEntry} (h : Covered offered queue) (d : Bytes) :
    Covered (d :: offered) queue := by
  intro e he
  rcases h e he with hnil | ⟨x, hx, hpiece⟩
  · exact .inl hnil
  · exact .inr ⟨x, mem_cons_of_mem d hx, hpiece⟩

/-- A call sends and leaves queued only what was handed over. -/
structure Own (offered : List Bytes) (r : Conn × List Out) : Prop where
  out : OwnPayloads offered r.2
  queue : Covered (offeredAfter offered r.2) r.1.rtx

namespace Own

variable {offered : List Bytes} {c : Conn}

lemma andThen {r : Conn × List Out} {f : Conn → Conn × List Out} (hr : Own offered r)
    (hf : ∀ offered, Covered offered r.1.rtx → Own offered (f r.1)) : Own offered (andThen r f) := by
  have h := hf _ hr.queue
  refine ⟨ownPayloads_append.2 ⟨hr.out, h.out⟩, ?_⟩
  rw [Tcp.andThen, offeredAfter_append]
  exact h.queue

lemma ite {p : Prop} [Decidable p] {r r' : Conn × List Out} (h : Own offered r)
    (h' : Own offered r') : Own offered (if p then r else r') := by
  split
  · exact h
  · exact h'

lemma offer {d : Bytes} {r : Conn × List Out} (h : Own (d :: offered) r) : Own offered (offer d r) :=
  ⟨h.out, h.queue⟩

lemma emitCtrl (h : Covered offered c.rtx) (flags : Flags) : Own offered (c.emitCtrl flags) :=
  ⟨⟨.inl rfl, trivial⟩, h⟩

lemma rcvConsumed (h : Covered offered c.rtx) (n : UInt32) : Own offered (c.rcvConsumed n) := by
  exact .ite ⟨trivial, h⟩ (.ite ⟨⟨.inl rfl, trivial⟩, h⟩ ⟨trivial, h⟩)

lemma resendOldest (h : Covered offered c.rtx) (t : RtxEntry → UInt64) : Own offered (c.resendOldest t) := by
  unfold Conn.resendOldest
  split
  · exact ⟨trivial, h⟩
  · rename_i e rest hrtx
    rw [hrtx] at h
    refine ⟨⟨h e mem_cons_self, trivial⟩, fun x hx => ?_⟩
    rcases mem_cons.1 hx with rfl | hx
    · exact h e mem_cons_self
    · exact h x (mem_cons_of_mem e hx)

lemma ccOnDupack (h : Covered offered c.rtx) : Own offered c.ccOnDupack := by
  refine .ite ⟨trivial, h⟩ (.ite ⟨trivial, h⟩ (.resendOldest ?_ _))
  exact h

lemma tick (h : Covered offered c.rtx) (now : UInt64) : Own offered (c.tick now) := by
  refine .ite ⟨trivial, h⟩ ?_
  split
  · exact ⟨trivial, h⟩
  · exact .ite ⟨trivial, h⟩ ((Own.resendOldest h _).andThen fun _ hc => ⟨trivial, hc⟩)

/-- The loop sends and queues pieces of the payload. -/
lemma sendLoop (now : UInt64) (fuel : ℕ) {rest : Bytes} (h : Covered offered c.rtx)
    (hrest : ∃ d ∈ offered, rest <:+: d) : Own offered (c.sendLoop now fuel rest).2 := by
  induction fuel generalizing rest c with
  | zero => exact ⟨trivial, h⟩
  | succ fuel ih =>
    obtain ⟨d, hd, hin⟩ := hrest
    have hchunk : Piece offered (rest.take mss) :=
      .inr ⟨d, hd, (List.take_prefix _ _).isInfix.trans hin⟩
    have hleft : ∃ d ∈ offered, rest.drop mss <:+: d := ⟨d, hd, (drop_suffix _ _).isInfix.trans hin⟩
    unfold Conn.sendLoop
    split
    · exact ⟨trivial, h⟩
    · dsimp only
      split
      · exact ⟨⟨hchunk, trivial⟩, h⟩
      · rename_i c' hq
        have hcover : Covered offered c'.rtx := by
          unfold rtxEnqueue at hq
          split_ifs at hq
          · cases hq
            intro e he
            rcases mem_append.1 he with he | he
            · exact h e he
            · rw [mem_singleton.1 he]
              exact hchunk
          · cases hq
            exact h
        have hrec := ih (c := { c' with sndNxt := c'.sndNxt + UInt32.ofNat (rest.take mss).length }) hcover hleft
        exact ⟨⟨hchunk, hrec.out⟩, hrec.queue⟩

lemma sendAt (h : Covered offered c.rtx) {data : Bytes} (hdata : ∃ d ∈ offered, data <:+: d)
    (now : UInt64) : Own offered (c.sendAt data now).2 := by
  unfold Conn.sendAt
  split
  · exact ⟨trivial, h⟩
  · exact Own.sendLoop (c := { c with rtoMs := if c.rtoMs = 0 then rtoInitMs else c.rtoMs }) now _ h hdata

lemma sendv (h : Covered offered c.rtx) (iov : List Bytes) :
    Own offered (Conn.offer iov.flatten (c.sendv iov).2) := by
  have h' := h.cons iov.flatten
  apply Own.offer
  unfold Conn.sendv
  split
  · exact ⟨trivial, h'⟩
  · split
    · exact ⟨trivial, h'⟩
    · exact .sendAt h' ⟨_, mem_cons_self, by simp⟩ 0
    · split
      · exact ⟨trivial, h'⟩
      · exact .sendAt h' ⟨_, mem_cons_self, infix_rfl⟩ 0

lemma call (h : Covered offered c.rtx) (a : Call) : Own offered (c.call a) := by
  cases a with
  | sendAt data now =>
    apply Own.offer
    exact .sendAt (h.cons data) ⟨data, mem_cons_self, infix_rfl⟩ now
  | sendv iov => exact .sendv h iov
  | setRcvBufCap cap => exact ⟨trivial, h⟩
  | rcvConsumed n => exact .rcvConsumed h n

lemma calls (h : Covered offered c.rtx) (l : List Call) : Own offered (c.calls l) := by
  refine foldlRecOn (motive := Own offered) l _ ⟨trivial, h⟩ ?_
  intro r hr a _
  exact hr.andThen fun _ hc => .call hc a

lemma fireOpen (h : Covered offered c.rtx) (b : Behaviour) : Own offered (c.fireOpen b).2 := by
  unfold Conn.fireOpen
  split
  · exact ⟨trivial, h⟩
  · split
    · exact ⟨trivial, h⟩
    · split
      · exact ⟨trivial, h⟩
      · split
        · exact ⟨⟨.inl rfl, trivial⟩, h⟩
        · exact ⟨trivial, h⟩

lemma fireClose (h : Covered offered c.rtx) : Own offered c.fireClose := by
  unfold Conn.fireClose
  split
  · exact ⟨trivial, h⟩
  · refine .ite ⟨trivial, h⟩ ?_
    split
    · split <;> exact ⟨trivial, h⟩
    · exact ⟨trivial, h⟩

lemma shut (h : Covered offered c.rtx) : Own offered c.shut :=
  (Own.fireClose h).andThen fun _ hc => ⟨trivial, hc⟩

lemma onData {r : Conn × List Out} (h : Own offered r) (p : Option ℕ) (data : Bytes) :
    Own offered (r.1, .onData p data :: r.2) := ⟨h.out, h.queue⟩

lemma deliver (h : Covered offered c.rtx) (data : Bytes) (b : Behaviour) : Own offered (c.deliver data b).2 := by
  unfold Conn.deliver
  split
  · unfold Conn.driveServiceData
    split
    · exact ⟨trivial, h⟩
    · exact (Own.sendv h b.iov).onData _ _
    · refine ((Own.sendv h b.iov).andThen fun _ hc => ?_).onData _ _
      exact (Own.emitCtrl hc _).andThen fun _ hc => ⟨trivial, hc⟩
    · exact ((Own.emitCtrl h _).andThen fun _ hc => .shut hc).onData _ _
    · exact ((Own.emitCtrl h _).andThen fun _ hc => .shut hc).onData _ _
  · split
    · exact (Own.calls h b.calls).onData _ _
    · exact ⟨trivial, h⟩

lemma takeFirst (h : Covered offered c.rtx) (data : Bytes) (b : Behaviour) : Own offered (c.takeFirst data b) := by
  refine .ite ⟨trivial, h⟩ (.ite (.deliver h data b) ((Own.deliver h data b).andThen ?_))
  intro offered hc
  apply Own.emitCtrl
  exact hc

lemma takePayload (h : Covered offered c.rtx) (data : Bytes) (b : Behaviour) :
    Own offered (c.takePayload data b).2 := by
  unfold Conn.takePayload
  split
  · exact ⟨trivial, h⟩
  · split
    · exact .emitCtrl h _
    · dsimp only
      split
      · exact .deliver h data b
      · dsimp only
        apply Own.andThen (.deliver h data b)
        intro offered hc
        apply Own.emitCtrl
        exact hc

lemma takeFin (h : Covered offered c.rtx) : Own offered c.takeFin := by
  apply Own.andThen
  · apply Own.emitCtrl
    exact h
  intro offered hc
  apply Own.andThen (.emitCtrl hc _)
  intro offered hc
  apply Own.andThen
  · exact ⟨trivial, hc⟩
  intro offered hc
  exact .fireClose hc

lemma takeBody (h : Covered offered c.rtx) (seg : Seg) (b : Behaviour) : Own offered (c.takeBody seg b) := by
  refine .ite ((Own.takePayload h seg.payload b).andThen ?_) (.takePayload h seg.payload b)
  intro offered hc
  exact .takeFin hc

lemma onAck (h : Covered offered c.rtx) (seg : Seg) (now : UInt64) : Own offered (c.onAck seg now) := by
  refine .ite ⟨trivial, h⟩ (.ite ⟨trivial, ?_⟩ (.ite ?_ ⟨trivial, h⟩))
  · rw [ccOnNewAck_rtx, rtxOnAck_rtx]
    exact fun e he => h e (mem_of_mem_filter he)
  · apply Own.ccOnDupack
    exact h

/-- An acknowledgement of the handshake drops what it covers. -/
lemma receiveSynReceived (h : Covered offered c.rtx) (seg : Seg) (now : UInt64) (b : Behaviour) :
    Own offered (c.receiveSynReceived seg now b) := by
  have hdrop : Covered offered (rtxOnAck { c with sndUna := seg.ack } seg.ack now).rtx := by
    rw [rtxOnAck_rtx]
    exact fun e he => h e (mem_of_mem_filter he)
  unfold Conn.receiveSynReceived
  split
  · have hopen : Own offered
        (Conn.fireOpen { rtxOnAck { c with sndUna := seg.ack } seg.ack now with state := .established } b).2 := by
      apply Own.fireOpen
      exact hdrop
    refine .ite ⟨hopen.out, hopen.queue⟩ (Own.andThen ⟨hopen.out, hopen.queue⟩ ?_)
    intro offered hc
    exact .takeFirst hc seg.payload b
  · exact ⟨trivial, h⟩

lemma receive (h : Covered offered c.rtx) (seg : Seg) (now : UInt64) (b : Behaviour) :
    Own offered (c.receive seg now b) := by
  refine .ite (.ite (.shut h) ⟨trivial, h⟩) ?_
  split
  · exact .receiveSynReceived h seg now b
  · refine .ite (.emitCtrl h _) ((Own.onAck h seg now).andThen ?_)
    intro offered hc
    exact .takeBody hc seg b
  · exact .ite (.shut h) ⟨trivial, h⟩
  · refine ⟨?_, ?_⟩
    · unfold emitRst
      split <;> exact ⟨.inl rfl, trivial⟩
    · unfold emitRst
      split <;> exact h

lemma accept (hrtx : c.rtx = []) (seg : Seg) (iss : UInt32) (svc : Option Service) :
    Own offered (Stack.accept c seg iss svc) := by
  have hnil : Covered [] c.rtx := by
    rw [hrtx]
    nofun
  exact ⟨⟨.inl rfl, trivial⟩, hnil⟩

end Own

/-! ### Runs -/

/-- The slot's log carries only what was handed over on it, given what its queue held at the start,
and the queue of a connection at work holds nothing else. -/
structure SlotOwn (start : List Bytes) (c : Conn) (log : List Out) : Prop where
  out : OwnPayloads start log
  queue : c.state ≠ .closed → Covered (offeredAfter start log) c.rtx

/-- A call on a closed slot sends nothing. -/
lemma ownPayloads_offers (offered : List Bytes) (a : Call) : OwnPayloads offered a.offers := by
  cases a <;> exact trivial

lemma SlotOwn.step {start : List Bytes} {v w : World} {e : Event} (hok : SlotsFresh (v, w) e) {i : Slot}
    (h : SlotOwn start (v.stack.conns i) (onSlot i v.log)) :
    SlotOwn start ((v.step e).stack.conns i) (onSlot i (v.step e).log) := by
  have hlog : onSlot i (v.step e).log = onSlot i v.log ++ onSlot i (v.stack.turn e).2 :=
    onSlot_append i _ _
  have hjoin {r : Conn × List Out} (hr : Own (offeredAfter start (onSlot i v.log)) r) :
      SlotOwn start r.1 (onSlot i v.log ++ r.2) := by
    refine ⟨ownPayloads_append.2 ⟨h.out, hr.out⟩, fun _ => ?_⟩
    rw [offeredAfter_append]
    exact hr.queue
  have hturn := v.stack.turn_slot e i
  rw [hlog]
  show SlotOwn start ((v.stack.turn e).1.conns i, onSlot i (v.stack.turn e).2).1
    (onSlot i v.log ++ ((v.stack.turn e).1.conns i, onSlot i (v.stack.turn e).2).2)
  generalize ((v.stack.turn e).1.conns i, onSlot i (v.stack.turn e).2) = r at hturn ⊢
  cases hturn with
  | idle =>
    rw [append_nil]
    exact h
  | receive hroute => exact hjoin (.receive (h.queue (Stack.route_conn hroute)) _ _ _)
  | accept hroute => exact hjoin (.accept (hok i _ hroute).2 _ _ _)
  | tick now =>
    by_cases hclosed : (v.stack.conns i).state = .closed
    · rw [tick_of_closed hclosed, append_nil]
      exact h
    · exact hjoin (.tick (h.queue hclosed) now)
  | call a =>
    by_cases hclosed : (v.stack.conns i).state = .closed
    · obtain ⟨hstill, hout⟩ := call_of_closed hclosed a
      rw [hout]
      exact ⟨ownPayloads_append.2 ⟨h.out, ownPayloads_offers _ a⟩, fun hopen => absurd hstill hopen⟩
    · exact hjoin (.call (h.queue hclosed) a)

/-- What holds of a pair of worlds along a run. -/
structure Alike (start : Slot → List Bytes) (p : World × World) : Prop where
  log : p.1.log = p.2.log
  same : p.1.stack.Same p.2.stack
  own : ∀ i, SlotOwn (start i) (p.1.stack.conns i) (onSlot i p.1.log)

lemma Alike.step {start : Slot → List Bytes} {p : World × World} {e : Event} (h : Alike start p)
    (hok : SlotsFresh p e) : Alike start (stepBoth p e) where
  log := by
    simp only [stepBoth, World.step, h.log, (h.same.turn hok).1]
  same := (h.same.turn hok).2
  own i := (h.own i).step hok

/-- As long as every SYN finds a slot with equal leftovers and an empty queue, stacks that differ only
in closed slots cannot be told apart, and no connection sends what was handed over for another. -/
theorem slots_do_not_leak (s t : Stack) (hsame : s.Same t) (events : List Event)
    (hrun : Run.Guarded stepBoth SlotsFresh (⟨s, []⟩, ⟨t, []⟩) events) :
    let p := events.foldl stepBoth (⟨s, []⟩, ⟨t, []⟩)
    p.1.log = p.2.log ∧ p.1.stack.Same p.2.stack ∧
      ∀ i, OwnPayloads ((s.conns i).rtx.map RtxEntry.payload) (onSlot i p.1.log) := by
  have hstart : Alike (fun i => (s.conns i).rtx.map RtxEntry.payload) (⟨s, []⟩, ⟨t, []⟩) := by
    refine ⟨rfl, hsame, fun i => ⟨trivial, fun _ e he => .inr ⟨e.payload, ?_, infix_rfl⟩⟩⟩
    exact mem_map_of_mem he
  have hend := hrun.invariant (P := Alike _) (fun p e h hok => h.step hok) hstart
  exact ⟨hend.log, hend.same, fun i => (hend.own i).out⟩

/-! A peer is sent two bytes and resets the connection before it acknowledges them. Another peer then
gets the slot. -/

def synFrom (ip : UInt32) : Seg where
  srcIp := ip
  dstIp := 1
  srcPort := 4000
  dstPort := 80
  seq := 100
  ack := 0
  flags := { syn := true }
  window := 1024

/-- The acknowledgement of the handshake that began at this time. -/
def ackFrom (ip : UInt32) (now : UInt64) : Seg :=
  { synFrom ip with
    seq := 101
    ack := (Stack.listen 1 80).issDerive (synFrom ip) now + 1
    flags := { ack := true } }

local instance : NeZero tableSize := ⟨nofun⟩

def firstPeer : List Event :=
  [.input (synFrom 2) 1 {}, .input (ackFrom 2 1) 2 {}, .call 1 (.sendAt [115, 51] 3),
    .input { ackFrom 2 1 with flags := { rst := true, ack := true } } 4 {}]

def secondPeer : List Event :=
  [.input (synFrom 3) 5 {}, .input (ackFrom 3 5) 6 {}, .tick 2005]

def usedSlot : Stack := (firstPeer.foldl World.step ⟨Stack.listen 1 80, []⟩).stack

/-- The second peer is sent the bytes of the first. -/
theorem second_peer_gets_first_payload : usedSlot.Same (Stack.listen 1 80) ∧
      (secondPeer.foldl World.step ⟨usedSlot, []⟩).log ≠ (secondPeer.foldl World.step ⟨Stack.listen 1 80, []⟩).log ∧
      ∃ s, (1, Out.seg s) ∈ (secondPeer.foldl World.step ⟨usedSlot, []⟩).log ∧
        s.dstIp = 3 ∧ s.payload = [115, 51] := by
  refine ⟨⟨rfl, rfl, rfl, rfl, by decide +kernel⟩, by decide +kernel, ?_⟩
  refine ⟨⟨1, 3, 80, 4000, 1065701415, 101, { psh := true, ack := true }, 65535, [115, 51]⟩, ?_, rfl, rfl⟩
  decide +kernel

/-- The slot after a peer that was sent nothing and reset its connection. -/
def quietSlot : Stack :=
  ([Event.input (synFrom 2) 1 {}, .input (ackFrom 2 1) 2 {},
    .input { ackFrom 2 1 with flags := { rst := true, ack := true } } 4 {}].foldl World.step ⟨Stack.listen 1 80, []⟩).stack

/-- A peer that is sent two bytes cannot tell that slot from one nobody has used. -/
theorem slots_do_not_leak_quiet :
    let events := secondPeer ++ [.call 1 (.sendAt [115, 51] 2006)]
    let p := events.foldl stepBoth (⟨quietSlot, []⟩, ⟨Stack.listen 1 80, []⟩)
    quietSlot.conns 1 ≠ (Stack.listen 1 80).conns 1 ∧ p.1.log = p.2.log ∧ OwnPayloads [] (onSlot 1 p.1.log) := by
  intro events p
  have hsame : quietSlot.Same (Stack.listen 1 80) := ⟨rfl, rfl, rfl, rfl, by decide +kernel⟩
  have hsyn : quietSlot.route (synFrom 3) = .accept 1 none := by decide +kernel
  have hack : (World.step ⟨quietSlot, []⟩ (.input (synFrom 3) 5 {})).stack.route (ackFrom 3 5) = .conn 1 := by
    decide +kernel
  have hrun : Run.Guarded stepBoth SlotsFresh (⟨quietSlot, []⟩, ⟨Stack.listen 1 80, []⟩) events := by
    refine ⟨fun i svc h => ?_, fun i svc h => ?_, trivial, trivial, trivial⟩
    · cases hsyn.symm.trans h
      decide +kernel
    · cases hack.symm.trans h
  obtain ⟨hlog, -, hown⟩ := slots_do_not_leak _ _ hsame _ hrun
  have hqueue : (quietSlot.conns 1).rtx = [] := by decide +kernel
  have hown' := hown 1
  rw [hqueue] at hown'
  exact ⟨by decide +kernel, hlog, hown'⟩

end Tcp
