import Picoweb.Tcp.Session

/-!
# The lifecycle contract of services

Which callback a service may see when: `on_open` after the handshake, `on_data` between a successful
`on_open` and `on_close`, and one `on_close` for each successful `on_open` before the slot serves
another connection.
-/

namespace Tcp

open ByteFile Conn

/-! ### The contract -/

/-- Where a slot stands in the life of the connections it serves. -/
inductive Life
  /-- No connection yet. -/
  | idle
  /-- A SYN was answered. -/
  | half
  /-- The handshake was acknowledged. -/
  | ready
  /-- The service returned null from `on_open`. -/
  | refused
  /-- The service holds the state `p`. -/
  | running (p : ℕ)
  /-- `on_close` was called. -/
  | ended
  deriving DecidableEq, Repr

/-- The contract: `none` where the note is not allowed at this point. -/
def Life.next : Life → Note → Option Life
  | .running _, .accepted => none
  | .ready, .accepted => none
  | _, .accepted => some .half
  | .half, .established => some .ready
  | .ready, .opened none => some .refused
  | .ready, .opened (some p) => some (.running p)
  | .running p, .data (some q) _ => if p = q then some (.running p) else none
  | .running p, .fin => some (.running p)
  | .running p, .closed q => if p = q then some .ended else none
  | _, _ => none

/-- The contract over a sequence of notes. -/
def Life.after (l : Life) (ns : List Note) : Option Life := ns.foldlM Life.next l

def Life.AtRest : Life → Prop
  | .running _ | .ready => False
  | _ => True

namespace Life

@[simp] lemma after_nil (l : Life) : l.after [] = some l := rfl

@[simp] lemma after_cons (l : Life) (n : Note) (ns : List Note) :
    l.after (n :: ns) = (l.next n).bind fun l' => l'.after ns := rfl

lemma after_append (l : Life) (ns ns' : List Note) :
    l.after (ns ++ ns') = (l.after ns).bind fun l' => l'.after ns' := by
  simp [after]

lemma AtRest.next_accepted {l : Life} (h : l.AtRest) : l.next .accepted = some .half := by
  cases l <;> first | rfl | cases h

end Life

/-! ### Sessions keep it -/

/-- The service defines both hooks. -/
def Session.Hooked (k : Session) : Prop :=
  ∃ svc, k.svc = some svc ∧ svc.onOpen = true ∧ svc.onClose = true

/-- The session is at this point of the contract. -/
inductive Stage (k : Session) : Life → Prop
  | closed {l : Life} (hstate : k.state = .closed) (h : l.AtRest) : Stage k l
  | half (hstate : k.state = .synReceived) (hsvc : k.Hooked) (hopen : k.opened = false) : Stage k .half
  | running {p : ℕ} (hstate : k.state = .established ∨ k.state = .lastAck) (hsvc : k.Hooked)
      (hopen : k.opened = true) (happ : k.appState = some p) : Stage k (.running p)
  | ended (hstate : k.state = .lastAck) (hsvc : k.Hooked) (hopen : k.opened = false) : Stage k .ended

variable {k : Session}

/-- A closed session holds no service state. -/
lemma Stage.atRest {l : Life} (h : Stage k l) (hclosed : k.state = .closed) : l.AtRest := by
  cases h with
  | closed _ hrest => exact hrest
  | half hstate => cases hstate.symm.trans hclosed
  | running hstate =>
    rcases hstate with hstate | hstate <;> cases hstate.symm.trans hclosed
  | ended hstate => cases hstate.symm.trans hclosed

/-- What a call does to a session continues the contract. -/
def Continues (l : Life) (r : Session × List Note) : Prop := ∃ l', l.after r.2 = some l' ∧ Stage r.1 l'

namespace Session

lemma fireClose_of_not_opened (hopen : k.opened = false) : k.fireClose = (k, []) := by
  unfold fireClose
  split
  · rfl
  · rw [if_pos (by simp [hopen])]

lemma fireClose_of_opened {p : ℕ} (hsvc : k.Hooked) (hopen : k.opened = true) (happ : k.appState = some p) :
    k.fireClose = ({ k with appState := none, opened := false }, [.closed p]) := by
  obtain ⟨svc, hk, -, hclose⟩ := hsvc
  simp [fireClose, hk, hopen, happ, hclose]

lemma shut_continues {l : Life} (h : Stage k l) (hstate : k.state ≠ .closed) : Continues l k.shut := by
  cases h with
  | closed hclosed => exact absurd hclosed hstate
  | half _ _ hopen =>
    rw [shut, fireClose_of_not_opened hopen]
    exact ⟨.half, rfl, .closed rfl trivial⟩
  | running _ hsvc hopen happ =>
    rw [shut, fireClose_of_opened hsvc hopen happ]
    exact ⟨.ended, by simp [Life.next], .closed rfl trivial⟩
  | ended _ _ hopen =>
    rw [shut, fireClose_of_not_opened hopen]
    exact ⟨.ended, rfl, .closed rfl trivial⟩

/-- The session is at work for a service that holds `p`. -/
structure Serving (k : Session) (p : ℕ) : Prop where
  state : k.state = .established ∨ k.state = .lastAck
  svc : k.Hooked
  opened : k.opened = true
  app : k.appState = some p

lemma Serving.stage {p : ℕ} (h : k.Serving p) : Stage k (.running p) :=
  .running h.state h.svc h.opened h.app

/-- A payload is handed over, and the service goes on or ends the connection. -/
lemma Serving.takePayload {p : ℕ} (h : k.Serving p) (data : Bytes) (b : Behaviour) (fits : Bool) :
    ∃ l, (Life.running p).after (k.takePayload data b fits).2.2 = some l ∧ Stage (k.takePayload data b fits).2.1 l ∧
      ((k.takePayload data b fits).1 = true → (k.takePayload data b fits).2.1.Serving p ∧ l = .running p) := by
  have htaken := takePayload_taken k data b fits
  generalize k.takePayload data b fits = r at htaken ⊢
  cases htaken with
  | empty | full => exact ⟨_, rfl, h.stage, fun _ => ⟨h, rfl⟩⟩
  | unheard _ hsvc | called _ hsvc =>
    obtain ⟨svc, hk, -⟩ := h.svc
    rw [hk] at hsvc
    cases hsvc
  | @served state _ _ hstate =>
    have hserve : Serving { k with rcvNxt := k.rcvNxt + UInt32.ofNat data.length, state := state } p :=
      { state := by rcases hstate with rfl | rfl
                    · exact h.state
                    · exact .inr rfl
        svc := h.svc
        opened := h.opened
        app := h.app }
    refine ⟨.running p, ?_, hserve.stage, fun _ => ⟨hserve, rfl⟩⟩
    simp [h.app, Life.next]
  | ended =>
    have hne : k.state ≠ .closed := by
      rcases h.state with hs | hs <;> rw [hs] <;> decide
    obtain ⟨l, hl, hstage⟩ := shut_continues h.stage hne
    refine ⟨l, ?_, hstage, nofun⟩
    simpa [h.app, Life.next] using hl

lemma Serving.takeFin {p : ℕ} (h : k.Serving p) :
    (Life.running p).after k.takeFin.2 = some .ended ∧ Stage k.takeFin.1 .ended := by
  have hclose := fireClose_of_opened (k := { k with rcvNxt := k.rcvNxt + 1, state := .lastAck }) h.svc h.opened h.app
  rw [Session.takeFin, hclose]
  exact ⟨by simp [Life.next], .ended rfl h.svc rfl⟩

/-- An established session takes what a segment carries. -/
lemma Serving.takeBody {p : ℕ} (h : k.Serving p) (seg : Seg) (b : Behaviour)
    (fits : Bool) : Continues (.running p) (k.takeBody seg b fits) := by
  obtain ⟨l, hl, hstage, hserve⟩ := h.takePayload seg.payload b fits
  rw [Session.takeBody]
  split
  · rename_i hfin
    obtain ⟨hserving, rfl⟩ := hserve hfin.1
    refine ⟨.ended, ?_, hserving.takeFin.2⟩
    rw [Life.after_append, hl]
    exact hserving.takeFin.1
  · exact ⟨l, hl, hstage⟩

/-- The acknowledgement of the handshake opens the service, which may refuse. -/
lemma open_continues (hsvc : k.Hooked) (hopen : k.opened = false) (seg : Seg)
    (b : Behaviour) (hrst : seg.flags.rst = false) (hstate : k.state = .synReceived) (fits : Bool) :
    Continues .half (k.receive seg b true fits) := by
  obtain ⟨svc, hk, hhook, hclose⟩ := hsvc
  rw [receive, hrst, hstate]
  rcases hstart : b.openState with _ | p
  · refine ⟨.refused, ?_, .closed ?_ trivial⟩
    all_goals simp [fireOpen, hk, hopen, hhook, hstart, Life.next]
  · have hserving : Serving { k with state := .established, appState := some p, opened := true } p :=
      ⟨.inl rfl, ⟨svc, hk, hhook, hclose⟩, rfl, rfl⟩
    obtain ⟨l, hl, hstage, -⟩ := hserving.takePayload seg.payload b true
    refine ⟨l, ?_, ?_⟩
    · simpa [fireOpen, hk, hopen, hhook, hstart, Life.next] using hl
    · simpa [fireOpen, hk, hopen, hhook, hstart] using hstage

/-- Every segment continues the contract. -/
lemma receive_continues {l : Life} (h : Stage k l) (seg : Seg) (b : Behaviour)
    (ok fits : Bool) (hlive : k.state ≠ .closed) : Continues l (k.receive seg b ok fits) := by
  have hstay : Continues l (k, []) := ⟨l, rfl, h⟩
  rcases hrst : seg.flags.rst with _ | _
  · cases h with
    | closed hstate => exact absurd hstate hlive
    | half hstate hsvc hopen =>
      cases ok with
      | false => rw [receive, hrst, hstate]; exact hstay
      | true => exact open_continues hsvc hopen seg b hrst hstate fits
    | running hstate hsvc hopen happ =>
      rcases hstate with hstate | hstate
      · rw [receive, hrst, hstate]
        by_cases hseq : seg.seq = k.rcvNxt
        · simpa [hseq] using Serving.takeBody ⟨.inl hstate, hsvc, hopen, happ⟩ seg b fits
        · simpa [hseq] using hstay
      · rw [receive, hrst, hstate]
        cases ok with
        | false => exact hstay
        | true => exact shut_continues (.running (.inr hstate) hsvc hopen happ) hlive
    | ended hstate hsvc hopen =>
      rw [receive, hrst, hstate]
      cases ok with
      | false => exact hstay
      | true => exact shut_continues (.ended hstate hsvc hopen) hlive
  · rw [receive, hrst]
    cases ok with
    | false => exact hstay
    | true => exact shut_continues h hlive

end Session

/-! ### Runs keep it -/

/-- Every service of the table defines `on_open` and `on_close`. -/
def AllHooked (services : List Service) : Prop :=
  ∀ svc ∈ services, svc.onOpen = true ∧ svc.onClose = true

lemma Stack.turn_dispatch (s : Stack) (e : Event) : (s.turn e).1.dispatch = s.dispatch := by
  cases e with
  | input seg now b =>
    rw [turn, input]
    split <;> rfl
  | tick | call => rfl

/-- The stack dispatches to these services, and every slot keeps the contract. -/
structure World.Kept (services : List Service) (w : World) : Prop where
  dispatch : w.stack.dispatch = some services
  slots : ∀ i, ∃ l, Life.idle.after (w.notes i) = some l ∧ Stage (w.session i) l

lemma World.Kept.move {services : List Service} (hhooked : AllHooked services) {w : World}
    (h : w.Kept services) {i : Slot} {l : Life} (hstage : Stage (w.session i) l) {e : Event}
    {r : Session × List Note} (hmove : Move w.stack i e r) : Continues l r := by
  cases hmove with
  | idle => exact ⟨l, rfl, hstage⟩
  | receive fits hroute =>
    exact Session.receive_continues hstage _ _ _ _ (Stack.route_conn hroute)
  | @accept seg now b svc hroute =>
    obtain ⟨hport, hclosed⟩ := Stack.route_accept hroute
    have hrest : l.AtRest := hstage.atRest hclosed
    rw [Stack.portAccepts, h.dispatch] at hport
    obtain ⟨found, hfound, rfl⟩ := Option.map_eq_some_iff.1 hport
    have hhooks := hhooked found (List.mem_of_find?_eq_some hfound)
    refine ⟨.half, ?_, .half rfl ⟨found, rfl, hhooks⟩ rfl⟩
    rw [Life.after_cons, hrest.next_accepted]
    rfl

lemma World.Kept.step {services : List Service} (hhooked : AllHooked services) {w : World}
    (h : w.Kept services) (e : Event) : (w.step e).Kept services where
  dispatch := (w.stack.turn_dispatch e).trans h.dispatch
  slots i := by
    obtain ⟨l, hl, hstage⟩ := h.slots i
    obtain ⟨r, hmove, hsession, hnotes⟩ := w.step_move e i
    obtain ⟨l', hl', hstage'⟩ := h.move hhooked hstage hmove
    refine ⟨l', ?_, hsession ▸ hstage'⟩
    rw [hnotes, Life.after_append, hl]
    exact hl'

/-- For services that define both hooks, whatever they answer and whatever arrives, the callbacks on
every slot follow the contract, and a closed slot holds no service state. -/
theorem lifecycle_contract (ip : UInt32) (services : List Service) (hhooked : AllHooked services)
    (secret : Bytes) (events : List Event) (i : Slot) :
    let w := events.foldl World.step ⟨(Stack.attachDispatch ip services).setIssSecret secret, []⟩
    ∃ l, Life.idle.after (w.notes i) = some l ∧ ((w.stack.conns i).state = .closed → l.AtRest) := by
  intro w
  have hinit : World.Kept services ⟨(Stack.attachDispatch ip services).setIssSecret secret, []⟩ :=
    ⟨rfl, fun _ => ⟨.idle, rfl, .closed rfl trivial⟩⟩
  have hkept : w.Kept services := List.foldlRecOn events World.step hinit fun w hw e _ => hw.step hhooked e
  obtain ⟨l, hl, hstage⟩ := hkept.slots i
  exact ⟨l, hl, hstage.atRest⟩

/-! A connection to an echo service: it opens, echoes one byte and is reset. -/

def echo : Service where
  port := 7
  onOpen := true
  onClose := true

def echoSyn : Seg where
  srcIp := 2
  dstIp := 1
  srcPort := 4000
  dstPort := 7
  seq := 100
  ack := 0
  flags := { syn := true }
  window := 1024

def echoRun : List Event :=
  let iss := (Stack.attachDispatch 1 [echo]).issDerive echoSyn 0
  [.input echoSyn 0 {},
    .input { echoSyn with seq := 101, ack := iss + 1, flags := { ack := true }, payload := [65] } 0
      { openState := some 9, status := .output, iov := [[65]] },
    .input { echoSyn with seq := 102, ack := iss + 2, flags := { rst := true, ack := true } } 0 {}]

theorem lifecycle_contract_echo :
    let w := echoRun.foldl World.step ⟨(Stack.attachDispatch 1 [echo]).setIssSecret (List.replicate 16 0), []⟩
    AllHooked [echo] ∧ w.notes 0 = [.accepted, .established, .opened (some 9), .data (some 9) [65], .closed 9] ∧
      ∃ l, Life.idle.after (w.notes 0) = some l ∧ ((w.stack.conns 0).state = .closed → l.AtRest) := by
  have hhooked : AllHooked [echo] := by simp [AllHooked, echo]
  exact ⟨hhooked, by decide +kernel, lifecycle_contract 1 [echo] hhooked _ echoRun 0⟩

end Tcp
