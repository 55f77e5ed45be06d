import Picoweb.Tls.Calls

/-!
# Early data

Several engines share one ticket store. A ticket whose binder was right is marked as used before its early data
is accepted, and a used ticket is not eligible any more, so that every insertion of a ticket leads to at most
one handshake that accepts early data. How much of it gets into APP_IN is limited by the ticket.
-/

namespace Tls

open ByteFile List Function Option Engine

/-! ### The store during a ClientHello -/

namespace TicketStore

/-- Tickets have been dropped or marked as used, and nothing else. -/
def Shrinks (s s' : TicketStore) : Prop :=
  ∀ i t', s' i = some t' → ∃ t, s i = some t ∧ (t'.used = false → t.used = false)

lemma Shrinks.refl (s : TicketStore) : Shrinks s s := fun _ t' h => ⟨t', h, id⟩

lemma Shrinks.trans {s₁ s₂ s₃ : TicketStore} (h₁ : Shrinks s₁ s₂) (h₂ : Shrinks s₂ s₃) : Shrinks s₁ s₃ := by
  intro i t₃ hi
  obtain ⟨t₂, hi₂, hused₂⟩ := h₂ i t₃ hi
  obtain ⟨t₁, hi₁, hused₁⟩ := h₁ i t₂ hi₂
  exact ⟨t₁, hi₁, fun hfresh => hused₁ (hused₂ hfresh)⟩

lemma shrinks_drop (s : TicketStore) (i : Slot) : Shrinks s (update s i none) := by
  intro j t' hj
  by_cases hij : j = i
  · rw [hij, update_self] at hj
    cases hj
  · rw [update_of_ne hij] at hj
    exact ⟨t', hj, id⟩

lemma shrinks_consume (s : TicketStore) (i : Slot) : Shrinks s (s.consume i) := by
  intro j t' hj
  rw [consume] at hj
  by_cases hij : j = i
  · rw [hij, update_self, map_eq_some_iff] at hj
    obtain ⟨t, hi, rfl⟩ := hj
    exact ⟨t, hij ▸ hi, nofun⟩
  · rw [update_of_ne hij] at hj
    exact ⟨t', hj, id⟩

end TicketStore

open TicketStore

/-- What the offers of a ClientHello do to the store: the ticket that is selected is there, and used from then
on. -/
lemma selectPsk_store (msg : Bytes) (ch : ClientHello) (nowMs i : ℕ) (offers : List (PskIdentity × PskBinder))
    (store : TicketStore) : Shrinks store (selectPsk msg ch nowMs i offers store).1 ∧
      ∀ sel, (selectPsk msg ch nowMs i offers store).2 = some sel →
        ∃ t, (selectPsk msg ch nowMs i offers store).1 sel.slot = some t ∧ t.used = true := by
  induction offers generalizing i store with
  | nil => exact ⟨.refl store, nofun⟩
  | cons offer offers ih =>
    obtain ⟨id, binder⟩ := offer
    rw [selectPsk]
    rcases lookup_spec store ((msg.drop id.off).take id.len) nowMs with
      ⟨slot, hlookup⟩ | hlookup | ⟨slot, t, hlookup, hslot, -⟩
    · rw [hlookup]
      obtain ⟨hshrinks, hused⟩ := ih (i + 1) (update store slot none)
      exact ⟨(shrinks_drop store slot).trans hshrinks, hused⟩
    · rw [hlookup]
      exact ih (i + 1) store
    · rw [hlookup]
      dsimp only
      split
      · refine ⟨shrinks_consume store slot, fun sel hsel => ?_⟩
        cases hsel
        refine ⟨{ t with used := true }, ?_, rfl⟩
        dsimp only
        rw [consume, update_self, hslot, map_some]
      · exact ih (i + 1) store

lemma acceptPsk_store (ctx : ServerCtx) (msg : Bytes) (ch : ClientHello) (store : TicketStore) :
    Shrinks store (acceptPsk ctx msg ch store).1 ∧ ∀ sel, (acceptPsk ctx msg ch store).2 = some sel →
      store sel.slot = some sel.ticket ∧ ∃ t, (acceptPsk ctx msg ch store).1 sel.slot = some t ∧ t.used = true := by
  rw [acceptPsk]
  split
  · obtain ⟨hshrinks, hused⟩ := selectPsk_store msg ch ctx.nowMs 0 (ch.pskIds.zip ch.pskBinders) store
    exact ⟨hshrinks, fun sel hsel => ⟨(selectPsk_eq_some (Prod.ext rfl hsel)).1, hused sel hsel⟩⟩
  · exact ⟨.refl store, nofun⟩

namespace Engine

variable {cfg : ServerConfig}

/-- The ticket whose early data the step accepts. -/
def takesEarly (eng : Engine (serverSuite cfg)) (env : ServerEnv) : Option Selection :=
  if eng.state = .handshake ∧ (tryDriveHandshakeServer (S := serverSuite cfg) env eng).1 = .progress ∧
      (tryDriveHandshakeServer (S := serverSuite cfg) env eng).2.earlyDataPhase = .active then
    (eng.storeAfter env.store).2
  else none

lemma storeAfter_shrinks (eng : Engine (serverSuite cfg)) (store : TicketStore) :
    Shrinks store (eng.storeAfter store).1 := by
  unfold storeAfter
  split
  · exact .refl store
  split
  · exact .refl store
  split
  · exact .refl store
  split
  · exact .refl store
  split
  · exact .refl store
  · exact (acceptPsk_store _ _ _ _).1

/-- A ClientHello that is taken goes through the store. -/
lemma storeAfter_of_drive {eng eng' : Engine (serverSuite cfg)} {env : ServerEnv} (hstate : eng.state = .handshake)
    (hdrive : tryDriveHandshakeServer (S := serverSuite cfg) env eng = (.progress, eng')) :
    ∃ g : Greeting cfg, eng' = eng.greeted (g.hello eng.ctx) ∧
      eng.storeAfter env.store = acceptPsk eng.ctx g.msg g.ch env.store ∧
      g.sel = (acceptPsk eng.ctx g.msg g.ch env.store).2 := by
  unfold tryDriveHandshakeServer at hdrive
  split_ifs at hdrive with hidle htype hlen hcomplete
  · cases hdrive
  · cases hdrive
  · cases hdrive
  · cases hdrive
  · split at hdrive
    · cases hdrive
    · rename_i hello hhello
      obtain ⟨g, hmsg, hsel, rfl⟩ := clientHello_eq_some hhello
      split at hdrive
      · cases hdrive
      · cases hdrive
        refine ⟨g, rfl, ?_, ?_⟩
        · have hidle' : ¬ (eng.state ≠ .handshake ∨ eng.configured = false ∨ eng.hsPhase ≠ .waitCh ∨
              eng.rx.length < recordHeaderLen) := not_or.2 ⟨not_not.2 hstate, hidle⟩
          rw [storeAfter, if_neg hidle', if_neg htype, if_neg hlen, if_neg hcomplete, ← hmsg, g.parsed]
        · rw [hmsg]
          exact hsel

/-- Early data is taken for the ticket that was selected, up to its limit. -/
lemma early_of_drive {eng eng' : Engine (serverSuite cfg)} {env : ServerEnv} (hstate : eng.state = .handshake)
    (hdrive : tryDriveHandshakeServer (S := serverSuite cfg) env eng = (.progress, eng'))
    (hactive : eng'.earlyDataPhase = .active) :
    ∃ sel, (eng.storeAfter env.store).2 = some sel ∧ eng.takesEarly env = some sel ∧
      eng'.earlyDataMax = sel.ticket.maxEarlyData ∧ sel.ticket.used = false ∧
      env.store sel.slot = some sel.ticket ∧ ∃ t, (eng.storeAfter env.store).1 sel.slot = some t ∧ t.used = true := by
  obtain ⟨g, rfl, hstore, hsel⟩ := storeAfter_of_drive hstate hdrive
  have hsome : g.early.isSome = true := by
    rw [← g.isSome_earlyMax eng.ctx]
    by_contra hnone
    have hpassive : (eng.greeted (g.hello eng.ctx)).earlyDataPhase = .none := if_neg hnone
    cases hpassive.symm.trans hactive
  obtain ⟨sel, hearly⟩ := isSome_iff_exists.1 hsome
  obtain ⟨hselected, haccepts⟩ := filter_eq_some_iff.1 hearly
  rw [hselected] at hsel
  have hsecond : (eng.storeAfter env.store).2 = some sel := by rw [hstore, ← hsel]
  obtain ⟨hslot, hused⟩ := (acceptPsk_store eng.ctx g.msg g.ch env.store).2 sel hsel.symm
  refine ⟨sel, hsecond, ?_, ?_, ?_, hslot, ?_⟩
  · rw [takesEarly, if_pos ⟨hstate, by rw [hdrive], by rw [hdrive]; exact hactive⟩]
    exact hsecond
  · change (g.hello eng.ctx).earlyMax.getD 0 = sel.ticket.maxEarlyData
    simp only [Greeting.hello, g.isSome_earlySecret, hearly, isSome_some, if_true, map_some,
      getD_some]
  · simp only [acceptsEarly, Ticket.canEarlyData, Bool.and_eq_true, Bool.not_eq_true'] at haccepts
    exact haccepts.2.1
  · rw [hstore]
    exact hused

lemma takesEarly_eq_some {eng : Engine (serverSuite cfg)} {env : ServerEnv} {sel : Selection}
    (h : eng.takesEarly env = some sel) : eng.state = .handshake ∧ sel.ticket.used = false ∧
      env.store sel.slot = some sel.ticket ∧ ∃ t, (eng.storeAfter env.store).1 sel.slot = some t ∧ t.used = true := by
  have htakes := h
  rw [takesEarly] at h
  split at h
  · rename_i hcond
    obtain ⟨hstate, hprogress, hactive⟩ := hcond
    obtain ⟨sel', -, htakes', -, hrest⟩ := early_of_drive hstate (Prod.ext hprogress rfl) hactive
    cases htakes.symm.trans htakes'
    exact ⟨hstate, hrest⟩
  · cases h

/-- Only an engine that waits for its ClientHello takes early data. -/
lemma takesEarly_of_ne {eng : Engine (serverSuite cfg)} {env : ServerEnv}
    (h : eng.state ≠ .handshake ∨ eng.hsPhase ≠ .waitCh) : eng.takesEarly env = none := by
  rw [takesEarly, if_neg]
  rintro ⟨hstate, hprogress, -⟩
  rcases h with h | h
  · exact h hstate
  · have hidle : tryDriveHandshakeServer (S := serverSuite cfg) env eng = (.idle, eng) := if_pos (.inr (.inl h))
    rw [hidle] at hprogress
    cases hprogress

end Engine

/-! ### Engines that share a store -/

/-- An engine, the insertion and the ticket whose early data its handshake has accepted, how many bytes were
taken from its APP_IN, and how many had been delivered when its handshake ended, in APP or in FAILED. -/
structure Conn (cfg : ServerConfig) where
  eng : Engine (serverSuite cfg)
  taken : Option (ℕ × Ticket)
  drained : ℕ
  atEnd : Option ℕ

namespace Conn

variable {cfg : ServerConfig}

def init (configured : Bool) : Conn cfg := ⟨Engine.init ServerCtx.init configured, none, 0, none⟩

/-- What came out of APP_IN or is still there. -/
def delivered (c : Conn cfg) : ℕ := c.drained + c.eng.appIn.length

def limit (c : Conn cfg) : ℕ := (c.taken.map fun p => p.2.maxEarlyData).getD 0

/-- A call; `origin` says which insertion filled each slot. -/
def call (c : Conn cfg) (origin : Slot → ℕ) (call : ServerCall) : Conn cfg where
  eng := c.eng.serverCall call
  taken := match call with
    | .step env => ((c.eng.takesEarly env).map fun sel => (origin sel.slot, sel.ticket)).or c.taken
    | _ => c.taken
  drained := match call with
    | .port (.appInAck n) => if c.eng.appIn.length < n then c.drained else c.drained + n
    | _ => c.drained
  atEnd := match call with
    | .step env =>
      if c.eng.Finishes call then some (c.drained + (c.eng.appStart env).appIn.length)
      else if c.eng.state = .handshake ∧ (c.eng.step env).2.state = .failed then
        some (c.drained + (c.eng.step env).2.appIn.length)
      else c.atEnd
    | _ => c.atEnd

/-! ### How much early data gets through -/

/-- What was delivered is what the engine has counted, and both stay within the limit. -/
structure Bounded (c : Conn cfg) : Prop where
  delivered : c.eng.state = .handshake → c.delivered = c.eng.earlyDataSeen
  waiting : c.eng.state = .handshake → c.eng.hsPhase = .waitCh → c.eng.earlyDataSeen = 0
  active : c.eng.state = .handshake → c.eng.hsPhase ≠ .waitCh → c.eng.earlyDataPhase = .active →
    c.eng.earlyDataMax = c.limit
  seen : c.eng.state = .handshake → c.eng.earlyDataSeen ≤ c.limit
  before : c.eng.state = .handshake → c.atEnd = none
  atEnd : ∀ n, c.atEnd = some n → n ≤ c.limit

lemma bounded_init (configured : Bool) : (init configured : Conn cfg).Bounded where
  delivered _ := rfl
  waiting _ _ := rfl
  active _ h := absurd rfl h
  seen _ := le_rfl
  before _ := rfl
  atEnd := nofun

variable {c : Conn cfg} {env : ServerEnv} (origin : Slot → ℕ)

lemma limit_call_of_none (h : c.eng.takesEarly env = none) : (c.call origin (.step env)).limit = c.limit := by
  simp only [limit, call, h, map_none, none_or]

lemma limit_call_of_some {sel : Selection} (h : c.eng.takesEarly env = some sel) :
    (c.call origin (.step env)).limit = sel.ticket.maxEarlyData := by
  simp only [limit, call, h, map_some, some_or, getD_some]

/-- What every round of the handshake keeps; `limit` is the one that holds behind the step. -/
structure Counts (c : Conn cfg) (limit : ℕ) (eng : Engine (serverSuite cfg)) : Prop where
  delivered : c.drained + eng.appIn.length = eng.earlyDataSeen
  first : eng.hsPhase = .waitCh → eng = c.eng
  active : eng.hsPhase ≠ .waitCh → eng.earlyDataPhase = .active → eng.earlyDataMax = limit
  seen : eng.hsPhase ≠ .waitCh → eng.earlyDataSeen ≤ limit

lemma Counts.advance (h : c.Bounded) {eng eng' : Engine (serverSuite cfg)}
    (hcounts : c.Counts (c.call origin (.step env)).limit eng) (hstate : eng.state = .handshake)
    (hadvance : Engine.Advance (S := serverSuite cfg) env eng eng') :
    c.Counts (c.call origin (.step env)).limit eng' := by
  have hfirst : eng'.hsPhase = .waitCh → eng' = c.eng := fun hwait => absurd hwait hadvance.hsPhase_ne
  cases hadvance with
  | hello hphase hrecord hhello hdrive =>
    obtain rfl := hcounts.first hphase
    refine ⟨hcounts.delivered, hfirst, fun _ hactive => ?_, fun _ => ?_⟩
    · obtain ⟨sel, -, htakes, hmax, -⟩ := early_of_drive hstate hdrive hactive
      rw [limit_call_of_some origin htakes]
      exact hmax
    · exact (h.waiting hstate hphase).le.trans (Nat.zero_le _)
  | flight hphase hflight hseal =>
    have hwaiting : eng.hsPhase ≠ .waitCh := by rw [hphase]; exact nofun
    obtain ⟨tx, write, appOut, recordsOut, rfl⟩ := Engine.OnlySeals.sealHandshakeMsgs hseal
    exact ⟨hcounts.delivered, nofun, fun _ => hcounts.active hwaiting, fun _ => hcounts.seen hwaiting⟩
  | changeCipherSpec hphase => exact ⟨hcounts.delivered, hfirst, hcounts.active, hcounts.seen⟩
  | early hphase hactive hopen hmax =>
    have hwaiting : eng.hsPhase ≠ .waitCh := by rw [hphase]; exact nofun
    refine ⟨?_, hfirst, hcounts.active, fun _ => ?_⟩
    · rw [length_append, ← Nat.add_assoc, hcounts.delivered]
    · rw [← hcounts.active hwaiting hactive]
      exact hmax
  | endOfEarlyData hphase hactive hopen => exact ⟨hcounts.delivered, hfirst, nofun, hcounts.seen⟩
  | finished hphase hpassive hrecord hopen hlen hhead hfinished =>
    exact ⟨hcounts.delivered, hfirst, hcounts.active, hcounts.seen⟩

lemma Bounded.spin (h : c.Bounded) (hstate : c.eng.state = .handshake) {eng : Engine (serverSuite cfg)}
    (hspin : (handshakeSpin (S := serverSuite cfg) env 8 c.eng).1 = some eng) :
    c.Counts (c.call origin (.step env)).limit eng := by
  refine (handshakeSpin_invariant (P := c.Counts (c.call origin (.step env)).limit)
    (fun e e' he hcounts hadvance => hcounts.advance origin h he hadvance) 8 hstate ?_ hspin).1
  have hlimit : c.eng.hsPhase ≠ .waitCh → (c.call origin (.step env)).limit = c.limit :=
    fun hphase => limit_call_of_none origin (takesEarly_of_ne (.inr hphase))
  refine ⟨h.delivered hstate, fun _ => rfl, fun hphase hactive => ?_, fun hphase => ?_⟩
  · rw [hlimit hphase]
    exact h.active hstate hphase hactive
  · rw [hlimit hphase]
    exact h.seen hstate

/-- A port in the handshake delivers nothing new. -/
lemma delivered_port (hstate : c.eng.state = .handshake) (p : Port) :
    (c.call origin (.port p)).delivered = c.delivered := by
  have happ : c.eng.state ≠ .app := by rw [hstate]; exact nofun
  cases p with
  | rxAck _ | txAck _ =>
    dsimp only [call, serverCall, port, rxAck, txAck]
    split <;> rfl
  | appInAck n =>
    dsimp only [delivered, call, serverCall, port, appInAck]
    by_cases hrefused : c.eng.appIn.length < n
    · rw [if_pos hrefused, if_pos hrefused]
    · rw [if_neg hrefused, if_neg hrefused, length_drop]
      omega
  | appOutPush _ | appSealIov _ | emitSessionTicket _ =>
    simp only [call, serverCall, port, appOutPush, appSealIov,
      emitSessionTicket.eq_def, ne_eq, happ, not_false_eq_true, true_or, if_true]

lemma Bounded.port (h : c.Bounded) (p : Port) : (c.call origin (.port p)).Bounded := by
  obtain ⟨rx, tx, appIn, appOut, write, recordsOut, heq, -⟩ := c.eng.port_eq p
  have heng : (c.call origin (.port p)).eng = _ := heq
  constructor
  case delivered =>
    intro hstate
    have hstate' : c.eng.state = .handshake := by
      rw [heng] at hstate
      exact hstate
    rw [delivered_port origin hstate', heng]
    exact h.delivered hstate'
  case waiting =>
    rw [heng]
    exact h.waiting
  case active =>
    rw [heng]
    exact h.active
  case seen =>
    rw [heng]
    exact h.seen
  case before =>
    rw [heng]
    exact h.before
  case atEnd => exact h.atEnd

/-- Outside the handshake only what was delivered before matters. -/
lemma Bounded.of_ne (hstate : c.eng.state ≠ .handshake) (hat : ∀ n, c.atEnd = some n → n ≤ c.limit) : c.Bounded where
  delivered h := absurd h hstate
  waiting h := absurd h hstate
  active h := absurd h hstate
  seen h := absurd h hstate
  before h := absurd h hstate
  atEnd := hat

/-- What was taken from APP_IN in the handshake is within the limit that holds behind the step. -/
lemma Bounded.drained_le (h : c.Bounded) (hstate : c.eng.state = .handshake) :
    c.drained ≤ (c.call origin (.step env)).limit := by
  have hdrained : c.drained ≤ c.eng.earlyDataSeen := (Nat.le_add_right _ _).trans (h.delivered hstate).le
  by_cases hwait : c.eng.hsPhase = .waitCh
  · exact hdrained.trans ((h.waiting hstate hwait).le.trans (Nat.zero_le _))
  · rw [limit_call_of_none origin (takesEarly_of_ne (.inr hwait))]
    exact hdrained.trans (h.seen hstate)

/-- A handshake that fails leaves nothing in APP_IN. -/
lemma appIn_of_fails (hstate : c.eng.state = .handshake) (hunfinished : ¬ c.eng.Finishes (.step env))
    (hfailed : (step (S := serverSuite cfg) env c.eng).2.state = .failed) : (c.eng.step env).2.appIn = [] := by
  have hend := step_end (S := serverSuite cfg) env c.eng
  generalize (c.eng.step env).2 = eng' at hend hfailed ⊢
  cases hend with
  | failed hended => cases hstate.symm.trans hended
  | fails => rfl
  | waits _ _ hwaits => cases hwaits.symm.trans hfailed
  | enters _ hspin happ => exact absurd ⟨hstate, by rw [hspin, map_some, happ]⟩ hunfinished
  | drains hended => rcases hended with hended | hended <;> cases hstate.symm.trans hended

/-- What had been delivered when the handshake ended. -/
lemma Bounded.atEnd_step (h : c.Bounded) : ∀ n, (c.call origin (.step env)).atEnd = some n →
    n ≤ (c.call origin (.step env)).limit := by
  intro n hn
  have hat : (c.call origin (.step env)).atEnd = if c.eng.Finishes (.step env) then
      some (c.drained + (c.eng.appStart env).appIn.length)
    else if c.eng.state = .handshake ∧ (step (S := serverSuite cfg) env c.eng).2.state = .failed then
      some (c.drained + (c.eng.step env).2.appIn.length)
    else c.atEnd := rfl
  rw [hat] at hn
  split_ifs at hn with hfinishes hfails
  · obtain ⟨eng, hspin, happ⟩ := hfinishes.spin
    have hcounts := h.spin origin hfinishes.1 hspin
    have hstart : c.eng.appStart env = eng := appStart_of_spin hfinishes.1 hspin
    cases hn
    rw [hstart, hcounts.delivered]
    by_cases hwait : eng.hsPhase = .waitCh
    · rw [hcounts.first hwait, h.waiting hfinishes.1 (hcounts.first hwait ▸ hwait)]
      exact Nat.zero_le _
    · exact hcounts.seen hwait
  · cases hn
    rw [appIn_of_fails hfails.1 hfinishes hfails.2]
    exact h.drained_le origin hfails.1
  · by_cases hstate : c.eng.state = .handshake
    · rw [h.before hstate] at hn
      cases hn
    · rw [limit_call_of_none origin (takesEarly_of_ne (.inl hstate))]
      exact h.atEnd n hn

lemma Bounded.step (h : c.Bounded) (env : ServerEnv) : (c.call origin (.step env)).Bounded := by
  have hat : ∀ n, (c.call origin (.step env)).atEnd = some n → n ≤ (c.call origin (.step env)).limit :=
    h.atEnd_step origin
  by_cases hleft : (Engine.step (S := serverSuite cfg) env c.eng).2.state = .handshake
  · obtain ⟨hstate, hspin, hunfinished⟩ := Engine.step_waits hleft
    have hcounts := h.spin origin hstate hspin
    have hzero : (c.eng.step env).2.hsPhase = .waitCh → (c.eng.step env).2.earlyDataSeen = 0 := by
      intro hwait
      have hsame := hcounts.first hwait
      rw [hsame] at hwait ⊢
      exact h.waiting hstate hwait
    constructor
    case delivered => exact fun _ => hcounts.delivered
    case waiting => exact fun _ => hzero
    case active => exact fun _ => hcounts.active
    case seen =>
      intro _
      by_cases hwait : (c.eng.step env).2.hsPhase = .waitCh
      · exact (hzero hwait).le.trans (Nat.zero_le _)
      · exact hcounts.seen hwait
    case before =>
      have hopen : ¬ (c.eng.state = .handshake ∧ (Engine.step (S := serverSuite cfg) env c.eng).2.state = .failed) :=
        fun hfails => nomatch hleft.symm.trans hfails.2
      exact fun _ => (if_neg hunfinished).trans ((if_neg hopen).trans (h.before hstate))
    case atEnd => exact hat
  · exact .of_ne hleft hat

lemma Bounded.call (h : c.Bounded) (call : ServerCall) : (c.call origin call).Bounded := by
  cases call with
  | port p => exact h.port origin p
  | attachResumption | setClock => exact { h with }
  | installAppKeys read write =>
    refine .of_ne (fun hstate => ?_) h.atEnd
    change (c.eng.installAppKeys read write).state = .handshake at hstate
    unfold installAppKeys at hstate
    split at hstate
    · rename_i hended
      rcases hended with hended | hended <;> cases hended.symm.trans hstate
    · cases hstate
  | close => exact .of_ne nofun h.atEnd
  | step env => exact h.step origin env

end Conn

/-- A step finds the shared store. -/
def ServerCall.sharing (store : TicketStore) : ServerCall → ServerCall
  | .step env => .step { env with store := store }
  | call => call

/-- Engines with one store; `insertions` counts the tickets, `origin` says which of them is in a slot, and
`accepted` lists those whose early data was accepted. -/
structure EarlyWorld (cfg : ℕ → ServerConfig) where
  conns : ∀ i, Conn (cfg i)
  store : TicketStore
  insertions : ℕ
  origin : Slot → ℕ
  accepted : List ℕ

/-- A ticket is inserted, an engine is created, or an engine is called. -/
inductive EarlyEvent
  | insert (t : Ticket)
  | create (i : ℕ) (configured : Bool)
  | call (i : ℕ) (call : ServerCall)

namespace EarlyWorld

variable {cfg : ℕ → ServerConfig}

def init : EarlyWorld cfg := ⟨fun _ => .init true, .init, 0, fun _ => 0, []⟩

/-- The engine that is called looks at the store, in a step. -/
def storeAfter (w : EarlyWorld cfg) (i : ℕ) : ServerCall → TicketStore
  | .step _ => ((w.conns i).eng.storeAfter w.store).1
  | _ => w.store

/-- The insertion whose early data a call accepts. -/
def accepts (w : EarlyWorld cfg) (i : ℕ) : ServerCall → Option ℕ
  | .step env => ((w.conns i).eng.takesEarly env).map fun sel => w.origin sel.slot
  | _ => none

def step (w : EarlyWorld cfg) : EarlyEvent → EarlyWorld cfg
  | .insert t =>
    { w with
      store := w.store.insert t
      insertions := w.insertions + 1
      origin := match w.store.victim t.ticketId with
        | none => w.origin
        | some slot => update w.origin slot w.insertions }
  | .create i configured => { w with conns := update w.conns i (.init configured) }
  | .call i call =>
    { w with
      conns := update w.conns i ((w.conns i).call w.origin (call.sharing w.store))
      store := w.storeAfter i call
      accepted := (w.accepts i (call.sharing w.store)).toList ++ w.accepted }

/-! ### Once for each insertion -/

/-- Which tickets may still be accepted: each insertion fills one slot, and an unused ticket has not been
accepted. -/
structure Tracks (w : EarlyWorld cfg) : Prop where
  injective : ∀ i j t t', w.store i = some t → w.store j = some t' → w.origin i = w.origin j → i = j
  inserted : ∀ i t, w.store i = some t → w.origin i < w.insertions
  old : ∀ n ∈ w.accepted, n < w.insertions
  unused : ∀ i t, w.store i = some t → t.used = false → w.origin i ∉ w.accepted
  nodup : w.accepted.Nodup

lemma tracks_init : (init : EarlyWorld cfg).Tracks where
  injective _ _ _ _ h := nomatch h
  inserted _ _ h := nomatch h
  old _ h := nomatch h
  unused _ _ h := nomatch h
  nodup := nodup_nil

variable {w : EarlyWorld cfg}

lemma Tracks.insert (h : w.Tracks) (t : Ticket) : (w.step (.insert t)).Tracks := by
  rw [step, TicketStore.insert]
  cases hvictim : w.store.victim t.ticketId with
  | none =>
    exact ⟨h.injective, fun i t hi => (h.inserted i t hi).trans (Nat.lt_succ_self _),
      fun n hn => (h.old n hn).trans (Nat.lt_succ_self _), h.unused, h.nodup⟩
  | some slot =>
    have hold : ∀ {i t'}, i ≠ slot → update w.store slot (some { t with used := false }) i = some t' →
        w.store i = some t' ∧ update w.origin slot w.insertions i = w.origin i := by
      intro i t' hi ht'
      rw [update_of_ne hi] at ht'
      exact ⟨ht', update_of_ne hi _ _⟩
    have hnew : update w.origin slot w.insertions slot = w.insertions := update_self ..
    refine ⟨fun i j ti tj hti htj horigin => ?_, fun i ti hti => ?_, fun n hn => ?_, fun i ti hti hfresh => ?_, h.nodup⟩
    · dsimp only at hti htj horigin
      by_cases hi : i = slot
      · by_cases hj : j = slot
        · rw [hi, hj]
        · -- the new ticket has a number of its own
          obtain ⟨hstore, hsame⟩ := hold hj htj
          rw [hi, hnew, hsame] at horigin
          exact absurd horigin (h.inserted j tj hstore).ne'
      · obtain ⟨hstore, hsame⟩ := hold hi hti
        by_cases hj : j = slot
        · rw [hj, hnew, hsame] at horigin
          exact absurd horigin (h.inserted i ti hstore).ne
        · obtain ⟨hstore', hsame'⟩ := hold hj htj
          rw [hsame, hsame'] at horigin
          exact h.injective i j ti tj hstore hstore' horigin
    · dsimp only at hti ⊢
      by_cases hi : i = slot
      · rw [hi, hnew]
        exact Nat.lt_succ_self _
      · obtain ⟨hstore, hsame⟩ := hold hi hti
        rw [hsame]
        exact (h.inserted i ti hstore).trans (Nat.lt_succ_self _)
    · exact (h.old n hn).trans (Nat.lt_succ_self _)
    · dsimp only at hti ⊢
      by_cases hi : i = slot
      · rw [hi, hnew]
        exact fun hmem => (h.old _ hmem).false
      · obtain ⟨hstore, hsame⟩ := hold hi hti
        rw [hsame]
        exact h.unused i ti hstore hfresh

/-- Without an acceptance the store can only shrink. -/
lemma Tracks.shrinks (h : w.Tracks) {store : TicketStore} (hshrinks : Shrinks w.store store) :
    Tracks { w with store := store } := by
  refine ⟨fun i j t t' hi hj horigin => ?_, fun i t hi => ?_, h.old, fun i t hi hfresh => ?_, h.nodup⟩
  · obtain ⟨t₁, hi₁, -⟩ := hshrinks i t hi
    obtain ⟨t₂, hj₂, -⟩ := hshrinks j t' hj
    exact h.injective i j t₁ t₂ hi₁ hj₂ horigin
  · obtain ⟨t₁, hi₁, -⟩ := hshrinks i t hi
    exact h.inserted i t₁ hi₁
  · obtain ⟨t₁, hi₁, hfresh₁⟩ := hshrinks i t hi
    exact h.unused i t₁ hi₁ (hfresh₁ hfresh)

/-- An acceptance finds an unused ticket and leaves it used. -/
lemma Tracks.accept (h : w.Tracks) {store : TicketStore} (hshrinks : Shrinks w.store store) {slot : Slot}
    {t t' : Ticket} (hslot : w.store slot = some t) (hfresh : t.used = false) (hafter : store slot = some t')
    (hused : t'.used = true) : Tracks { w with store := store, accepted := w.origin slot :: w.accepted } := by
  have hold := h.shrinks hshrinks
  refine ⟨hold.injective, hold.inserted, ?_, fun i ti hi hunused => ?_, ?_⟩
  · intro n hn
    rcases mem_cons.1 hn with rfl | hn
    · exact h.inserted slot t hslot
    · exact h.old n hn
  · rw [mem_cons, not_or]
    refine ⟨fun horigin => ?_, hold.unused i ti hi hunused⟩
    obtain rfl := hold.injective i slot ti t' hi hafter horigin
    cases hi.symm.trans hafter
    rw [hused] at hunused
    cases hunused
  · exact nodup_cons.2 ⟨h.unused slot t hslot hfresh, h.nodup⟩

lemma Tracks.conns (h : w.Tracks) {conns : ∀ i, Conn (cfg i)} : Tracks { w with conns := conns } := { h with }

lemma Tracks.call (h : w.Tracks) (i : ℕ) (call : ServerCall) : (w.step (.call i call)).Tracks := by
  cases call with
  | step env =>
    refine Tracks.conns (w := { w with
      store := w.storeAfter i (.step env)
      accepted := (w.accepts i (.step { env with store := w.store })).toList ++ w.accepted }) ?_
    have hshrinks := (w.conns i).eng.storeAfter_shrinks w.store
    cases htakes : (w.conns i).eng.takesEarly { env with store := w.store } with
    | none =>
      have haccepts : w.accepts i (.step { env with store := w.store }) = none := by
        rw [accepts, htakes, map_none]
      rw [haccepts]
      exact h.shrinks hshrinks
    | some sel =>
      obtain ⟨-, hfresh, hslot, t, hafter, hused⟩ := takesEarly_eq_some htakes
      have haccepts : w.accepts i (.step { env with store := w.store }) = some (w.origin sel.slot) := by
        rw [accepts, htakes, map_some]
      rw [haccepts]
      exact h.accept hshrinks hslot hfresh hafter hused
  | _ => exact h.conns

lemma bounded_update (h : ∀ i, (w.conns i).Bounded) {i : ℕ} {c : Conn (cfg i)} (hc : c.Bounded) (j : ℕ) :
    (update w.conns i c j).Bounded := by
  by_cases hj : j = i
  · subst hj
    rw [update_self]
    exact hc
  · rw [update_of_ne hj]
    exact h j

/-- What every event keeps. -/
lemma step_keeps (h : w.Tracks ∧ ∀ i, (w.conns i).Bounded) (e : EarlyEvent) :
    (w.step e).Tracks ∧ ∀ i, ((w.step e).conns i).Bounded := by
  obtain ⟨htracks, hbounded⟩ := h
  cases e with
  | insert t => exact ⟨htracks.insert t, hbounded⟩
  | create i configured => exact ⟨htracks.conns, bounded_update hbounded (Conn.bounded_init configured)⟩
  | call i call => exact ⟨htracks.call i call, bounded_update hbounded ((hbounded i).call w.origin _)⟩

/-- In every run each insertion of a ticket leads to at most one handshake that accepts early data, and what a
handshake delivers before it ends, in APP or in FAILED, stays within the limit of its ticket. -/
theorem early_once (events : List EarlyEvent) :
    let w := events.foldl step (init : EarlyWorld cfg)
    w.accepted.Nodup ∧ ∀ i, ((w.conns i).eng.state = .handshake → (w.conns i).delivered ≤ (w.conns i).limit) ∧
      ∀ n, (w.conns i).atEnd = some n → n ≤ (w.conns i).limit := by
  intro w
  have hinv : w.Tracks ∧ ∀ i, (w.conns i).Bounded := by
    refine foldlRecOn (motive := fun w : EarlyWorld cfg => w.Tracks ∧ ∀ i, (w.conns i).Bounded) events step ?_ ?_
    · exact ⟨tracks_init, fun _ => Conn.bounded_init true⟩
    · exact fun _ h e _ => step_keeps h e
  refine ⟨hinv.1.nodup, fun i => ⟨fun hstate => ?_, (hinv.2 i).atEnd⟩⟩
  rw [(hinv.2 i).delivered hstate]
  exact (hinv.2 i).seen hstate

end EarlyWorld

end Tls
