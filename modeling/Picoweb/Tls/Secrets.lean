import Picoweb.Lib.Run
import Picoweb.Tls.Calls

/-!
# Secrets that are spent

What the engine still knows of the handshake once it is over, and of anything once it has failed. A fatal
error of the handshake wipes all keys. The application part of `pw_tls_step` goes to FAILED without a wipe,
and the transition to APP leaves the PSK of a resumed handshake where it is.
-/

namespace Tls.Secrets

open ByteFile Engine List

/-! ### What should be gone -/

def Zeroed (b : Bytes) : Prop := ∀ x ∈ b, x = 0
deriving Decidable

lemma zeroed_zeros (n : ℕ) : Zeroed (zeros n) := fun _ h => eq_of_mem_replicate h

structure Spent (ctx : ServerCtx) : Prop where
  handshakeSecret : Zeroed ctx.handshakeSecret
  csHandshakeSecret : Zeroed ctx.csHandshakeSecret
  ssHandshakeSecret : Zeroed ctx.ssHandshakeSecret
  masterSecret : Zeroed ctx.masterSecret
  ephPriv : Zeroed ctx.ephPriv
  selectedPsk : Zeroed ctx.selectedPsk
  savedHsReadKey : Zeroed ctx.savedHsReadKey
  savedHsReadIv : Zeroed ctx.savedHsReadIv

variable {cfg : ServerConfig}

/-- All secrets and all keys of the records are gone. -/
structure Wiped (eng : Engine (serverSuite cfg)) : Prop where
  spent : Spent eng.ctx
  csAppTrafficSecret : Zeroed (eng.ctx : ServerCtx).csAppTrafficSecret
  ssAppTrafficSecret : Zeroed (eng.ctx : ServerCtx).ssAppTrafficSecret
  resumptionMasterSecret : Zeroed (eng.ctx : ServerCtx).resumptionMasterSecret
  readKey : Zeroed eng.read.key
  readIv : Zeroed eng.read.staticIv
  writeKey : Zeroed eng.write.key
  writeIv : Zeroed eng.write.staticIv

lemma spent_wipe (ctx : ServerCtx) : Spent ctx.wipe where
  handshakeSecret := zeroed_zeros 32
  csHandshakeSecret := zeroed_zeros 32
  ssHandshakeSecret := zeroed_zeros 32
  masterSecret := zeroed_zeros 32
  ephPriv := zeroed_zeros 32
  selectedPsk := zeroed_zeros 32
  savedHsReadKey := zeroed_zeros 32
  savedHsReadIv := zeroed_zeros 12

lemma wiped_handshakeFail (eng : Engine (serverSuite cfg)) : Wiped eng.handshakeFail where
  spent := spent_wipe eng.ctx
  csAppTrafficSecret := zeroed_zeros 32
  ssAppTrafficSecret := zeroed_zeros 32
  resumptionMasterSecret := zeroed_zeros 32
  readKey := zeroed_zeros 32
  readIv := zeroed_zeros 12
  writeKey := zeroed_zeros 32
  writeIv := zeroed_zeros 12

/-! ### What gets in the way -/

/-- The ClientHello at the head of RX offers a ticket of the store with its binder, and the PSK of the ticket
is not zero. -/
def OffersSecret (eng : Engine (serverSuite cfg)) (store : TicketStore) : Prop :=
  let msg := (headRecord eng.rx).drop recordHeaderLen
  ∃ ch, parseHello msg = some ch ∧ ∃ offer ∈ ch.pskIds.zip ch.pskBinders, ∃ slot t,
    store slot = some t ∧ t.ticketId = (msg.drop offer.1.off).take offer.1.len ∧
      binderMatches msg ch t offer.2 = true ∧ ¬ Zeroed t.psk

/-- The record at the head of RX cannot be taken in the application phase: it is too long, does not open or
has an unknown type. -/
def BadRecord (aead : Aead) (dir : Dir) (rx : Bytes) : Prop :=
  recordHeaderLen ≤ rx.length ∧ (bufCap < recordHeaderLen + recordLen rx ∨ HasRecord rx ∧
    ∀ inner plain dir', openRecord aead dir (headRecord rx) = some (inner, plain, dir') →
      inner ≠ ctApplicationData ∧ inner ≠ ctAlert ∧ inner ≠ ctHandshake)

/-- A record that cannot be taken waits behind records without application data. -/
inductive Stuck (aead : Aead) : Dir → Bytes → Prop
  | bad {dir : Dir} {rx : Bytes} (hbad : BadRecord aead dir rx) : Stuck aead dir rx
  | behind {dir dir' : Dir} {rx plain : Bytes} {inner : ContentType} (hrecord : HasRecord rx)
      (hopen : openRecord aead dir (headRecord rx) = some (inner, plain, dir'))
      (hskipped : inner = ctApplicationData ∧ plain = [] ∨ inner = ctHandshake)
      (hrest : Stuck aead dir' (behindRecord rx)) : Stuck aead dir rx

/-- The application part of a step cannot go through: it meets a record that it cannot take (one is looked at
where the engine is closed), or APP_OUT has more records than the write key has sequence numbers. -/
def Breaks {S : Suite} (eng : Engine S) : Prop :=
  eng.appIn = [] ∧ (if eng.state = .app then Stuck S.aead eng.read eng.rx else BadRecord S.aead eng.read eng.rx) ∨
    seqMax < eng.write.seq + recordsFor eng.appOut.length

section Drain

variable {S : Suite} {eng eng' : Engine S}

/-- With APP_IN empty only a bad record stops the loop. -/
lemma badRecord_of_opening (hin : eng.appIn = []) (h : Opening eng (.error, eng')) :
    BadRecord S.aead eng.read eng.rx := by
  cases h with
  | tooLong hheader hlen => exact ⟨hheader, .inl hlen⟩
  | forged hrecord hopen => exact ⟨hrecord.1, .inr ⟨hrecord, fun _ _ _ hsome => nomatch hopen.symm.trans hsome⟩⟩
  | overflow hroom hlen hopen =>
    have hshort := length_of_openRecord hopen
    have htaken : (headRecord eng.rx).length ≤ eng.headTotal := length_take_le _ _
    rw [hin, length_nil] at hroom
    omega
  | unknown hrecord hopen hinner =>
    refine ⟨hrecord.1, .inr ⟨hrecord, fun inner plain dir' hsome => ?_⟩⟩
    cases hopen.symm.trans hsome
    exact hinner

lemma loops_succeeds {r : Bool × Engine S} (hloop : Loops eng r) (h : ¬ (eng.appIn = [] ∧
    if eng.state = .app then Stuck S.aead eng.read eng.rx else BadRecord S.aead eng.read eng.rx)) : r.1 = true := by
  induction hloop with
  | full | waits => rfl
  | fails hin hopen =>
    have hbad := badRecord_of_opening hin hopen
    refine absurd ⟨hin, ?_⟩ h
    split
    · exact .bad hbad
    · exact hbad
  | stops => rfl
  | goes hin hopen happ hrest ih =>
    -- what stops the loop later waits behind this record
    apply ih
    rintro ⟨hin₁, hstuck⟩
    rw [if_pos happ] at hstuck
    apply h
    cases hopen with
    | data hrecord hopen =>
      rw [if_pos happ]
      exact ⟨hin, .behind hrecord hopen (.inl ⟨rfl, (append_eq_nil_iff.1 hin₁).2⟩) hstuck⟩
    | alert => cases happ
    | handshake hrecord hopen =>
      rw [if_pos happ]
      exact ⟨hin, .behind hrecord hopen (.inr rfl) hstuck⟩

lemma sealLoop_succeeds {fuel : ℕ} (h : eng.write.seq + recordsFor eng.appOut.length ≤ seqMax) :
    (sealLoop fuel eng).1 = true := by
  induction fuel generalizing eng with
  | zero => rfl
  | succ fuel ih =>
    by_cases hsealable : eng.Sealable
    · obtain ⟨record, write, hseal, hone⟩ := trySealOne_of_sealable hsealable
      rw [sealLoop_of_progress fuel hone]
      apply ih
      have hpos := length_pos_of_ne_nil hsealable.1
      obtain ⟨-, rfl, -⟩ := sealRecord_eq_some hseal
      simp only [recordsFor, maxPlaintext, Dir.after, length_drop] at h ⊢
      omega
    · obtain ⟨rc, hrc, hone, herror⟩ := trySealOne_of_not_sealable hsealable
      cases rc with
      | error =>
        obtain ⟨hout, hseq⟩ := herror rfl
        have hpos := length_pos_of_ne_nil hout
        simp only [recordsFor, maxPlaintext] at h
        omega
      | idle => rw [sealLoop_of_idle fuel hone]
      | progress => exact absurd rfl hrc

/-- The application part of a step that nothing breaks does not fail. -/
lemma drain_succeeds (h : ¬ Breaks eng) : eng.drain.1 = true := by
  obtain ⟨hopen, hseal⟩ := not_or.1 h
  have hloops := openLoop_loops (Nat.lt_succ_self eng.rx.length)
  have hfirst := loops_succeeds hloops hopen
  unfold drain
  split
  · rename_i eng₁ hloop
    rw [hloop] at hloops
    have hsame : eng₁.write = eng.write ∧ eng₁.appOut = eng.appOut :=
      hloops.invariant (P := fun e => e.write = eng.write ∧ e.appOut = eng.appOut)
        (fun e e' hP hopening => by cases hopening <;> exact hP) rfl ⟨rfl, rfl⟩
    apply sealLoop_succeeds
    rw [hsame.1, hsame.2]
    exact not_lt.1 hseal
  · exact hfirst

end Drain

/-! ### The handshake -/

/-- What an engine in the handshake does not hold, or holds only while early data is taken. -/
structure Fresh (eng : Engine (serverSuite cfg)) : Prop where
  ephPriv : Zeroed (eng.ctx : ServerCtx).ephPriv
  selectedPsk : Zeroed (eng.ctx : ServerCtx).selectedPsk
  saved : eng.earlyDataPhase ≠ .active →
    Zeroed (eng.ctx : ServerCtx).savedHsReadKey ∧ Zeroed (eng.ctx : ServerCtx).savedHsReadIv
  early : eng.hsPhase = .waitCh → eng.earlyDataPhase ≠ .active

variable {eng : Engine (serverSuite cfg)} {env : ServerEnv}

/-- The PSK of the ticket that is accepted is zero, unless the ClientHello offers a secret. -/
lemma zeroed_selectedPsk {g : Greeting cfg} (hmsg : g.msg = (headRecord eng.rx).drop recordHeaderLen)
    (hsel : g.sel = (acceptPsk eng.ctx g.msg g.ch env.store).2)
    (hsafe : (eng.ctx : ServerCtx).ticketStore = true → ¬ OffersSecret eng env.store) :
    Zeroed ((g.sel.map fun s => s.ticket.psk).getD (zeros 32)) := by
  cases hg : g.sel with
  | none => exact zeroed_zeros 32
  | some sel =>
    rw [hg] at hsel
    unfold acceptPsk at hsel
    split at hsel
    · rename_i hoffers
      rw [Bool.and_eq_true, Bool.and_eq_true] at hoffers
      obtain ⟨hstore, offer, hmem, hid, hbinder⟩ := selectPsk_eq_some (Prod.ext rfl hsel.symm)
      by_contra hsecret
      refine hsafe hoffers.1.1 ⟨g.ch, hmsg ▸ g.parsed, offer, hmem, sel.slot, sel.ticket, hstore, ?_, ?_, hsecret⟩
      · rw [← hmsg]
        exact hid
      · rw [← hmsg]
        exact hbinder
    · cases hsel

/-- A round of the handshake leaves an engine in the handshake fresh, and one in APP without its secrets. -/
lemma Fresh.advance {eng' : Engine (serverSuite cfg)} (h : Fresh eng) (hstate : eng.state = .handshake)
    (hsafe : eng.hsPhase = .waitCh → (eng.ctx : ServerCtx).ticketStore = true → ¬ OffersSecret eng env.store)
    (hadvance : Advance (S := serverSuite cfg) env eng eng') :
    (eng'.state = .handshake → Fresh eng') ∧ (eng'.state = .app → Spent eng'.ctx) := by
  cases hadvance with
  | hello hphase hrecord hhello =>
    obtain ⟨g, hmsg, hsel, rfl⟩ := clientHello_eq_some hhello
    rw [← hmsg] at hsel
    refine ⟨fun _ => ⟨zeroed_zeros 32, zeroed_selectedPsk hmsg hsel (hsafe hphase), ?_, by rintro ⟨⟩⟩, ?_⟩
    · intro hpassive
      have hnone : g.early.isSome = false := by
        rw [← g.isSome_earlyMax eng.ctx, Bool.eq_false_iff]
        intro hsome
        exact hpassive (if_pos hsome)
      simp only [Greeting.hello, hnone]
      exact h.saved (h.early hphase)
    · intro happ
      cases hstate.symm.trans happ
  | flight hphase hflight hseal =>
    obtain ⟨transcript, secrets, rfl, -⟩ := flight_eq_some hflight
    obtain ⟨tx, write, appOut, recordsOut, rfl⟩ := OnlySeals.sealHandshakeMsgs hseal
    refine ⟨fun _ => { h with early := by rintro ⟨⟩ }, fun happ => ?_⟩
    cases hstate.symm.trans happ
  | changeCipherSpec | early =>
    refine ⟨fun _ => { h with }, fun happ => ?_⟩
    cases hstate.symm.trans happ
  | endOfEarlyData hphase hactive hopen =>
    refine ⟨fun _ => ⟨h.ephPriv, h.selectedPsk, fun _ => ⟨zeroed_zeros 32, zeroed_zeros 12⟩, fun hnew => ?_⟩,
      fun happ => ?_⟩
    · cases hphase.symm.trans hnew
    · cases hstate.symm.trans happ
  | finished hphase hpassive hrecord hopen hlen hhead hfinished =>
    obtain ⟨-, transcript, rms, rfl⟩ := clientFinished_eq_some hfinished
    obtain ⟨hkey, hiv⟩ := h.saved hpassive
    refine ⟨by rintro ⟨⟩, fun _ => ?_⟩
    exact ⟨zeroed_zeros 32, zeroed_zeros 32, zeroed_zeros 32, zeroed_zeros 32, h.ephPriv, h.selectedPsk, hkey, hiv⟩

/-- The handshake loop, from an engine whose ClientHello offers no secret. -/
lemma Fresh.spin {eng₁ : Engine (serverSuite cfg)} (h : Fresh eng) (hstate : eng.state = .handshake)
    (hsafe : eng.hsPhase = .waitCh → (eng.ctx : ServerCtx).ticketStore = true → ¬ OffersSecret eng env.store)
    (hspin : (handshakeSpin (S := serverSuite cfg) env 8 eng).1 = some eng₁) :
    (eng₁.state = .handshake → Fresh eng₁) ∧ (eng₁.state = .app → Spent eng₁.ctx) := by
  have hloop := handshakeSpin_invariant
    (P := fun e => ((e.state = .handshake → Fresh e) ∧ (e.state = .app → Spent e.ctx)) ∧
      (e.hsPhase = .waitCh → e = eng)) ?_ 8 hstate ⟨⟨fun _ => h, fun happ => nomatch hstate.symm.trans happ⟩,
        fun _ => rfl⟩ hspin
  · exact hloop.1.1
  · rintro e e' he ⟨⟨hfresh, -⟩, hfirst⟩ hadvance
    refine ⟨(hfresh he).advance he (fun hwait => ?_) hadvance, fun hwait => absurd hwait hadvance.hsPhase_ne⟩
    obtain rfl := hfirst hwait
    exact hsafe hwait

/-! ### Histories of an engine -/

/-- An engine, and whether it entered APP by a handshake. -/
structure World (cfg : ServerConfig) where
  eng : Engine (serverSuite cfg)
  finished : Bool

namespace World

/-- After `pw_tls_engine_init`, with or without `pw_tls_engine_configure_server`. -/
def init (configured : Bool) : World cfg := ⟨Engine.init ServerCtx.init configured, false⟩

def step (w : World cfg) (c : ServerCall) : World cfg :=
  ⟨w.eng.serverCall c, w.finished || decide (w.eng.Finishes c)⟩

/-- A step resumes no session whose PSK is a secret, and its application part goes through. -/
def Safe (w : World cfg) : ServerCall → Prop
  | .step env =>
    (w.eng.state = .handshake → w.eng.hsPhase = .waitCh → (w.eng.ctx : ServerCtx).ticketStore = true →
      ¬ OffersSecret w.eng env.store) ∧
    ((w.eng.appStart env).state = .app ∨ (w.eng.appStart env).state = .closed → ¬ Breaks (w.eng.appStart env))
  | _ => True

/-- In APP after a handshake its secrets are gone, in FAILED everything is. -/
structure Gone (w : World cfg) : Prop where
  app : w.eng.state = .app → w.finished = true → Spent w.eng.ctx
  failed : w.eng.state = .failed → Wiped w.eng

structure Inv (w : World cfg) : Prop extends Gone w where
  handshake : w.eng.state = .handshake → w.finished = false ∧ Fresh w.eng

lemma inv_init (configured : Bool) : Inv (init configured : World cfg) where
  app := nofun
  failed := nofun
  handshake _ := ⟨rfl, zeroed_zeros 32, zeroed_zeros 32, fun _ => ⟨zeroed_zeros 32, zeroed_zeros 12⟩, nofun⟩

variable {w : World cfg}

lemma Inv.port (h : Inv w) (p : Port) : Inv (w.step (.port p)) := by
  obtain ⟨rx, tx, appIn, appOut, write, recordsOut, heq, hwrite⟩ := w.eng.port_eq p
  have hstep : w.step (.port p) = ⟨_, w.finished⟩ := congrArg₂ World.mk heq (Bool.or_false _)
  rw [hstep]
  refine ⟨⟨h.app, fun hfailed => ?_⟩, fun hstate => ?_⟩
  · have hw := h.failed hfailed
    have hsame : write = w.eng.write := hwrite fun happ => nomatch hfailed.symm.trans happ
    subst hsame
    exact { hw with }
  · obtain ⟨hfinished, hf⟩ := h.handshake hstate
    exact ⟨hfinished, { hf with }⟩

lemma Inv.settings (h : Inv w) (attached : Bool) (nowMs : ℕ) :
    Inv ⟨(w.eng.attachResumption attached).setClock nowMs, w.finished⟩ := by
  refine ⟨⟨fun happ hfinished => ?_, fun hfailed => ?_⟩, fun hstate => ?_⟩
  · have hs := h.app happ hfinished
    exact { hs with }
  · have hw := h.failed hfailed
    have hs := hw.spent
    exact { hw with spent := { hs with } }
  · obtain ⟨hfinished, hf⟩ := h.handshake hstate
    exact ⟨hfinished, { hf with }⟩

/-- Keys that are installed from outside bring the engine into APP without a handshake. -/
lemma Inv.installAppKeys (h : Inv w) (read write : Dir) : Inv (w.step (.installAppKeys read write)) := by
  have hstep : w.step (.installAppKeys read write) = ⟨w.eng.installAppKeys read write, w.finished⟩ :=
    congrArg (World.mk _) (Bool.or_false _)
  rw [hstep, Engine.installAppKeys]
  split
  · exact h
  · rename_i hended
    refine ⟨⟨fun _ hfinished => ?_, nofun⟩, nofun⟩
    cases hstate : w.eng.state with
    | handshake => exact absurd (h.handshake hstate).1 (by rw [hfinished]; exact nofun)
    | app => exact h.app hstate hfinished
    | closed => exact absurd (.inr hstate) hended
    | failed => exact absurd (.inl hstate) hended

lemma Inv.drain {finished : Bool} (hsafe : ¬ Breaks eng)
    (hstate : eng.state = .app ∨ eng.state = .closed) (hspent : eng.state = .app → finished = true → Spent eng.ctx) :
    Inv ⟨eng.drain.2, finished⟩ := by
  have hdrained := drain_drained eng
  have hleft := hdrained.state
  rw [if_pos (drain_succeeds hsafe)] at hleft
  have hend : eng.drain.2.state = .app ∨ eng.drain.2.state = .closed := by
    rcases hleft with hsame | hclosed
    · rwa [hsame]
    · exact .inr hclosed
  refine ⟨⟨fun happ hfinished => ?_, fun hfailed => ?_⟩, fun hhandshake => ?_⟩
  · rw [hdrained.ctx]
    rcases hleft with hsame | hclosed
    · exact hspent (hsame.symm.trans happ) hfinished
    · cases hclosed.symm.trans happ
  · rcases hend with hend | hend <;> cases hend.symm.trans hfailed
  · rcases hend with hend | hend <;> cases hend.symm.trans hhandshake

lemma Inv.steps (h : Inv w) (hsafe : w.Safe (.step env)) : Inv (w.step (.step env)) := by
  obtain ⟨hoffer, hdrain⟩ := hsafe
  have hend := step_end (S := serverSuite cfg) env w.eng
  rw [World.step, serverCall]
  generalize hfinishes : decide (w.eng.Finishes (.step env)) = finishes
  generalize heng' : (w.eng.step env).2 = eng' at hend
  cases hend with
  | failed hstate =>
    have hnot : finishes = false := by
      rw [← hfinishes, decide_eq_false_iff_not]
      exact fun hf => nomatch hstate.symm.trans hf.1
    rw [hnot, Bool.or_false]
    exact h
  | fails hstate => exact ⟨⟨nofun, fun _ => wiped_handshakeFail _⟩, nofun⟩
  | waits hstate hspin hwaits =>
    obtain ⟨hfinished, hfresh⟩ := h.handshake hstate
    rw [← hfinishes, decide_eq_false (step_waits (heng' ▸ hwaits)).2.2, hfinished]
    refine ⟨⟨fun happ => ?_, fun hfailed => ?_⟩, fun _ => ⟨rfl, ?_⟩⟩
    · cases hwaits.symm.trans happ
    · cases hwaits.symm.trans hfailed
    · exact (hfresh.spin hstate (hoffer hstate) hspin).1 hwaits
  | enters hstate hspin happ =>
    have hfresh := (h.handshake hstate).2
    rw [appStart_of_spin hstate hspin] at hdrain
    exact .drain (hdrain (.inl happ)) (.inl happ) fun _ _ => (hfresh.spin hstate (hoffer hstate) hspin).2 happ
  | drains hstate =>
    have hne := ne_handshake_of_ended hstate
    have hnot : finishes = false := by
      rw [← hfinishes, decide_eq_false_iff_not]
      exact fun hf => hne hf.1
    rw [hnot, Bool.or_false]
    have hstart : w.eng.appStart env = w.eng := appStart_of_ne hne
    rw [hstart] at hdrain
    exact .drain (hdrain hstate) hstate h.app

lemma Inv.step (h : Inv w) {c : ServerCall} (hsafe : w.Safe c) : Inv (w.step c) := by
  cases c with
  | port p => exact h.port p
  | attachResumption attached =>
    have hset := h.settings attached (w.eng.ctx : ServerCtx).nowMs
    rwa [← Bool.or_false w.finished] at hset
  | setClock nowMs =>
    have hset := h.settings (w.eng.ctx : ServerCtx).ticketStore nowMs
    rwa [← Bool.or_false w.finished] at hset
  | installAppKeys read write => exact h.installAppKeys read write
  | close => exact ⟨⟨nofun, nofun⟩, nofun⟩
  | step env => exact h.steps hsafe

/-- In every history whose calls are safe, spent secrets are gone. -/
theorem gone_of_safe {configured : Bool} {calls : List ServerCall}
    (h : Run.Guarded step Safe (init configured : World cfg) calls) :
    Gone (calls.foldl step (init configured : World cfg)) :=
  (h.invariant (P := Inv) (fun _ _ hinv hsafe => hinv.step hsafe) (inv_init configured)).toGone

/-- The history of a server with a ticket store that gets a ClientHello. -/
def greeting (offer : Option (Bytes × Bytes)) : List ServerCall :=
  [.attachResumption true, .port (.rxAck (clientHelloRecord offer false)), .step plainEnv]

/-- The client sends its Finished, and the engine takes a step. -/
def answer (w : World cfg) : List ServerCall := [.port (.rxAck w.eng.finishedRecord), .step plainEnv]

def greeted : World plainConfig := (greeting none).foldl step (init true)

lemma greeted_awaits : greeted.eng.Awaits := by decide +kernel

lemma answer_of_awaits {w : World cfg} (h : w.eng.Awaits) :
    ((answer w).foldl step w).eng.state = .app ∧ ((answer w).foldl step w).finished = true ∧
      (((answer w).foldl step w).eng.ctx : ServerCtx).selectedPsk = (w.eng.ctx : ServerCtx).selectedPsk := by
  have hanswered := h.answered plainEnv
  have hfinished : ((answer w).foldl step w).finished = (w.finished || false ||
    decide (w.eng.fed.Finishes (.step plainEnv))) := rfl
  rw [hfinished, decide_eq_true hanswered.finishes, Bool.or_true]
  exact ⟨hanswered.state, rfl, hanswered.selectedPsk⟩

lemma not_badRecord_nil {aead : Aead} {dir : Dir} : ¬ BadRecord aead dir [] :=
  fun hbad => absurd hbad.1 (Nat.not_succ_le_zero 4)

/-- The step that takes the Finished meets no record behind it. -/
lemma safe_of_awaits {w : World cfg} (h : w.eng.Awaits) : Run.Guarded step Safe w (answer w) := by
  obtain ⟨-, start, -, -, hrx, hout, hseq⟩ := h.answered plainEnv
  have heng : (w.step (.port (.rxAck w.eng.finishedRecord))).eng = w.eng.fed := rfl
  refine ⟨trivial, ⟨fun _ hwait => ?_, fun happ hbreaks => ?_⟩, trivial⟩
  · have hphase : w.eng.fed.hsPhase = w.eng.hsPhase := by
      rw [fed, rxAck]
      split_ifs <;> rfl
    rw [heng, hphase, h.2.1] at hwait
    cases hwait
  · rw [heng, start, Breaks, hrx, hout, hseq] at hbreaks
    rcases hbreaks with ⟨-, hstuck⟩ | hseq
    · split_ifs at hstuck
      · cases hstuck with
        | bad hbad => exact not_badRecord_nil hbad
        | behind hrecord => exact absurd hrecord.1 (Nat.not_succ_le_zero 4)
      · exact not_badRecord_nil hstuck
    · exact absurd hseq (Nat.not_lt_zero _)

lemma safe_greeting : Run.Guarded step Safe (init true : World plainConfig) (greeting none) := by
  refine ⟨trivial, trivial, ⟨fun _ _ _ => ?_, fun happ => ?_⟩, trivial⟩
  · rintro ⟨ch, hparse, offer, hmem, -⟩
    -- the ClientHello has no offers
    have hids : (parseHello (clientHelloMsg none false)).map (fun ch => ch.pskIds) = some [] := by decide +kernel
    have hmsg : (headRecord (clientHelloRecord none false)).drop recordHeaderLen = clientHelloMsg none false := by
      decide +kernel
    change parseHello ((headRecord (clientHelloRecord none false)).drop recordHeaderLen) = some ch at hparse
    rw [hmsg] at hparse
    rw [hparse, Option.map_some, Option.some_inj] at hids
    rw [hids] at hmem
    exact absurd hmem not_mem_nil
  · exact absurd happ (by decide +kernel)

/-- After a whole handshake without a ticket the engine is in APP, and the secrets are gone. -/
theorem gone_of_safe_handshake :
    let w := (greeting none ++ answer greeted).foldl step (init true : World plainConfig)
    w.eng.state = .app ∧ w.finished = true ∧ Gone w := by
  intro w
  have hw : w = (answer greeted).foldl step greeted := foldl_append
  have hguarded : Run.Guarded step Safe (init true : World plainConfig) (greeting none ++ answer greeted) :=
    Run.guarded_append.2 ⟨safe_greeting, safe_of_awaits greeted_awaits⟩
  obtain ⟨hstate, hfinished, -⟩ := answer_of_awaits greeted_awaits
  exact ⟨hw ▸ hstate, hw ▸ hfinished, gone_of_safe hguarded⟩

end World

/-! ### What is left -/

open World

def resumed : World plainConfig := (greeting (some ([7], plainBinder))).foldl World.step (init true)

lemma resumed_awaits : resumed.eng.Awaits ∧ ¬ Zeroed (resumed.eng.ctx : ServerCtx).selectedPsk := by
  decide +kernel

/-- Keys are installed and a header announces a record that is too long. -/
def overlong : World plainConfig :=
  [.installAppKeys ⟨replicate 32 1, zeros 12, 0⟩ .wiped, .port (.rxAck [23, 3, 3, 255, 255]),
    .step plainEnv].foldl World.step (World.init true)

/-- After a resumed handshake the PSK is still there in APP, and after a bad record the read key in FAILED. -/
theorem psk_and_key_left :
    (let w := (answer resumed).foldl World.step resumed
     w.eng.state = .app ∧ w.finished = true ∧ ¬ Zeroed (w.eng.ctx : ServerCtx).selectedPsk) ∧
    overlong.eng.state = .failed ∧ ¬ Zeroed overlong.eng.read.key := by
  obtain ⟨hstate, hfinished, hsame⟩ := answer_of_awaits resumed_awaits.1
  refine ⟨⟨hstate, hfinished, ?_⟩, by decide +kernel⟩
  rw [hsame]
  exact resumed_awaits.2

end Tls.Secrets
