import Picoweb.Tls.Handshake
import Picoweb.Tls.Server

/-!
# Calls on a server's engine

The functions of `engine.h` by which the owner of an engine drives it, apart from its creation.
-/

namespace Tls

open ByteFile List

/-- The calls that pass bytes. -/
inductive Port
  | rxAck (bytes : Bytes)
  | txAck (n : ℕ)
  | appInAck (n : ℕ)
  | appOutPush (iov : List Bytes)
  | appSealIov (iov : List Bytes)
  | emitSessionTicket (nst : Option Bytes)

/-- All calls; a step finds its environment. -/
inductive ServerCall
  | port (p : Port)
  | attachResumption (attached : Bool)
  | setClock (nowMs : ℕ)
  | installAppKeys (read write : Dir)
  | close
  | step (env : ServerEnv)

namespace Engine

section Port

variable {S : Suite}

def port (eng : Engine S) : Port → Engine S
  | .rxAck bytes => eng.rxAck bytes
  | .txAck n => eng.txAck n
  | .appInAck n => eng.appInAck n
  | .appOutPush iov => (eng.appOutPush iov).2
  | .appSealIov iov => (eng.appSealIov iov).2
  | .emitSessionTicket nst => (eng.emitSessionTicket nst).2

/-- A port moves the buffers, and in APP also the write direction. -/
lemma port_eq (eng : Engine S) (p : Port) : ∃ rx tx appIn appOut write recordsOut, eng.port p = { eng with
      rx := rx, tx := tx, appIn := appIn, appOut := appOut, write := write, recordsOut := recordsOut } ∧
    (eng.state ≠ .app → write = eng.write) := by
  cases p with
  | rxAck _ | txAck _ | appInAck _ =>
    simp only [port, rxAck, txAck, appInAck]
    split <;> exact ⟨_, _, _, _, _, _, rfl, fun _ => rfl⟩
  | appOutPush iov =>
    rw [port, appOutPush]
    split
    · exact ⟨_, _, _, _, _, _, rfl, fun _ => rfl⟩
    · split <;> exact ⟨_, _, _, _, _, _, rfl, fun _ => rfl⟩
  | appSealIov iov =>
    obtain ⟨tx, write, appOut, recordsOut, heq⟩ := @OnlySeals.appSealIov _ eng iov
    refine ⟨_, _, _, _, _, _, heq, fun happ => ?_⟩
    rw [appSealIov, if_pos happ] at heq
    exact (congrArg Engine.write heq).symm
  | emitSessionTicket nst =>
    obtain ⟨tx, write, appOut, recordsOut, heq⟩ := @OnlySeals.emitSessionTicket _ eng nst
    refine ⟨_, _, _, _, _, _, heq, fun happ => ?_⟩
    rw [emitSessionTicket.eq_def, if_pos (.inl happ)] at heq
    exact (congrArg Engine.write heq).symm

end Port

variable {cfg : ServerConfig}

/-- `pw_tls_engine_attach_resumption` -/
def attachResumption (eng : Engine (serverSuite cfg)) (attached : Bool) : Engine (serverSuite cfg) :=
  { eng with ctx := { (eng.ctx : ServerCtx) with ticketStore := attached } }

/-- `pw_tls_engine_set_clock` -/
def setClock (eng : Engine (serverSuite cfg)) (nowMs : ℕ) : Engine (serverSuite cfg) :=
  { eng with ctx := { (eng.ctx : ServerCtx) with nowMs := nowMs } }

def serverCall (eng : Engine (serverSuite cfg)) : ServerCall → Engine (serverSuite cfg)
  | .port p => eng.port p
  | .attachResumption attached => eng.attachResumption attached
  | .setClock nowMs => eng.setClock nowMs
  | .installAppKeys read write => eng.installAppKeys read write
  | .close => eng.close
  | .step env => (eng.step env).2

/-- The handshake part of the call enters APP. -/
def Finishes (eng : Engine (serverSuite cfg)) : ServerCall → Prop
  | .step env => eng.state = .handshake ∧
      (handshakeSpin (S := serverSuite cfg) env 8 eng).1.map Engine.state = some .app
  | _ => False

instance (eng : Engine (serverSuite cfg)) (c : ServerCall) : Decidable (eng.Finishes c) :=
  match c with
  | .step _ => inferInstanceAs (Decidable (_ ∧ _))
  | .port _ | .attachResumption _ | .setClock _ | .installAppKeys _ _ | .close => isFalse id

lemma Finishes.spin {eng : Engine (serverSuite cfg)} {env : ServerEnv} (h : eng.Finishes (.step env)) :
    ∃ eng₁, (handshakeSpin (S := serverSuite cfg) env 8 eng).1 = some eng₁ ∧ eng₁.state = .app :=
  Option.map_eq_some_iff.1 h.2

/-- Behind a step the engine is in the handshake only if it was, and has not finished. -/
lemma step_waits {eng : Engine (serverSuite cfg)} {env : ServerEnv}
    (h : (step (S := serverSuite cfg) env eng).2.state = .handshake) : eng.state = .handshake ∧
      (handshakeSpin (S := serverSuite cfg) env 8 eng).1 = some (eng.step env).2 ∧ ¬ eng.Finishes (.step env) := by
  obtain ⟨hstate, hspin⟩ := step_spin h
  refine ⟨hstate, hspin, fun hf => ?_⟩
  obtain ⟨eng₁, hspin₁, happ⟩ := hf.spin
  cases hspin.symm.trans hspin₁
  cases h.symm.trans happ

/-! ### A client that answers -/

/-- The record with the client's Finished, as the engine expects it. -/
def finishedRecord (eng : Engine (serverSuite cfg)) : Bytes :=
  wireRecord (chachaPoly cfg.impl) ctHandshake eng.read (buildFinished
    ((computeFinished (eng.ctx : ServerCtx).csHandshakeSecret (Sha256.final (eng.ctx : ServerCtx).transcript)).getD []))

/-- The engine with that record in RX. -/
abbrev fed (eng : Engine (serverSuite cfg)) : Engine (serverSuite cfg) := eng.rxAck eng.finishedRecord

/-- RX holds a record with a Finished, and nothing else is to be done. -/
structure HoldsFinished {S : Suite} (eng : Engine S) (dir : Dir) (plain : Bytes) : Prop where
  state : eng.state = .handshake
  phase : eng.hsPhase = .afterSfAwaitCf
  passive : eng.earlyDataPhase = .none
  appOut : eng.appOut = []
  rx : eng.rx = wireRecord S.aead ctHandshake dir plain
  opens : openRecord S.aead eng.read eng.rx = some (ctHandshake, plain, dir.after 1)
  length : plain.length = 4 + 32
  head : plain.take 4 = [0x14, 0, 0, 0x20]

/-- The loop takes the record, and the application part of the step finds nothing. -/
lemma HoldsFinished.step {S : Suite} {eng : Engine S} {dir : Dir} {plain : Bytes}
    (h : eng.HoldsFinished dir plain) (env : S.Env) {ctx : S.Ctx} {read write : Dir} {hasRms : Bool}
    (hfinished : S.finished eng.ctx plain = some (ctx, read, write, hasRms)) :
    ∃ eng₁ : Engine S, (handshakeSpin env 8 eng).1 = some eng₁ ∧ eng.step env = (true, eng₁) ∧ eng₁.state = .app ∧
      eng₁.ctx = ctx ∧ eng₁.write = write ∧ eng₁.rx = [] ∧ eng₁.appOut = [] := by
  obtain ⟨hstate, hphase, hpassive, hout, hrx, hopen, hlen, hhead⟩ := h
  have hrecordLen : recordLen eng.rx = 53 := by
    rw [hrx, wireRecord, hlen]
    exact recordLen_recordHeader_append _ (by decide) _
  have hrxLen : eng.rx.length = 58 := by
    rw [hrx, length_wireRecord, hlen]
    rfl
  have htake : eng.rx.take 58 = eng.rx := take_of_length_le hrxLen.le
  have hdrop : eng.rx.drop 58 = [] := drop_of_length_le hrxLen.le
  have hheader : eng.rx.getD 0 0 = ctApplicationData ∧ eng.rx.getD 1 0 = 3 ∧ eng.rx.getD 2 0 = 3 := by
    rw [hrx]
    exact ⟨rfl, rfl, rfl⟩
  let eng₁ : Engine S := { eng with
    ctx := ctx, read := read, write := write, hasRms := hasRms || eng.hasRms, state := .app, rx := [] }
  have hround : eng.handshakeRound env = (.progress, eng₁) := by
    simp [eng₁, handshakeRound, tryDriveHandshakeServer, tryEmitServerFlight, tryRecvClientFinished, recvFinished,
      headTotal, -getD_eq_getElem?_getD, hphase, hpassive, hrecordLen, hrxLen, htake, hdrop, hheader, hopen,
      hlen, hhead, hfinished]
    rfl
  have hspin : handshakeSpin env 8 eng = (some eng₁, eng₁) := by
    rw [handshakeSpin, hround]
    exact if_pos rfl
  have hdrain : eng₁.drain = (true, eng₁) := by
    simp [eng₁, drain, openLoop, tryOpenOne, sealLoop, trySealOne, hout]
  refine ⟨eng₁, by rw [hspin], ?_, rfl, rfl, rfl, rfl, hout⟩
  rw [Engine.step, hstate, hspin, ← hdrain]
  exact if_pos rfl

/-- The engine waits for the Finished, with everything else taken. -/
def Awaits (eng : Engine (serverSuite cfg)) : Prop :=
  eng.state = .handshake ∧ eng.hsPhase = .afterSfAwaitCf ∧ eng.earlyDataPhase = .none ∧ eng.read.seq = 0 ∧
    eng.rx = [] ∧ eng.appOut = []
deriving Decidable

/-- The step of an engine in which a handshake without early data ends: the PSK stays as it was, and the
application part finds nothing to do. -/
structure Answered (eng : Engine (serverSuite cfg)) (env : ServerEnv) : Prop where
  finishes : eng.fed.Finishes (.step env)
  start : eng.fed.appStart env = (eng.fed.step env).2
  state : (eng.fed.step env).2.state = .app
  selectedPsk : ((eng.fed.step env).2.ctx : ServerCtx).selectedPsk = (eng.ctx : ServerCtx).selectedPsk
  rx : (eng.fed.step env).2.rx = []
  appOut : (eng.fed.step env).2.appOut = []
  seq : (eng.fed.step env).2.write.seq = 0

theorem Awaits.answered {eng : Engine (serverSuite cfg)} (h : eng.Awaits) (env : ServerEnv) : eng.Answered env := by
  obtain ⟨hstate, hphase, hpassive, hseq, hrx, hout⟩ := h
  obtain ⟨verifyData, hverify, hdata, hok⟩ := exists_computeFinished (eng.ctx : ServerCtx).csHandshakeSecret
    (Sha256.final (eng.ctx : ServerCtx).transcript)
  have hlen : (buildFinished verifyData).length = 4 + 32 := by
    rw [buildFinished, length_append, hdata]
    rfl
  have hrecord : eng.finishedRecord =
      wireRecord (chachaPoly cfg.impl) ctHandshake eng.read (buildFinished verifyData) := by
    rw [finishedRecord, hverify, Option.getD_some]
  have hfed : eng.fed = { eng with rx := eng.finishedRecord } := by
    rw [fed, rxAck, hrx, if_neg, nil_append]
    rw [hrecord, length_wireRecord, hlen]
    decide
  have hopen : openRecord (serverSuite cfg).aead eng.read eng.finishedRecord =
      some (ctHandshake, buildFinished verifyData, eng.read.after 1) := by
    rw [hrecord]
    exact openRecord_wireRecord (chachaPoly_decrypt_encrypt _ _) (by decide) (by rw [hlen]; decide) (by rw [hseq]; decide)
  have hholds : HoldsFinished (S := serverSuite cfg) { eng with rx := eng.finishedRecord } eng.read
      (buildFinished verifyData) := ⟨hstate, hphase, hpassive, hout, hrecord, hopen, hlen, rfl⟩
  obtain ⟨ctx, read, write, hasRms, hfinished, hpsk, hwrite⟩ : ∃ ctx read write hasRms,
      clientFinished eng.ctx (buildFinished verifyData) = some (ctx, read, write, hasRms) ∧
        ctx.selectedPsk = (eng.ctx : ServerCtx).selectedPsk ∧ write.seq = 0 := ⟨_, _, _, _, if_pos hok, rfl, rfl⟩
  obtain ⟨eng₁, hspin, hstep, happ, rfl, rfl, hrx₁, hout₁⟩ := hholds.step env hfinished
  rw [← hfed] at hspin hstep
  have hfinishes : eng.fed.Finishes (.step env) :=
    ⟨by rw [hfed]; exact hstate, by rw [hspin, Option.map_some, happ]⟩
  constructor
  case finishes => exact hfinishes
  case start => rw [hstep, appStart_of_spin hfinishes.1 hspin]
  all_goals rw [hstep]
  case state => exact happ
  case selectedPsk => exact hpsk
  case rx => exact hrx₁
  case appOut => exact hout₁
  case seq => exact hwrite

end Engine

/-- The ClientHello of a client with the key share zero and no session id; `offer` is the id of a ticket and
its binder. -/
def clientHelloMsg (offer : Option (Bytes × Bytes)) (early : Bool) : Bytes :=
  let psk := match offer with
    | none => []
    | some (id, binder) =>
      let ids := be16 id.length ++ id ++ zeros 4
      let binders := [UInt8.ofNat binder.length] ++ binder
      let lists := be16 ids.length ++ ids ++ be16 binders.length ++ binders
      be16 0x002d ++ be16 2 ++ [1, 1] ++ (if early then be16 0x002a ++ be16 0 else []) ++
        be16 0x0029 ++ be16 lists.length ++ lists
  let extensions := be16 0x002b ++ be16 3 ++ [2, 3, 4] ++ be16 0x000d ++ be16 4 ++ be16 2 ++ be16 0x0807 ++
    be16 0x0033 ++ be16 38 ++ be16 36 ++ be16 0x001d ++ be16 32 ++ zeros 32 ++ psk
  handshakeMsg 0x01 (be16 0x0303 ++ zeros 32 ++ [0] ++ be16 2 ++ be16 0x1303 ++ [1, 0] ++
    be16 extensions.length ++ extensions)

def clientHelloRecord (offer : Option (Bytes × Bytes)) (early : Bool) : Bytes :=
  recordHeader ctHandshake (clientHelloMsg offer early).length ++ clientHelloMsg offer early

/-! ### A client with a ticket -/

/-- A server that computes no curve and signs nothing. -/
def plainConfig : ServerConfig where
  impl := .scalar
  x25519 _ _ := 1 :: zeros 31
  sigScheme := .ed25519
  sign _ _ := some []
  certs := []

def plainTicket : Ticket where
  ticketId := [7]
  psk := replicate 32 9
  ageAdd := 0
  lifetimeS := 3600
  issuedAtMs := 0
  maxEarlyData := 100
  used := false

def plainEnv : ServerEnv where
  store := TicketStore.init.insert plainTicket
  serverRandom := some (zeros 32)
  ephPriv := some (zeros 32)
  rsaPssSalt := none

/-- The binder of the ticket in a ClientHello without early data. -/
def plainBinder : Bytes :=
  [34, 243, 159, 234, 220, 66, 68, 228, 150, 48, 131, 51, 250, 19, 98, 26, 235, 53, 62, 153, 121, 51, 47, 93, 152,
    232, 224, 229, 28, 219, 41, 4]

end Tls
