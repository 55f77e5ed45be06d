import Picoweb.Tls.ClientHello
import Picoweb.Tls.Engine
import Picoweb.Tls.KeySchedule
import Picoweb.Tls.SealIov
import Picoweb.Tls.TicketStore

/-!
# The server's handshake

The handshake of `engine.c` and the messages of `handshake.c`: acceptance of a ticket, ServerHello and the
flight behind it, the secrets, and what is wiped when. `serverSuite` puts them into the engine. The curve
and the signature of the certificate are parameters.
-/

namespace Tls

open ByteFile ByteText List Option

/-! ### Parameters -/

inductive SigScheme
  | ed25519
  | rsaPssRsaeSha256
  | ecdsaSecp256r1Sha256
  deriving DecidableEq, Repr

/-- What `pw_tls_engine_configure_server` sets, with the curve and the signature under the certificate's key;
`sign` gets the signed data and, for RSA-PSS, the salt. -/
structure ServerConfig where
  impl : ChaCha20.Impl
  x25519 : Bytes → Bytes → Bytes
  sigScheme : SigScheme
  sign : Bytes → Option Bytes → Option Bytes
  certs : List Bytes

/-- What a step finds outside the engine: the ticket store and the results of the random number generator. -/
structure ServerEnv where
  store : TicketStore
  serverRandom : Option Bytes
  ephPriv : Option Bytes
  rsaPssSalt : Option Bytes

/-- The part of `pw_tls_engine_t` that the handshake works on. -/
structure ServerCtx where
  transcript : Sha256.Ctx
  serverRandom : Bytes
  ephPriv : Bytes
  ephPub : Bytes
  handshakeSecret : Bytes
  csHandshakeSecret : Bytes
  ssHandshakeSecret : Bytes
  masterSecret : Bytes
  csAppTrafficSecret : Bytes
  ssAppTrafficSecret : Bytes
  resumptionMasterSecret : Bytes
  /-- Whether a ticket store is attached. -/
  ticketStore : Bool
  nowMs : ℕ
  resumed : Bool
  selectedPskIdentity : Option ℕ
  selectedPsk : Bytes
  earlyDataAccepted : Bool
  savedHsReadKey : Bytes
  savedHsReadIv : Bytes
  deriving DecidableEq, Repr

def zeros (n : ℕ) : Bytes := replicate n 0

/-- After `pw_tls_engine_init`. -/
def ServerCtx.init : ServerCtx where
  transcript := ⟨⟨0, 0, 0, 0, 0, 0, 0, 0⟩, 0, []⟩
  serverRandom := zeros 32
  ephPriv := zeros 32
  ephPub := zeros 32
  handshakeSecret := zeros 32
  csHandshakeSecret := zeros 32
  ssHandshakeSecret := zeros 32
  masterSecret := zeros 32
  csAppTrafficSecret := zeros 32
  ssAppTrafficSecret := zeros 32
  resumptionMasterSecret := zeros 32
  ticketStore := false
  nowMs := 0
  resumed := false
  selectedPskIdentity := none
  selectedPsk := zeros 32
  earlyDataAccepted := false
  savedHsReadKey := zeros 32
  savedHsReadIv := zeros 12

/-- `wipe_handshake_secrets` -/
def ServerCtx.wipe (ctx : ServerCtx) : ServerCtx :=
  { ctx with
    ephPriv := zeros 32
    handshakeSecret := zeros 32
    csHandshakeSecret := zeros 32
    ssHandshakeSecret := zeros 32
    masterSecret := zeros 32
    csAppTrafficSecret := zeros 32
    ssAppTrafficSecret := zeros 32
    resumptionMasterSecret := zeros 32
    selectedPsk := zeros 32
    savedHsReadKey := zeros 32
    savedHsReadIv := zeros 12 }

/-! ### Messages -/

def handshakeMsg (type : UInt8) (body : Bytes) : Bytes :=
  [type, UInt8.ofNat (body.length / 65536), UInt8.ofNat (body.length / 256), UInt8.ofNat body.length] ++ body

def be16 (n : ℕ) : Bytes := [UInt8.ofNat (n / 256), UInt8.ofNat n]

def be24 (n : ℕ) : Bytes := [UInt8.ofNat (n / 65536), UInt8.ofNat (n / 256), UInt8.ofNat n]

/-- `tls13_build_server_hello_psk` -/
def buildServerHelloPsk (outCap : ℕ) (serverRandom pubkey sessionId : Bytes) (selected : Option ℕ) : Option Bytes :=
  if 32 < sessionId.length ∨ 0xffff < selected.getD 0 then none
  else
    let extensions := be16 0x002b ++ be16 2 ++ be16 0x0304 ++
      be16 0x0033 ++ be16 36 ++ be16 0x001d ++ be16 32 ++ pubkey ++
      (match selected with
        | none => []
        | some i => be16 0x0029 ++ be16 2 ++ be16 i)
    let body := be16 0x0303 ++ serverRandom ++ [UInt8.ofNat sessionId.length] ++ sessionId ++ be16 0x1303 ++
      [0] ++ be16 (if selected.isSome then 46 + 6 else 46) ++ extensions
    let msg := handshakeMsg 0x02 body
    if outCap < msg.length then none else some msg

/-- `tls13_build_encrypted_extensions_ex` -/
def buildEncryptedExtensionsEx (includeEarlyData : Bool) : Bytes :=
  if includeEarlyData then [0x08, 0, 0, 6, 0, 4, 0, 0x2a, 0, 0] else [0x08, 0, 0, 2, 0, 0]

abbrev certMsgMax : ℕ := 8192

/-- `tls13_build_certificate` -/
def buildCertificate (outCap : ℕ) (certs : List Bytes) : Option Bytes :=
  let list := certs.flatMap fun cert => be24 cert.length ++ cert ++ be16 0
  if (∃ cert ∈ certs, 0xffffff < cert.length) ∨ 0xffffff < list.length ∨ 0xffffff < 1 + 3 + list.length ∨
      outCap < 4 + (1 + 3 + list.length) then none
  else some (handshakeMsg 0x0b ([0] ++ be24 list.length ++ list))

/-- `tls13_build_certificate_verify_signed_data` for the server. -/
def certificateVerifySignedData (transcriptHash : Bytes) : Bytes :=
  replicate 64 0x20 ++ ascii "TLS 1.3, server CertificateVerify" ++ [0] ++ transcriptHash

def SigScheme.code : SigScheme → ℕ
  | .ed25519 => 0x0807
  | .rsaPssRsaeSha256 => 0x0804
  | .ecdsaSecp256r1Sha256 => 0x0403

/-- `tls13_build_certificate_verify_ex` -/
def buildCertificateVerifyEx (cfg : ServerConfig) (outCap : ℕ) (transcriptHash : Bytes) (salt : Option Bytes) :
    Option Bytes := do
  let sig ← cfg.sign (certificateVerifySignedData transcriptHash) salt
  if outCap < 4 + 2 + 2 + sig.length ∨ 0xffff < sig.length then none
  else some (handshakeMsg 0x0f (be16 cfg.sigScheme.code ++ be16 sig.length ++ sig))

/-- `tls13_build_finished` -/
def buildFinished (verifyData : Bytes) : Bytes := [0x14, 0, 0, 0x20] ++ verifyData

/-! ### Acceptance of a ticket -/

/-- A ticket whose binder was verified: the offer it was presented in, and the slot it is in. -/
structure Selection where
  index : ℕ
  slot : Slot
  ticket : Ticket
  deriving DecidableEq, Repr

def expectedBinder (msg : Bytes) (ch : ClientHello) (t : Ticket) : Option Bytes := do
  let partialHash := Sha256.sha256 (msg.take ch.pskPartialChOff)
  let key ← computeBinderKey (computeEarlySecret t.psk) false
  computePskBinder key partialHash

def binderMatches (msg : Bytes) (ch : ClientHello) (t : Ticket) (binder : PskBinder) : Bool :=
  match expectedBinder msg ch t with
  | none => false
  | some expected =>
    binder.len == 32 && ChaChaPoly.consttimeEq expected ((msg.drop binder.off).take binder.len)

/-- The loop over the offers: the first ticket with the right binder is accepted and consumed. -/
def selectPsk (msg : Bytes) (ch : ClientHello) (nowMs : ℕ) :
    ℕ → List (PskIdentity × PskBinder) → TicketStore → TicketStore × Option Selection
  | _, [], store => (store, none)
  | i, (id, binder) :: offers, store =>
    match store.lookup ((msg.drop id.off).take id.len) nowMs with
    | (store, none) => selectPsk msg ch nowMs (i + 1) offers store
    | (store, some (slot, t)) =>
      if binderMatches msg ch t binder then (store.consume slot, some ⟨i, slot, t⟩)
      else selectPsk msg ch nowMs (i + 1) offers store

/-- PSK acceptance of `try_drive_handshake_server`. -/
def acceptPsk (ctx : ServerCtx) (msg : Bytes) (ch : ClientHello) (store : TicketStore) :
    TicketStore × Option Selection :=
  if ctx.ticketStore && ch.pskPresent && ch.pskDheKeOffered then
    selectPsk msg ch ctx.nowMs 0 (ch.pskIds.zip ch.pskBinders) store
  else (store, none)

/-- Early data is accepted for the first offer only, and once for each ticket. -/
def acceptsEarly (ch : ClientHello) (sel : Selection) : Bool :=
  sel.index == 0 && ch.offersEarlyData && sel.ticket.canEarlyData

/-! ### ClientHello and ServerHello -/

/-- The checks of a ClientHello, before anything is accepted. -/
def parseHello (msg : Bytes) : Option ClientHello :=
  match ClientHello.parse msg with
  | .error _ => none
  | .ok ch => if ch.offersTls13 && ch.offersChachaPoly && ch.offersX25519 then some ch else none

def offersScheme (ch : ClientHello) : SigScheme → Bool
  | .ed25519 => ch.offersEd25519
  | .rsaPssRsaeSha256 => ch.offersRsaPssRsaeSha256
  | .ecdsaSecp256r1Sha256 => ch.offersEcdsaSecp256r1Sha256

def clamp (k : Bytes) : Bytes := (k.modify 0 (· &&& 248)).modify 31 fun b => (b &&& 127) ||| 64

def basePoint : Bytes := 9 :: zeros 31

def helloSecrets (sel : Option Selection) (shared transcriptHash : Bytes) : Option HandshakeSecrets :=
  match sel with
  | none => computeHandshakeSecrets shared transcriptHash
  | some s => computeHandshakeSecretsPsk s.ticket.psk shared transcriptHash

def earlyTrafficSecret (psk msg : Bytes) : Option Bytes :=
  computeClientEarlyTrafficSecret (computeEarlySecret psk) (Sha256.sha256 msg)

section Config

variable (cfg : ServerConfig)

/-- `try_drive_handshake_server` behind the acceptance of a ticket: ServerHello, secrets and keys. -/
def greet (env : ServerEnv) (ctx : ServerCtx) (msg : Bytes) (ch : ClientHello) (sel : Option Selection) :
    Option (Hello ServerCtx) := do
  if sel.isNone && !offersScheme ch cfg.sigScheme then none
  else do
    let serverRandom ← env.serverRandom
    let priv := clamp (← env.ephPriv)
    let shared := cfg.x25519 priv ch.ecdhePubkey
    if shared.all (· == 0) then none
    else do
      let pub := cfg.x25519 priv basePoint
      let sh ← buildServerHelloPsk 256 serverRandom pub ch.legacySessionId (sel.map Selection.index)
      let transcript := Sha256.update (Sha256.update Sha256.init msg) sh
      let secrets ← helloSecrets sel shared (Sha256.final transcript)
      let hsKeys := deriveTrafficKeys secrets.client
      let early := sel.filter (acceptsEarly ch ·)
      -- early data is rolled back where its keys cannot be derived
      let earlySecret := early.bind fun s => earlyTrafficSecret s.ticket.psk msg
      let ctx := { ctx with
        transcript := transcript
        serverRandom := serverRandom
        ephPriv := zeros 32
        ephPub := pub
        handshakeSecret := secrets.handshake
        csHandshakeSecret := secrets.client
        ssHandshakeSecret := secrets.server
        resumed := sel.isSome
        selectedPskIdentity := sel.map Selection.index
        selectedPsk := (sel.map fun s => s.ticket.psk).getD (zeros 32)
        earlyDataAccepted := earlySecret.isSome
        savedHsReadKey := if early.isSome then hsKeys.1 else ctx.savedHsReadKey
        savedHsReadIv := if early.isSome then hsKeys.2 else ctx.savedHsReadIv }
      pure {
        ctx := ctx
        serverHello := sh
        read := (earlySecret.map trafficDir).getD (trafficDir secrets.client)
        write := trafficDir secrets.server
        earlyMax := if earlySecret.isSome then early.map fun s => s.ticket.maxEarlyData else none }

/-- A ClientHello that is taken; the room in TX is looked at by the engine. -/
def clientHello (env : ServerEnv) (ctx : ServerCtx) (msg : Bytes) : Option (Hello ServerCtx) := do
  let ch ← parseHello msg
  greet cfg env ctx msg ch (acceptPsk ctx msg ch env.store).2

/-! ### The flight -/

/-- The messages of the flight, each built on the transcript of those before it. -/
def flightBuilders (env : ServerEnv) (resumed : Bool) : List (ServerCtx → Option Bytes) :=
  [fun ctx => some (buildEncryptedExtensionsEx ctx.earlyDataAccepted)] ++ (if resumed then [] else
      [fun _ => buildCertificate certMsgMax cfg.certs, fun ctx =>
          if cfg.sigScheme = .rsaPssRsaeSha256 then
            env.rsaPssSalt.bind fun salt =>
              buildCertificateVerifyEx cfg (4 + 2 + 2 + 512) (Sha256.final ctx.transcript) (some salt)
          else buildCertificateVerifyEx cfg (4 + 2 + 2 + 512) (Sha256.final ctx.transcript) none]) ++
    [fun ctx => (computeFinished ctx.ssHandshakeSecret (Sha256.final ctx.transcript)).map buildFinished]

def buildAll : List (ServerCtx → Option Bytes) → ServerCtx → List Bytes × Option ServerCtx
  | [], ctx => ([], some ctx)
  | build :: rest, ctx =>
    match build ctx with
    | none => ([], none)
    | some msg =>
      let (msgs, ctx) := buildAll rest { ctx with transcript := Sha256.update ctx.transcript msg }
      (msg :: msgs, ctx)

/-- `try_emit_server_flight` without the sealing: the messages, and the application secrets behind them. -/
def flight (env : ServerEnv) (ctx : ServerCtx) : List Bytes × Option ServerCtx :=
  let (msgs, built) := buildAll (flightBuilders cfg env ctx.resumed) ctx
  (msgs, do
    let ctx ← built
    let secrets ← computeApplicationSecrets ctx.handshakeSecret (Sha256.final ctx.transcript)
    pure { ctx with
      masterSecret := secrets.master
      csAppTrafficSecret := secrets.client
      ssAppTrafficSecret := secrets.server })

end Config

/-! ### Finished -/

/-- EndOfEarlyData goes into the transcript and brings the handshake keys back. -/
def endOfEarlyData (ctx : ServerCtx) (plain : Bytes) : ServerCtx × Dir :=
  ({ ctx with
      transcript := Sha256.update ctx.transcript plain
      savedHsReadKey := zeros 32
      savedHsReadIv := zeros 12 },
    ⟨ctx.savedHsReadKey, ctx.savedHsReadIv, 0⟩)

/-- The end of `try_recv_client_finished`. -/
def clientFinished (ctx : ServerCtx) (plain : Bytes) : Option (ServerCtx × Dir × Dir × Bool) :=
  if verifyFinished ctx.csHandshakeSecret (Sha256.final ctx.transcript) (plain.drop 4) then
    let transcript := Sha256.update ctx.transcript plain
    let rms := computeResumptionMasterSecret ctx.masterSecret (Sha256.final transcript)
    some ({ ctx with
        transcript := transcript
        resumptionMasterSecret := rms.getD ctx.resumptionMasterSecret
        handshakeSecret := zeros 32
        csHandshakeSecret := zeros 32
        ssHandshakeSecret := zeros 32
        masterSecret := zeros 32 },
      trafficDir ctx.csAppTrafficSecret, trafficDir ctx.ssAppTrafficSecret, rms.isSome)
  else none

def serverSuite (cfg : ServerConfig) : Suite where
  aead := chachaPoly cfg.impl
  Ctx := ServerCtx
  Env := ServerEnv
  clientHello := clientHello cfg
  flight := flight cfg
  endOfEarlyData := endOfEarlyData
  finished := clientFinished
  wipe := ServerCtx.wipe

/-- The store after `try_drive_handshake_server`, which looks at the offers of a ClientHello it takes. -/
def Engine.storeAfter {cfg : ServerConfig} (eng : Engine (serverSuite cfg)) (store : TicketStore) :
    TicketStore × Option Selection :=
  if eng.state ≠ .handshake ∨ eng.configured = false ∨ eng.hsPhase ≠ .waitCh ∨
      eng.rx.length < recordHeaderLen then (store, none)
  else if eng.rx.getD 0 0 ≠ ctHandshake ∨ eng.rx.getD 1 0 ≠ 3 ∨
      (eng.rx.getD 2 0 ≠ 1 ∧ eng.rx.getD 2 0 ≠ 3) then (store, none)
  else if recordLen eng.rx = 0 ∨ maxPlaintext < recordLen eng.rx then (store, none)
  else if eng.rx.length < eng.headTotal then (store, none)
  else
    match parseHello ((eng.rx.take eng.headTotal).drop recordHeaderLen) with
    | none => (store, none)
    | some ch => acceptPsk eng.ctx ((eng.rx.take eng.headTotal).drop recordHeaderLen) ch store

/-! ### What the handshake leads to -/

/-- A ticket that is selected is in the store, and one of the offers names it and has its binder. -/
lemma selectPsk_eq_some {msg : Bytes} {ch : ClientHello} {nowMs i : ℕ} {offers : List (PskIdentity × PskBinder)}
    {store store' : TicketStore} {sel : Selection} (h : selectPsk msg ch nowMs i offers store = (store', some sel)) :
    store sel.slot = some sel.ticket ∧ ∃ offer ∈ offers, sel.ticket.ticketId = (msg.drop offer.1.off).take offer.1.len ∧
        binderMatches msg ch sel.ticket offer.2 = true := by
  induction offers generalizing i store with
  | nil => cases h
  | cons offer offers ih =>
    obtain ⟨id, binder⟩ := offer
    rw [selectPsk] at h
    rcases TicketStore.lookup_spec store ((msg.drop id.off).take id.len) nowMs with
      ⟨slot, hlookup⟩ | hlookup | ⟨slot, t, hlookup, hslot, hid⟩
    · rw [hlookup] at h
      obtain ⟨hstore, offer, hmem, hoffer⟩ := ih h
      refine ⟨?_, offer, mem_cons_of_mem _ hmem, hoffer⟩
      -- the ticket is not the one that was dropped
      by_cases hdropped : sel.slot = slot
      · rw [hdropped, Function.update_self] at hstore
        cases hstore
      · rwa [Function.update_of_ne hdropped] at hstore
    · rw [hlookup] at h
      obtain ⟨hstore, offer, hmem, hoffer⟩ := ih h
      exact ⟨hstore, offer, mem_cons_of_mem _ hmem, hoffer⟩
    · rw [hlookup] at h
      dsimp only at h
      split at h
      · rename_i hbinder
        cases h
        exact ⟨hslot, (id, binder), mem_cons_self, hid, hbinder⟩
      · obtain ⟨hstore, offer, hmem, hoffer⟩ := ih h
        exact ⟨hstore, offer, mem_cons_of_mem _ hmem, hoffer⟩

/-- A ClientHello that was answered: the ServerHello and the secrets that both lead to. -/
structure Greeting (cfg : ServerConfig) where
  msg : Bytes
  ch : ClientHello
  parsed : parseHello msg = some ch
  sel : Option Selection
  serverRandom : Bytes
  priv : Bytes
  sh : Bytes
  built : buildServerHelloPsk 256 serverRandom (cfg.x25519 priv basePoint) ch.legacySessionId
    (sel.map Selection.index) = some sh
  secrets : HandshakeSecrets
  derived : helloSecrets sel (cfg.x25519 priv ch.ecdhePubkey) (Sha256.sha256 (msg ++ sh)) = some secrets

namespace Greeting

variable {cfg : ServerConfig} (g : Greeting cfg)

/-- The ticket whose early data is accepted. -/
def early : Option Selection := g.sel.filter (acceptsEarly g.ch ·)

def earlySecret : Option Bytes := g.early.bind fun s => earlyTrafficSecret s.ticket.psk g.msg

def hello (ctx : ServerCtx) : Hello ServerCtx where
  ctx := { ctx with
    transcript := Sha256.update Sha256.init (g.msg ++ g.sh)
    serverRandom := g.serverRandom
    ephPriv := zeros 32
    ephPub := cfg.x25519 g.priv basePoint
    handshakeSecret := g.secrets.handshake
    csHandshakeSecret := g.secrets.client
    ssHandshakeSecret := g.secrets.server
    resumed := g.sel.isSome
    selectedPskIdentity := g.sel.map Selection.index
    selectedPsk := (g.sel.map fun s => s.ticket.psk).getD (zeros 32)
    earlyDataAccepted := g.earlySecret.isSome
    savedHsReadKey := if g.early.isSome then (deriveTrafficKeys g.secrets.client).1 else ctx.savedHsReadKey
    savedHsReadIv := if g.early.isSome then (deriveTrafficKeys g.secrets.client).2 else ctx.savedHsReadIv }
  serverHello := g.sh
  read := (g.earlySecret.map trafficDir).getD (trafficDir g.secrets.client)
  write := trafficDir g.secrets.server
  earlyMax := if g.earlySecret.isSome then g.early.map fun s => s.ticket.maxEarlyData else none

/-- The secret of accepted early data can always be derived. -/
lemma isSome_earlySecret : g.earlySecret.isSome = g.early.isSome := by
  rw [earlySecret]
  cases g.early with
  | none => rfl
  | some s => exact isSome_computeClientEarlyTrafficSecret _ _

lemma isSome_earlyMax (ctx : ServerCtx) : (g.hello ctx).earlyMax.isSome = g.early.isSome := by
  simp only [hello, g.isSome_earlySecret]
  cases g.early with
  | none | some => rfl

end Greeting

section Config

variable {cfg : ServerConfig} {env : ServerEnv} {ctx : ServerCtx} {msg : Bytes}

lemma clientHello_eq_some {hello : Hello ServerCtx} (h : clientHello cfg env ctx msg = some hello) :
    ∃ g : Greeting cfg, g.msg = msg ∧ g.sel = (acceptPsk ctx msg g.ch env.store).2 ∧ hello = g.hello ctx := by
  rw [clientHello, bind_eq_bind, bind_eq_some_iff] at h
  obtain ⟨ch, hparsed, h⟩ := h
  generalize hsel : (acceptPsk ctx msg ch env.store).2 = sel at h
  rw [greet] at h
  split at h
  · cases h
  simp only [bind_eq_bind, bind_eq_some_iff] at h
  obtain ⟨serverRandom, -, k, -, h⟩ := h
  split at h
  · cases h
  simp only [bind_eq_some_iff] at h
  obtain ⟨sh, hbuilt, secrets, hsecrets, h⟩ := h
  cases h
  rw [Sha256.update_init_append] at hsecrets ⊢
  exact ⟨⟨msg, ch, hparsed, sel, serverRandom, clamp k, sh, hbuilt, secrets, hsecrets⟩, rfl, hsel.symm, rfl⟩

/-- Building messages changes the transcript only, and puts them all into it. -/
lemma buildAll_eq_some {builders : List (ServerCtx → Option Bytes)} {msgs : List Bytes} {ctx' : ServerCtx}
    (h : buildAll builders ctx = (msgs, some ctx')) :
    ∃ transcript, ctx' = { ctx with transcript := transcript } ∧ ∀ seen,
      ctx.transcript = Sha256.update Sha256.init seen →
        transcript = Sha256.update Sha256.init (seen ++ msgs.flatten) := by
  induction builders generalizing ctx msgs with
  | nil =>
    cases h
    refine ⟨_, rfl, fun seen hseen => ?_⟩
    rw [flatten_nil, append_nil, hseen]
  | cons build rest ih =>
    rw [buildAll] at h
    split at h
    · cases h
    · rename_i msg hmsg
      rcases hrest : buildAll rest { ctx with transcript := Sha256.update ctx.transcript msg } with ⟨msgs', built⟩
      rw [hrest] at h
      cases h
      obtain ⟨transcript, rfl, htranscript⟩ := ih hrest
      refine ⟨transcript, rfl, fun seen hseen => ?_⟩
      rw [flatten_cons, ← append_assoc]
      exact htranscript _ (by rw [hseen, Sha256.update_init_append])

/-- What the flight leaves of the context: the transcript goes on, and the application secrets are new. -/
lemma flight_eq_some {msgs : List Bytes} {ctx' : ServerCtx} (h : flight cfg env ctx = (msgs, some ctx')) :
    ∃ transcript, ∃ secrets : ApplicationSecrets, ctx' = { ctx with
        transcript := transcript
        masterSecret := secrets.master
        csAppTrafficSecret := secrets.client
        ssAppTrafficSecret := secrets.server } ∧ ∀ seen,
      ctx.transcript = Sha256.update Sha256.init seen →
        transcript = Sha256.update Sha256.init (seen ++ msgs.flatten) := by
  rw [flight] at h
  rcases hbuilt : buildAll (flightBuilders cfg env ctx.resumed) ctx with ⟨msgs', built⟩
  rw [hbuilt] at h
  obtain ⟨rfl, hctx⟩ := Prod.mk.inj h
  simp only [bind_eq_bind, bind_eq_some_iff] at hctx
  obtain ⟨ctx₁, rfl, secrets, -, hctx⟩ := hctx
  obtain ⟨transcript, rfl, htranscript⟩ := buildAll_eq_some hbuilt
  exact ⟨transcript, secrets, (some.inj hctx).symm, htranscript⟩

/-- What a Finished that is verified leaves of the context. -/
lemma clientFinished_eq_some {plain : Bytes} {ctx' : ServerCtx} {read write : Dir} {hasRms : Bool}
    (h : clientFinished ctx plain = some (ctx', read, write, hasRms)) :
    verifyFinished ctx.csHandshakeSecret (Sha256.final ctx.transcript) (plain.drop 4) = true ∧
      ∃ transcript rms, ctx' = { ctx with
        transcript := transcript
        resumptionMasterSecret := rms
        handshakeSecret := zeros 32
        csHandshakeSecret := zeros 32
        ssHandshakeSecret := zeros 32
        masterSecret := zeros 32 } := by
  rw [clientFinished] at h
  split at h
  · rename_i hverified
    cases h
    exact ⟨hverified, _, _, rfl⟩
  · cases h

end Config

end Tls
