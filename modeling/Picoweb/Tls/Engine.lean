import Picoweb.Tls.Record

/-!
# The TLS engine

`engine.c`: a byte-driven state machine with four ports (RX, TX, APP_IN, APP_OUT) and `pw_tls_step`. The
messages of the handshake and the key schedule are parameters: what matters here is which bytes each
phase takes from RX, which records it puts into TX, and when the state changes.
-/

namespace Tls

open ByteFile List

/-- `PW_TLS_BUF_CAP` -/
abbrev bufCap : ℕ := recordHeaderLen + maxCiphertext

/-- `PW_TLS_TX_BUF_CAP` -/
abbrev txBufCap : ℕ := 96 * 1024

/-- `pw_tls_state_t` -/
inductive EngineState
  | handshake
  | app
  | closed
  | failed
  deriving DecidableEq, Repr

/-- `pw_tls_hs_phase_t` -/
inductive HsPhase
  | waitCh
  | afterShKeys
  | afterSfAwaitCf
  deriving DecidableEq, Repr

/-- `pw_tls_err_t` -/
inductive EngineErr
  | none
  | auth
  | protocol
  | overflow
  | internal
  deriving DecidableEq, Repr

/-- `early_data_phase` -/
inductive EarlyPhase
  | none
  | active
  | done
  deriving DecidableEq, Repr

/-- What an accepted ClientHello leads to; `earlyMax` is the limit of the early data, if it is accepted. -/
structure Hello (Ctx : Type) where
  ctx : Ctx
  serverHello : Bytes
  read : Dir
  write : Dir
  earlyMax : Option ℕ

/-- The cryptography of the handshake. `Env` is what a step finds outside the engine: clock, random
numbers and ticket store. -/
structure Suite where
  aead : Aead
  Ctx : Type
  Env : Type
  /-- From `tls13_parse_client_hello` to the handshake keys. -/
  clientHello : Env → Ctx → Bytes → Option (Hello Ctx)
  /-- The messages from EncryptedExtensions to the server's Finished that could be built, and the keys
  after them where all could. -/
  flight : Env → Ctx → List Bytes × Option Ctx
  /-- The transcript after EndOfEarlyData and the saved handshake keys. -/
  endOfEarlyData : Ctx → Bytes → Ctx × Dir
  /-- Verification of the client's Finished, the application keys and whether a resumption secret exists. -/
  finished : Ctx → Bytes → Option (Ctx × Dir × Dir × Bool)
  /-- What `wipe_all_key_material` leaves of the secrets. -/
  wipe : Ctx → Ctx

/-- `pw_tls_engine_t`; the length fields are the lengths of the buffers. -/
structure Engine (S : Suite) where
  state : EngineState
  hsPhase : HsPhase
  lastErr : EngineErr
  rx : Bytes
  tx : Bytes
  appIn : Bytes
  appOut : Bytes
  read : Dir
  write : Dir
  keysInstalled : Bool
  configured : Bool
  hasRms : Bool
  earlyDataMax : ℕ
  earlyDataSeen : ℕ
  earlyDataPhase : EarlyPhase
  recordsIn : ℕ
  recordsOut : ℕ
  ctx : S.Ctx

/-- The result of a helper: -1, 0 or 1. -/
inductive Rc
  | error
  | idle
  | progress
  deriving DecidableEq, Repr

namespace Engine

variable {S : Suite}

/-- `pw_tls_engine_init` and, where it succeeds, `pw_tls_engine_configure_server`. -/
def init (ctx : S.Ctx) (configured : Bool) : Engine S where
  state := .handshake
  hsPhase := .waitCh
  lastErr := .none
  rx := []
  tx := []
  appIn := []
  appOut := []
  read := .wiped
  write := .wiped
  keysInstalled := false
  configured := configured
  hasRms := false
  earlyDataMax := 0
  earlyDataSeen := 0
  earlyDataPhase := .none
  recordsIn := 0
  recordsOut := 0
  ctx := ctx

/-- `pw_tls_engine_install_app_keys` -/
def installAppKeys (eng : Engine S) (read write : Dir) : Engine S :=
  if eng.state = .failed ∨ eng.state = .closed then eng
  else { eng with
    read := { read with seq := 0 }, write := { write with seq := 0 }, keysInstalled := true, state := .app }

/-- `pw_tls_close` -/
def close (eng : Engine S) : Engine S := { eng with state := .closed }

/-- `engine_mark_err` -/
def markErr (eng : Engine S) (e : EngineErr) : Engine S :=
  { eng with lastErr := if eng.lastErr = .none then e else eng.lastErr }

/-- The transition to FAILED with a default class of error. -/
def setFailed (eng : Engine S) (e : EngineErr) : Engine S := { eng.markErr e with state := .failed }

/-! ### Ports -/

/-- `pw_tls_rx_ack` after the caller has written `bytes`. -/
def rxAck (eng : Engine S) (bytes : Bytes) : Engine S :=
  if bufCap - eng.rx.length < bytes.length then eng else { eng with rx := eng.rx ++ bytes }

/-- `pw_tls_tx_ack` -/
def txAck (eng : Engine S) (n : ℕ) : Engine S :=
  if eng.tx.length < n then eng else { eng with tx := eng.tx.drop n }

/-- `pw_tls_app_in_ack` -/
def appInAck (eng : Engine S) (n : ℕ) : Engine S :=
  if eng.appIn.length < n then eng else { eng with appIn := eng.appIn.drop n }

/-- `pw_tls_app_out_push` -/
def appOutPush (eng : Engine S) (iov : List Bytes) : Bool × Engine S :=
  if eng.state ≠ .app then (false, eng)
  else if bufCap - eng.appOut.length < iov.flatten.length then (false, eng)
  else (true, { eng with appOut := eng.appOut ++ iov.flatten })

def sealTx (eng : Engine S) (inner : ContentType) (plaintext : Bytes) : Option (Engine S) :=
  (sealRecord S.aead eng.write inner ctApplicationData plaintext (txBufCap - eng.tx.length)).map fun p =>
    { eng with tx := eng.tx ++ p.1, write := p.2, recordsOut := eng.recordsOut + 1 }

/-- The inner loop of `pw_tls_app_seal_iov`: the fragments of the next `chunk` bytes, and the rest. -/
def takeChunk : List Bytes → ℕ → List Bytes × List Bytes
  | [], _ => ([], [])
  | frag :: rest, chunk =>
    if chunk = 0 then ([], frag :: rest)
    else if frag.length ≤ chunk then
      let (taken, rest) := takeChunk rest (chunk - frag.length)
      (if frag = [] then taken else frag :: taken, rest)
    else ([frag.take chunk], frag.drop chunk :: rest)

/-- The outer loop of `pw_tls_app_seal_iov`, which seals at least one byte in each round. -/
def sealChunks : ℕ → List Bytes → Engine S → Bool × Engine S
  | 0, _, eng => (true, eng)
  | fuel + 1, iov, eng =>
    if iov.flatten = [] then (true, eng)
    else
      let (taken, rest) := takeChunk iov maxPlaintext
      if iovMaxFrags < taken.length then (false, eng)
      else
        match eng.sealTx ctApplicationData taken.flatten with
        | none => (false, eng)
        | some eng => sealChunks fuel rest eng

/-- `pw_tls_app_seal_iov` -/
def appSealIov (eng : Engine S) (iov : List Bytes) : Bool × Engine S :=
  if eng.state ≠ .app then (false, eng)
  else
    let total := iov.flatten.length
    let recOverhead := recordHeaderLen + 1 + aeadTagLen
    let records := if total = 0 then 1 else (total + maxPlaintext - 1) / maxPlaintext
    if txBufCap - eng.tx.length < total + records * recOverhead then (false, eng)
    else if total = 0 then
      match eng.sealTx ctApplicationData [] with
      | none => (false, eng)
      | some eng => (true, eng)
    else sealChunks total iov eng

/-- `pw_tls_engine_emit_session_ticket`; `nst` is the message, where the ticket could be derived. -/
def emitSessionTicket (eng : Engine S) (nst : Option Bytes) : Bool × Engine S :=
  if eng.state ≠ .app ∨ eng.hasRms = false then (false, eng)
  else
    match nst with
    | none => (false, eng)
    | some nst =>
      match eng.sealTx ctHandshake nst with
      | none => (false, eng)
      | some eng => (true, eng)

/-! ### Records in the application phase -/

/-- The length of the record at the head of RX, header included. -/
def headTotal (eng : Engine S) : ℕ := recordHeaderLen + recordLen eng.rx

/-- RX after the record at its head was opened, where it is not taken out: the plaintext stays there. -/
def rxOpened (eng : Engine S) : Bytes :=
  openInPlace S.aead eng.read (eng.rx.take eng.headTotal) ++ eng.rx.drop eng.headTotal

/-- The part of `try_open_one` on an opened record; `rest` is RX behind it. -/
def takeOpened (eng : Engine S) (inner : ContentType) (plain rest : Bytes) : Rc × Engine S :=
  if inner = ctApplicationData then
    if bufCap - eng.appIn.length < plain.length then (.error, eng.markErr .overflow)
    else (.progress, { eng with appIn := eng.appIn ++ plain, rx := rest })
  else if inner = ctAlert then (.progress, { eng with state := .closed, rx := rest })
  else if inner = ctHandshake then (.progress, { eng with rx := rest })
  else (.error, eng)

/-- `try_open_one` -/
def tryOpenOne (eng : Engine S) : Rc × Engine S :=
  if eng.rx.length < recordHeaderLen then (.idle, eng)
  else if bufCap < eng.headTotal then (.error, eng)
  else if eng.rx.length < eng.headTotal then (.idle, eng)
  else
    match openRecord S.aead eng.read (eng.rx.take eng.headTotal) with
    | none => (.error, { eng.markErr .auth with rx := eng.rxOpened })
    | some (inner, plain, read) =>
      takeOpened { eng with read := read, recordsIn := eng.recordsIn + 1, rx := eng.rxOpened } inner plain
        (eng.rx.drop eng.headTotal)

/-- `try_seal_one` -/
def trySealOne (eng : Engine S) : Rc × Engine S :=
  if eng.appOut = [] then (.idle, eng)
  else
    let pt := eng.appOut.take maxPlaintext
    if txBufCap - eng.tx.length < recordHeaderLen + pt.length + 1 + aeadTagLen then (.idle, eng)
    else
      match eng.sealTx ctApplicationData pt with
      | none => (.error, eng)
      | some eng => (.progress, { eng with appOut := eng.appOut.drop pt.length })

/-! ### Handshake -/

/-- The ServerHello is out. -/
def greeted (eng : Engine S) (hello : Hello S.Ctx) : Engine S :=
  { eng with
    ctx := hello.ctx
    read := hello.read
    write := hello.write
    earlyDataMax := hello.earlyMax.getD 0
    earlyDataPhase := if hello.earlyMax.isSome then .active else .none
    keysInstalled := true
    tx := eng.tx ++ recordHeader ctHandshake hello.serverHello.length ++ hello.serverHello
    recordsOut := eng.recordsOut + 1
    hsPhase := .afterShKeys
    rx := behindRecord eng.rx }

/-- `try_drive_handshake_server` -/
def tryDriveHandshakeServer (env : S.Env) (eng : Engine S) : Rc × Engine S :=
  if eng.configured = false ∨ eng.hsPhase ≠ .waitCh ∨ eng.rx.length < recordHeaderLen then (.idle, eng)
  else if eng.rx.getD 0 0 ≠ ctHandshake ∨ eng.rx.getD 1 0 ≠ 3 ∨
      (eng.rx.getD 2 0 ≠ 1 ∧ eng.rx.getD 2 0 ≠ 3) then (.error, eng)
  else if recordLen eng.rx = 0 ∨ maxPlaintext < recordLen eng.rx then (.error, eng)
  else if eng.rx.length < eng.headTotal then (.idle, eng)
  else
    match S.clientHello env eng.ctx ((eng.rx.take eng.headTotal).drop recordHeaderLen) with
    | none => (.error, eng)
    | some hello =>
      if txBufCap - eng.tx.length < recordHeaderLen + hello.serverHello.length then (.error, eng)
      else (.progress, eng.greeted hello)

/-- `seal_one_handshake_msg` on each message, up to the first that does not fit. -/
def sealHandshakeMsgs : List Bytes → Engine S → Bool × Engine S
  | [], eng => (true, eng)
  | msg :: msgs, eng =>
    match eng.sealTx ctHandshake msg with
    | none => (false, eng)
    | some eng => sealHandshakeMsgs msgs eng

/-- `try_emit_server_flight` -/
def tryEmitServerFlight (env : S.Env) (eng : Engine S) : Rc × Engine S :=
  if eng.hsPhase ≠ .afterShKeys then (.idle, eng)
  else if eng.configured = false then (.error, eng)
  else
    let (msgs, ctx) := S.flight env eng.ctx
    match sealHandshakeMsgs msgs eng, ctx with
    | (true, eng), some ctx => (.progress, { eng with ctx := ctx, hsPhase := .afterSfAwaitCf })
    | (_, eng), _ => (.error, eng)

/-- The part of `try_recv_client_finished` on an opened record of early data. -/
def recvEarly (eng : Engine S) (inner : ContentType) (plain rest : Bytes) : Rc × Engine S :=
  if inner = ctApplicationData then
    if eng.earlyDataMax < eng.earlyDataSeen + plain.length then (.error, eng.markErr .protocol)
    else if bufCap < eng.appIn.length + plain.length then (.error, eng.markErr .overflow)
    else (.progress, { eng with
      appIn := eng.appIn ++ plain
      earlyDataSeen := eng.earlyDataSeen + plain.length
      rx := rest })
  else if inner = ctHandshake ∧ plain = [5, 0, 0, 0] then
    let (ctx, read) := S.endOfEarlyData eng.ctx plain
    (.progress, { eng with ctx := ctx, read := read, earlyDataPhase := .done, rx := rest })
  else (.error, eng)

/-- The part of `try_recv_client_finished` on the client's Finished. -/
def recvFinished (eng : Engine S) (inner : ContentType) (plain rest : Bytes) : Rc × Engine S :=
  if inner ≠ ctHandshake ∨ plain.length ≠ 4 + 32 ∨ plain.take 4 ≠ [0x14, 0, 0, 0x20] then (.error, eng)
  else
    match S.finished eng.ctx plain with
    | none => (.error, eng.markErr .auth)
    | some (ctx, read, write, hasRms) =>
      (.progress, { eng with
        ctx := ctx
        read := read
        write := write
        hasRms := hasRms || eng.hasRms
        state := .app
        rx := rest })

/-- `try_recv_client_finished` -/
def tryRecvClientFinished (eng : Engine S) : Rc × Engine S :=
  if eng.hsPhase ≠ .afterSfAwaitCf ∨ eng.rx.length < recordHeaderLen then (.idle, eng)
  else if eng.rx.getD 1 0 ≠ 3 ∨ (eng.rx.getD 2 0 ≠ 3 ∧ eng.rx.getD 2 0 ≠ 1) then (.error, eng)
  else if recordLen eng.rx = 0 ∨ maxCiphertext < recordLen eng.rx then (.error, eng)
  else if eng.rx.length < eng.headTotal then (.idle, eng)
  else
    let rest := eng.rx.drop eng.headTotal
    if eng.rx.getD 0 0 = ctChangeCipherSpec then
      if recordLen eng.rx ≠ 1 ∨ eng.rx.getD recordHeaderLen 0 ≠ 1 then (.error, eng)
      else (.progress, { eng with rx := rest })
    else if eng.rx.getD 0 0 ≠ ctApplicationData then (.error, eng)
    else
      match openRecord S.aead eng.read (eng.rx.take eng.headTotal) with
      | none => (.error, { eng.markErr .auth with rx := eng.rxOpened })
      | some (inner, plain, read) =>
        let eng := { eng with read := read, rx := eng.rxOpened }
        if eng.earlyDataPhase = .active then eng.recvEarly inner plain rest
        else eng.recvFinished inner plain rest

/-! ### `pw_tls_step` -/

/-- The `fail` label: key material, TX and APP_IN are dropped. -/
def handshakeFail (eng : Engine S) : Engine S :=
  { eng.setFailed .protocol with
    read := .wiped, write := .wiped, keysInstalled := false, hasRms := false, tx := [], appIn := []
    ctx := S.wipe eng.ctx }

/-- One round of the handshake: each helper does nothing outside its own phase. -/
def handshakeRound (env : S.Env) (eng : Engine S) : Rc × Engine S :=
  match eng.tryDriveHandshakeServer env with
  | (.idle, eng) =>
    match eng.tryEmitServerFlight env with
    | (.idle, eng) => eng.tryRecvClientFinished
    | r => r
  | r => r

/-- The handshake loop: nothing where it failed. -/
def handshakeSpin (env : S.Env) : ℕ → Engine S → Option (Engine S) × Engine S
  | 0, eng => (some eng, eng)
  | spin + 1, eng =>
    match eng.handshakeRound env with
    | (.error, eng) => (none, eng)
    | (.idle, eng) => (some eng, eng)
    | (.progress, eng) => if eng.state = .app then (some eng, eng) else handshakeSpin env spin eng

def openLoop : ℕ → Engine S → Bool × Engine S
  | 0, eng => (true, eng)
  | fuel + 1, eng =>
    if eng.appIn ≠ [] then (true, eng)
    else
      match eng.tryOpenOne with
      | (.error, eng) => (false, eng.setFailed .protocol)
      | (.idle, eng) => (true, eng)
      | (.progress, eng) => if eng.state = .app then openLoop fuel eng else (true, eng)

/-- The loop that drains APP_OUT into TX. -/
def sealLoop : ℕ → Engine S → Bool × Engine S
  | 0, eng => (true, eng)
  | fuel + 1, eng =>
    match eng.trySealOne with
    | (.error, eng) => (false, eng.setFailed .internal)
    | (.idle, eng) => (true, eng)
    | (.progress, eng) => sealLoop fuel eng

/-- The two loops of `pw_tls_step` after the handshake. Each round takes at least a byte. -/
def drain (eng : Engine S) : Bool × Engine S :=
  match openLoop (eng.rx.length + 1) eng with
  | (true, eng) => sealLoop (eng.appOut.length + 1) eng
  | r => r

/-- `pw_tls_step`; the flag is false where it returns -1. -/
def step (env : S.Env) (eng : Engine S) : Bool × Engine S :=
  match eng.state with
  | .failed => (false, eng)
  | .handshake =>
    match handshakeSpin env 8 eng with
    | (none, eng) => (false, eng.handshakeFail)
    | (some eng, _) => if eng.state = .app then eng.drain else (true, eng)
  | _ => eng.drain

/-! ### What one record does -/

/-- The record at the head of RX is complete and opens. -/
def Openable (eng : Engine S) : Prop :=
  recordHeaderLen ≤ eng.rx.length ∧ eng.headTotal ≤ bufCap ∧ eng.headTotal ≤ eng.rx.length ∧
    (openRecord S.aead eng.read (eng.rx.take eng.headTotal)).isSome

/-- The record at the head of RX is too long, or complete without opening. -/
def BadHead (eng : Engine S) : Prop :=
  recordHeaderLen ≤ eng.rx.length ∧ (bufCap < eng.headTotal ∨
    eng.headTotal ≤ eng.rx.length ∧ openRecord S.aead eng.read (eng.rx.take eng.headTotal) = none)

/-- APP_OUT holds a record that fits into TX under the write key. -/
def Sealable (eng : Engine S) : Prop :=
  eng.appOut ≠ [] ∧
    recordHeaderLen + (eng.appOut.take maxPlaintext).length + 1 + aeadTagLen ≤ txBufCap - eng.tx.length ∧
    eng.write.seq ≠ seqMax

variable {eng : Engine S}

lemma tryOpenOne_of_pending (hopen : ¬ eng.Openable) (hbad : ¬ eng.BadHead) : eng.tryOpenOne = (.idle, eng) := by
  unfold tryOpenOne
  split_ifs with hheader htotal hcomplete
  · rfl
  · exact absurd ⟨not_lt.mp hheader, .inl htotal⟩ hbad
  · rfl
  · rw [not_lt] at hheader htotal hcomplete
    split
    next hnone => exact absurd ⟨hheader, .inr ⟨hcomplete, hnone⟩⟩ hbad
    next hsome => exact absurd ⟨hheader, htotal, hcomplete, by rw [hsome]; rfl⟩ hopen

lemma tryOpenOne_of_openable (h : eng.Openable) : ∃ inner plain read,
    openRecord S.aead eng.read (eng.rx.take eng.headTotal) = some (inner, plain, read) ∧ eng.tryOpenOne =
      takeOpened { eng with read := read, recordsIn := eng.recordsIn + 1, rx := eng.rxOpened } inner plain
        (eng.rx.drop eng.headTotal) := by
  obtain ⟨hheader, htotal, hcomplete, hopen⟩ := h
  obtain ⟨⟨inner, plain, read⟩, hopen⟩ := Option.isSome_iff_exists.mp hopen
  refine ⟨inner, plain, read, hopen, ?_⟩
  rw [tryOpenOne, if_neg hheader.not_gt, if_neg htotal.not_gt, if_neg hcomplete.not_gt, hopen]

/-- A bad record stops the engine without a change to what it has taken in. -/
lemma tryOpenOne_of_bad (h : eng.BadHead) : ∃ rx lastErr,
    eng.tryOpenOne = (.error, { eng with rx := rx, lastErr := lastErr }) := by
  obtain ⟨hheader, hcase⟩ := h
  by_cases htotal : bufCap < eng.headTotal
  · exact ⟨eng.rx, eng.lastErr, by rw [tryOpenOne, if_neg hheader.not_gt, if_pos htotal]⟩
  · obtain ⟨hcomplete, hnone⟩ := hcase.resolve_left htotal
    refine ⟨eng.rxOpened, (eng.markErr .auth).lastErr, ?_⟩
    rw [tryOpenOne, if_neg hheader.not_gt, if_neg htotal, if_neg hcomplete.not_gt, hnone]
    rfl

lemma takeOpened_eq (eng : Engine S) (inner : ContentType) (plain rest : Bytes) :
    ∃ rc rx appIn state lastErr, eng.takeOpened inner plain rest =
        (rc, { eng with rx := rx, appIn := appIn, state := state, lastErr := lastErr }) ∧
      rc ≠ .idle ∧ (state = eng.state ∨ state = .closed) := by
  unfold takeOpened
  split_ifs
  · exact ⟨.error, eng.rx, eng.appIn, eng.state, _, rfl, by decide, .inl rfl⟩
  · exact ⟨.progress, rest, eng.appIn ++ plain, eng.state, eng.lastErr, rfl, by decide, .inl rfl⟩
  · exact ⟨.progress, rest, eng.appIn, .closed, eng.lastErr, rfl, by decide, .inr rfl⟩
  · exact ⟨.progress, rest, eng.appIn, eng.state, eng.lastErr, rfl, by decide, .inl rfl⟩
  · exact ⟨.error, eng.rx, eng.appIn, eng.state, eng.lastErr, rfl, by decide, .inl rfl⟩

lemma sealTx_of_exhausted (hseq : eng.write.seq = seqMax) (plaintext : Bytes) :
    eng.sealTx ctApplicationData plaintext = none := by
  rw [sealTx, sealRecord, if_pos (.inr (.inr (.inr hseq)))]
  rfl

section Loops

variable {eng' : Engine S} (fuel : ℕ)

lemma openLoop_of_error (hin : eng.appIn = []) (h : eng.tryOpenOne = (.error, eng')) :
    openLoop (fuel + 1) eng = (false, eng'.setFailed .protocol) := by
  rw [openLoop, if_neg (not_not.mpr hin), h]

lemma openLoop_of_idle (hin : eng.appIn = []) (h : eng.tryOpenOne = (.idle, eng')) :
    openLoop (fuel + 1) eng = (true, eng') := by
  rw [openLoop, if_neg (not_not.mpr hin), h]

lemma openLoop_of_progress (hin : eng.appIn = []) (h : eng.tryOpenOne = (.progress, eng')) :
    openLoop (fuel + 1) eng = if eng'.state = .app then openLoop fuel eng' else (true, eng') := by
  rw [openLoop, if_neg (not_not.mpr hin), h]

lemma sealLoop_of_error (h : eng.trySealOne = (.error, eng')) :
    sealLoop (fuel + 1) eng = (false, eng'.setFailed .internal) := by
  rw [sealLoop, h]

lemma sealLoop_of_idle (h : eng.trySealOne = (.idle, eng')) : sealLoop (fuel + 1) eng = (true, eng') := by
  rw [sealLoop, h]

lemma sealLoop_of_progress (h : eng.trySealOne = (.progress, eng')) : sealLoop (fuel + 1) eng = sealLoop fuel eng' := by
  rw [sealLoop, h]

end Loops

lemma trySealOne_of_sealable (h : eng.Sealable) : ∃ record write,
    sealRecord S.aead eng.write ctApplicationData ctApplicationData (eng.appOut.take maxPlaintext)
      (txBufCap - eng.tx.length) = some (record, write) ∧
    eng.trySealOne = (.progress, { eng with
      tx := eng.tx ++ record
      write := write
      appOut := eng.appOut.drop maxPlaintext
      recordsOut := eng.recordsOut + 1 }) := by
  obtain ⟨hout, hroom, hseq⟩ := h
  have hsome : (sealRecord S.aead eng.write ctApplicationData ctApplicationData
      (eng.appOut.take maxPlaintext) (txBufCap - eng.tx.length)).isSome :=
    isSome_sealRecord.mpr ⟨hroom, length_take_le _ _, hseq⟩
  obtain ⟨⟨record, write⟩, hseal⟩ := Option.isSome_iff_exists.mp hsome
  refine ⟨record, write, hseal, ?_⟩
  rw [trySealOne, if_neg hout, if_neg hroom.not_gt, sealTx, hseal]
  simp only [Option.map_some, length_take, ← drop_eq_drop_min]

lemma trySealOne_of_not_sealable (h : ¬ eng.Sealable) : ∃ rc, rc ≠ Rc.progress ∧ eng.trySealOne = (rc, eng) ∧
    (rc = .error → eng.appOut ≠ [] ∧ eng.write.seq = seqMax) := by
  by_cases hout : eng.appOut = []
  · exact ⟨.idle, nofun, by rw [trySealOne, if_pos hout], nofun⟩
  by_cases hroom : txBufCap - eng.tx.length < recordHeaderLen + (eng.appOut.take maxPlaintext).length + 1 + aeadTagLen
  · exact ⟨.idle, nofun, by rw [trySealOne, if_neg hout, if_pos hroom], nofun⟩
  have hseq : eng.write.seq = seqMax := by
    by_contra hseq
    exact h ⟨hout, not_lt.mp hroom, hseq⟩
  refine ⟨.error, nofun, ?_, fun _ => ⟨hout, hseq⟩⟩
  rw [trySealOne, if_neg hout, if_neg hroom, sealTx_of_exhausted hseq]

end Engine

/-! ### A suite without secrets -/

/-- The tag is sixteen zeros and is not looked at. -/
def clearAead : Aead where
  encrypt _ _ _ text := text ++ replicate aeadTagLen 0
  decrypt _ _ _ text := if text.length < aeadTagLen then none else some (text.take (text.length - aeadTagLen))
  length_encrypt _ _ _ text := by rw [length_append, length_replicate]
  length_decrypt _ _ _ text plain h := by
    split_ifs at h with hshort
    rw [← Option.some.inj h, length_take]
    omega

/-- Every ClientHello and every Finished is accepted, and the flight has no messages. -/
def clearSuite : Suite where
  aead := clearAead
  Ctx := Unit
  Env := Unit
  clientHello _ _ _ := some ⟨(), [], .wiped, .wiped, none⟩
  flight _ _ := ([], some ())
  endOfEarlyData _ _ := ((), .wiped)
  finished _ _ := some ((), .wiped, .wiped, false)
  wipe := id

end Tls
