import Picoweb.Http.Select
import Picoweb.Lib.Sockets
import Picoweb.Tls.Sealing

/-!
# A connection of the TLS worker

`server_tls_kernel.c`: bytes of the socket go through the engine into a buffer of plaintext, the requests at
its front are answered by sealing responses into the engine's TX buffer, and TX is sent as the socket takes
it. Besides the fields of `kconn_t`, a connection keeps what an observer has seen of it.
-/

namespace Tls

open ByteFile ByteText Http Sockets List

/-- `PLAIN_BUF_BYTES` -/
abbrev plainBufBytes : ℕ := 8192

/-- `API_REQ_BODY_CAP` -/
abbrev apiReqBodyCap : ℕ := 6144

/-- What a worker serves. -/
structure WorkerCfg where
  jt : Table
  maxReq : ℕ
  httpEarlyHints : Bool
  /-- `api_blob_path_matches` -/
  blobPath : Bytes → Bool
  /-- `api_blob_dispatch` from method, path and body: head and body of the response. -/
  blobDispatch : HttpMethod → Bytes → Bytes → Bytes × Bytes

/-- The places that close a connection. -/
inductive CloseSite
  /-- `EPOLLERR` or `EPOLLHUP` -/
  | hangup
  /-- `recv` failed. -/
  | recvFailed
  /-- The engine failed, or early data did not fit. -/
  | protocol
  /-- The answer to too much plaintext could not be sealed. -/
  | unsealed
  /-- `send` failed. -/
  | sendFailed
  /-- The connection was marked to close, and TX is empty. -/
  | drained
  /-- The sweep of idle connections and slow requests. -/
  | idle
  deriving DecidableEq, Repr

/-- The result of one `send`. -/
inductive SendResult
  | sent (n : ℕ)
  | eintr
  | again
  | error
  deriving DecidableEq, Repr

/-- `kconn_t`; of the interest mask, `armed` tells whether it has `EPOLLIN`. The fields from `closed` on are
what an observer has seen: how the connection was closed, what the client sends and has not been read, what
the socket has taken, the plaintext that came out of the engine, the application data that was sealed, the
engine that a response was given up on, and whether the peer closed its side. -/
structure KConn (S : Suite) where
  eng : Engine S
  plain : Bytes := []
  reqCount : ℕ := 0
  ticketEmitted : Bool := false
  wantClose : Bool := false
  armed : Bool := true
  closed : Option CloseSite := none
  inbox : Bytes
  sent : Bytes := []
  delivered : Bytes := []
  sealed : Bytes := []
  gaveUp : Option (Engine S) := none
  peerClosed : Bool := false

/-! ### Responses -/

/-- The fragments of a response and whether it announces the close. -/
structure Response where
  segs : List Seg
  closeAfter : Bool

namespace WorkerCfg

variable (cfg : WorkerCfg)

/-- `build_blob_response_iov` -/
def buildBlobResponseIov (plain : Bytes) (req : HttpRequest) : Response :=
  let (head, body) := cfg.blobDispatch req.method (req.path.getD []) ((plain.drop req.consumed).take req.contentLength)
  ⟨.fixed head :: if req.method ≠ .head ∧ body ≠ [] then [.fixed body] else [], true⟩

/-- The response of `build_http_response_iov` from a resource, as the `n`-th on its connection. -/
def pageResponse (n : ℕ) (pr : HttpResult) (req : HttpRequest) : Response :=
  let sel := httpSelect cfg.jt pr req
  let closeAfter := sel.closeAfter || (cfg.maxReq ≠ 0 ∧ cfg.maxReq ≤ n)
  let variant := if pr = .ok ∧ sel.headOnly = false then sel.resource.variant req else none
  ⟨sel.resource.segs variant sel.headOnly closeAfter pr req, closeAfter⟩

/-- The request goes to the blob store. -/
def IsBlob (pr : HttpResult) (req : HttpRequest) : Prop := pr = .ok ∧ cfg.blobPath (req.path.getD []) = true
deriving Decidable

/-- The tag that `maybe_seal_103` compares with. -/
def hintEtag (r : Resource) (req : HttpRequest) : Bytes :=
  match r.variant req with
  | some v => v.etag
  | none => r.etag

/-- `maybe_seal_103`: the fragments of the early hints, if there are any. -/
def earlyHints (pr : HttpResult) (req : HttpRequest) : Option (List Bytes) :=
  if cfg.httpEarlyHints = false ∨ pr ≠ .ok ∨ req.method ≠ .get then none
  else
    let sel := httpSelect cfg.jt pr req
    if sel.headOnly ∨ sel.resource.linkHdr = [] then none
    else if (req.ifNoneMatch.elim false fun inm => etagMatches inm (hintEtag sel.resource req)) then none
    else some [ascii "HTTP/1.1 103 Early Hints\r\n", sel.resource.linkHdr, ascii "\r\n"]

end WorkerCfg

namespace KConn

variable {S : Suite}

/-- `kconn_close` -/
def close (c : KConn S) (site : CloseSite) : KConn S := { c with closed := some site }

/-- `pw_tls_app_seal_iov` on the engine of the connection. What was sealed shows in the lengths: each
record takes its overhead and its plaintext. -/
def sealIov (c : KConn S) (iov : List Bytes) : Bool × KConn S :=
  let (ok, eng) := c.eng.appSealIov iov
  let records := eng.recordsOut - c.eng.recordsOut
  let plaintext := eng.tx.length - c.eng.tx.length - records * (recordHeaderLen + 1 + aeadTagLen)
  (ok, { c with eng := eng, sealed := c.sealed ++ iov.flatten.take plaintext })

/-! ### The requests in the buffer -/

variable (cfg : WorkerCfg)

/-- Whether the request at the front of the buffer waits for its body, or the result it is answered with. -/
def bodyGate (plain : Bytes) (pr : HttpResult) (req : HttpRequest) : Option HttpResult :=
  if cfg.IsBlob pr req then
    if apiReqBodyCap < req.contentLength then some .err413
    else if plain.length < req.consumed + req.contentLength then none
    else some pr
  else some pr

/-- `build_http_response_iov` -/
def buildHttpResponseIov (c : KConn S) (pr : HttpResult) (req : HttpRequest) : Response × KConn S :=
  if cfg.IsBlob pr req then (cfg.buildBlobResponseIov c.plain req, c)
  else (cfg.pageResponse (c.reqCount + 1) pr req, { c with reqCount := c.reqCount + 1 })

/-- What stays in the buffer behind an answered request. -/
def compact (plain : Bytes) (pr : HttpResult) (req : HttpRequest) : Bytes :=
  if pr = .ok ∧ 0 < req.consumed ∧ req.consumed < plain.length then
    plain.drop (req.consumed + if cfg.blobPath (req.path.getD []) then req.contentLength else 0)
  else []

/-- Answering the request at the front of the buffer, while the live memory holds `stats`: whether the loop
ends with the connection marked to close. -/
def answer (c : KConn S) (stats : ℕ → UInt8) (pr : HttpResult) (req : HttpRequest) : Bool × KConn S :=
  let (resp, c) := c.buildHttpResponseIov cfg pr req
  let c := ((cfg.earlyHints pr req).elim c fun hints => (c.sealIov hints).2)
  match c.sealIov (resp.segs.map (Seg.bytes stats)) with
  | (false, c) => (true, { c with plain := [], gaveUp := some c.eng })
  | (true, c) => (resp.closeAfter, { c with plain := compact cfg c.plain pr req })

/-- The request loop of `tls_drive_engine`; each round takes at least a byte. The live memory may change
between two requests. -/
def requestLoop (stats : ℕ → ℕ → UInt8) : ℕ → KConn S → Bool × KConn S
  | 0, c => (false, c)
  | fuel + 1, c =>
    if c.plain = [] then (false, c)
    else
      let (pr, req) := httpParse c.plain
      if pr = .needMore then (false, c)
      else
        match bodyGate cfg c.plain pr req with
        | none => (false, c)
        | some pr =>
          match c.answer cfg (stats c.reqCount) pr req with
          | (true, c) => (true, c)
          | (false, c) => requestLoop stats fuel c

/-! ### `tls_drive_engine` -/

/-- `maybe_emit_session_ticket`; `nst` is the message, where one could be made. -/
def maybeEmitSessionTicket (c : KConn S) (nst : Option Bytes) : KConn S :=
  if c.ticketEmitted ∨ c.eng.state ≠ .app then c
  else
    match c.eng.emitSessionTicket nst with
    | (true, eng) => { c with eng := eng, ticketEmitted := true }
    | (false, eng) => { c with eng := eng }

/-- What a turn finds outside the connection: clock and random numbers of the engine, the session ticket, and
the live memory. -/
structure Outside (S : Suite) where
  env : S.Env
  nst : Option Bytes
  stats : ℕ → ℕ → UInt8

/-- Phase 1: new plaintext goes into the buffer. Too much of it is answered with 413 and dropped. The flag is
whether the connection is marked to close. -/
def takePlain (c : KConn S) (stats : ℕ → UInt8) : Except (CloseSite × KConn S) (Bool × KConn S) :=
  let app := c.eng.appIn
  let acked (c : KConn S) : KConn S :=
    { c with eng := c.eng.appInAck app.length, delivered := c.delivered ++ app }
  if app = [] then .ok (false, c)
  else if plainBufBytes < c.plain.length + app.length then
    if c.eng.state ≠ .app then .error (.protocol, acked c)
    else
      let (resp, c) := c.buildHttpResponseIov cfg .err413 {}
      match c.sealIov (resp.segs.map (Seg.bytes stats)) with
      | (false, c) => .error (.unsealed, acked { c with gaveUp := some c.eng })
      | (true, c) => .ok (resp.closeAfter, acked { c with plain := [] })
  else .ok (false, acked { c with plain := c.plain ++ app })

/-- Phase 2: the requests in the buffer are answered. -/
def answerRequests (c : KConn S) (closeAfter : Bool) (stats : ℕ → ℕ → UInt8) : Bool × KConn S :=
  if c.eng.state = .app ∧ c.plain ≠ [] then requestLoop cfg stats (c.plain.length + 1) c else (closeAfter, c)

/-- `tls_drive_engine`: why it fails, or whether the connection is marked to close. -/
def drive (c : KConn S) (out : Outside S) : Except (CloseSite × KConn S) (Bool × KConn S) :=
  match c.eng.step out.env with
  | (false, eng) => .error (.protocol, { c with eng := eng })
  | (true, eng) =>
    match takePlain cfg { c with eng := eng } (out.stats c.reqCount) with
    | .error e => .error e
    | .ok (closeAfter, c) =>
      let (closeAfter, c) := c.answerRequests cfg closeAfter out.stats
      .ok (closeAfter, if closeAfter then c else c.maybeEmitSessionTicket out.nst)

/-! ### Events -/

/-- How the loop of `try_recv_and_drive` ends: with bytes to drive on, at the end of the stream, or badly. -/
inductive RecvRc
  | go
  | fin
  | failed
  deriving DecidableEq, Repr

/-- The loop of `try_recv_and_drive`; once the given results are used up, there is nothing to read. -/
def recvLoop : List ReadResult → KConn S → RecvRc × KConn S
  | recvs, c =>
    let cap := bufCap - c.eng.rx.length
    if cap = 0 then (.go, c)
    else
      match recvs with
      | [] | .again :: _ => (.go, c)
      | .eintr :: recvs => recvLoop recvs c
      | .error :: _ => (.failed, c)
      | .eof :: _ => (.fin, { c with peerClosed := true })
      | .data n :: recvs =>
        let got := c.inbox.take (min n cap)
        if got = [] then (.go, c)
        else recvLoop recvs { c with eng := c.eng.rxAck got, inbox := c.inbox.drop got.length }

/-- `try_recv_and_drive`, with what the caller makes of its results. -/
def tryRecvAndDrive (c : KConn S) (recvs : List ReadResult) (out : Outside S) : KConn S :=
  match recvLoop recvs c with
  | (.failed, c) => c.close .recvFailed
  | (rc, c) =>
    match c.drive cfg out with
    | .error (site, c) => c.close site
    | .ok (closeAfter, c) => { c with wantClose := c.wantClose || closeAfter || rc = .fin }

/-- The results 1, 0 and -1 of `try_drain_tx`. -/
inductive DrainRc
  | drained
  | partly
  | failed
  deriving DecidableEq, Repr

/-- `try_drain_tx`; once the given results are used up, the socket is full. -/
def tryDrainTx : List SendResult → KConn S → DrainRc × KConn S
  | sends, c =>
    if c.eng.tx = [] then (.drained, c)
    else
      match sends with
      | [] | .again :: _ => (.partly, c)
      | .eintr :: sends => tryDrainTx sends c
      | .error :: _ => (.failed, c)
      | .sent n :: sends =>
        let out := c.eng.tx.take n
        let c' := { c with eng := c.eng.txAck out.length, sent := c.sent ++ out }
        if n = 0 then (.failed, c)
        else if out.length < c.eng.tx.length then (.partly, c')
        else tryDrainTx sends c'

/-- What can happen to a connection: an epoll event with the results of its system calls, or the sweep. -/
inductive Event (S : Suite)
  | epoll (ev : Ready) (recvs : List ReadResult) (sends : List SendResult) (out : Outside S)
  | sweep

/-- The part of the event loop behind the reads. -/
def finishTurn (c : KConn S) (rdhup : Bool) (sends : List SendResult) : KConn S :=
  match tryDrainTx sends c with
  | (.failed, c) => c.close .sendFailed
  | (drain, c) =>
    -- the mask is chosen before the end of the peer's stream is looked at
    let armed := !c.wantClose
    if c.wantClose ∧ drain = .drained then c.close .drained
    else if rdhup then
      let c := { c with wantClose := true, peerClosed := true }
      if drain = .drained then c.close .drained else { c with armed := armed }
    else { c with armed := armed }

/-- The event loop of `tls_worker_main`. The kernel reports input only where the mask asks for it. -/
def turn (c : KConn S) : Event S → KConn S
  | .sweep => if c.closed.isSome then c else c.close .idle
  | .epoll ev recvs sends out =>
    if c.closed.isSome then c
    else if ev.err ∨ ev.hup then c.close .hangup
    else if ev.input ∧ c.armed then
      let c := c.tryRecvAndDrive cfg recvs out
      if c.closed.isSome then c else c.finishTurn ev.rdhup sends
    else c.finishTurn ev.rdhup sends

/-! ### What the functions can do -/

section Outcomes

variable {cfg : WorkerCfg} {c c' : KConn S}

/-- What a call of `pw_tls_app_seal_iov` leaves on the connection: the first `n` bytes are sealed. -/
lemma sealIov_spec (c : KConn S) {iov : List Bytes} (hfrags : iov.length ≤ iovMaxFrags) :
    ∃ ok eng n, c.sealIov iov = (ok, { c with eng := eng, sealed := c.sealed ++ iov.flatten.take n }) ∧
      c.eng.OnlySeals eng ∧ (ok = true → n = iov.flatten.length) ∧
      (ok = false → (n = 0 ∨ eng.write.seq = seqMax) ∧ (c.eng.state = .app → eng.Refuses iov.flatten.length)) := by
  obtain ⟨n, hsealed, hn, hall, hstop⟩ := @Engine.appSealIov_spec S c.eng iov hfrags
  refine ⟨_, _, n, ?_, hsealed.only, hall, hstop⟩
  have hplain : (c.eng.appSealIov iov).2.tx.length - c.eng.tx.length -
      ((c.eng.appSealIov iov).2.recordsOut - c.eng.recordsOut) * (recordHeaderLen + 1 + aeadTagLen) = n := by
    rw [hsealed.length]
    simp only [Engine.recOverhead]
    omega
  simp only [sealIov]
  rw [hplain]

lemma buildHttpResponseIov_eq (cfg : WorkerCfg) (c : KConn S) (pr : HttpResult) (req : HttpRequest) :
    ∃ reqCount, (c.buildHttpResponseIov cfg pr req).2 = { c with reqCount := reqCount } := by
  unfold buildHttpResponseIov
  split_ifs <;> exact ⟨_, rfl⟩

lemma length_segs_le (cfg : WorkerCfg) (c : KConn S) (pr : HttpResult) (req : HttpRequest) :
    (c.buildHttpResponseIov cfg pr req).1.segs.length ≤ iovMaxFrags := by
  unfold buildHttpResponseIov
  split_ifs
  · simp only [WorkerCfg.buildBlobResponseIov]
    split_ifs <;> simp [iovMaxFrags]
  · exact (Resource.length_segs_le _ _ _ _ _ _).trans (by decide)

/-- What may stand before a response: nothing, or the early hints for its request. -/
def IsHint (cfg : WorkerCfg) (pr : HttpResult) (req : HttpRequest) (hint : Bytes) : Prop :=
  hint = [] ∨ ∃ iov, cfg.earlyHints pr req = some iov ∧ hint = iov.flatten

lemma earlyHints_length {pr : HttpResult} {req : HttpRequest} {iov : List Bytes}
    (h : cfg.earlyHints pr req = some iov) : iov.length = 3 := by
  unfold WorkerCfg.earlyHints at h
  dsimp only at h
  split_ifs at h
  cases h
  rfl

lemma sealIov_of_exhausted (c : KConn S) (hseq : c.eng.write.seq = seqMax) (iov : List Bytes) :
    c.sealIov iov = (false, c) := by
  simp [sealIov, Engine.appSealIov_of_exhausted hseq]

/-- Sealing the early hints: all of them or none, unless the sequence numbers are used up. -/
lemma sealHints_spec (cfg : WorkerCfg) (c : KConn S) (pr : HttpResult) (req : HttpRequest) :
    ∃ eng part, ((cfg.earlyHints pr req).elim c fun hints => (c.sealIov hints).2) =
        { c with eng := eng, sealed := c.sealed ++ part } ∧ c.eng.OnlySeals eng ∧
      (IsHint cfg pr req part ∨ eng.write.seq = seqMax ∧ ∃ hint, IsHint cfg pr req hint ∧ part <+: hint) := by
  rcases hhints : cfg.earlyHints pr req with _ | iov
  · exact ⟨c.eng, [], by simp, .refl, .inl (.inl rfl)⟩
  have hfrags : iov.length ≤ iovMaxFrags := by
    rw [earlyHints_length hhints]
    decide
  obtain ⟨ok, eng, n, heq, honly, hall, hstop⟩ := c.sealIov_spec hfrags
  refine ⟨eng, iov.flatten.take n, congrArg Prod.snd heq, honly, ?_⟩
  cases ok with
  | true => exact .inl (.inr ⟨iov, hhints, by rw [hall rfl, take_length]⟩)
  | false =>
    rcases (hstop rfl).1 with hzero | hseq
    · exact .inl (.inl (by rw [hzero, take_zero]))
    · exact .inr ⟨hseq, iov.flatten, .inr ⟨iov, hhints, rfl⟩, take_prefix _ _⟩

/-- What an answer leaves: the request is out of the buffer and its response sealed, perhaps behind early
hints; or the response is given up, with a part of it sealed at most. -/
theorem answer_cases (cfg : WorkerCfg) (c : KConn S) (stats : ℕ → UInt8) (pr : HttpResult) (req : HttpRequest) :
    ∃ eng reqCount hint, c.eng.OnlySeals eng ∧ IsHint cfg pr req hint ∧
      let resp := (c.buildHttpResponseIov cfg pr req).1
      let bytes := (resp.segs.map (Seg.bytes stats)).flatten
      (c.answer cfg stats pr req = (resp.closeAfter, { c with
          eng := eng
          reqCount := reqCount
          sealed := c.sealed ++ (hint ++ bytes)
          plain := compact cfg c.plain pr req }) ∨
        ∃ part, part <+: hint ++ bytes ∧ (c.eng.state = .app → eng.Refuses bytes.length) ∧
          c.answer cfg stats pr req = (true, { c with
          eng := eng
          reqCount := reqCount
          sealed := c.sealed ++ part
          plain := []
          gaveUp := some eng })) := by
  obtain ⟨reqCount, hbuild⟩ := c.buildHttpResponseIov_eq cfg pr req
  have hlen := c.length_segs_le cfg pr req
  unfold answer
  generalize c.buildHttpResponseIov cfg pr req = built at hbuild hlen ⊢
  obtain ⟨resp, c₁⟩ := built
  dsimp only at hbuild hlen ⊢
  subst hbuild
  obtain ⟨eng₁, part, hhints, honly₁, hpart⟩ := sealHints_spec cfg { c with reqCount := reqCount } pr req
  rw [hhints]
  rcases hpart with hhint | ⟨hseq, hint, hhint, hprefix⟩
  · have hfrags : (resp.segs.map (Seg.bytes stats)).length ≤ iovMaxFrags := by rwa [length_map]
    obtain ⟨ok, eng, n, heq, honly, hall, hstop⟩ := sealIov_spec
      { c with reqCount := reqCount, eng := eng₁, sealed := c.sealed ++ part } hfrags
    rw [heq]
    refine ⟨eng, reqCount, part, honly₁.trans honly, hhint, ?_⟩
    cases ok with
    | true =>
      refine .inl ?_
      rw [hall rfl, take_length, append_assoc]
    | false =>
      refine .inr ⟨part ++ (resp.segs.map (Seg.bytes stats)).flatten.take n, ?_, fun happ => ?_, ?_⟩
      · exact (prefix_append_right_inj part).mpr (List.take_prefix _ _)
      · exact (hstop rfl).2 (honly₁.state.trans happ)
      · rw [append_assoc]
  · -- the hints have used up the sequence numbers, so nothing follows them
    refine ⟨eng₁, reqCount, hint, honly₁, hhint, .inr ⟨part, hprefix.trans (prefix_append _ _),
      fun _ => .inr hseq, ?_⟩⟩
    rw [sealIov_of_exhausted _ hseq]

/-- A ticket is sealed or not; the rest of the connection stays. -/
lemma maybeEmitSessionTicket_eq (c : KConn S) (nst : Option Bytes) : ∃ eng emitted,
    c.maybeEmitSessionTicket nst = { c with eng := eng, ticketEmitted := emitted } ∧ c.eng.OnlySeals eng := by
  have honly : c.eng.OnlySeals (c.eng.emitSessionTicket nst).2 := .emitSessionTicket nst
  unfold maybeEmitSessionTicket
  split_ifs
  · exact ⟨c.eng, c.ticketEmitted, rfl, .refl⟩
  generalize c.eng.emitSessionTicket nst = r at honly
  obtain ⟨ok, eng⟩ := r
  cases ok with
  | true => exact ⟨eng, true, rfl, honly⟩
  | false => exact ⟨eng, c.ticketEmitted, rfl, honly⟩

/-- The loop over the reads appends to RX what they deliver, and notes the end of the peer's stream. -/
lemma recvLoop_spec (recvs : List ReadResult) (c : KConn S) : ∃ rc inbox, recvLoop recvs c = (rc, { c with
      eng := { c.eng with rx := c.eng.rx ++ received recvs (bufCap - c.eng.rx.length) c.inbox }
      inbox := inbox
      peerClosed := c.peerClosed || rc = .fin }) := by
  induction recvs generalizing c with
  | nil =>
    unfold recvLoop
    dsimp only
    split_ifs <;> exact ⟨.go, c.inbox, by simp [received]⟩
  | cons recv recvs ih =>
    unfold recvLoop
    dsimp only
    split_ifs with hfull
    · exact ⟨.go, c.inbox, by simp [hfull, received_zero]⟩
    cases recv with
    | again => exact ⟨.go, c.inbox, by simp [received]⟩
    | error => exact ⟨.failed, c.inbox, by simp [received]⟩
    | eof => exact ⟨.fin, c.inbox, by simp [received]⟩
    | eintr => exact ih c
    | data n =>
      dsimp only [received]
      split_ifs with hgot
      · exact ⟨.go, c.inbox, by simp⟩
      · set got := c.inbox.take (min n (bufCap - c.eng.rx.length)) with hdef
        have hroom : ¬ bufCap - c.eng.rx.length < got.length := by
          rw [length_take]
          omega
        obtain ⟨rc, inbox, heq⟩ := ih { c with eng := c.eng.rxAck got, inbox := c.inbox.drop got.length }
        refine ⟨rc, inbox, heq.trans ?_⟩
        simp only [Engine.rxAck, if_neg hroom, append_assoc, length_append, Nat.sub_add_eq]

/-- A send takes bytes from TX and leaves the rest of the connection alone. -/
lemma tryDrainTx_spec (sends : List SendResult) (c : KConn S) : ∃ tx sent,
    (tryDrainTx sends c).2 = { c with eng := { c.eng with tx := tx }, sent := sent } := by
  induction sends generalizing c with
  | nil =>
    unfold tryDrainTx
    split_ifs <;> exact ⟨c.eng.tx, c.sent, rfl⟩
  | cons send sends ih =>
    unfold tryDrainTx
    split_ifs
    · exact ⟨c.eng.tx, c.sent, rfl⟩
    cases send with
    | again | error => exact ⟨c.eng.tx, c.sent, rfl⟩
    | eintr => exact ih c
    | sent n =>
      have hack : ¬ c.eng.tx.length < (c.eng.tx.take n).length := (length_take_le' _ _).not_gt
      dsimp only
      split_ifs
      · exact ⟨c.eng.tx, c.sent, rfl⟩
      · exact ⟨_, _, by rw [Engine.txAck, if_neg hack]⟩
      · obtain ⟨tx, sent, heq⟩ := ih _
        rw [heq, Engine.txAck, if_neg hack]
        exact ⟨tx, sent, rfl⟩

/-- A connection of which some of TX is sent. -/
def drainedTo (c : KConn S) (tx sent : Bytes) : KConn S :=
  { c with eng := { c.eng with tx := tx }, sent := sent }

/-- The ways in which a turn ends after the reads. -/
inductive TurnEnd (c : KConn S) (rdhup : Bool) : KConn S → Prop
  | failed (tx sent : Bytes) : TurnEnd c rdhup ((c.drainedTo tx sent).close .sendFailed)
  | drained (tx sent : Bytes) (want : c.wantClose = true) :
      TurnEnd c rdhup ((c.drainedTo tx sent).close .drained)
  | hungUp (tx sent : Bytes) (peer : rdhup = true) :
      TurnEnd c rdhup ({ c.drainedTo tx sent with wantClose := true, peerClosed := true }.close .drained)
  | half (tx sent : Bytes) (peer : rdhup = true) :
      TurnEnd c rdhup { c.drainedTo tx sent with wantClose := true, peerClosed := true, armed := !c.wantClose }
  | waiting (tx sent : Bytes) : TurnEnd c rdhup { c.drainedTo tx sent with armed := !c.wantClose }

theorem finishTurn_spec (c : KConn S) (rdhup : Bool) (sends : List SendResult) :
    TurnEnd c rdhup (c.finishTurn rdhup sends) := by
  obtain ⟨tx, sent, heq⟩ := tryDrainTx_spec sends c
  unfold finishTurn
  generalize tryDrainTx sends c = r at heq
  obtain ⟨drain, c₁⟩ := r
  obtain rfl : c₁ = c.drainedTo tx sent := heq
  cases drain with
  | failed => exact .failed tx sent
  | drained =>
    simp only [and_true]
    split_ifs with hwant hrdhup
    · exact .drained tx sent hwant
    · exact .hungUp tx sent hrdhup
    · exact .waiting tx sent
  | partly =>
    simp only [reduceCtorEq, and_false, ↓reduceIte]
    split_ifs with hrdhup
    · exact .half tx sent hrdhup
    · exact .waiting tx sent

end Outcomes

end KConn

/-! ### Runs without secrets -/

def siteOf (r : Resource) : WorkerCfg where
  jt := .single r
  maxReq := 0
  httpEarlyHints := false
  blobPath _ := false
  blobDispatch _ _ _ := ([], [])

/-- A record under the keys of `clearSuite`. -/
def clearRecord (inner : ContentType) (plain : Bytes) : Bytes :=
  recordHeader ctApplicationData (plain.length + 1 + aeadTagLen) ++ plain ++ [inner] ++ replicate aeadTagLen 0

/-- A ClientHello and a Finished that `clearSuite` accepts. -/
def clearHello : Bytes := recordHeader ctHandshake 1 ++ [1]

def clearFinished : Bytes := clearRecord ctHandshake ([0x14, 0, 0, 0x20] ++ replicate 32 0)

/-- An event that reads `n` bytes while the socket takes nothing. -/
def readEvent (n : ℕ) : KConn.Event clearSuite :=
  .epoll { input := true } [.data n] [] { env := (), nst := none, stats := fun _ _ => 0 }

end Tls
