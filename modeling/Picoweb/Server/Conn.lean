import Picoweb.Http.Select
import Picoweb.Lib.Sockets
import Picoweb.Server.Segments

/-!
# A connection of the epoll worker

`server.c`: reading into the buffer of a connection, dispatching the request at its front, sending the
response from its segments, and going on with what is buffered. The kernel decides what the system calls
return; handlers of the API answer from outside the model.
-/

namespace Server

open ByteFile ByteText Http Sockets

/-- `METAL_READ_BUF` -/
abbrev readBuf : ℕ := 8192

/-- `POST_SEND_BUDGET` -/
abbrev postSendBudget : ℕ := 8

/-- `conn_state_t` -/
inductive ConnState
  | reading
  | readingBody
  | writing
  deriving DecidableEq, Repr

/-- The interest mask of a connection, `EPOLLRDHUP` apart. -/
inductive Interest
  | input
  | output
  deriving DecidableEq, Repr

/-- A call of `api_dispatch`. -/
structure ApiCall where
  method : HttpMethod
  path : Bytes
  body : Bytes
  cookie : Bytes
  hasPwAuth : Bool
  writeToken : Bytes
  partitionHop : Bool
  host : Bytes
  principal : Bytes
  deriving DecidableEq, Repr

/-- `api_resp_t` after the context and CORS headers. -/
structure ApiResp where
  head : Bytes
  body : Bytes
  deriving DecidableEq, Repr

/-- What a worker serves. -/
structure Config where
  jt : Table
  maxReq : ℕ
  /-- `api_path_matches` -/
  apiPath : Bytes → Bool
  /-- `api_max_request_body` -/
  apiMaxBody : ℕ
  apiAnswer : ApiCall → ApiResp

/-- The request that a connection keeps while its body arrives: the `api_` fields of `conn_t`. -/
structure ApiStash where
  call : ApiCall
  headersLen : ℕ
  bodyNeeded : ℕ
  deriving DecidableEq, Repr

/-- `conn_t`. Besides, `closed` tells that it was given back to the pool, `inbox` is what the client sends
and has not been read, `written` what the socket has taken, and `calls` the calls of `api_dispatch`. -/
structure Conn where
  state : ConnState := .reading
  buf : Bytes := []
  segs : List Seg := []
  bytesSent : ℕ := 0
  closeAfter : Bool := false
  mask : Interest := .input
  reqCount : ℕ := 0
  peerHalfClosed : Bool := false
  api : Option ApiStash := none
  closed : Bool := false
  inbox : Bytes
  written : Bytes := []
  calls : List ApiCall := []
  deriving DecidableEq, Repr

/-- The result of one `sendmsg`, with the live memory as the kernel finds it. -/
inductive SendResult
  | sent (n : ℕ) (stats : ℕ → UInt8)
  | eintr
  | again
  | error

namespace Conn

/-- `wire_total` -/
def wireTotal (c : Conn) : ℕ := (c.segs.map Seg.length).sum

/-- `close_conn` -/
def close (c : Conn) : Conn := { c with closed := true }

/-- What one `sendmsg` takes from the fragments of `build_iov`. -/
def transmit (c : Conn) (n : ℕ) (stats : ℕ → UInt8) : Conn :=
  let out := (buildIov (c.segs.map (Seg.bytes stats)) c.bytesSent).flatten.take n
  { c with written := c.written ++ out, bytesSent := c.bytesSent + out.length }

/-- The results 1, 0 and -1 of `try_send`. -/
inductive SendRc
  | done
  | blocked
  | failed
  deriving DecidableEq, Repr

/-- `try_send`; once the given results are used up, the socket is full. -/
def trySend : List SendResult → Conn → SendRc × Conn × List SendResult
  | sends, c =>
    if c.wireTotal ≤ c.bytesSent then (.done, c, sends)
    else
      match sends with
      | [] => (.blocked, c, [])
      | .eintr :: sends => trySend sends c
      | .again :: sends => (.blocked, c, sends)
      | .error :: sends => (.failed, c, sends)
      | .sent n stats :: sends => if n = 0 then (.failed, c, sends) else trySend sends (c.transmit n stats)

/-! ### Dispatch -/

variable (cfg : Config)

/-- The end of `api_finalise` and of the static branch: a response is ready to be sent. -/
def prime (c : Conn) (segs : List Seg) (closeAfter : Bool) (buf : Bytes) : Conn :=
  { c with segs := segs, bytesSent := 0, closeAfter := closeAfter, state := .writing, buf := buf }

/-- The static branch of `dispatch_one`. -/
def respond (c : Conn) (pr : HttpResult) (req : HttpRequest) : Conn :=
  let sel := httpSelect cfg.jt pr req
  let reqCount := c.reqCount + 1
  let closeAfter := sel.closeAfter || (cfg.maxReq ≠ 0 ∧ cfg.maxReq ≤ reqCount)
  let buf := if pr = .ok ∧ 0 < req.consumed ∧ req.consumed < c.buf.length then c.buf.drop req.consumed else []
  { c with reqCount := reqCount }.prime
    (sel.resource.segs (sel.resource.variant req) sel.headOnly closeAfter pr req) closeAfter buf

/-- `api_finalise` -/
def apiFinalise (c : Conn) (resp : ApiResp) (headOnly : Bool) : Conn :=
  c.prime (.fixed resp.head :: .fixed (connTail true) ::
    if headOnly ∨ resp.body = [] then [] else [.fixed resp.body]) true []

/-- `api_run`: the body lies behind the headers in the buffer. -/
def apiRun (c : Conn) (stash : ApiStash) : Conn :=
  let call := { stash.call with body := (c.buf.drop stash.headersLen).take stash.bodyNeeded }
  { c with calls := c.calls ++ [call] }.apiFinalise (cfg.apiAnswer call) (call.method = HttpMethod.head)

def payloadTooLarge : ApiResp :=
  ⟨ascii "HTTP/1.1 413 Payload Too Large\r\nServer: picoweb\r\nContent-Length: 0\r\n", []⟩

/-- A header value that does not fit into a field of `cap` bytes. -/
def Overlong (cap : ℕ) (value : Option Bytes) : Prop := cap ≤ (value.getD []).length
deriving Decidable

/-- The copies that `dispatch_one` makes of an API request. The length of the path is stored in eight
bits, those of headers and body in sixteen; a write token that is too long is left out. -/
def stashOf (req : HttpRequest) : ApiStash where
  call :=
    { method := req.method
      path := (req.path.getD []).take ((req.path.getD []).length % 2 ^ 8)
      body := []
      cookie := req.cookie.getD []
      hasPwAuth := req.pwAuthHeader
      writeToken := if Overlong 128 req.writeToken then [] else req.writeToken.getD []
      partitionHop := req.pwPartitionHop
      host := req.host.getD []
      principal := req.pwPrincipal.getD [] }
  headersLen := req.consumed % 2 ^ 16
  bodyNeeded := req.contentLength % 2 ^ 16

/-- What `dispatch_one` does with an API request. -/
inductive ApiRoute
  /-- It falls back to an error page. -/
  | error (pr : HttpResult)
  | tooLarge
  /-- It waits for the rest of the body. -/
  | wait
  | run
  deriving DecidableEq, Repr

/-- The checks of `dispatch_one` on an API request, of whose body `haveBody` bytes are there. -/
def apiRoute (req : HttpRequest) (haveBody : ℕ) : ApiRoute :=
  if 256 < (req.path.getD []).length then .error .err414
  else if cfg.apiMaxBody < req.contentLength then .tooLarge
  else if Overlong 512 req.cookie ∨ Overlong 256 req.host ∨ Overlong 256 req.origin ∨
      Overlong 256 req.acrHeaders ∨ Overlong 128 req.pwPrincipal ∨ Overlong 128 req.pwTenant then
    .error .err400
  else if readBuf < req.consumed + req.contentLength then .tooLarge
  else if haveBody < req.contentLength then .wait
  else .run

/-- The API branch of `dispatch_one`. -/
def dispatchApi (c : Conn) (req : HttpRequest) : Bool × Conn :=
  let c := { c with reqCount := c.reqCount + 1 }
  match apiRoute cfg req (c.buf.length - req.consumed) with
  | .error pr => (true, c.respond cfg pr req)
  | .tooLarge => (true, c.apiFinalise payloadTooLarge false)
  | .wait => (false, { c with api := some (stashOf req), state := .readingBody })
  | .run => (true, c.apiRun cfg (stashOf req))

/-- `dispatch_one`: whether a response is ready. -/
def dispatchOne (c : Conn) : Bool × Conn :=
  match httpParse c.buf with
  | (.needMore, req) => if readBuf ≤ c.buf.length then (true, c.respond cfg .err413 req) else (false, c)
  | (.ok, req) =>
    if cfg.apiPath (req.path.getD []) then c.dispatchApi cfg req else (true, c.respond cfg .ok req)
  | (pr, req) => (true, c.respond cfg pr req)

/-! ### Going on after a response -/

/-- The fields that `post_send` resets. -/
def reset (c : Conn) : Conn := { c with segs := [], bytesSent := 0, state := .reading }

/-- A connection with nothing to answer waits for input, unless none will come. -/
def await (c : Conn) : Conn := if c.peerHalfClosed then c.close else { c with mask := .input }

/-- `post_send`, from the budget that is left. -/
def postSend : ℕ → List SendResult → Conn → Conn
  | 0, _, c => { c with mask := .input }
  | budget + 1, sends, c =>
    if c.closeAfter then c.close
    else if c.buf = [] then c.reset.await
    else
      match c.reset.dispatchOne cfg with
      | (false, c) => c.await
      | (true, c) =>
        match trySend sends c with
        | (.failed, c, _) => c.close
        | (.blocked, c, _) => { c with mask := .output }
        | (.done, c, sends) => postSend budget sends c

/-- Sending a response, as the event handlers do. -/
def flush (c : Conn) (sends : List SendResult) : Conn :=
  match trySend sends c with
  | (.failed, c, _) => c.close
  | (.blocked, c, _) => { c with mask := .output }
  | (.done, c, sends) => postSend cfg postSendBudget sends c

/-! ### Events -/

/-- The loop of `handle_readable`: the connection after the reads, and whether they go on to the parser. -/
def readLoop : List ReadResult → Conn → Bool × Conn
  | reads, c =>
    if readBuf ≤ c.buf.length then (true, c)
    else
      match reads with
      | [] | .again :: _ => (true, c)
      | .eintr :: reads => readLoop reads c
      | .error :: _ => (false, c.close)
      | .eof :: _ =>
        let c := { c with peerHalfClosed := true }
        if c.buf = [] then (false, c.close) else (true, c)
      | .data n :: reads =>
        let got := c.inbox.take (min n (readBuf - c.buf.length))
        if got = [] then (true, c)
        else readLoop reads { c with buf := c.buf ++ got, inbox := c.inbox.drop got.length }

/-- The part of `handle_readable` behind the reads. -/
def serve (c : Conn) (sends : List SendResult) : Conn :=
  if c.buf = [] then c
  else
    match c.state, c.api with
    | .readingBody, some stash =>
      if c.buf.length < stash.headersLen + stash.bodyNeeded then
        if c.peerHalfClosed then c.close else c
      else (c.apiRun cfg stash).flush cfg sends
    | _, _ =>
      match c.dispatchOne cfg with
      | (false, c) => c
      | (true, c) => c.flush cfg sends

def handleReadable (c : Conn) (reads : List ReadResult) (sends : List SendResult) : Conn :=
  match readLoop reads c with
  | (false, c) => c
  | (true, c) => c.serve cfg sends

/-- What can happen to a connection: an epoll event with the results of its system calls, or the sweep
of idle connections. The error bit stands for more than a zero-copy notification. -/
inductive Event
  | epoll (ev : Ready) (reads : List ReadResult) (sends : List SendResult)
  | idle

/-- The event dispatch of `epoll_worker_main`. -/
def step (c : Conn) : Event → Conn
  | .idle => c.close
  | .epoll ev reads sends =>
    if c.closed then c
    else if ev.err then c.close
    else
      let c := { c with peerHalfClosed := c.peerHalfClosed || ev.rdhup }
      if c.state = .writing then
        if ev.output ∨ ev.hup ∨ ev.rdhup then c.flush cfg sends else c
      else if ev.input then c.handleReadable cfg reads sends
      else if ev.hup ∨ ev.rdhup then c.close
      else c

end Conn

def siteOf (r : Resource) : Config where
  jt := .single r
  maxReq := 0
  apiPath _ := false
  apiMaxBody := 0
  apiAnswer _ := ⟨[], []⟩

end Server
