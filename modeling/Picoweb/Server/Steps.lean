import Mathlib.Logic.Relation
import Picoweb.Http.Behind
import Picoweb.Server.Conn

/-!
# What the functions of the worker can do

One statement per function: what a dispatch makes of the buffer, what the reads leave in it and where a
send stops. An event of the worker is a sequence of moves, each of them one read, one send, one dispatch
or one reset; what every move keeps, every run keeps.
-/

namespace Server

open ByteFile ByteText Http Sockets List

variable {cfg : Config} {c c' : Conn}

/-! ### Dispatch -/

/-- The buffer starts with a request that can be answered: its headers are there, and its body where an
API handler is going to get it. -/
def complete (cfg : Config) (buf : Bytes) : Bool :=
  match httpParse buf with
  | (.needMore, _) => false
  | (.ok, req) =>
    !cfg.apiPath (req.path.getD []) || Conn.apiRoute cfg req (buf.length - req.consumed) ≠ .wait
  | _ => true

/-- What is left in the buffer once its first request is answered. -/
def restAfter (cfg : Config) (buf : Bytes) : Bytes :=
  match httpParse buf with
  | (.ok, req) => if cfg.apiPath (req.path.getD []) then [] else buf.drop req.consumed
  | _ => []

/-- After such a `sendmsg` the connection is given up. -/
def SendResult.Fails : SendResult → Prop
  | .error => True
  | .sent n _ => n = 0
  | _ => False

namespace Conn

/-- What `dispatch_one` can do with a connection. -/
inductive Dispatched (cfg : Config) (c : Conn) : Bool × Conn → Prop
  | more {req : HttpRequest} (parse : httpParse c.buf = (.needMore, req)) : Dispatched cfg c (false, c)
  | static {pr : HttpResult} {req : HttpRequest} (parse : httpParse c.buf = (pr, req))
      (answer : pr ≠ .needMore) (outside : pr = .ok → cfg.apiPath (req.path.getD []) = false) :
      Dispatched cfg c (true, c.respond cfg pr req)
  | error {pr : HttpResult} {req : HttpRequest} (parse : httpParse c.buf = (.ok, req))
      (api : cfg.apiPath (req.path.getD []) = true)
      (route : apiRoute cfg req (c.buf.length - req.consumed) = .error pr) :
      Dispatched cfg c (true, { c with reqCount := c.reqCount + 1 }.respond cfg pr req)
  | tooLarge {req : HttpRequest} (parse : httpParse c.buf = (.ok, req))
      (api : cfg.apiPath (req.path.getD []) = true)
      (route : apiRoute cfg req (c.buf.length - req.consumed) = .tooLarge) :
      Dispatched cfg c (true, { c with reqCount := c.reqCount + 1 }.apiFinalise payloadTooLarge false)
  | wait {req : HttpRequest} (parse : httpParse c.buf = (.ok, req))
      (api : cfg.apiPath (req.path.getD []) = true)
      (route : apiRoute cfg req (c.buf.length - req.consumed) = .wait) :
      Dispatched cfg c (false, { c with reqCount := c.reqCount + 1, api := some (stashOf req), state := .readingBody })
  | run {req : HttpRequest} (parse : httpParse c.buf = (.ok, req))
      (api : cfg.apiPath (req.path.getD []) = true)
      (route : apiRoute cfg req (c.buf.length - req.consumed) = .run) :
      Dispatched cfg c (true, { c with reqCount := c.reqCount + 1 }.apiRun cfg (stashOf req))

theorem dispatchOne_spec (cfg : Config) (c : Conn) : Dispatched cfg c (c.dispatchOne cfg) := by
  unfold dispatchOne
  split
  next req parse =>
    rw [if_neg (not_le.mpr (length_lt_of_needMore parse))]
    exact .more parse
  next req parse =>
    split_ifs with api
    · unfold dispatchApi
      dsimp only
      split
      next pr route => exact .error parse api route
      next route => exact .tooLarge parse api route
      next route => exact .wait parse api route
      next route => exact .run parse api route
    · exact .static parse nofun fun _ => by simpa using api
  next pr req hmore hok parse => exact .static parse hmore fun h => absurd h hok

/-- A dispatch answers a complete request, and only that. -/
lemma dispatchOne_fst (cfg : Config) (c : Conn) : (c.dispatchOne cfg).1 = complete cfg c.buf := by
  have hspec := dispatchOne_spec cfg c
  generalize c.dispatchOne cfg = r at hspec ⊢
  unfold complete
  cases hspec with
  | more parse => rw [parse]
  | @static pr req parse answer outside =>
    rw [parse]
    cases pr with
    | needMore => exact absurd rfl answer
    | ok => simp [outside rfl]
    | _ => rfl
  | error parse api route | tooLarge parse api route | wait parse api route | run parse api route =>
    rw [parse]
    simp [api, route]

lemma connTail_length_pos (close : Bool) : 0 < (connTail close).length := by
  cases close <;> decide

lemma segs_length_pos (r : Resource) (variant : Option Variant) (headOnly close : Bool) (pr : HttpResult)
    (req : HttpRequest) : 0 < ((r.segs variant headOnly close pr req).map Seg.length).sum := by
  have htail := connTail_length_pos close
  unfold Resource.segs
  split <;> simp only [map_cons, sum_cons, Seg.length] <;> omega

lemma respond_wireTotal_pos (pr : HttpResult) (req : HttpRequest) :
    0 < (c.respond cfg pr req).wireTotal := segs_length_pos ..

lemma apiFinalise_wireTotal_pos (resp : ApiResp) (headOnly : Bool) : 0 < (c.apiFinalise resp headOnly).wireTotal := by
  have htail := connTail_length_pos true
  simp only [wireTotal, apiFinalise, prime, map_cons, sum_cons, Seg.length]
  omega

lemma apiRoute_error {req : HttpRequest} {n : ℕ} {pr : HttpResult}
    (h : apiRoute cfg req n = .error pr) : pr = .err414 ∨ pr = .err400 := by
  unfold apiRoute at h
  split_ifs at h <;> cases h
  · exact .inl rfl
  · exact .inr rfl

/-- The buffer behind an accepted request: an exact fit leaves nothing. -/
lemma respond_buf_ok {req : HttpRequest} (parse : httpParse c.buf = (.ok, req)) :
    (c.respond cfg .ok req).buf = c.buf.drop req.consumed := by
  obtain ⟨hpos, hle⟩ := consumed_of_ok parse
  simp only [respond, hpos, true_and]
  split_ifs with hlt
  · rfl
  · exact (drop_eq_nil_of_le (not_lt.mp hlt)).symm

lemma respond_buf_of_ne_ok {pr : HttpResult} {req : HttpRequest} (hpr : pr ≠ .ok) : (c.respond cfg pr req).buf = [] :=
  if_neg fun h => hpr h.1

lemma keep_of_respond {pr : HttpResult} {req : HttpRequest} (hpr : pr ≠ .needMore)
    (h : (c.respond cfg pr req).closeAfter = false) : pr = .ok ∧ req.clientClose = false :=
  keep_of_httpSelect hpr (Bool.or_eq_false_iff.mp h).1

/-- A response is ready: nothing of it is sent, and the requests behind it stay in the buffer. -/
structure Primed (cfg : Config) (c c' : Conn) : Prop where
  state : c'.state = .writing
  fresh : c'.bytesSent = 0
  unsent : 0 < c'.wireTotal
  buf : c'.buf = restAfter cfg c.buf
  live : c'.closed = c.closed

lemma dispatchOne_primed (h : complete cfg c.buf = true) : Primed cfg c (c.dispatchOne cfg).2 := by
  have hfst := dispatchOne_fst cfg c
  have hspec := dispatchOne_spec cfg c
  rw [h] at hfst
  generalize c.dispatchOne cfg = r at hfst hspec ⊢
  cases hspec with
  | more parse | wait parse api route => exact absurd hfst Bool.false_ne_true
  | @static pr req parse answer outside =>
    refine ⟨rfl, rfl, respond_wireTotal_pos pr req, ?_, rfl⟩
    unfold restAfter
    rw [parse]
    by_cases hok : pr = .ok
    · subst hok
      simp [outside rfl, respond_buf_ok parse]
    · cases pr <;> first | rfl | exact absurd rfl hok
  | @error pr req parse api route =>
    refine ⟨rfl, rfl, respond_wireTotal_pos pr req, ?_, rfl⟩
    have hok : pr ≠ .ok := by rcases apiRoute_error route with rfl | rfl <;> decide
    rw [respond_buf_of_ne_ok hok, restAfter, parse]
    simp [api]
  | tooLarge parse api route | run parse api route =>
    refine ⟨rfl, rfl, apiFinalise_wireTotal_pos _ _, ?_, rfl⟩
    rw [restAfter, parse]
    simp [api, apiRun, apiFinalise, prime]

/-- A dispatch with an answer has found a complete request. -/
lemma primed_of_dispatchOne (h : c.dispatchOne cfg = (true, c')) : complete cfg c.buf = true ∧ Primed cfg c c' := by
  have hcomplete : complete cfg c.buf = true := by rw [← dispatchOne_fst, h]
  have hprimed := dispatchOne_primed hcomplete
  rw [h] at hprimed
  exact ⟨hcomplete, hprimed⟩

/-! ### Reads and sends -/

/-- Some bytes of the client's stream have moved to the buffer, up to its size. The connection is closed only
after a failed read, or where the stream ends with an empty buffer. -/
def Took (reads : List ReadResult) (c : Conn) (r : Bool × Conn) : Prop :=
  ∃ got rest half, c.inbox = got ++ rest ∧ (c.buf ++ got).length ≤ readBuf ∧
    (r.1 = false → ReadResult.error ∈ reads ∨ c.buf ++ got = []) ∧
    r.2 = { c with buf := c.buf ++ got, inbox := rest, peerHalfClosed := half, closed := c.closed || !r.1 }

variable {reads : List ReadResult}

lemma Took.stop (hfits : c.buf.length ≤ readBuf) (half : Bool) :
    Took reads c (true, { c with peerHalfClosed := half }) := by
  refine ⟨[], c.inbox, half, rfl, ?_, nofun, ?_⟩
  · rwa [append_nil]
  · simp

lemma Took.end (hfits : c.buf.length ≤ readBuf) (half : Bool) (why : ReadResult.error ∈ reads ∨ c.buf = []) :
    Took reads c (false, { c with peerHalfClosed := half }.close) := by
  refine ⟨[], c.inbox, half, rfl, ?_, fun _ => ?_, ?_⟩
  · rwa [append_nil]
  · rwa [append_nil]
  · simp [close]

lemma Took.cons {r : Bool × Conn} (read : ReadResult) (h : Took reads c r) : Took (read :: reads) c r := by
  obtain ⟨got, rest, half, hsplit, hlen, why, heq⟩ := h
  exact ⟨got, rest, half, hsplit, hlen, fun hr => (why hr).imp_left (mem_cons_of_mem _), heq⟩

theorem readLoop_spec (reads : List ReadResult) (hfits : c.buf.length ≤ readBuf) :
    Took reads c (readLoop reads c) := by
  induction reads generalizing c with
  | nil =>
    unfold readLoop
    split_ifs <;> exact .stop hfits _
  | cons read reads ih =>
    unfold readLoop
    split_ifs with hfull
    · exact .stop hfits _
    cases read with
    | again => exact .stop hfits _
    | eintr => exact (ih hfits).cons _
    | error => exact .end hfits _ (.inl mem_cons_self)
    | eof =>
      dsimp only
      split_ifs with hnil
      · exact .end hfits _ (.inr hnil)
      · exact .stop hfits _
    | data n =>
      dsimp only
      split_ifs
      · exact .stop hfits _
      set got := c.inbox.take (min n (readBuf - c.buf.length)) with hgot
      have hroom : (c.buf ++ got).length ≤ readBuf := by
        rw [length_append, length_take]
        omega
      have hsplit : c.inbox = got ++ c.inbox.drop got.length :=
        prefix_iff_eq_append.mp (List.take_prefix _ _) |>.symm
      obtain ⟨got', rest, half, hrest, hlen, why, heq⟩ :=
        (@ih { c with buf := c.buf ++ got, inbox := c.inbox.drop got.length } hroom).cons (.data n)
      refine ⟨got ++ got', rest, half, ?_, ?_, ?_, ?_⟩
      · rw [hsplit, append_assoc, ← hrest]
      · rwa [← append_assoc]
      · rwa [← append_assoc]
      · rw [← append_assoc]
        exact heq

/-- A send has taken a part of what is left of the response, all of it, or failed. -/
structure Sent (sends : List SendResult) (c : Conn) (r : SendRc × Conn × List SendResult) : Prop where
  only : ∃ written bytesSent, r.2.1 = { c with written := written, bytesSent := bytesSent }
  done : r.1 = .done → c.wireTotal ≤ r.2.1.bytesSent
  blocked : r.1 = .blocked → r.2.1.bytesSent < c.wireTotal
  failed : r.1 = .failed → ∃ send ∈ sends, send.Fails
  later : r.2.2 ⊆ sends

theorem trySend_spec (sends : List SendResult) (c : Conn) : Sent sends c (trySend sends c) := by
  induction sends generalizing c with
  | nil =>
    unfold trySend
    split_ifs with hall
    · exact ⟨⟨_, _, rfl⟩, fun _ => hall, nofun, nofun, List.Subset.refl _⟩
    · exact ⟨⟨_, _, rfl⟩, nofun, fun _ => not_le.mp hall, nofun, List.Subset.refl _⟩
  | cons send sends ih =>
    have hlater : (∃ s ∈ sends, s.Fails) → ∃ s ∈ send :: sends, s.Fails :=
      fun ⟨s, hs, hf⟩ => ⟨s, mem_cons_of_mem _ hs, hf⟩
    have hsub := subset_cons_self send sends
    unfold trySend
    split_ifs with hall
    · exact ⟨⟨_, _, rfl⟩, fun _ => hall, nofun, nofun, List.Subset.refl _⟩
    cases send with
    | eintr =>
      obtain ⟨only, done, blocked, failed, later⟩ := ih c
      exact ⟨only, done, blocked, fun h => hlater (failed h), List.Subset.trans later hsub⟩
    | again => exact ⟨⟨_, _, rfl⟩, nofun, fun _ => not_le.mp hall, nofun, hsub⟩
    | error => exact ⟨⟨_, _, rfl⟩, nofun, nofun, fun _ => ⟨_, mem_cons_self, trivial⟩, hsub⟩
    | sent n stats =>
      dsimp only
      split_ifs with hzero
      · exact ⟨⟨_, _, rfl⟩, nofun, nofun, fun _ => ⟨_, mem_cons_self, hzero⟩, hsub⟩
      · obtain ⟨only, done, blocked, failed, later⟩ := ih (c.transmit n stats)
        exact ⟨only, done, blocked, fun h => hlater (failed h), List.Subset.trans later hsub⟩

/-! ### Moves -/

/-- The moves that an event is made of. -/
inductive Move (cfg : Config) : Conn → Conn → Prop
  | read {c : Conn} {got rest : Bytes} (reading : c.state ≠ .writing) (stream : c.inbox = got ++ rest)
      (fits : (c.buf ++ got).length ≤ readBuf) : Move cfg c { c with buf := c.buf ++ got, inbox := rest }
  | send {c : Conn} (writing : c.state = .writing) (n : ℕ) (stats : ℕ → UInt8) :
      Move cfg c (c.transmit n stats)
  | dispatch {c : Conn} (reading : c.state ≠ .writing) (body : c.state = .readingBody → c.api = none) :
      Move cfg c (c.dispatchOne cfg).2
  | body {c : Conn} {stash : ApiStash} (body : c.state = .readingBody) (api : c.api = some stash)
      (all : stash.headersLen + stash.bodyNeeded ≤ c.buf.length) : Move cfg c (c.apiRun cfg stash)
  | reset {c : Conn} (writing : c.state = .writing) (sent : c.wireTotal ≤ c.bytesSent)
      (keep : c.closeAfter = false) : Move cfg c c.reset
  | flags {c : Conn} (mask : Interest) (half closed : Bool) :
      Move cfg c { c with mask := mask, peerHalfClosed := half, closed := closed }

abbrev Moves (cfg : Config) : Conn → Conn → Prop := Relation.ReflTransGen (Move cfg)

lemma Moves.refl : Moves cfg c c := Relation.ReflTransGen.refl

lemma Moves.close : Moves cfg c c.close := .single (.flags _ _ _)

lemma Moves.await : Moves cfg c c.await := by
  unfold Conn.await
  split_ifs
  · exact .close
  · exact .single (.flags _ _ _)

lemma Moves.trySend (writing : c.state = .writing) (sends : List SendResult) : Moves cfg c (trySend sends c).2.1 := by
  induction sends generalizing c with
  | nil =>
    unfold Conn.trySend
    split_ifs <;> exact .refl
  | cons send sends ih =>
    unfold Conn.trySend
    split_ifs
    · exact .refl
    cases send with
    | eintr => exact ih writing
    | again | error => exact .refl
    | sent n stats =>
      dsimp only
      split_ifs
      · exact .refl
      · exact .head (.send writing n stats) (ih writing)

/-- A response that is ready is sent, and `next` goes on once all of it is out. -/
lemma Moves.sendThen {next : List SendResult → Conn → Conn} (writing : c.state = .writing)
    (hnext : ∀ sends c', c'.state = .writing → c'.wireTotal ≤ c'.bytesSent → Moves cfg c' (next sends c'))
    (sends : List SendResult) :
    Moves cfg c (match Conn.trySend sends c with
      | (.failed, c, _) => c.close
      | (.blocked, c, _) => { c with mask := .output }
      | (.done, c, sends) => next sends c) := by
  have hmoves : Moves cfg c _ := .trySend writing sends
  have hsent := trySend_spec sends c
  generalize Conn.trySend sends c = r at hmoves hsent
  obtain ⟨rc, c', sends'⟩ := r
  obtain ⟨⟨w, n, rfl⟩, done, -, -, -⟩ := hsent
  cases rc with
  | failed | blocked => exact hmoves.tail (.flags _ _ _)
  | done => exact hmoves.trans (hnext sends' _ writing (done rfl))

lemma Moves.postSend (budget : ℕ) (sends : List SendResult) (writing : c.state = .writing)
    (sent : c.wireTotal ≤ c.bytesSent) : Moves cfg c (postSend cfg budget sends c) := by
  induction budget generalizing c sends with
  | zero => exact .single (.flags _ _ _)
  | succ budget ih =>
    unfold Conn.postSend
    split_ifs with hclose hbuf
    · exact .close
    · exact .head (.reset writing sent (by simpa using hclose)) Moves.await
    have hdispatch : Moves cfg c (c.reset.dispatchOne cfg).2 :=
      .head (.reset writing sent (by simpa using hclose)) (.single (.dispatch nofun nofun))
    split
    next c' h =>
      rw [h] at hdispatch
      exact hdispatch.trans Moves.await
    next c' h =>
      rw [h] at hdispatch
      exact hdispatch.trans (Moves.sendThen (primed_of_dispatchOne h).2.state (fun sends c' => ih sends) sends)

lemma Moves.flush (writing : c.state = .writing) (sends : List SendResult) : Moves cfg c (c.flush cfg sends) :=
  .sendThen writing (fun sends _ => .postSend postSendBudget sends) sends

lemma Moves.serve (reading : c.state ≠ .writing) (sends : List SendResult) : Moves cfg c (c.serve cfg sends) := by
  unfold Conn.serve
  rcases eq_or_ne c.buf [] with hbuf | hbuf
  · rw [if_pos hbuf]
  rw [if_neg hbuf]
  split
  next stash hbody hapi =>
    split_ifs with hlen
    · exact .close
    · exact .refl
    · exact .head (.body hbody hapi (not_lt.mp hlen)) (Moves.flush rfl sends)
  next hnot =>
    have hdispatch : Moves cfg c (c.dispatchOne cfg).2 := by
      refine .single (.dispatch reading fun hbody => ?_)
      by_contra hsome
      obtain ⟨stash, hstash⟩ := Option.ne_none_iff_exists'.mp hsome
      exact hnot stash hbody hstash
    split
    next c' h =>
      rw [h] at hdispatch
      exact hdispatch
    next c' h =>
      rw [h] at hdispatch
      exact hdispatch.trans (Moves.flush (primed_of_dispatchOne h).2.state sends)

lemma Moves.handleReadable (reading : c.state ≠ .writing) (hfits : c.buf.length ≤ readBuf)
    (reads : List ReadResult) (sends : List SendResult) : Moves cfg c (c.handleReadable cfg reads sends) := by
  obtain ⟨got, rest, half, stream, fits, -, heq⟩ := readLoop_spec reads hfits
  have hread : Moves cfg c (readLoop reads c).2 := by
    rw [heq]
    exact .tail (.single (.read reading stream fits)) (.flags _ _ _)
  have hstate : (readLoop reads c).2.state ≠ .writing := by rwa [heq]
  unfold Conn.handleReadable
  generalize readLoop reads c = r at hread hstate
  obtain ⟨b, c'⟩ := r
  cases b with
  | false => exact hread
  | true => exact hread.trans (Moves.serve hstate sends)

/-- An event is a sequence of moves. -/
theorem Moves.step (hfits : c.buf.length ≤ readBuf) (e : Event) : Moves cfg c (c.step cfg e) := by
  cases e with
  | idle => exact .close
  | epoll ev reads sends =>
    simp only [Conn.step]
    split_ifs with hclosed herr hwriting hout hin hhup
    · exact .refl
    · exact .close
    · refine .head (.flags c.mask (c.peerHalfClosed || ev.rdhup) c.closed) ?_
      apply Moves.flush
      exact hwriting
    · exact .single (.flags _ _ _)
    · refine .head (.flags c.mask (c.peerHalfClosed || ev.rdhup) c.closed) ?_
      apply Moves.handleReadable
      · exact hwriting
      · exact hfits
    · exact .head (.flags _ _ _) Moves.close
    · exact .single (.flags _ _ _)

lemma restAfter_length_le (buf : Bytes) : (restAfter cfg buf).length ≤ buf.length := by
  unfold restAfter
  split
  · split_ifs
    · exact Nat.zero_le _
    · exact (drop_sublist _ _).length_le
  · exact Nat.zero_le _

lemma dispatchOne_buf_length_le : (c.dispatchOne cfg).2.buf.length ≤ c.buf.length := by
  rcases hcomplete : complete cfg c.buf with _ | _
  · have hfst := dispatchOne_fst cfg c
    have hspec := dispatchOne_spec cfg c
    rw [hcomplete] at hfst
    generalize c.dispatchOne cfg = r at hfst hspec ⊢
    cases hspec with
    | more | wait => exact le_rfl
    | static | error | tooLarge | run => exact absurd hfst.symm Bool.false_ne_true
  · rw [(dispatchOne_primed hcomplete).buf]
    exact restAfter_length_le c.buf

lemma Move.fits (h : Move cfg c c') (hfits : c.buf.length ≤ readBuf) : c'.buf.length ≤ readBuf := by
  cases h with
  | read _ _ fits => exact fits
  | send | flags | reset => exact hfits
  | body => exact Nat.zero_le _
  | dispatch => exact dispatchOne_buf_length_le.trans hfits

/-- What every move keeps holds at the end of a run. -/
theorem run_invariant {P : Conn → Prop} (hmove : ∀ c c', Move cfg c c' → c.buf.length ≤ readBuf → P c → P c') (hP : P c)
    (hfits : c.buf.length ≤ readBuf) (events : List Event) : P (events.foldl (step cfg) c) := by
  have hmoves : ∀ c', Moves cfg c c' → P c' ∧ c'.buf.length ≤ readBuf := by
    intro c' h
    induction h with
    | refl => exact ⟨hP, hfits⟩
    | tail _ hlast ih => exact ⟨hmove _ _ hlast ih.2 ih.1, hlast.fits ih.2⟩
  induction events generalizing c with
  | nil => exact hP
  | cons e events ih =>
    obtain ⟨hP', hfits'⟩ := hmoves _ (Moves.step hfits e)
    refine ih hP' hfits' fun c' h => hmoves c' ((Moves.step hfits e).trans h)

end Conn

end Server
