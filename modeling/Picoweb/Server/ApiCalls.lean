import Picoweb.Http.Stream
import Picoweb.Server.Waiting

/-!
# What an API handler gets

An API request is copied into fields of the connection, where the length of its path has eight bits, and
handed to `api_dispatch` once its body is in the buffer. A handler sees the request exactly unless its
path has 256 bytes; and a request that arrives behind more pipelined requests than `post_send` answers
in one go is not handed over at all.
-/

namespace Server

open ByteFile ByteText Http Sockets List

variable {cfg : Config} {stream s : Bytes} {c c' : Conn}

/-- The request at `s` goes to a handler once its body is there. -/
def Dispatchable (cfg : Config) (s : Bytes) : Prop :=
  AtPath cfg.apiPath s ∧ Conn.apiRoute cfg (front s).2 (front s).2.contentLength = .run

/-- The call hands over the request at `s`. -/
structure Sees (s : Bytes) (call : ApiCall) : Prop where
  method : call.method = (front s).2.method
  path : call.path = (front s).2.path.getD []
  cookie : call.cookie = (front s).2.cookie.getD []
  body : call.body = (s.drop (front s).2.consumed).take (front s).2.contentLength

namespace Conn

/-- The request at `s` has been handed over, and nothing else. -/
def HandedOver (c : Conn) (s : Bytes) : Prop := ∃ call, Sees s call ∧ c.calls = [call]

/-- Every byte of the request at `s` has been read from the socket. -/
def Arrived (c : Conn) (s : Bytes) : Prop :=
  c.inbox.length + (front s).2.consumed + (front s).2.contentLength ≤ s.length

/-- The requests outside the API end the connection: the response to one of them closes it, or they are as many
as a connection may make. -/
def LastAnswer (cfg : Config) (stream : Bytes) (c : Conn) : Prop :=
  (∃ s ∈ starts cfg.apiPath stream, ¬ AtPath cfg.apiPath s ∧
    (httpSelect cfg.jt (front s).1 (front s).2).closeAfter = true) ∨ cfg.maxReq ≠ 0 ∧ cfg.maxReq ≤ c.reqCount

/-- Why a request that has arrived is not handed over. -/
inductive Held (cfg : Config) (stream : Bytes) (events : List Event) (c : Conn) : Prop
  /-- The socket has not taken an earlier response yet. -/
  | sending (live : c.closed = false) (writing : c.state = .writing) (unsent : c.bytesSent < c.wireTotal)
      (mask : c.mask = .output)
  | last (answer : c.LastAnswer cfg stream)
  | broken {e : Event} (closed : c.closed = true) (mem : e ∈ events) (breaks : Breaks e)

/-- No request has been handed over yet; the requests before the buffer went elsewhere. -/
structure Before (cfg : Config) (stream : Bytes) (c : Conn) : Prop where
  calls : c.calls = []
  keep : c.closeAfter = false
  stream : ∃ done, starts cfg.apiPath stream = done ++ starts cfg.apiPath (c.buf ++ c.inbox) ∧
    ∀ s ∈ done, ¬ AtPath cfg.apiPath s
  pending : c.state = .readingBody → c.Pending cfg

/-- The last response is on its way: that of the only request for a handler, or one in front of them all. -/
structure Last (cfg : Config) (stream : Bytes) (c : Conn) : Prop where
  writing : c.state = .writing
  close : c.closeAfter = true
  calls : (c.calls = [] ∧ ∀ s ∈ starts cfg.apiPath stream, Dispatchable cfg s →
      s ∈ starts cfg.apiPath (c.buf ++ c.inbox) ∧ c.LastAnswer cfg stream) ∨
    ∃ s ∈ starts cfg.apiPath stream, Dispatchable cfg s ∧ c.HandedOver s ∧
      ∀ s' ∈ starts cfg.apiPath stream, Dispatchable cfg s' → s' = s

/-- What the checks of a request that runs have seen. -/
lemma apiRoute_run {req : HttpRequest} {n : ℕ} (h : apiRoute cfg req n = .run) :
    (req.path.getD []).length ≤ 256 ∧ req.consumed + req.contentLength ≤ readBuf ∧ req.contentLength ≤ n ∧
      ∀ m, apiRoute cfg req m = if m < req.contentLength then .wait else .run := by
  unfold apiRoute at h ⊢
  split_ifs at h with h1 h2 h3 h4 h5
  refine ⟨not_lt.mp h1, not_lt.mp h4, not_lt.mp h5, fun m => ?_⟩
  rw [if_neg h1, if_neg h2, if_neg h3, if_neg h4]

/-- The request at the front of the buffer is the first for a handler that can be in the stream; those behind it
follow a request outside the API that leaves the connection open. -/
lemma Before.dispatchable (h : c.Before cfg stream) (hfits : c.buf.length ≤ readBuf) {pr : HttpResult}
    {req : HttpRequest} (parse : httpParse c.buf = (pr, req)) (answer : pr ≠ .needMore)
    (hs : s ∈ starts cfg.apiPath stream) (hdispatch : Dispatchable cfg s) :
    (s = c.buf ++ c.inbox ∧ pr = .ok ∧ cfg.apiPath (req.path.getD []) = true ∧
        apiRoute cfg req req.contentLength = .run) ∨
      pr = .ok ∧ cfg.apiPath (req.path.getD []) = false ∧ req.clientClose = false ∧
        s ∈ starts cfg.apiPath (c.buf.drop req.consumed ++ c.inbox) := by
  obtain ⟨b, later, hfront, hstarts, hmore, hlater⟩ := starts_append cfg.apiPath parse answer hfits c.inbox
  obtain ⟨done, hsplit, hdone⟩ := h.stream
  rw [hsplit, hstarts] at hs
  rcases mem_cons.mp ((mem_append.mp hs).resolve_left fun hmem => hdone s hmem hdispatch.1) with rfl | hmem
  · rw [Dispatchable, AtPath, hfront] at hdispatch
    exact .inl ⟨rfl, hdispatch.1.1, hdispatch.1.2, hdispatch.2⟩
  · obtain ⟨hok, hout, hclose⟩ := hmore (ne_nil_of_mem hmem)
    exact .inr ⟨hok, hout, hclose, hlater hok hout hclose ▸ hmem⟩

/-- A static response: the requests go on behind it, or it is the last. -/
lemma Before.respond (h : c.Before cfg stream) (hfits : c.buf.length ≤ readBuf) {pr : HttpResult}
    {req : HttpRequest} (parse : httpParse c.buf = (pr, req)) (answer : pr ≠ .needMore)
    (outside : pr = .ok → cfg.apiPath (req.path.getD []) = false) :
    (c.respond cfg pr req).Before cfg stream ∨ (c.respond cfg pr req).Last cfg stream := by
  rcases hkeep : (c.respond cfg pr req).closeAfter with _ | _
  · obtain ⟨rfl, hclose⟩ := keep_of_respond answer hkeep
    obtain ⟨b, later, hfront, hstarts, -, hlater⟩ := starts_append cfg.apiPath parse answer hfits c.inbox
    obtain ⟨done, hsplit, hdone⟩ := h.stream
    refine .inl ⟨h.calls, hkeep, ⟨done ++ [c.buf ++ c.inbox], ?_, ?_⟩, nofun⟩
    · rw [hsplit, hstarts, hlater rfl (outside rfl) hclose, respond_buf_ok parse, append_assoc]
      rfl
    · intro s hs
      rcases mem_append.mp hs with hs | hs
      · exact hdone s hs
      · rw [mem_singleton.mp hs, AtPath, hfront]
        exact fun hat => Bool.false_ne_true ((outside rfl).symm.trans hat.2)
  · refine .inr ⟨rfl, hkeep, .inl ⟨h.calls, fun s hs hdispatch => ?_⟩⟩
    rcases h.dispatchable hfits parse answer hs hdispatch with ⟨-, hok, hapi, -⟩ | ⟨rfl, hout, -, hmem⟩
    · exact absurd (hapi.symm.trans (outside hok)) nofun
    rw [respond_buf_ok parse]
    refine ⟨hmem, (Bool.or_eq_true_iff.mp hkeep).imp (fun hsel => ?_) of_decide_eq_true⟩
    obtain ⟨b, later, hfront, hstarts, -, -⟩ := starts_append cfg.apiPath parse answer hfits c.inbox
    obtain ⟨done, hsplit, -⟩ := h.stream
    refine ⟨c.buf ++ c.inbox, ?_, ?_, ?_⟩
    · rw [hsplit, hstarts]
      exact mem_append_right _ mem_cons_self
    · rw [AtPath, hfront]
      exact fun hat => Bool.false_ne_true (hout.symm.trans hat.2)
    · rw [hfront]
      exact hsel

/-- An API request that is refused is the last request of the stream, and none for a handler. -/
lemma Before.refused (h : c.Before cfg stream) (hfits : c.buf.length ≤ readBuf) {req : HttpRequest}
    (parse : httpParse c.buf = (.ok, req)) (api : cfg.apiPath (req.path.getD []) = true) {n : ℕ} {r : ApiRoute}
    (route : apiRoute cfg req n = r) (hwait : r ≠ .wait) (hrun : r ≠ .run) (hs : s ∈ starts cfg.apiPath stream) :
    ¬ Dispatchable cfg s := by
  intro hdispatch
  rcases h.dispatchable hfits parse nofun hs hdispatch with ⟨-, -, -, hroute⟩ | ⟨-, hout, -⟩
  · have hn := route.symm.trans ((apiRoute_run hroute).2.2.2 n)
    split_ifs at hn
    · exact hwait hn
    · exact hrun hn
  · exact absurd (api.symm.trans hout) nofun

section Short

variable (short : ∀ s ∈ starts cfg.apiPath stream, AtPath cfg.apiPath s → ((front s).2.path.getD []).length ≠ 256)
include short

/-- The request at the front of the stream, whose body is in the buffer, is handed over as it is. -/
lemma apiRun_last {req : HttpRequest} (parse : httpParse c.buf = (.ok, req))
    (api : cfg.apiPath (req.path.getD []) = true)
    (route : apiRoute cfg req (c.buf.length - req.consumed) = .run) (hfits : c.buf.length ≤ readBuf)
    (h : c.Before cfg stream) : (c.apiRun cfg (stashOf req)).Last cfg stream := by
  obtain ⟨b, later, hfront, hstarts, -, -⟩ := starts_append cfg.apiPath parse nofun hfits c.inbox
  obtain ⟨hpath, hroom, hbody, hrun⟩ := apiRoute_run route
  obtain ⟨done, hsplit, -⟩ := h.stream
  have hmem : c.buf ++ c.inbox ∈ starts cfg.apiPath stream := by
    rw [hsplit, hstarts]
    exact mem_append_right _ mem_cons_self
  have hat : AtPath cfg.apiPath (c.buf ++ c.inbox) := by
    rw [AtPath, hfront]
    exact ⟨rfl, api⟩
  have hne := short _ hmem hat
  rw [hfront] at hne
  have hlt : (req.path.getD []).length < 2 ^ 8 := Nat.lt_of_le_of_ne hpath hne
  obtain ⟨hpos, hle⟩ := consumed_of_ok parse
  obtain ⟨hheaders, hneeded⟩ := stashOf_lengths hroom
  set call : ApiCall := { (stashOf req).call with
    body := (c.buf.drop (stashOf req).headersLen).take (stashOf req).bodyNeeded } with hcall
  have hsees : Sees (c.buf ++ c.inbox) call := by
    constructor
    all_goals rw [hfront]
    · rfl
    · exact take_of_length_le (Nat.mod_eq_of_lt hlt).ge
    · rfl
    · rw [hcall, hheaders, hneeded, drop_append_of_le_length hle, take_append_of_le_length]
      rwa [length_drop]
  have hcalls : (c.apiRun cfg (stashOf req)).calls = c.calls ++ [call] := rfl
  rw [h.calls] at hcalls
  have hdispatch : Dispatchable cfg (c.buf ++ c.inbox) := by
    refine ⟨hat, ?_⟩
    rw [hfront]
    exact (hrun _).trans (if_neg (lt_irrefl _))
  refine ⟨rfl, rfl, .inr ⟨_, hmem, hdispatch, ⟨call, hsees, hcalls⟩, fun s' hs' hd' => ?_⟩⟩
  rcases h.dispatchable hfits parse nofun hs' hd' with ⟨heq, -⟩ | ⟨-, hout, -⟩
  · exact heq
  · exact absurd (api.symm.trans hout) nofun

/-! ### Runs -/

lemma Before.dispatch (h : c.Before cfg stream) (hfits : c.buf.length ≤ readBuf) :
    (c.dispatchOne cfg).2.Before cfg stream ∨ (c.dispatchOne cfg).2.Last cfg stream := by
  have hspec := dispatchOne_spec cfg c
  generalize c.dispatchOne cfg = r at hspec ⊢
  cases hspec with
  | more parse => exact .inl h
  | static parse answer outside => exact h.respond hfits parse answer outside
  | error parse api route =>
    refine .inr ⟨rfl, ?_, .inl ⟨h.calls, fun s hs hd => ?_⟩⟩
    · rcases apiRoute_error route with rfl | rfl <;> rfl
    · exact absurd hd (h.refused hfits parse api route nofun nofun hs)
  | tooLarge parse api route =>
    refine .inr ⟨rfl, rfl, .inl ⟨h.calls, fun s hs hd => ?_⟩⟩
    exact absurd hd (h.refused hfits parse api route nofun nofun hs)
  | wait parse api route => exact .inl ⟨h.calls, h.keep, h.stream, fun _ => .of_wait parse api route rfl⟩
  | @run req parse api route =>
    have hcount : Before cfg stream { c with reqCount := c.reqCount + 1 } := { h with }
    exact .inr (apiRun_last short (by exact parse) api route hfits hcount)

lemma calls_move (hmove : Move cfg c c') (hfits : c.buf.length ≤ readBuf)
    (h : c.Before cfg stream ∨ c.Last cfg stream) : c'.Before cfg stream ∨ c'.Last cfg stream := by
  cases hmove with
  | @read got rest reading hstream fits =>
    have hbefore := h.resolve_right fun hlast => reading hlast.writing
    refine .inl ⟨hbefore.calls, hbefore.keep, ?_, fun hbody => (hbefore.pending hbody).append fits rfl rfl⟩
    rw [append_assoc, ← hstream]
    exact hbefore.stream
  | send writing n stats =>
    exact h.imp (fun h => { h with }) fun h => { h with }
  | dispatch reading body =>
    exact (h.resolve_right fun hlast => reading hlast.writing).dispatch short hfits
  | @body stash hbody hapi all =>
    have hbefore := h.resolve_right fun hlast => nomatch hbody.symm.trans hlast.writing
    obtain ⟨req, parse, api, wait, hstash⟩ := hbefore.pending hbody
    obtain rfl : stash = stashOf req := Option.some.inj (hapi.symm.trans hstash)
    obtain ⟨hheaders, hneeded⟩ := stashOf_lengths (apiRoute_of_wait wait).2.1
    refine .inr (apiRun_last short parse api ?_ hfits hbefore)
    rw [(apiRoute_of_wait wait).2.2, if_neg (by omega)]
  | reset writing sent keep =>
    have hbefore := h.resolve_right fun hlast => nomatch keep.symm.trans hlast.close
    exact .inl { hbefore with pending := nofun }
  | flags mask half closed =>
    exact h.imp (fun h => { h with }) fun h => { h with }

end Short

/-- Where the buffer holds no complete request, no API request behind it has arrived. -/
lemma not_arrived (hfits : c.buf.length ≤ readBuf) (hcomplete : complete cfg c.buf = false)
    (hs : s ∈ starts cfg.apiPath (c.buf ++ c.inbox)) (h : AtPath cfg.apiPath s) : ¬ c.Arrived s := by
  rw [Arrived, not_le]
  generalize c.buf = buf at hfits hcomplete hs
  generalize c.inbox = inbox at hs ⊢
  rcases hfront : front (buf ++ inbox) with ⟨pr, req⟩
  by_cases hmore : pr = .needMore
  · subst hmore
    rw [starts_of_needMore hfront] at hs
    exact absurd hs not_mem_nil
  by_cases hok : pr ≠ .ok
  · rw [starts_of_error hfront hmore hok, mem_singleton] at hs
    rw [hs, AtPath, hfront] at h
    exact absurd h.1 hok
  rw [not_not] at hok
  subst hok
  rw [starts_of_ok hfront] at hs
  by_cases hhead : req.consumed ≤ buf.length
  · -- the headers are there, so the body is not
    obtain ⟨b, hparse⟩ := httpParse_take hfront hhead
    have hbuf : ((buf ++ inbox).take readBuf).take buf.length = buf := by
      rw [take_take, min_eq_left hfits, take_left]
    rw [hbuf] at hparse
    unfold complete at hcomplete
    rw [hparse] at hcomplete
    simp only [Bool.or_eq_false_iff, Bool.not_eq_false', decide_eq_false_iff_not, not_not] at hcomplete
    obtain ⟨hapi, hwait⟩ := hcomplete
    rw [if_pos (.inr hapi), mem_singleton] at hs
    have hshort := (apiRoute_of_wait hwait).1
    rw [hs, hfront, length_append]
    dsimp only at hshort ⊢
    omega
  · rcases mem_cons.mp hs with rfl | hs
    · rw [hfront, length_append]
      dsimp only
      omega
    split_ifs at hs
    · exact absurd hs not_mem_nil
    · have hle := length_le_of_mem_starts hs
      rw [length_drop, length_append] at hle
      have hfront' : front s = (.ok, (front s).2) := Prod.ext h.1 rfl
      have hpos := (front_consumed hfront').1
      omega

/-- A request that has arrived but is not handed over waits in the buffer, for one of three reasons. -/
lemma Before.held {events : List Event} (h : c.Before cfg stream) (hfits : c.buf.length ≤ readBuf)
    (hsettled : c.Settled (∃ e ∈ events, Breaks e) cfg) (hs : s ∈ starts cfg.apiPath stream)
    (hdispatch : Dispatchable cfg s) (harrived : c.Arrived s) :
    s ∈ starts cfg.apiPath (c.buf ++ c.inbox) ∧ c.Held cfg stream events := by
  obtain ⟨done, hsplit, hdone⟩ := h.stream
  rw [hsplit] at hs
  have hlater := (mem_append.mp hs).resolve_left fun hmem => hdone s hmem hdispatch.1
  have hcomplete (hnot : complete cfg c.buf = false) : c.Held cfg stream events :=
    absurd harrived (not_arrived hfits hnot hlater hdispatch.1)
  refine ⟨hlater, ?_⟩
  rcases hsettled with ⟨hclosed, ⟨e, he, hbreaks⟩ | hclose | ⟨-, hnot⟩⟩ | hsound
  · exact .broken hclosed he hbreaks
  · exact absurd (h.keep.symm.trans hclose) nofun
  · exact hcomplete hnot
  by_cases hwriting : c.state = .writing
  · obtain ⟨hunsent, hmask⟩ := hsound.waits.1 hwriting
    exact .sending hsound.live hwriting hunsent hmask
  · exact hcomplete (hsound.waits.2 hwriting).2

/-- On a connection to which no API request with a path of 256 bytes is sent, at most one request is handed
over, exactly as the client sent it. If besides no event found more than eight complete requests in the
buffer, every request for a handler that has arrived is handed over, unless it is held behind an earlier one. -/
theorem handlers_see_request (cfg : Config) (stream : Bytes)
    (short : ∀ s ∈ starts cfg.apiPath stream, AtPath cfg.apiPath s → ((front s).2.path.getD []).length ≠ 256)
    (events : List Event) :
    let c := events.foldl (step cfg) { inbox := stream }
    (c.calls = [] ∨ ∃ s ∈ starts cfg.apiPath stream, Dispatchable cfg s ∧ c.HandedOver s) ∧
    (Run.Guarded (step cfg) (FewRequests cfg) { inbox := stream } events →
      ∀ s ∈ starts cfg.apiPath stream, Dispatchable cfg s → c.Arrived s → c.HandedOver s ∨
        c.calls = [] ∧ s ∈ starts cfg.apiPath (c.buf ++ c.inbox) ∧ c.Held cfg stream events) := by
  have hinit : Before cfg stream { inbox := stream } := ⟨rfl, rfl, ⟨[], rfl, nofun⟩, nofun⟩
  obtain ⟨hrun, hfits⟩ := run_invariant (P := fun c => (c.Before cfg stream ∨ c.Last cfg stream) ∧ c.buf.length ≤ readBuf)
    (fun c c' hmove hfits h => ⟨calls_move short hmove hfits h.1, hmove.fits hfits⟩) ⟨.inl hinit, Nat.zero_le _⟩
    (Nat.zero_le _) events
  constructor
  · rcases hrun with hbefore | hlast
    · exact .inl hbefore.calls
    · exact hlast.calls.imp And.left fun ⟨s, hs, hdispatch, hover, _⟩ => ⟨s, hs, hdispatch, hover⟩
  · intro few s hs hdispatch harrived
    rcases hrun with hbefore | hlast
    · exact .inr ⟨hbefore.calls, hbefore.held hfits (run_sound few) hs hdispatch harrived⟩
    rcases hlast.calls with ⟨hcalls, hleft⟩ | ⟨s', -, -, hover, hall⟩
    · exact .inr ⟨hcalls, (hleft s hs hdispatch).1, .last (hleft s hs hdispatch).2⟩
    · exact .inl (hall s hs hdispatch ▸ hover)

/-- A site with an API below `/a`. -/
def apiSite : Config := { emptySite with apiPath := (ascii "/a").isPrefixOf, apiMaxBody := 4096 }

def postA : Bytes := ascii "POST /a HTTP/1.1\r\nHost: a\r\nCookie: k=v\r\nContent-Length: 3\r\n\r\nabc"

lemma front_getRoot_postA : front (getRoot ++ postA) =
    (.ok, { host := some (ascii "a"), path := some (ascii "/"), hasLeftover := true, consumed := 27 }) := by
  decide +kernel

lemma front_postA : front postA = (.ok,
    { method := .post, host := some (ascii "a"), path := some (ascii "/a"), clientClose := true, hasLeftover := true,
      consumed := 61, cookie := some (ascii "k=v"), contentLength := 3 }) := by
  decide +kernel

lemma starts_getRoot_postA : starts apiSite.apiPath (getRoot ++ postA) = [getRoot ++ postA, postA] := by
  have hdrop : (getRoot ++ postA).drop 27 = postA := drop_left' rfl
  rw [starts_of_ok front_getRoot_postA, if_neg (by decide), hdrop, starts_of_ok front_postA, if_pos (.inl rfl)]

/-- One event with one read, in which every send takes all it is given. -/
def readAtMost (n : ℕ) : Event := .epoll { input := true } [.data n] (replicate 9 (.sent readBuf fun _ => 0))

/-- A page and an API request; the last bytes of its body come with a second event. -/
theorem handlers_see_request_post :
    ([readAtMost 90, readAtMost 10].foldl (step apiSite) { inbox := getRoot ++ postA }).HandedOver postA := by
  have hmem : postA ∈ starts apiSite.apiPath (getRoot ++ postA) := by simp [starts_getRoot_postA]
  have hshort : ∀ s ∈ starts apiSite.apiPath (getRoot ++ postA), AtPath apiSite.apiPath s →
      ((front s).2.path.getD []).length ≠ 256 := by
    simp only [starts_getRoot_postA, mem_cons, not_mem_nil, or_false, forall_eq_or_imp, forall_eq]
    rw [front_getRoot_postA, front_postA]
    exact ⟨fun _ => by decide, fun _ => by decide⟩
  have hfew : Run.Guarded (step apiSite) (FewRequests apiSite) { inbox := getRoot ++ postA }
      [readAtMost 90, readAtMost 10] := ⟨fun _ _ => by decide +kernel, fun _ _ => by decide +kernel, trivial⟩
  refine ((handlers_see_request apiSite _ hshort _).2 hfew postA hmem ?_ ?_).resolve_right ?_
  · rw [Dispatchable, AtPath, front_postA]
    decide
  · rw [Arrived, front_postA]
    decide +kernel
  · intro h
    exact absurd h.1 (by decide +kernel)

/-- A request whose path is a slash and 255 letters. -/
def longPath : Bytes :=
  ascii "GET /" ++ List.replicate 255 97 ++ ascii " HTTP/1.1\r\nHost: a\r\n\r\n"

def longRequest : HttpRequest :=
  { host := some (ascii "a"), path := some (47 :: List.replicate 255 97), consumed := 282 }

/-- The handler gets a request for the empty path. -/
theorem long_path_lost : httpParse longPath = (.ok, longRequest) ∧
      ([allAtOnce].foldl (step apiSite) { inbox := longPath }).calls.map ApiCall.path = [[]] := by
  decide +kernel

end Conn

end Server
