import Picoweb.Http.Stream
import Picoweb.Server.Steps

/-!
# Responses in the order of the requests

What a connection writes is a part of the responses to the requests of its stream, one after the other.
The bytes of a response follow from the request and from whether the connection is kept, with one
exception by design: the body of `/stats` is read from live memory at each send, so of that body only the
length is fixed.
-/

namespace Server

open ByteFile ByteText Http Sockets List

/-! ### The property -/

variable {cfg : Config} {stream s : Bytes} {c c' : Conn}

/-- The bytes `r.2` are a whole response to the request that starts at `s`, with the connection header for
keeping the connection or, if `r.1`, for closing it. -/
def Answers (cfg : Config) (s : Bytes) (r : Bool × Bytes) : Prop :=
  let (pr, req) := front s
  let sel := httpSelect cfg.jt pr req
  Fits (sel.resource.segs (sel.resource.variant req) sel.headOnly r.1 pr req) r.2

/-- No request of the stream goes to the API. -/
def OutsideApi (cfg : Config) (stream : Bytes) : Prop := ∀ s ∈ starts cfg.apiPath stream, ¬ AtPath cfg.apiPath s

/-- The responses `rs`, all of which keep the connection, answer the requests of the stream before `later`. -/
def Answered (cfg : Config) (stream : Bytes) (rs : List (Bool × Bytes)) (later : List Bytes) : Prop :=
  ∃ done, starts cfg.apiPath stream = done ++ later ∧ List.Forall₂ (Answers cfg) done rs ∧ ∀ r ∈ rs, r.1 = false

def wire (rs : List (Bool × Bytes)) : Bytes := (rs.map Prod.snd).flatten

lemma wire_append (rs : List (Bool × Bytes)) (r : Bool × Bytes) : wire (rs ++ [r]) = wire rs ++ r.2 := by
  simp [wire]

namespace Conn

/-- A response is on its way: it answers the request at `s`, and a part of it is written. -/
structure Sending (cfg : Config) (c : Conn) (before s : Bytes) (later : List Bytes) (r : Bytes) : Prop where
  answers : ∀ r, Fits c.segs r → Answers cfg s (c.closeAfter, r)
  fits : Fits c.segs r
  sent : c.bytesSent ≤ c.wireTotal
  written : c.written = before ++ r.take c.bytesSent
  later : c.closeAfter = false → later = starts cfg.apiPath (c.buf ++ c.inbox)

/-- The connection has answered the requests of its stream in order. -/
structure InOrder (cfg : Config) (stream : Bytes) (c : Conn) : Prop where
  state : c.state ≠ .readingBody
  between : c.state ≠ .writing →
    ∃ rs, Answered cfg stream rs (starts cfg.apiPath (c.buf ++ c.inbox)) ∧ c.written = wire rs
  sending : c.state = .writing → ∃ rs s later r, Answered cfg stream rs (s :: later) ∧ Sending cfg c (wire rs) s later r

lemma Sending.transmit {before : Bytes} {later : List Bytes} {r : Bytes}
    (h : Sending cfg c before s later r) (n : ℕ) (stats : ℕ → UInt8) :
    ∃ r', Sending cfg (c.transmit n stats) before s later r' := by
  set full := (c.segs.map (Seg.bytes stats)).flatten
  have hfits : Fits c.segs full := fits_bytes stats c.segs
  have hout : (buildIov (c.segs.map (Seg.bytes stats)) c.bytesSent).flatten.take n =
      (full.drop c.bytesSent).take n := by rw [flatten_buildIov]
  have htake : (r.take c.bytesSent).length = c.bytesSent :=
    length_take_of_le (h.fits.length ▸ h.sent)
  refine ⟨r.take c.bytesSent ++ full.drop c.bytesSent, h.answers, h.fits.splice hfits c.bytesSent, ?_, ?_, h.later⟩
  · have hlen : full.length = c.wireTotal := hfits.length
    have hle : ((full.drop c.bytesSent).take n).length ≤ c.wireTotal - c.bytesSent := by
      rw [← hlen, ← length_drop]
      exact length_take_le' _ _
    simp only [Conn.transmit, hout, wireTotal] at hle ⊢
    have hsent := h.sent
    simp only [wireTotal] at hsent
    omega
  · set out := (full.drop c.bytesSent).take n
    have hpart : (full.drop c.bytesSent).take out.length = out :=
      (prefix_iff_eq_take.mp (List.take_prefix n _)).symm
    simp only [Conn.transmit, hout]
    calc c.written ++ out = before ++ (r.take c.bytesSent ++ (full.drop c.bytesSent).take out.length) := by
          rw [h.written, append_assoc, hpart]
      _ = before ++ (r.take c.bytesSent ++ full.drop c.bytesSent).take
            ((r.take c.bytesSent).length + out.length) := by rw [take_length_add_append]
      _ = before ++ (r.take c.bytesSent ++ full.drop c.bytesSent).take (c.bytesSent + out.length) := by
          rw [htake]

lemma InOrder.respond (h : c.InOrder cfg stream) (hfits : c.buf.length ≤ readBuf)
    (reading : c.state ≠ .writing) {pr : HttpResult} {req : HttpRequest} (parse : httpParse c.buf = (pr, req))
    (answer : pr ≠ .needMore)
    (outside : pr = .ok → cfg.apiPath (req.path.getD []) = false) : (c.respond cfg pr req).InOrder cfg stream := by
  obtain ⟨rs, hanswered, hwritten⟩ := h.between reading
  obtain ⟨b, later, hfront, hstarts, -, hlater⟩ := starts_append cfg.apiPath parse answer hfits c.inbox
  have hbytes : Fits (c.respond cfg pr req).segs _ := fits_bytes (fun _ => 0) _
  refine ⟨nofun, nofun, fun _ => ⟨rs, c.buf ++ c.inbox, later, _, hstarts ▸ hanswered, ?_, hbytes, ?_, ?_, ?_⟩⟩
  · intro r hr
    rw [Answers, hfront]
    exact hr
  · exact Nat.zero_le _
  · rw [show (c.respond cfg pr req).bytesSent = 0 from rfl, take_zero, append_nil]
    exact hwritten
  · intro hkeep
    obtain ⟨rfl, hclose⟩ := keep_of_respond answer hkeep
    rw [respond_buf_ok parse]
    exact hlater rfl (outside rfl) hclose

lemma InOrder.dispatch (h : c.InOrder cfg stream) (outside : OutsideApi cfg stream)
    (hfits : c.buf.length ≤ readBuf) (reading : c.state ≠ .writing) : (c.dispatchOne cfg).2.InOrder cfg stream := by
  -- an API request at the front of the buffer would be one of the stream
  have hapi {req : HttpRequest} (parse : httpParse c.buf = (.ok, req)) : cfg.apiPath (req.path.getD []) = false := by
    obtain ⟨b, later, hfront, hstarts, -⟩ := starts_append cfg.apiPath parse nofun hfits c.inbox
    obtain ⟨rs, ⟨done, hsplit, -, -⟩, -⟩ := h.between reading
    have hmem : c.buf ++ c.inbox ∈ starts cfg.apiPath stream := by
      rw [hsplit, hstarts]
      exact mem_append_right _ mem_cons_self
    refine Bool.eq_false_iff.mpr fun hpath => outside _ hmem ?_
    rw [AtPath, hfront]
    exact ⟨rfl, hpath⟩
  have hspec := dispatchOne_spec cfg c
  generalize c.dispatchOne cfg = r at hspec ⊢
  cases hspec with
  | more parse => exact h
  | static parse answer houtside => exact h.respond hfits reading parse answer houtside
  | error parse api route | tooLarge parse api route | wait parse api route | run parse api route =>
    exact absurd api (Bool.eq_false_iff.mp (hapi parse))

/-- The response that was sent joins those before it. -/
lemma InOrder.reset (h : c.InOrder cfg stream) (writing : c.state = .writing)
    (sent : c.wireTotal ≤ c.bytesSent) (keep : c.closeAfter = false) : c.reset.InOrder cfg stream := by
  obtain ⟨rs, s, later, r, ⟨done, hsplit, hanswers, hkeep⟩, hsending⟩ := h.sending writing
  refine ⟨nofun, fun _ => ⟨rs ++ [(false, r)], ⟨done ++ [s], ?_, ?_, ?_⟩, ?_⟩, nofun⟩
  · rw [hsplit, hsending.later keep, append_assoc]
    rfl
  · exact rel_append hanswers (.cons (keep ▸ hsending.answers r hsending.fits) .nil)
  · intro r' hr'
    rcases mem_append.mp hr' with hr' | hr'
    · exact hkeep r' hr'
    · rw [mem_singleton.mp hr']
  · have hall : r.take c.bytesSent = r := take_of_length_le (hsending.fits.length.trans_le sent)
    rw [wire_append, ← hall]
    exact hsending.written

lemma InOrder.move (outside : OutsideApi cfg stream) (hmove : Move cfg c c') (hfits : c.buf.length ≤ readBuf)
    (h : c.InOrder cfg stream) : c'.InOrder cfg stream := by
  cases hmove with
  | @read got rest reading stream fits =>
    refine ⟨h.state, fun _ => ?_, fun hwriting => absurd hwriting reading⟩
    rw [append_assoc, ← stream]
    exact h.between reading
  | send writing n stats =>
    refine ⟨h.state, fun hnot => absurd writing hnot, fun _ => ?_⟩
    obtain ⟨rs, s, later, r, hanswered, hsending⟩ := h.sending writing
    obtain ⟨r', hsending'⟩ := hsending.transmit n stats
    exact ⟨rs, s, later, r', hanswered, hsending'⟩
  | dispatch reading body => exact h.dispatch outside hfits reading
  | body hbody api all => exact absurd hbody h.state
  | reset writing sent keep => exact h.reset writing sent keep
  | flags mask half closed =>
    refine ⟨h.state, h.between, fun writing => ?_⟩
    obtain ⟨rs, s, later, r, hanswered, hsending⟩ := h.sending writing
    exact ⟨rs, s, later, r, hanswered, hsending.answers, hsending.fits, hsending.sent, hsending.written, hsending.later⟩

/-- What is written at any moment is a part of the responses to the first requests of the stream, in their
order; each is determined by its request up to the connection header and the contents of live memory, and
only the last may announce the close. -/
theorem responses_in_order (cfg : Config) (stream : Bytes) (outside : OutsideApi cfg stream) (events : List Event) :
    ∃ rs : List (Bool × Bytes), List.Forall₂ (Answers cfg) ((starts cfg.apiPath stream).take rs.length) rs ∧
      (∀ r ∈ rs.dropLast, r.1 = false) ∧
      (events.foldl (step cfg) { inbox := stream }).written <+: wire rs := by
  have hinit : InOrder cfg stream { inbox := stream } :=
    ⟨nofun, fun _ => ⟨[], ⟨[], rfl, .nil, nofun⟩, rfl⟩, nofun⟩
  have hrun := run_invariant (fun c c' hmove => InOrder.move outside hmove) hinit (Nat.zero_le _) events
  generalize events.foldl (step cfg) { inbox := stream } = c at hrun ⊢
  by_cases hwriting : c.state = .writing
  · obtain ⟨rs, s, later, r, ⟨done, hsplit, hanswers, hkeep⟩, hsending⟩ := hrun.sending hwriting
    refine ⟨rs ++ [(c.closeAfter, r)], ?_, ?_, ?_⟩
    · have hlen : (rs ++ [(c.closeAfter, r)]).length = (done ++ [s]).length := by
        simp [hanswers.length_eq]
      rw [hsplit, append_cons done s later, hlen, take_left]
      exact rel_append hanswers (.cons (hsending.answers r hsending.fits) .nil)
    · rwa [dropLast_concat]
    · rw [wire_append, hsending.written]
      exact (prefix_append_right_inj _).mpr (List.take_prefix _ _)
  · obtain ⟨rs, ⟨done, hsplit, hanswers, hkeep⟩, hwritten⟩ := hrun.between hwriting
    refine ⟨rs, ?_, fun r hr => hkeep r (dropLast_subset rs hr), hwritten ▸ prefix_rfl⟩
    rwa [hsplit, ← hanswers.length_eq, take_left]

def statsHead : Bytes := ascii "HTTP/1.1 200 OK\r\nContent-Length: 1\r\n"

/-- A site whose page is one byte of live memory. -/
def statsSite : Config := siteOf { head := statsHead, body := .live 1 }

/-- One event in which everything is read and sent, while the live memory holds `digit`. -/
def readAndSend (digit : UInt8) : Event := .epoll { input := true } [.data readBuf] [.sent readBuf fun _ => digit]

/-- The socket takes the second of two responses later than the first. -/
def sendTwice : List Event := [readAndSend 48, .epoll { output := true } [] [.sent readBuf fun _ => 49]]

theorem responses_in_order_stats :
    ∃ rs : List (Bool × Bytes),
      List.Forall₂ (Answers statsSite) ((starts statsSite.apiPath (getRoot ++ getRoot)).take rs.length) rs ∧
        (∀ r ∈ rs.dropLast, r.1 = false) ∧
        statsHead ++ connTail false ++ [48] ++ statsHead ++ connTail false ++ [49] <+: wire rs := by
  have houtside : OutsideApi statsSite (getRoot ++ getRoot) := fun s _ h => absurd h.2 Bool.false_ne_true
  have hwritten : (sendTwice.foldl (step statsSite) { inbox := getRoot ++ getRoot }).written =
      statsHead ++ connTail false ++ [48] ++ statsHead ++ connTail false ++ [49] := by decide +kernel
  exact hwritten ▸ responses_in_order statsSite _ houtside sendTwice

/-- The same request, answered with the same connection header, gets different bodies. -/
theorem stats_response_not_determined :
    ([readAndSend 48].foldl (step statsSite) { inbox := getRoot }).written = statsHead ++ connTail false ++ [48] ∧
      ([readAndSend 49].foldl (step statsSite) { inbox := getRoot }).written = statsHead ++ connTail false ++ [49] := by
  decide +kernel

end Conn

end Server
