import Picoweb.Lib.Run
import Picoweb.Server.Steps

/-!
# What a connection waits for

A worker that goes back to `epoll_wait` should leave every connection waiting for the event that lets it
go on: output while a response is not all sent, input otherwise. `post_send` handles as many buffered
requests as its budget allows and then asks for input, whatever state the last response left behind.
-/

namespace Server

open ByteFile ByteText Http Sockets List

variable {broke : Prop} {cfg : Config} {c c' : Conn} {buf : Bytes}

/-- The buffer starts with at most `n` complete requests. -/
def atMost (cfg : Config) : ℕ → Bytes → Bool
  | 0, buf => !complete cfg buf
  | n + 1, buf => !complete cfg buf || atMost cfg n (restAfter cfg buf)

lemma complete_nil : complete cfg [] = false := rfl

lemma atMost_of_not_complete (h : complete cfg buf = false) (n : ℕ) : atMost cfg n buf = true := by
  cases n <;> simp [atMost, h]

lemma atMost_restAfter {n : ℕ} (h : atMost cfg (n + 1) buf = true) (hcomplete : complete cfg buf = true) :
    atMost cfg n (restAfter cfg buf) = true := by
  simpa [atMost, hcomplete] using h

lemma atMost_mono {n m : ℕ} (hle : n ≤ m) (h : atMost cfg n buf = true) : atMost cfg m buf = true := by
  induction n generalizing m buf with
  | zero => exact atMost_of_not_complete (by simpa [atMost] using h) m
  | succ n ih =>
    rcases hcomplete : complete cfg buf with _ | _
    · exact atMost_of_not_complete hcomplete m
    obtain ⟨k, rfl⟩ := Nat.exists_eq_succ_of_ne_zero (Nat.ne_of_gt (Nat.lt_of_lt_of_le n.succ_pos hle))
    rw [atMost, hcomplete]
    exact ih (Nat.succ_le_succ_iff.mp hle) (atMost_restAfter h hcomplete)

namespace Conn

/-- The connection waits for the event that lets it go on. -/
def WaitsRight (cfg : Config) (c : Conn) : Prop :=
  (c.state = .writing → c.bytesSent < c.wireTotal ∧ c.mask = .output) ∧
    (c.state ≠ .writing → c.mask = .input ∧ complete cfg c.buf = false)

lemma readLoop_buf (reads : List ReadResult) (c : Conn) :
    (readLoop reads c).2.buf = c.buf ++ received reads (readBuf - c.buf.length) c.inbox := by
  induction reads generalizing c with
  | nil =>
    unfold readLoop
    split_ifs <;> simp [received]
  | cons read reads ih =>
    unfold readLoop
    split_ifs with hfull
    · rw [Nat.sub_eq_zero_of_le hfull, received_zero, append_nil]
    cases read with
    | again | error => simp [received, close]
    | eintr => exact ih c
    | eof =>
      dsimp only
      split_ifs <;> simp [received, close]
    | data n =>
      dsimp only [received]
      split_ifs
      · simp
      · rw [ih, append_assoc, length_append, Nat.sub_add_eq]

/-- The connection is swept as idle, or a system call on it fails. -/
def Breaks : Event → Prop
  | .idle => True
  | .epoll ev reads sends => ev.err = true ∨ ReadResult.error ∈ reads ∨ ∃ send ∈ sends, send.Fails

/-- An event that reads finds at most eight complete requests in the buffer. -/
def FewRequests (cfg : Config) (c : Conn) : Event → Prop
  | .epoll ev reads _ => c.state ≠ .writing → ev.input = true →
      atMost cfg postSendBudget (c.buf ++ received reads (readBuf - c.buf.length) c.inbox) = true
  | .idle => True

/-! ### The invariant -/

/-- The connection keeps the API request at the front of its buffer until the body is there. -/
def Pending (cfg : Config) (c : Conn) : Prop :=
  ∃ req, httpParse c.buf = (.ok, req) ∧ cfg.apiPath (req.path.getD []) = true ∧
    apiRoute cfg req 0 = .wait ∧ c.api = some (stashOf req)

structure Sound (cfg : Config) (c : Conn) : Prop where
  live : c.closed = false
  fits : c.buf.length ≤ readBuf
  waits : c.WaitsRight cfg
  few : c.state = .writing → atMost cfg 7 c.buf = true
  pending : c.state = .readingBody → c.Pending cfg

/-- The connection is closed, after a failure, after its last response or in front of a request that is not
complete. -/
def Ended (broke : Prop) (cfg : Config) (c : Conn) : Prop :=
  c.closed = true ∧ (broke ∨ c.closeAfter = true ∨ c.state ≠ .writing ∧ complete cfg c.buf = false)

/-- What every event leaves behind. -/
def Settled (broke : Prop) (cfg : Config) (c : Conn) : Prop := c.Ended broke cfg ∨ c.Sound cfg

/-- Only the amount of the body that is there decides whether a pending request runs. -/
lemma apiRoute_of_wait {req : HttpRequest} {n : ℕ} (h : apiRoute cfg req n = .wait) :
    n < req.contentLength ∧ req.consumed + req.contentLength ≤ readBuf ∧
      ∀ m, apiRoute cfg req m = if m < req.contentLength then .wait else .run := by
  unfold apiRoute at h ⊢
  split_ifs at h with h1 h2 h3 h4 h5
  refine ⟨h5, not_lt.mp h4, fun m => ?_⟩
  rw [if_neg h1, if_neg h2, if_neg h3, if_neg h4]

lemma stashOf_lengths {req : HttpRequest} (hfits : req.consumed + req.contentLength ≤ readBuf) :
    (stashOf req).headersLen = req.consumed ∧ (stashOf req).bodyNeeded = req.contentLength := by
  simp only [readBuf] at hfits
  exact ⟨Nat.mod_eq_of_lt (by omega), Nat.mod_eq_of_lt (by omega)⟩

lemma complete_of_pending {req : HttpRequest} (parse : httpParse buf = (.ok, req))
    (api : cfg.apiPath (req.path.getD []) = true) (wait : apiRoute cfg req 0 = .wait)
    (hshort : buf.length < req.consumed + req.contentLength) : complete cfg buf = false := by
  obtain ⟨hpos, hle⟩ := consumed_of_ok parse
  have hroute := (apiRoute_of_wait wait).2.2 (buf.length - req.consumed)
  rw [if_pos (by omega)] at hroute
  unfold complete
  rw [parse]
  simp [api, hroute]

lemma Pending.append {more : Bytes} (h : c.Pending cfg) (hfits : (c.buf ++ more).length ≤ readBuf)
    (hbuf : c'.buf = c.buf ++ more) (hapi : c'.api = c.api) : c'.Pending cfg := by
  obtain ⟨req, parse, api, wait, stash⟩ := h
  obtain ⟨b, hparse⟩ := httpParse_append parse nofun hfits
  exact ⟨{ req with hasLeftover := b }, hbuf ▸ hparse, api, wait, hapi.trans stash⟩

lemma Pending.of_wait {req : HttpRequest} (parse : httpParse c.buf = (.ok, req))
    (api : cfg.apiPath (req.path.getD []) = true) {n : ℕ} (route : apiRoute cfg req n = .wait)
    (stash : c.api = some (stashOf req)) : c.Pending cfg := by
  obtain ⟨hshort, -, hroute⟩ := apiRoute_of_wait route
  refine ⟨req, parse, api, ?_, stash⟩
  rw [hroute, if_pos (Nat.zero_lt_of_lt hshort)]

/-- A dispatch without an answer leaves the connection waiting for the rest of the request. -/
lemma dispatchOne_waiting (reading : c.state = .reading) (h : c.dispatchOne cfg = (false, c')) :
    c'.closed = c.closed ∧ c'.buf = c.buf ∧ c'.mask = c.mask ∧ c'.state ≠ .writing ∧
      complete cfg c.buf = false ∧ (c'.state = .readingBody → c'.Pending cfg) := by
  have hcomplete : complete cfg c.buf = false := by rw [← dispatchOne_fst, h]
  have hspec := dispatchOne_spec cfg c
  rw [h] at hspec
  cases hspec with
  | more parse => exact ⟨rfl, rfl, rfl, by rw [reading]; nofun, hcomplete, by rw [reading]; nofun⟩
  | wait parse api route => exact ⟨rfl, rfl, rfl, nofun, hcomplete, fun _ => .of_wait parse api route rfl⟩

lemma await_sound (live : c.closed = false) (fits : c.buf.length ≤ readBuf) (state : c.state ≠ .writing)
    (hcomplete : complete cfg c.buf = false) (pending : c.state = .readingBody → c.Pending cfg) :
    c.await.Settled broke cfg := by
  unfold await
  split_ifs
  · exact .inl ⟨rfl, .inr (.inr ⟨state, hcomplete⟩)⟩
  · exact .inr ⟨live, fits, ⟨fun h => absurd h state, fun _ => ⟨rfl, hcomplete⟩⟩, fun h => absurd h state, pending⟩

/-- A response that is ready is sent as far as it goes; `next` goes on once all of it is out. -/
lemma sendThen_sound {next : List SendResult → Conn → Conn} (writing : c.state = .writing) (live : c.closed = false)
    (fits : c.buf.length ≤ readBuf) (few : atMost cfg 7 c.buf = true)
    {sends : List SendResult} (hbroke : (∃ send ∈ sends, send.Fails) → broke)
    (hnext : ∀ later ⊆ sends, ∀ c', c'.closed = c.closed → c'.buf = c.buf → (next later c').Settled broke cfg) {r : Conn}
    (hr : r = match trySend sends c with
      | (.failed, c, _) => c.close
      | (.blocked, c, _) => { c with mask := .output }
      | (.done, c, sends) => next sends c) : r.Settled broke cfg := by
  have hsent := trySend_spec sends c
  generalize trySend sends c = t at hsent hr
  obtain ⟨rc, c', sends'⟩ := t
  obtain ⟨⟨w, n, rfl⟩, -, blocked, failed, later⟩ := hsent
  cases rc with
  | failed => exact hr ▸ .inl ⟨rfl, .inl (hbroke (failed rfl))⟩
  | blocked =>
    refine hr ▸ .inr ⟨live, fits, ⟨fun _ => ⟨blocked rfl, rfl⟩, fun h => absurd writing h⟩, fun _ => few, ?_⟩
    exact fun h => absurd (writing.symm.trans h) nofun
  | done => exact hr ▸ hnext sends' later _ rfl rfl

/-- With fewer requests in the buffer than the budget allows, the loop ends in front of a request that is
not complete. -/
lemma postSend_sound {budget n : ℕ} (hbudget : budget ≤ postSendBudget) (hn : n < budget)
    {sends : List SendResult} (hbroke : (∃ send ∈ sends, send.Fails) → broke) (live : c.closed = false)
    (fits : c.buf.length ≤ readBuf)
    (few : atMost cfg n c.buf = true) : (postSend cfg budget sends c).Settled broke cfg := by
  induction budget generalizing n c sends with
  | zero => exact absurd hn (Nat.not_lt_zero n)
  | succ budget ih =>
    unfold postSend
    split_ifs with hclose hbuf
    · exact .inl ⟨rfl, .inr (.inl hclose)⟩
    · have hnil : complete cfg c.reset.buf = false := (congrArg (complete cfg) hbuf).trans complete_nil
      exact await_sound live fits (by rintro ⟨⟩) hnil (by rintro ⟨⟩)
    split
    next c' h =>
      obtain ⟨hlive, hbuf', -, state, hcomplete, pending⟩ := dispatchOne_waiting rfl h
      exact await_sound (hlive.trans live) (hbuf' ▸ fits) state (hbuf' ▸ hcomplete) pending
    next c' h =>
      obtain ⟨hcomplete, hprimed⟩ := primed_of_dispatchOne h
      change complete cfg c.buf = true at hcomplete
      obtain ⟨k, rfl⟩ : ∃ k, n = k + 1 := by
        refine Nat.exists_eq_succ_of_ne_zero ?_
        rintro rfl
        simp [atMost, hcomplete] at few
      have hrest : atMost cfg k c'.buf = true := by
        rw [hprimed.buf]
        exact atMost_restAfter few hcomplete
      have hlen : c'.buf.length ≤ readBuf := by
        rw [hprimed.buf]
        exact (restAfter_length_le _).trans fits
      simp only [postSendBudget] at hbudget
      have hlive : c'.closed = false := hprimed.live.trans live
      refine sendThen_sound hprimed.state hlive hlen (atMost_mono (by omega) hrest) hbroke ?_ rfl
      intro later hlater c'' hlive'' hbuf''
      refine ih (by simp only [postSendBudget]; omega) (by omega) ?_ (hlive''.trans hlive) (hbuf'' ▸ hlen) (hbuf'' ▸ hrest)
      exact fun ⟨s, hs, hf⟩ => hbroke ⟨s, hlater hs, hf⟩

lemma flush_sound (writing : c.state = .writing) (live : c.closed = false) (fits : c.buf.length ≤ readBuf)
    (few : atMost cfg 7 c.buf = true) {sends : List SendResult} (hbroke : (∃ send ∈ sends, send.Fails) → broke) :
    (c.flush cfg sends).Settled broke cfg := by
  refine sendThen_sound writing live fits few hbroke ?_ rfl
  intro later hlater c' hlive hbuf
  refine postSend_sound le_rfl (by decide) ?_ (hlive.trans live) (hbuf ▸ fits) (hbuf ▸ few)
  exact fun ⟨s, hs, hf⟩ => hbroke ⟨s, hlater hs, hf⟩

lemma serve_sound (live : c.closed = false) (reading : c.state ≠ .writing) (mask : c.mask = .input)
    (fits : c.buf.length ≤ readBuf)
    (few : atMost cfg postSendBudget c.buf = true) (pending : c.state = .readingBody → c.Pending cfg)
    {sends : List SendResult} (hbroke : (∃ send ∈ sends, send.Fails) → broke) :
    (c.serve cfg sends).Settled broke cfg := by
  have hstay (hcomplete : complete cfg c.buf = false) : c.Settled broke cfg :=
    .inr ⟨live, fits, ⟨fun h => absurd h reading, fun _ => ⟨mask, hcomplete⟩⟩, fun h => absurd h reading, pending⟩
  unfold serve
  rcases eq_or_ne c.buf [] with hbuf | hbuf
  · rw [if_pos hbuf]
    exact hstay (hbuf ▸ complete_nil)
  rw [if_neg hbuf]
  split
  next stash hbody hapi =>
    obtain ⟨req, parse, api, wait, hstash⟩ := pending hbody
    obtain rfl : stash = stashOf req := Option.some.inj (hapi.symm.trans hstash)
    obtain ⟨hheaders, hneeded⟩ := stashOf_lengths (apiRoute_of_wait wait).2.1
    rw [hheaders, hneeded]
    split_ifs with hlen
    · exact .inl ⟨rfl, .inr (.inr ⟨reading, complete_of_pending parse api wait hlen⟩)⟩
    · exact hstay (complete_of_pending parse api wait hlen)
    · exact flush_sound rfl (by exact live) (Nat.zero_le _) (atMost_of_not_complete complete_nil 7) hbroke
  next hnot =>
    have hstate : c.state = .reading := by
      rcases hs : c.state with _ | _ | _
      · rfl
      · obtain ⟨req, -, -, -, hstash⟩ := pending hs
        exact absurd hstash (hnot _ hs)
      · exact absurd hs reading
    split
    next c' h =>
      obtain ⟨hlive, hbuf', hmask, state, hcomplete, pending'⟩ := dispatchOne_waiting hstate h
      refine .inr ⟨hlive.trans live, hbuf' ▸ fits, ⟨fun h => absurd h state, fun _ => ⟨hmask.trans mask, ?_⟩⟩, ?_, pending'⟩
      · rw [hbuf', hcomplete]
      · exact fun h => absurd h state
    next c' h =>
      obtain ⟨hcomplete, hprimed⟩ := primed_of_dispatchOne h
      refine flush_sound hprimed.state (hprimed.live.trans live) ?_ ?_ hbroke
      · rw [hprimed.buf]
        exact (restAfter_length_le _).trans fits
      · rw [hprimed.buf]
        exact atMost_restAfter few hcomplete

lemma handleReadable_sound (h : c.Sound cfg) (reading : c.state ≠ .writing) {reads : List ReadResult}
    (few : atMost cfg postSendBudget (c.buf ++ received reads (readBuf - c.buf.length) c.inbox) = true)
    {sends : List SendResult} (hbroke : ReadResult.error ∈ reads ∨ (∃ send ∈ sends, send.Fails) → broke) :
    (c.handleReadable cfg reads sends).Settled broke cfg := by
  obtain ⟨got, rest, half, -, hfits, why, heq⟩ := readLoop_spec reads h.fits
  have hbuf := readLoop_buf reads c
  unfold handleReadable
  generalize readLoop reads c = r at why heq hbuf
  obtain ⟨b, c'⟩ := r
  dsimp only at why heq hbuf
  rw [← hbuf] at few
  subst heq
  cases b with
  | false =>
    refine .inl ⟨Bool.or_true _, (why rfl).imp (fun herr => hbroke (.inl herr)) fun hnil => .inr ⟨reading, ?_⟩⟩
    exact (congrArg (complete cfg) hnil).trans complete_nil
  | true =>
    apply serve_sound
    · exact (Bool.or_false _).trans h.live
    · exact reading
    · exact (h.waits.2 reading).1
    · exact hfits
    · exact few
    · exact fun hbody => (h.pending hbody).append hfits rfl rfl
    · exact fun hfails => hbroke (.inr hfails)

lemma step_sound (h : c.Settled broke cfg) (e : Event) (few : c.FewRequests cfg e) (hbroke : Breaks e → broke) :
    (c.step cfg e).Settled broke cfg := by
  cases e with
  | idle => exact .inl ⟨rfl, .inl (hbroke trivial)⟩
  | epoll ev reads sends =>
    simp only [step]
    split_ifs with hclosed herr hwriting hout hin hhup
    · exact h
    · exact .inl ⟨rfl, .inl (hbroke (.inl herr))⟩
    all_goals have hsound := h.resolve_left fun hended => hclosed hended.1
    all_goals have hhalf : Sound cfg { c with peerHalfClosed := c.peerHalfClosed || ev.rdhup } :=
      { hsound with }
    · exact flush_sound (by exact hwriting) hhalf.live hhalf.fits (hhalf.few hwriting) fun hf => hbroke (.inr (.inr hf))
    · exact .inr hhalf
    · exact handleReadable_sound hhalf hwriting (few hwriting hin) fun hf => hbroke (.inr hf)
    · exact .inl ⟨rfl, .inr (.inr ⟨hwriting, (hsound.waits.2 hwriting).2⟩)⟩
    · exact .inr hhalf

lemma run_sound {stream : Bytes} {events : List Event}
    (few : Run.Guarded (step cfg) (FewRequests cfg) { inbox := stream } events) :
    (events.foldl (step cfg) { inbox := stream }).Settled (∃ e ∈ events, Breaks e) cfg := by
  have hinit : Sound cfg { inbox := stream } :=
    ⟨rfl, Nat.zero_le _, ⟨nofun, fun _ => ⟨rfl, complete_nil⟩⟩, nofun, nofun⟩
  have hguard := few.and_mem (p := fun e => Breaks e → ∃ e ∈ events, Breaks e) fun e he hb => ⟨e, he, hb⟩
  exact hguard.invariant (P := Settled _ cfg) (fun c e h hok => step_sound h e hok.1 hok.2) (.inr hinit)

/-- At every moment a worker goes back to `epoll_wait`, a connection of which no event found more than
eight complete requests in the buffer is closed or waits for the event that lets it go on. -/
theorem waits_right (cfg : Config) (stream : Bytes) (events : List Event)
    (few : Run.Guarded (step cfg) (FewRequests cfg) { inbox := stream } events) :
    (events.foldl (step cfg) { inbox := stream }).closed = true ∨
      (events.foldl (step cfg) { inbox := stream }).WaitsRight cfg :=
  (run_sound few).imp And.left Sound.waits

def emptySite : Config := siteOf { head := ascii "HTTP/1.1 200 OK\r\nContent-Length: 0\r\n" }

/-- One event in which everything is read, and every send takes all it is given. -/
def allAtOnce : Event :=
  .epoll { input := true } [.data readBuf] (replicate 9 (.sent readBuf fun _ => 0))

/-- Two requests in one read, of whose responses the socket takes all but a part of the second. -/
def nearlyAll : Event :=
  .epoll { input := true } [.data readBuf] [.sent readBuf fun _ => 0, .sent 10 fun _ => 0]

theorem waits_right_two_requests :
    ([nearlyAll].foldl (step emptySite) { inbox := getRoot ++ getRoot }).state = .writing ∧
      ([nearlyAll].foldl (step emptySite) { inbox := getRoot ++ getRoot }).WaitsRight emptySite := by
  have hfew : Run.Guarded (step emptySite) (FewRequests emptySite) { inbox := getRoot ++ getRoot } [nearlyAll] :=
    ⟨fun _ _ => by decide +kernel, trivial⟩
  refine ⟨by decide +kernel, (waits_right emptySite _ _ hfew).resolve_left ?_⟩
  decide +kernel

/-- The connection after nine requests in one read. -/
def nineAtOnce : Conn := [allAtOnce].foldl (step emptySite) { inbox := (replicate 9 getRoot).flatten }

/-- The ninth response is sent, and the connection is left writing with nothing to send, waiting for input
that its state ignores. -/
theorem stuck_after_nine_requests : nineAtOnce.closed = false ∧ ¬ nineAtOnce.WaitsRight emptySite := by
  have hstate : nineAtOnce.closed = false ∧ nineAtOnce.state = .writing ∧ nineAtOnce.mask = .input := by
    decide +kernel
  obtain ⟨hopen, hwriting, hmask⟩ := hstate
  refine ⟨hopen, fun h => ?_⟩
  exact absurd (hmask.symm.trans (h.1 hwriting).2) nofun

end Conn

end Server
