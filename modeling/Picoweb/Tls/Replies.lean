import Picoweb.Tls.Stranded

/-!
# What the TLS worker answers

The application data sealed on a connection is one whole response after the other, in the order of the
requests, each perhaps behind early hints. There is one way out: a response that does not fit into TX is
given up, and the connection is closed without it.
-/

namespace Tls

open ByteFile ByteText Http Sockets List

/-! ### The property -/

/-- The result that a request is answered with: a blob with too long a body is refused. -/
def WorkerCfg.effective (cfg : WorkerCfg) (pr : HttpResult) (req : HttpRequest) : HttpResult :=
  if cfg.IsBlob pr req ∧ apiReqBodyCap < req.contentLength then .err413 else pr

/-- The fragments of the response to a request, with the given connection header; `plain` starts with the
request. -/
def WorkerCfg.responseSegs (cfg : WorkerCfg) (close : Bool) (plain : Bytes) (pr : HttpResult)
    (req : HttpRequest) : List Seg :=
  if cfg.IsBlob pr req then (cfg.buildBlobResponseIov plain req).segs
  else
    let sel := httpSelect cfg.jt pr req
    let variant := if pr = .ok ∧ sel.headOnly = false then sel.resource.variant req else none
    sel.resource.segs variant sel.headOnly close pr req

/-- A response with the early hints before it. -/
structure Reply where
  hint : Bytes
  close : Bool
  bytes : Bytes

def Reply.wire (r : Reply) : Bytes := r.hint ++ r.bytes

/-- The reply is a whole response to the request that `q` starts with. More plaintext than the buffer takes
is refused as a whole. -/
def Answers (cfg : WorkerCfg) (q : Bytes) (r : Reply) : Prop :=
  (∃ pr req, httpParse q = (pr, req) ∧ pr ≠ .needMore ∧ KConn.IsHint cfg (cfg.effective pr req) req r.hint ∧
      Fits (cfg.responseSegs r.close q (cfg.effective pr req) req) r.bytes) ∨
    plainBufBytes < q.length ∧ r.hint = [] ∧ r.close = true ∧ Fits (cfg.responseSegs true [] .err413 {}) r.bytes

/-- The bytes are one request and nothing more. -/
def IsRequest (q : Bytes) : Prop := (httpParse q).1 = .ok ∧ (httpParse q).2.consumed = q.length
deriving Decidable

/-- The replies `rs`, all of which keep the connection, answer the requests `qs`. -/
structure Kept (cfg : WorkerCfg) (qs : List Bytes) (rs : List Reply) : Prop where
  answers : List.Forall₂ (Answers cfg) qs rs
  requests : ∀ q ∈ qs, IsRequest q
  keep : ∀ r ∈ rs, r.close = false

variable {qs : List Bytes} {rs : List Reply}

lemma Kept.snoc {cfg : WorkerCfg} {q : Bytes} {r : Reply}
    (h : Kept cfg qs rs) (hanswers : Answers cfg q r) (hrequest : IsRequest q) (hkeep : r.close = false) :
    Kept cfg (qs ++ [q]) (rs ++ [r]) := by
  refine ⟨rel_append h.answers (.cons hanswers .nil), fun q' hq' => ?_, fun r' hr' => ?_⟩
  · rcases mem_append.mp hq' with hq' | hq'
    · exact h.requests q' hq'
    · rwa [mem_singleton.mp hq']
  · rcases mem_append.mp hr' with hr' | hr'
    · exact h.keep r' hr'
    · rwa [mem_singleton.mp hr']

def wire (rs : List Reply) : Bytes := (rs.map Reply.wire).flatten

lemma wire_append (rs : List Reply) (r : Reply) : wire (rs ++ [r]) = wire rs ++ r.wire := by
  simp [wire]

namespace KConn

variable {S : Suite} {cfg : WorkerCfg} {c c' : KConn S}

/-- The plaintext so far is answered requests and `rest`. -/
structure Open (cfg : WorkerCfg) (c : KConn S) (qs : List Bytes) (rs : List Reply) (rest : Bytes) : Prop where
  kept : Kept cfg qs rs
  delivered : c.delivered = qs.flatten ++ rest
  sealed : c.sealed = wire rs
  gaveUp : c.gaveUp = none

/-- The last reply, to the request that `q` starts with, is sealed or given up. -/
structure Done (cfg : WorkerCfg) (c : KConn S) (qs : List Bytes) (rs : List Reply) (q : Bytes) (r : Reply) :
    Prop where
  kept : Kept cfg qs rs
  last : Answers cfg q r
  delivered : c.delivered = qs.flatten ++ q
  outcome : c.gaveUp = none ∧ r.close = true ∧ c.sealed = wire rs ++ r.wire ∨
    ∃ eng part, c.gaveUp = some eng ∧ eng.Refuses r.bytes.length ∧ part <+: r.wire ∧ c.sealed = wire rs ++ part

lemma Open.frame {rest : Bytes} (h : c.Open cfg qs rs rest)
    (hdelivered : c'.delivered = c.delivered) (hsealed : c'.sealed = c.sealed) (hgaveUp : c'.gaveUp = c.gaveUp) :
    c'.Open cfg qs rs rest :=
  ⟨h.kept, hdelivered.trans h.delivered, hsealed.trans h.sealed, hgaveUp.trans h.gaveUp⟩

lemma Done.frame {q : Bytes} {r : Reply} (h : c.Done cfg qs rs q r)
    (hdelivered : c'.delivered = c.delivered) (hsealed : c'.sealed = c.sealed) (hgaveUp : c'.gaveUp = c.gaveUp) :
    c'.Done cfg qs rs q r :=
  ⟨h.kept, h.last, hdelivered.trans h.delivered, hsealed ▸ hgaveUp ▸ h.outcome⟩

/-! ### One request -/

variable {req : HttpRequest}

lemma bodyGate_eq_some {plain : Bytes} {pr pr' : HttpResult} (h : bodyGate cfg plain pr req = some pr') :
    pr' = cfg.effective pr req ∧ (cfg.IsBlob pr' req → req.consumed + req.contentLength ≤ plain.length) := by
  unfold bodyGate at h
  split_ifs at h with hblob hcap hshort
  · cases h
    exact ⟨(if_pos ⟨hblob, hcap⟩).symm, fun hblob' => nomatch hblob'.1⟩
  · cases h
    exact ⟨(if_neg fun h => hcap h.2).symm, fun _ => not_lt.mp hshort⟩
  · cases h
    exact ⟨(if_neg fun h => hblob h.1).symm, fun hblob' => absurd hblob' hblob⟩

lemma buildHttpResponseIov_segs (cfg : WorkerCfg) (c : KConn S) (pr : HttpResult) (req : HttpRequest) :
    (c.buildHttpResponseIov cfg pr req).1.segs =
      cfg.responseSegs (c.buildHttpResponseIov cfg pr req).1.closeAfter c.plain pr req := by
  unfold buildHttpResponseIov WorkerCfg.responseSegs
  split_ifs
  · rfl
  · rfl

/-- A response that keeps the connection answers a request that was read and goes to no blob. -/
lemma keep_of_build (cfg : WorkerCfg) (c : KConn S) {pr : HttpResult} (req : HttpRequest) (hpr : pr ≠ .needMore)
    (h : (c.buildHttpResponseIov cfg pr req).1.closeAfter = false) : pr = .ok ∧ ¬ cfg.IsBlob pr req := by
  unfold buildHttpResponseIov at h
  split_ifs at h with hblob
  · cases h
  · exact ⟨(keep_of_httpSelect hpr (Bool.or_eq_false_iff.mp h).1).1, hblob⟩

lemma compact_of_keep {plain : Bytes} (hblob : ¬ cfg.IsBlob .ok req)
    (parse : httpParse plain = (.ok, req)) : compact cfg plain .ok req = plain.drop req.consumed := by
  have hpath : ¬ cfg.blobPath (req.path.getD []) = true := fun h => hblob ⟨rfl, h⟩
  obtain ⟨hpos, hle⟩ := consumed_of_ok parse
  unfold compact
  split_ifs with hlong
  · rfl
  · exact (drop_eq_nil_of_le (not_lt.mp fun hlt => hlong ⟨rfl, hpos, hlt⟩)).symm

/-- The reply that keeps the connection answers the bytes it takes out of the buffer. -/
lemma answers_of_keep {plain bytes hint : Bytes} (parse : httpParse plain = (.ok, req))
    (heff : cfg.effective .ok req = .ok) (hblob : ¬ cfg.IsBlob .ok req) (hhint : IsHint cfg .ok req hint)
    (hfits : Fits (cfg.responseSegs false plain .ok req) bytes) :
    Answers cfg (plain.take req.consumed) ⟨hint, false, bytes⟩ ∧ IsRequest (plain.take req.consumed) := by
  obtain ⟨b, hparse⟩ := httpParse_take parse le_rfl
  have heff' : cfg.effective .ok { req with hasLeftover := b } = .ok := heff
  have hblob' : ¬ cfg.IsBlob .ok { req with hasLeftover := b } := hblob
  constructor
  · refine .inl ⟨.ok, _, hparse, nofun, ?_, ?_⟩
    · rw [heff']
      exact hhint
    · unfold WorkerCfg.responseSegs at hfits ⊢
      rw [if_neg hblob] at hfits
      rw [heff', if_neg hblob']
      exact hfits
  · rw [IsRequest, hparse]
    exact ⟨rfl, (length_take_of_le (consumed_of_ok parse).2).symm⟩

/-- An answer adds a reply, or is the last one. -/
lemma Open.answer (h : c.Open cfg qs rs c.plain)
    (happ : c.eng.state = .app) {pr pr' : HttpResult} (parse : httpParse c.plain = (pr, req)) (hmore : pr ≠ .needMore)
    (hgate : bodyGate cfg c.plain pr req = some pr') (stats : ℕ → UInt8) : ((c.answer cfg stats pr' req).1 = false ∧
      ∃ qs rs, (c.answer cfg stats pr' req).2.Open cfg qs rs (c.answer cfg stats pr' req).2.plain) ∨
    ((c.answer cfg stats pr' req).1 = true ∧ ∃ q r, (c.answer cfg stats pr' req).2.Done cfg qs rs q r) := by
  obtain ⟨heff, hbody⟩ := bodyGate_eq_some hgate
  have hmore' : pr' ≠ .needMore := by
    rw [heff, WorkerCfg.effective]
    split_ifs
    · nofun
    · exact hmore
  have hsegs := c.buildHttpResponseIov_segs cfg pr' req
  have hkeep := c.keep_of_build cfg req hmore'
  obtain ⟨eng, reqCount, hint, -, hhint, hcases⟩ := c.answer_cases cfg stats pr' req
  generalize (c.buildHttpResponseIov cfg pr' req).1 = resp at hsegs hkeep hcases
  obtain ⟨segs, close⟩ := resp
  have hfits : Fits (cfg.responseSegs close c.plain pr' req) (segs.map (Seg.bytes stats)).flatten := by
    rw [← hsegs]
    exact fits_bytes stats segs
  have hlast : Answers cfg c.plain ⟨hint, close, (segs.map (Seg.bytes stats)).flatten⟩ :=
    .inl ⟨pr, req, parse, hmore, heff ▸ hhint, heff ▸ hfits⟩
  rcases hcases with heq | ⟨part, hpart, hrefuses, heq⟩
  · rw [heq]
    cases close with
    | true =>
      refine .inr ⟨rfl, c.plain, _, h.kept, hlast, h.delivered, .inl ⟨h.gaveUp, rfl, ?_⟩⟩
      rw [h.sealed]
      rfl
    | false =>
      obtain ⟨rfl, hblob⟩ := hkeep rfl
      obtain rfl : pr = .ok := by
        unfold WorkerCfg.effective at heff
        split_ifs at heff
        exact heff.symm
      obtain ⟨hanswers, hrequest⟩ := answers_of_keep parse heff.symm hblob hhint hfits
      refine .inl ⟨rfl, _, _, h.kept.snoc hanswers hrequest rfl, ?_, ?_, h.gaveUp⟩
      · rw [h.delivered, compact_of_keep hblob parse, flatten_append, flatten_singleton, append_assoc, take_append_drop]
      · rw [wire_append, h.sealed]
        rfl
  · rw [heq]
    refine .inr ⟨rfl, c.plain, _, h.kept, hlast, h.delivered, .inr ⟨eng, part, rfl, hrefuses happ, hpart, ?_⟩⟩
    rw [h.sealed]

/-! ### One turn -/

/-- The fields that decide about the end of the connection are the same. -/
structure SameFlags (c c' : KConn S) : Prop where
  wantClose : c'.wantClose = c.wantClose
  peerClosed : c'.peerClosed = c.peerClosed
  armed : c'.armed = c.armed
  closed : c'.closed = c.closed

lemma SameFlags.refl : SameFlags c c := ⟨rfl, rfl, rfl, rfl⟩

lemma SameFlags.trans {c₁ c₂ : KConn S} (h₁ : SameFlags c c₁) (h₂ : SameFlags c₁ c₂) : SameFlags c c₂ :=
  ⟨h₂.wantClose.trans h₁.wantClose, h₂.peerClosed.trans h₁.peerClosed, h₂.armed.trans h₁.armed,
    h₂.closed.trans h₁.closed⟩

/-- The requests so far are answered; the flag tells whether with a last reply. -/
def Going (cfg : WorkerCfg) (r : Bool × KConn S) : Prop :=
  r.1 = false ∧ (∃ qs rs, r.2.Open cfg qs rs r.2.plain) ∨ r.1 = true ∧ ∃ qs rs q last, r.2.Done cfg qs rs q last

lemma Going.requestLoop (h : Going cfg (false, c)) (happ : c.eng.state = .app) (stats : ℕ → ℕ → UInt8) (fuel : ℕ) :
    Going cfg (requestLoop cfg stats fuel c) ∧ SameFlags c (requestLoop cfg stats fuel c).2 := by
  induction fuel generalizing c with
  | zero => exact ⟨h, .refl⟩
  | succ fuel ih =>
    unfold KConn.requestLoop
    rcases hparse : httpParse c.plain with ⟨pr, req⟩
    dsimp only
    split_ifs with hplain hmore
    · exact ⟨h, .refl⟩
    · exact ⟨h, .refl⟩
    split
    next => exact ⟨h, .refl⟩
    next pr' hgate =>
      obtain ⟨-, qs, rs, hopen⟩ := h.resolve_right fun h => nomatch h.1
      have hanswer := Open.answer hopen happ hparse hmore hgate (stats c.reqCount)
      have hsame : SameFlags c (c.answer cfg (stats c.reqCount) pr' req).2 ∧
          (c.answer cfg (stats c.reqCount) pr' req).2.eng.state = c.eng.state := by
        obtain ⟨eng, reqCount, hint, honly, -, heq | ⟨part, -, -, heq⟩⟩ :=
          c.answer_cases cfg (stats c.reqCount) pr' req
        · rw [heq]
          exact ⟨⟨rfl, rfl, rfl, rfl⟩, honly.state⟩
        · rw [heq]
          exact ⟨⟨rfl, rfl, rfl, rfl⟩, honly.state⟩
      obtain ⟨hflags, hstate⟩ := hsame
      generalize c.answer cfg (stats c.reqCount) pr' req = r at hanswer hflags hstate ⊢
      obtain ⟨close, c₁⟩ := r
      cases close with
      | true =>
        obtain ⟨-, q, last, hdone⟩ := hanswer.resolve_left fun h => nomatch h.1
        exact ⟨.inr ⟨rfl, qs, rs, q, last, hdone⟩, hflags⟩
      | false =>
        have hgoing := hanswer.resolve_right fun h => nomatch h.1
        obtain ⟨hgoing', hflags'⟩ := ih (.inl hgoing) (hstate.trans happ)
        exact ⟨hgoing', hflags.trans hflags'⟩

lemma Going.answerRequests {close : Bool} (h : Going cfg (close, c)) (hplain : close = true → c.plain = [])
    (stats : ℕ → ℕ → UInt8) :
    Going cfg (c.answerRequests cfg close stats) ∧ SameFlags c (c.answerRequests cfg close stats).2 := by
  unfold KConn.answerRequests
  split_ifs with happ
  · cases close with
    | true => exact absurd (hplain rfl) happ.2
    | false => exact h.requestLoop happ.1 stats _
  · exact ⟨h, .refl⟩

/-- The answer to more plaintext than the buffer takes. -/
lemma answers_of_overflow (cfg : WorkerCfg) (c : KConn S) (stats : ℕ → UInt8) {q : Bytes}
    (hlong : plainBufBytes < q.length) :
    (c.buildHttpResponseIov cfg .err413 {}).1.closeAfter = true ∧ Answers cfg q ⟨[], true,
        ((c.buildHttpResponseIov cfg .err413 {}).1.segs.map (Seg.bytes stats)).flatten⟩ := by
  have hclose : (c.buildHttpResponseIov cfg .err413 {}).1.closeAfter = true := by
    have hread : HttpResult.err413 ≠ .needMore := nofun
    by_contra hkeep
    obtain ⟨hok, -⟩ := c.keep_of_build cfg {} hread (Bool.not_eq_true _ ▸ hkeep)
    exact nomatch hok
  refine ⟨hclose, .inr ⟨hlong, rfl, rfl, ?_⟩⟩
  have hfits := fits_bytes stats (c.buildHttpResponseIov cfg .err413 {}).1.segs
  exact hfits

/-- New plaintext joins the buffer, or is refused by a last reply. -/
lemma Open.takePlain (h : c.Open cfg qs rs c.plain) (stats : ℕ → UInt8) :
    (∃ r, takePlain cfg c stats = .ok r ∧ Going cfg r ∧ SameFlags c r.2 ∧ (r.1 = true → r.2.plain = [])) ∨
      ∃ site c', takePlain cfg c stats = .error (site, c') ∧ SameFlags c c' ∧
        (site = .protocol ∧ (∃ rest, c'.Open cfg qs rs rest) ∨ site = .unsealed ∧ ∃ q r, c'.Done cfg qs rs q r) := by
  unfold KConn.takePlain
  dsimp only
  split_ifs with happ hroom hstate
  · exact .inl ⟨_, rfl, .inl ⟨rfl, qs, rs, h⟩, .refl, nofun⟩
  · refine .inr ⟨_, _, rfl, ⟨rfl, rfl, rfl, rfl⟩, .inl ⟨rfl, c.plain ++ c.eng.appIn, h.kept, ?_, h.sealed, h.gaveUp⟩⟩
    rw [h.delivered, append_assoc]
  · have hlong : plainBufBytes < (c.plain ++ c.eng.appIn).length := by rwa [length_append]
    obtain ⟨hclose, hanswers⟩ := c.answers_of_overflow cfg stats hlong
    obtain ⟨reqCount, hbuild⟩ := c.buildHttpResponseIov_eq cfg .err413 {}
    have hfrags := c.length_segs_le cfg .err413 {}
    rw [← length_map (Seg.bytes stats)] at hfrags
    obtain ⟨ok, eng, n, heq, -, hall, hstop⟩ := sealIov_spec { c with reqCount := reqCount } hfrags
    rw [hbuild, heq, hclose]
    have hdelivered : c.delivered ++ c.eng.appIn = qs.flatten ++ (c.plain ++ c.eng.appIn) := by
      rw [h.delivered, append_assoc]
    cases ok with
    | true =>
      refine .inl ⟨_, rfl, .inr ⟨rfl, qs, rs, _, _, h.kept, hanswers, hdelivered, .inl ⟨h.gaveUp, rfl, ?_⟩⟩,
        ⟨rfl, rfl, rfl, rfl⟩, fun _ => rfl⟩
      rw [hall rfl, take_length, h.sealed]
      rfl
    | false =>
      refine .inr ⟨_, _, rfl, ⟨rfl, rfl, rfl, rfl⟩, .inr ⟨rfl, _, _, h.kept, hanswers, hdelivered,
        .inr ⟨eng, _, rfl, (hstop rfl).2 (not_not.mp hstate), List.take_prefix n _, ?_⟩⟩⟩
      rw [h.sealed]
      rfl
  · refine .inl ⟨_, rfl, .inl ⟨rfl, qs, rs, h.kept, ?_, h.sealed, h.gaveUp⟩, ⟨rfl, rfl, rfl, rfl⟩, nofun⟩
    rw [h.delivered, append_assoc]

lemma Open.drive (h : c.Open cfg qs rs c.plain) (out : Outside S) :
    (∃ r, c.drive cfg out = .ok r ∧ Going cfg r ∧ SameFlags c r.2) ∨
      ∃ site c', c.drive cfg out = .error (site, c') ∧ SameFlags c c' ∧
        (site = .protocol ∧ (∃ rest, c'.Open cfg qs rs rest) ∨ site = .unsealed ∧ ∃ q r, c'.Done cfg qs rs q r) := by
  unfold KConn.drive
  rcases c.eng.step out.env with ⟨ok, eng⟩
  cases ok with
  | false => exact .inr ⟨_, _, rfl, ⟨rfl, rfl, rfl, rfl⟩, .inl ⟨rfl, c.plain, h.frame rfl rfl rfl⟩⟩
  | true =>
    have h' : Open cfg { c with eng := eng } qs rs c.plain := h.frame rfl rfl rfl
    have hflags : SameFlags c { c with eng := eng } := ⟨rfl, rfl, rfl, rfl⟩
    rcases h'.takePlain (out.stats c.reqCount) with
      ⟨⟨close, c₁⟩, heq, hgoing, hflags₁, hplain⟩ | ⟨site, c', heq, hflags₁, hend⟩
    · obtain ⟨hgoing₂, hflags₂⟩ := hgoing.answerRequests hplain out.stats
      dsimp only
      rw [heq]
      dsimp only at hflags₁ ⊢
      generalize c₁.answerRequests cfg close out.stats = r at hgoing₂ hflags₂
      obtain ⟨close₂, c₂⟩ := r
      cases close₂ with
      | true => exact .inl ⟨_, rfl, hgoing₂, (hflags.trans hflags₁).trans hflags₂⟩
      | false =>
        obtain ⟨eng', emitted, hticket, -⟩ := c₂.maybeEmitSessionTicket_eq out.nst
        obtain ⟨-, qs', rs', hopen⟩ := hgoing₂.resolve_right fun h => nomatch h.1
        refine .inl ⟨_, rfl, ?_, ?_⟩
        · rw [hticket]
          exact .inl ⟨rfl, qs', rs', hopen.frame rfl rfl rfl⟩
        · rw [hticket]
          exact ((hflags.trans hflags₁).trans hflags₂).trans ⟨rfl, rfl, rfl, rfl⟩
    · dsimp only
      rw [heq]
      exact .inr ⟨site, c', rfl, hflags.trans hflags₁, hend⟩

/-- The connection goes on: only the peer has asked for its end, and no request waits in the buffer. -/
structure Live (cfg : WorkerCfg) (c : KConn S) : Prop where
  order : ∃ qs rs, c.Open cfg qs rs c.plain
  peer : c.wantClose = true → c.peerClosed = true
  requests : c.eng.state = .app → c.wantClose = false → ¬ HasRequest cfg c.plain

/-- The connection is marked to close behind its last reply. -/
def Ending (cfg : WorkerCfg) (c : KConn S) : Prop := (∃ qs rs q r, c.Done cfg qs rs q r) ∧ c.wantClose = true

/-- The connection is closed: behind its last reply, or before one. -/
def Ended (cfg : WorkerCfg) (c : KConn S) : Prop :=
  (∃ qs rs q r, c.Done cfg qs rs q r) ∨ (∃ qs rs rest, c.Open cfg qs rs rest) ∧ c.closed ≠ some .unsealed ∧
      (c.closed = some .drained → c.peerClosed = true)

/-- What holds between two events: no input is read any more behind the last reply. -/
def Ordered (cfg : WorkerCfg) (c : KConn S) : Prop :=
  c.closed = none ∧ (Live cfg c ∨ Ending cfg c ∧ c.armed = false) ∨ c.closed.isSome ∧ Ended cfg c

lemma ended_of_close (h : Live cfg c ∨ Ending cfg c) {site : CloseSite} (hunsealed : site ≠ .unsealed)
    (hdrained : site ≠ .drained) : Ended cfg (c.close site) := by
  rcases h with ⟨⟨qs, rs, hopen⟩, -, -⟩ | ⟨⟨qs, rs, q, r, hdone⟩, -⟩
  · refine .inr ⟨⟨qs, rs, c.plain, hopen.frame rfl rfl rfl⟩, ?_, ?_⟩
    · exact fun h => hunsealed (Option.some.inj h)
    · exact fun h => absurd (Option.some.inj h) hdrained
  · exact .inl ⟨qs, rs, q, r, hdone.frame rfl rfl rfl⟩

/-- `tls_drive_engine` with what its caller makes of the result; `fin` is the end of the peer's stream. -/
lemma Open.drive_ordered (h : c.Open cfg qs rs c.plain) {fin : Bool}
    (hclosed : c.closed = none) (hpeer : c.wantClose = true ∨ fin = true → c.peerClosed = true) (out : Outside S) :
    (∃ close c', c.drive cfg out = .ok (close, c') ∧ c'.closed = none ∧
      (Live cfg { c' with wantClose := c'.wantClose || close || fin } ∨
        Ending cfg { c' with wantClose := c'.wantClose || close || fin })) ∨
    ∃ site c', c.drive cfg out = .error (site, c') ∧ Ended cfg (c'.close site) := by
  rcases h.drive out with ⟨⟨close, c₁⟩, heq, hgoing, hflags⟩ | ⟨site, c₁, heq, hflags, hend⟩
  · refine .inl ⟨close, c₁, heq, hflags.closed.trans hclosed, ?_⟩
    rcases hgoing with ⟨hkeep, qs', rs', hopen⟩ | ⟨hclose, qs', rs', q, r, hdone⟩
    · obtain rfl : close = false := hkeep
      refine .inl ⟨⟨qs', rs', hopen.frame rfl rfl rfl⟩, fun hwant => ?_, fun happ _ => ?_⟩
      · rw [hflags.peerClosed]
        apply hpeer
        rwa [hflags.wantClose, Bool.or_false, Bool.or_eq_true] at hwant
      · obtain ⟨-, -, hrequests⟩ := drive_settles heq
        exact hrequests happ rfl
    · obtain rfl : close = true := hclose
      refine .inr ⟨⟨qs', rs', q, r, hdone.frame rfl rfl rfl⟩, ?_⟩
      rw [Bool.or_true, Bool.true_or]
  · refine .inr ⟨site, c₁, heq, ?_⟩
    rcases hend with ⟨rfl, rest, hopen⟩ | ⟨-, q, r, hdone⟩
    · exact .inr ⟨⟨qs, rs, rest, hopen.frame rfl rfl rfl⟩, nofun, nofun⟩
    · exact .inl ⟨qs, rs, q, r, hdone.frame rfl rfl rfl⟩

/-- The connection after the reads of an event. -/
def Read (cfg : WorkerCfg) (c : KConn S) : Prop :=
  c.closed = none ∧ (Live cfg c ∨ Ending cfg c) ∨ c.closed.isSome ∧ Ended cfg c

lemma tryRecvAndDrive_read (h : Live cfg c) (hclosed : c.closed = none) (recvs : List ReadResult)
    (out : Outside S) : Read cfg (c.tryRecvAndDrive cfg recvs out) := by
  obtain ⟨rc, inbox, heq⟩ := recvLoop_spec recvs c
  obtain ⟨⟨qs, rs, hopen⟩, hpeer, -⟩ := h
  unfold tryRecvAndDrive
  rw [heq]
  generalize hc₁ : ({ c with eng := _, inbox := _, peerClosed := _ } : KConn S) = c₁
  have hopen₁ : c₁.Open cfg qs rs c₁.plain := by
    subst hc₁
    exact hopen.frame rfl rfl rfl
  have hpeer₁ : c₁.wantClose = true ∨ decide (rc = .fin) = true → c₁.peerClosed = true := by
    subst hc₁
    rintro (hwant | hfin)
    · exact Bool.or_eq_true_iff.mpr (.inl (hpeer hwant))
    · exact Bool.or_eq_true_iff.mpr (.inr hfin)
  have hclosed₁ : c₁.closed = none := by
    subst hc₁
    exact hclosed
  have hdriven := hopen₁.drive_ordered hclosed₁ hpeer₁ out
  cases rc with
  | failed => exact .inr ⟨rfl, .inr ⟨⟨qs, rs, _, hopen₁.frame rfl rfl rfl⟩, nofun, nofun⟩⟩
  | go | fin =>
    rcases hdriven with ⟨close, c', hdrive, hclosed', hgoes⟩ | ⟨site, c', hdrive, hend⟩
    · dsimp only
      rw [hdrive]
      exact .inl ⟨hclosed', hgoes⟩
    · dsimp only
      rw [hdrive]
      exact .inr ⟨rfl, hend⟩

lemma finishTurn_ordered (h : Live cfg c ∨ Ending cfg c) (hclosed : c.closed = none) (rdhup : Bool)
    (sends : List SendResult) : Ordered cfg (c.finishTurn rdhup sends) := by
  have hspec := finishTurn_spec c rdhup sends
  generalize c.finishTurn rdhup sends = c' at hspec
  rcases h with ⟨⟨qs, rs, hopen⟩, hpeer, hrequests⟩ | ⟨⟨qs, rs, q, r, hdone⟩, hwant⟩
  · cases hspec with
    | failed => exact .inr ⟨rfl, .inr ⟨⟨qs, rs, c.plain, hopen.frame rfl rfl rfl⟩, nofun, nofun⟩⟩
    | drained _ _ want =>
      exact .inr ⟨rfl, .inr ⟨⟨qs, rs, c.plain, hopen.frame rfl rfl rfl⟩, nofun, fun _ => hpeer want⟩⟩
    | hungUp => exact .inr ⟨rfl, .inr ⟨⟨qs, rs, c.plain, hopen.frame rfl rfl rfl⟩, nofun, fun _ => rfl⟩⟩
    | half => exact .inl ⟨hclosed, .inl ⟨⟨qs, rs, hopen.frame rfl rfl rfl⟩, fun _ => rfl, nofun⟩⟩
    | waiting => exact .inl ⟨hclosed, .inl ⟨⟨qs, rs, hopen.frame rfl rfl rfl⟩, hpeer, hrequests⟩⟩
  · have harmed : (!c.wantClose) = false := by rw [hwant]; rfl
    cases hspec with
    | failed | drained | hungUp => exact .inr ⟨rfl, .inl ⟨qs, rs, q, r, hdone.frame rfl rfl rfl⟩⟩
    | half => exact .inl ⟨hclosed, .inr ⟨⟨⟨qs, rs, q, r, hdone.frame rfl rfl rfl⟩, rfl⟩, harmed⟩⟩
    | waiting => exact .inl ⟨hclosed, .inr ⟨⟨⟨qs, rs, q, r, hdone.frame rfl rfl rfl⟩, hwant⟩, harmed⟩⟩

lemma Ordered.turn (h : Ordered cfg c) (e : Event S) : Ordered cfg (c.turn cfg e) := by
  rcases h with ⟨hclosed, hgoes⟩ | ⟨hclosed, hend⟩
  · have hnot : ¬ c.closed.isSome := by rw [hclosed]; rintro ⟨⟩
    have hgoes' : Live cfg c ∨ Ending cfg c := hgoes.imp_right And.left
    cases e with
    | sweep =>
      rw [KConn.turn, if_neg hnot]
      exact .inr ⟨rfl, ended_of_close hgoes' (by rintro ⟨⟩) (by rintro ⟨⟩)⟩
    | epoll ev recvs sends out =>
      have hread' (harmed : c.armed = true) : Read cfg (c.tryRecvAndDrive cfg recvs out) := by
        refine tryRecvAndDrive_read (hgoes.resolve_right fun h => ?_) hclosed recvs out
        rw [h.2] at harmed
        cases harmed
      simp only [KConn.turn]
      split_ifs with herr hin hread
      · exact .inr ⟨rfl, ended_of_close hgoes' (by rintro ⟨⟩) (by rintro ⟨⟩)⟩
      · exact (hread' hin.2).elim (fun h => absurd (h.1 ▸ hread) (by rintro ⟨⟩)) .inr
      · obtain ⟨hclosed', hgoes⟩ := (hread' hin.2).resolve_right fun h => hread h.1
        exact finishTurn_ordered hgoes hclosed' _ _
      · exact finishTurn_ordered hgoes' hclosed _ _
  · have hstays : c.turn cfg e = c := by
      cases e with
      | sweep => rw [KConn.turn, if_pos hclosed]
      | epoll => simp only [KConn.turn, if_pos hclosed]
    rw [hstays]
    exact .inr ⟨hclosed, hend⟩

/-- The application data sealed on the connection is whole replies to the requests that the plaintext starts
with, one for each, and at most a part of one more, which TX could not take. What is not answered waits in
the buffer and is no request yet. Without an error, and while client and peer are there, the connection is
closed only behind a reply that says so, or in the place of the one that TX could not take. -/
structure RepliesInOrder (cfg : WorkerCfg) (c : KConn S) (qs : List Bytes) (rs : List Reply) (rest : Bytes) :
    Prop where
  delivered : c.delivered = qs.flatten ++ rest
  answers : List.Forall₂ (Answers cfg) qs rs
  requests : ∀ q ∈ qs.dropLast, IsRequest q
  keep : ∀ r ∈ rs.dropLast, r.close = false
  sealed : c.gaveUp = none ∧ c.sealed = wire rs ∨
    ∃ eng r part, c.gaveUp = some eng ∧ Answers cfg rest r ∧ eng.Refuses r.bytes.length ∧ part <+: r.wire ∧
      c.sealed = wire rs ++ part
  waiting : c.closed = none → c.wantClose = false → rest = c.plain ∧ (c.eng.state = .app → ¬ HasRequest cfg c.plain)
  closes : c.closed = some .drained ∨ c.closed = some .unsealed →
    c.peerClosed = true ∨ c.gaveUp.isSome ∨ ∃ r ∈ rs.getLast?, r.close = true

lemma Open.repliesInOrder {rest : Bytes} (h : c.Open cfg qs rs rest) (hwaiting : c.closed = none → c.wantClose = false →
      rest = c.plain ∧ (c.eng.state = .app → ¬ HasRequest cfg c.plain))
    (hcloses : c.closed = some .drained ∨ c.closed = some .unsealed → c.peerClosed = true) :
    RepliesInOrder cfg c qs rs rest where
  delivered := h.delivered
  answers := h.kept.answers
  requests q hq := h.kept.requests q (mem_of_mem_dropLast hq)
  keep r hr := h.kept.keep r (mem_of_mem_dropLast hr)
  sealed := .inl ⟨h.gaveUp, h.sealed⟩
  waiting := hwaiting
  closes h := .inl (hcloses h)

lemma Done.repliesInOrder {q : Bytes} {r : Reply}
    (h : c.Done cfg qs rs q r) (hwaiting : c.closed = none → c.wantClose = true) :
    ∃ qs rs rest, RepliesInOrder cfg c qs rs rest := by
  have hwaiting' (rest : Bytes) (hclosed : c.closed = none) (hwant : c.wantClose = false) :
      rest = c.plain ∧ (c.eng.state = .app → ¬ HasRequest cfg c.plain) :=
    nomatch (hwaiting hclosed).symm.trans hwant
  rcases h.outcome with ⟨hgaveUp, hclose, hsealed⟩ | ⟨eng, part, hgaveUp, hrefuses, hpart, hsealed⟩
  · refine ⟨qs ++ [q], rs ++ [r], [], ?_, rel_append h.kept.answers (.cons h.last .nil), ?_, ?_, ?_, hwaiting' _, ?_⟩
    · rw [h.delivered, flatten_append, flatten_singleton, append_nil]
    · rw [dropLast_concat]
      exact h.kept.requests
    · rw [dropLast_concat]
      exact h.kept.keep
    · exact .inl ⟨hgaveUp, hsealed.trans (wire_append rs r).symm⟩
    · exact fun _ => .inr (.inr ⟨r, by simp, hclose⟩)
  · refine ⟨qs, rs, q, h.delivered, h.kept.answers, ?_, ?_, ?_, hwaiting' _, ?_⟩
    · exact fun q hq => h.kept.requests q (mem_of_mem_dropLast hq)
    · exact fun r hr => h.kept.keep r (mem_of_mem_dropLast hr)
    · exact .inr ⟨eng, r, part, hgaveUp, h.last, hrefuses, hpart, hsealed⟩
    · exact fun _ => .inr (.inl (by rw [hgaveUp]; rfl))

lemma Ordered.repliesInOrder (h : Ordered cfg c) : ∃ qs rs rest, RepliesInOrder cfg c qs rs rest := by
  rcases h with ⟨hclosed, hgoes⟩ | ⟨hclosed, hend⟩
  · rcases hgoes with ⟨⟨qs, rs, hopen⟩, -, hrequests⟩ | ⟨⟨⟨qs, rs, q, r, hdone⟩, hwant⟩, -⟩
    · refine ⟨qs, rs, c.plain,
        hopen.repliesInOrder (fun _ hwant => ⟨rfl, fun happ => hrequests happ hwant⟩) fun h => ?_⟩
      rw [hclosed] at h
      exact h.elim nofun nofun
    · exact hdone.repliesInOrder fun _ => hwant
  · have hnot : c.closed ≠ none := Option.isSome_iff_ne_none.mp hclosed
    rcases hend with ⟨qs, rs, q, r, hdone⟩ | ⟨⟨qs, rs, rest, hopen⟩, hunsealed, hdrained⟩
    · exact hdone.repliesInOrder fun h => absurd h hnot
    · exact ⟨qs, rs, rest, hopen.repliesInOrder (fun h => absurd h hnot) fun h =>
        h.elim hdrained fun h => absurd h hunsealed⟩

theorem replies_in_order (cfg : WorkerCfg) (ctx : S.Ctx) (configured : Bool) (stream : Bytes)
    (events : List (Event S)) : ∃ qs rs rest,
    RepliesInOrder cfg (events.foldl (turn cfg) { eng := .init ctx configured, inbox := stream }) qs rs rest := by
  have hinit : Ordered cfg { eng := Engine.init (S := S) ctx configured, inbox := stream } :=
    .inl ⟨rfl, .inl ⟨⟨[], [], ⟨.nil, nofun, nofun⟩, rfl, rfl, rfl⟩, nofun, fun _ _ h => h.1 rfl⟩⟩
  have hrun : Ordered cfg (events.foldl (turn cfg) { eng := .init ctx configured, inbox := stream }) :=
    List.foldlRecOn events (turn cfg) hinit fun c h e _ => h.turn e
  exact hrun.repliesInOrder

/-! ### A response that is too large -/

def largePage : Resource where
  head := ascii "HTTP/1.1 200 OK\r\nContent-Length: 98304\r\n"
  body := .live 98304

/-- The event that reads the request, and in which the socket takes what is in TX. -/
def lastEvent : Event clearSuite :=
  .epoll { input := true } [.data bufCap] [.sent bufCap] { env := (), nst := none, stats := fun _ _ => 0 }

/-- A client that asks for the large page, behind the handshake. -/
def largeRun : KConn clearSuite :=
  [readEvent clearHello.length, readEvent clearFinished.length, lastEvent].foldl (turn (siteOf largePage))
    { eng := .init () true, inbox := requests 1 }

/-- There is no error and the peer has not closed, but the request that came in is not answered and the
connection closed. -/
theorem large_page_not_sent : largeRun.closed = some .drained ∧ largeRun.peerClosed = false ∧
    largeRun.delivered = getRoot ∧ IsRequest getRoot ∧ largeRun.sealed = [] := by
  decide +kernel

end KConn

end Tls
