import Picoweb.Lib.ByteText

/-!
# The HTTP/1.1 request parser

`http_parse` of `http.c` with the helpers it calls from `util.c`, `compress.c` and `brotli.c`. A buffer
is a byte list, a pointer and length into it is the slice itself, and a null pointer is `none`. The
only write to the buffer, lowering the case of the host, touches no byte that is read again, so it
shows in the returned host alone.
-/

namespace Http

open ByteFile ByteText

/-- `http_result_t`. -/
inductive HttpResult
  | needMore
  | ok
  | err400
  | err405
  | err409
  | err413
  | err414
  | err505
  deriving DecidableEq, Repr

/-- `http_method_t`. -/
inductive HttpMethod
  | get
  | head
  | post
  | put
  | delete
  | options
  | unknown
  deriving DecidableEq, Repr

/-- `http_request_t`. -/
structure HttpRequest where
  method : HttpMethod := .get
  host : Option Bytes := none
  path : Option Bytes := none
  clientClose : Bool := false
  acceptPc : Bool := false
  acceptBr : Bool := false
  hasLeftover : Bool := false
  consumed : ℕ := 0
  ifNoneMatch : Option Bytes := none
  cookie : Option Bytes := none
  pwAuthHeader : Bool := false
  writeToken : Option Bytes := none
  origin : Option Bytes := none
  acrHeaders : Option Bytes := none
  pwPrincipal : Option Bytes := none
  pwTenant : Option Bytes := none
  pwPartitionHop : Bool := false
  contentLength : ℕ := 0
  deriving DecidableEq, Repr

abbrev maxUriLen : ℕ := 2048

abbrev sizeMax : ℕ := 2 ^ 64 - 1

/-! ### Helpers -/

def classifyMethod (m : Bytes) : HttpMethod :=
  if m = ascii "GET" then .get
  else if m = ascii "HEAD" then .head
  else if m = ascii "POST" then .post
  else if m = ascii "PUT" then .put
  else if m = ascii "DELETE" then .delete
  else if m = ascii "OPTIONS" then .options
  else .unknown

def isControl (b : UInt8) : Bool := b < 32 || b = 127

/-- The loop of `path_is_safe` over the places where two dots stand between slashes or ends. -/
def hasDotDotSegment (p : Bytes) : Bool :=
  (List.range (p.length - 1)).any fun i =>
    p[i]? = some 46 && p[i + 1]? = some 46 &&
      (i = 0 || p[i - 1]? = some 47) && (i + 2 = p.length || p[i + 2]? = some 47)

def pathIsSafe (p : Bytes) : Bool :=
  if p.length = 0 || p[0]? ≠ some 47 then false
  else if p.length > maxUriLen then false
  else if p.any isControl then false
  else if hasDotDotSegment p then false
  else true

def trimOws (s : Bytes) : Bytes := trimBlanks s

/-- `metal_ieq`. The lengths with a word-wise fast path set bit 5 of every byte on both sides; the
others lower the case of letters only. -/
def metalIeq (a b : Bytes) : Bool :=
  if a.length ≠ b.length then false
  else if a.length ∈ [4, 10, 13, 14, 15, 17] then
    a.map (· ||| 0x20) = b.map (· ||| 0x20)
  else a.map lower = b.map lower

def metalLowerInplace (s : Bytes) : Bytes := s.map lower

/-- Whether `pat` stands anywhere in the string. -/
def occurs (pat s : Bytes) : Bool := (memmem pat s).isSome

def metalCompressAccepted (v : Bytes) : Bool :=
  if v.length = 0 then false
  else occurs (ascii "picoweb-compress") v || occurs (ascii "BareMetal.Compress") v

/-- Whether the text after a `br` token gives it the weight zero. -/
def brotliRefused (rest : Bytes) : Bool :=
  match rest.dropWhile isBlank with
  | 59 :: r =>
    match r.dropWhile isBlank with
    | 113 :: 61 :: 48 :: 46 :: digits => (digits.takeWhile isDigit).all (· = 48)
    | 113 :: 61 :: 48 :: _ => true
    | _ => false
  | _ => false

/-- The loop of `brotli_accepted`; `prev` is the byte before the place it looks at. -/
def brotliAcceptedFrom : Option UInt8 → Bytes → Bool
  | _, [] => false
  | _, [_] => false
  | prev, b :: b' :: rest =>
    let left := prev = none || prev = some 44 || prev = some sp || prev = some tab
    let right := rest = [] || rest.head? = some 44 || rest.head? = some sp ||
      rest.head? = some tab || rest.head? = some 59
    if b = 98 && b' = 114 && left && right && !brotliRefused rest then true
    else brotliAcceptedFrom (some b) (b' :: rest)

def brotliAccepted (ae : Bytes) : Bool := brotliAcceptedFrom none ae

/-- The loop over the `Connection` tokens, of which there are at most `fuel`. -/
def closeRequested : ℕ → Bytes → Bool
  | 0, _ => false
  | fuel + 1, tval =>
    if tval = [] then false
    else
      let rest := tval.dropWhile fun b => isBlank b || b = 44
      let token := (rest.takeWhile (· ≠ 44)).rdropWhile isBlank
      if token.length = 5 && metalIeq token (ascii "close") then true
      else closeRequested fuel (rest.dropWhile (· ≠ 44))

/-- The digit loop of the `Content-Length` value, from the number read so far. -/
def parseLength : ℕ → Bytes → Except HttpResult ℕ
  | cl, [] => .ok cl
  | cl, c :: rest =>
    if c < 48 || c > 57 then .error .err400
    else
      let nd := c.toNat - 48
      if cl > (sizeMax - nd) / 10 then .error .err413 else parseLength (cl * 10 + nd) rest

def setPrincipalHeader (out : HttpRequest) (val : Bytes) : HttpRequest :=
  if out.pwPrincipal = none && val.length > 0 then { out with pwPrincipal := some val } else out

/-! ### The request line -/

def requestLine (line : Bytes) (out : HttpRequest) : HttpResult × HttpRequest :=
  if line.length = 0 || line.length > maxUriLen + 32 then (.err414, out)
  else
    match cut sp line with
    | none => (.err400, out)
    | some (m, rest) =>
      match cut sp rest with
      | none => (.err400, out)
      | some (target, version) =>
        if version ≠ ascii "HTTP/1.1" then (.err505, out)
        else
          let out := { out with method := classifyMethod m }
          if out.method = .unknown then (.err405, out)
          else if !pathIsSafe target then
            (if target.length > maxUriLen then .err414 else .err400, out)
          else
            -- the query string is cut off after the whole target was checked
            match cut 63 target with
            | some (p, _) => (.ok, { out with path := some p })
            | none => (.ok, { out with path := some target })

/-! ### The header lines -/

/-- What the header loop carries: the request so far, `host_seen` and `body_present`. -/
structure Scan where
  out : HttpRequest
  hostSeen : ℕ := 0
  bodyPresent : Bool := false
  deriving DecidableEq, Repr

def hostField (st : Scan) (tval : Bytes) : Except HttpResult Scan :=
  if st.hostSeen ≠ 0 then .error .err400
  else
    let host := tval.takeWhile (· ≠ 58)
    if host.length = 0 || host.length > 253 then .error .err400
    else
      let host := metalLowerInplace host
      if host.all fun c => (97 ≤ c && c ≤ 122) || isDigit c || c = 46 || c = 45 then
        .ok { st with hostSeen := st.hostSeen + 1, out := { st.out with host := some host } }
      else .error .err400

def contentLengthField (st : Scan) (tval : Bytes) : Except HttpResult Scan :=
  if tval.length = 0 then .error .err400
  else
    match parseLength 0 tval with
    | .error e => .error e
    | .ok cl =>
      if st.bodyPresent && st.out.contentLength ≠ cl then .error .err400
      else
        .ok { st with
          out := { st.out with contentLength := cl }
          bodyPresent := st.bodyPresent || cl > 0 }

/-- The fields of the request that a header line sets without a check of its own. -/
def plainField (out : HttpRequest) (name tval : Bytes) : HttpRequest :=
  match name.length with
  | 6 =>
    if metalIeq name (ascii "Cookie") then { out with cookie := some tval }
    else if metalIeq name (ascii "Origin") then { out with origin := some tval }
    else out
  | 9 =>
    if metalIeq name (ascii "X-PW-Auth") && tval = ascii "1" then { out with pwAuthHeader := true }
    else out
  | 11 => if metalIeq name (ascii "X-PW-Tenant") then { out with pwTenant := some tval } else out
  | 10 =>
    if metalIeq name (ascii "Connection") && closeRequested tval.length tval then
      { out with clientClose := true }
    else out
  | 13 =>
    if metalIeq name (ascii "If-None-Match") then { out with ifNoneMatch := some tval } else out
  | 14 =>
    if metalIeq name (ascii "X-PW-Principal") || metalIeq name (ascii "X-Principal-Id") then
      setPrincipalHeader out tval
    else out
  | 16 =>
    if metalIeq name (ascii "X-Forwarded-User") then setPrincipalHeader out tval
    else if metalIeq name (ascii "X-PW-Write-Token") then { out with writeToken := some tval }
    else out
  | 17 => if metalIeq name (ascii "X-Forwarded-Email") then setPrincipalHeader out tval else out
  | 18 =>
    if metalIeq name (ascii "X-PW-Partition-Hop") && tval = ascii "1" then
      { out with pwPartitionHop := true }
    else out
  | 19 =>
    if metalIeq name (ascii "X-Auth-Request-User") then setPrincipalHeader out tval
    -- the literal has 18 characters: the comparison of 19 takes in its terminating NUL
    else if metalIeq name (ascii "X-PW-Partition-Hop" ++ [0]) && tval = ascii "1" then
      { out with pwPartitionHop := true }
    else out
  | 20 => if metalIeq name (ascii "X-Auth-Request-Email") then setPrincipalHeader out tval else out
  | 15 =>
    if metalIeq name (ascii "Accept-Encoding") then
      { out with
        acceptPc := out.acceptPc || metalCompressAccepted tval
        acceptBr := out.acceptBr || brotliAccepted tval }
    else out
  | 30 =>
    if metalIeq name (ascii "Access-Control-Request-Headers") then
      { out with acrHeaders := some tval }
    else out
  | 33 =>
    if metalIeq name (ascii "X-Auth-Request-Preferred-Username") then setPrincipalHeader out tval
    else out
  | _ => out

/-- One header line of the loop: `Host`, `Content-Length` and `Transfer-Encoding` can refuse it. -/
def headerLine (st : Scan) (line : Bytes) : Except HttpResult Scan :=
  match cut 58 line with
  | none => .error .err400
  | some (name, val) =>
    let tval := trimOws val
    if metalIeq name (ascii "Host") then hostField st tval
    else if metalIeq name (ascii "Content-Length") then contentLengthField st tval
    else if metalIeq name (ascii "Transfer-Encoding") then .error .err400
    else .ok { st with out := plainField st.out name tval }

/-- The header loop; `line` is what stands between `p` and the byte looked at. -/
def scanHeaders : Bytes → Bytes → Scan → HttpResult × Scan
  | line, [], st => (if line = [] then .ok else .err400, st)
  | _, [_], st => (.err400, st)
  | line, b :: b' :: rest, st =>
    if b = cr then
      if b' ≠ lf then (.err400, st)
      else
        match headerLine st line with
        | .error e => (e, st)
        | .ok st' => scanHeaders [] rest st'
    else scanHeaders (line ++ [b]) (b' :: rest) st

def parseHeaders (rest : Bytes) (out : HttpRequest) : HttpResult × HttpRequest :=
  match scanHeaders [] rest { out := out } with
  | (.ok, st) =>
    if st.hostSeen = 0 then (.err409, st.out)
    else (.ok, { st.out with clientClose := st.out.clientClose || st.bodyPresent })
  | (r, st) => (r, st.out)

def crlfcrlf : Bytes := [cr, lf, cr, lf]

def httpParse (buf : Bytes) : HttpResult × HttpRequest :=
  if buf.length < 4 then (.needMore, {})
  else
    match memmem crlfcrlf buf with
    | none => (if buf.length ≥ 8192 then .err413 else .needMore, {})
    | some e =>
      let out : HttpRequest := { consumed := e + 4, hasLeftover := e + 4 < buf.length }
      match cut cr (buf.take (e + 4)) with
      | none => (.err400, out)
      | some (line, after) =>
        if after.head? ≠ some lf then (.err400, out)
        else
          match requestLine line out with
          | (.ok, out) => parseHeaders ((buf.take (e + 2)).drop (line.length + 2)) out
          | (r, out) => (r, out)

/-! ### What an accepted request consists of -/

section Accepted

variable {buf line rest name tval : Bytes} {out out' req : HttpRequest} {st st' : Scan}

lemma httpParse_ok (h : httpParse buf = (.ok, req)) : ∃ e line after out, memmem crlfcrlf buf = some e ∧
      cut cr (buf.take (e + 4)) = some (line, lf :: after) ∧
      requestLine line { consumed := e + 4, hasLeftover := e + 4 < buf.length } = (.ok, out) ∧
      parseHeaders ((buf.take (e + 2)).drop (line.length + 2)) out = (.ok, req) := by
  unfold httpParse at h
  by_cases hlen : buf.length < 4
  · simp [hlen] at h
  rw [if_neg hlen] at h
  rcases he : memmem crlfcrlf buf with _ | e
  · rw [he] at h
    split_ifs at h <;> simp at h
  rcases hcut : cut cr (buf.take (e + 4)) with _ | ⟨line, after⟩
  · simp [he, hcut] at h
  simp only [he, hcut] at h
  split_ifs at h with hlf
  · simp at h
  obtain ⟨after, rfl⟩ : ∃ a, after = lf :: a := by
    cases after with
    | nil => simp at hlf
    | cons b a => exact ⟨a, by simpa using hlf⟩
  rcases hline : requestLine line { consumed := e + 4, hasLeftover := e + 4 < buf.length } with ⟨r, out⟩
  rw [hline] at h
  cases r with
  | ok => exact ⟨e, line, after, out, rfl, hcut, hline, h⟩
  | _ => simp at h

lemma requestLine_ok (h : requestLine line out = (.ok, out')) :
    ∃ m target version, line = m ++ sp :: (target ++ sp :: version) ∧ sp ∉ m ∧ sp ∉ target ∧
      pathIsSafe target = true ∧
      out' = { out with
        method := classifyMethod m, path := some (((cut 63 target).map Prod.fst).getD target) } := by
  unfold requestLine at h
  split_ifs at h
  · simp at h
  rcases hm : cut sp line with _ | ⟨m, rest⟩
  · simp [hm] at h
  rcases ht : cut sp rest with _ | ⟨target, version⟩
  · simp [hm, ht] at h
  simp only [hm, ht] at h
  obtain ⟨rfl, hsm⟩ := eq_of_cut hm
  obtain ⟨rfl, hst⟩ := eq_of_cut ht
  split_ifs at h with hv hu hs hlong
  · simp at h
  · simp at h
  · simp at h
  · simp at h
  refine ⟨m, target, version, rfl, hsm, hst, by simpa using hs, ?_⟩
  rcases hq : cut 63 target with _ | ⟨p, q⟩ <;> simpa [hq] using h.symm

lemma parseHeaders_ok (h : parseHeaders rest out = (.ok, req)) :
    ∃ st, scanHeaders [] rest { out := out } = (.ok, st) ∧ st.hostSeen ≠ 0 ∧
      req = { st.out with clientClose := st.out.clientClose || st.bodyPresent } := by
  unfold parseHeaders at h
  rcases hst : scanHeaders [] rest { out := out } with ⟨r, st⟩
  rw [hst] at h
  cases r with
  | ok =>
    simp only at h
    split_ifs at h with hh
    · simp at h
    · exact ⟨st, rfl, hh, by simpa using h.symm⟩
  | _ => simp at h

lemma parseLength_error {cl : ℕ} {s : Bytes} {e : HttpResult} (h : parseLength cl s = .error e) :
    e = .err400 ∨ e = .err413 := by
  induction s generalizing cl with
  | nil => simp [parseLength] at h
  | cons c s ih =>
    simp only [parseLength] at h
    split_ifs at h
    · exact .inl (Except.error.inj h).symm
    · exact .inr (Except.error.inj h).symm
    · exact ih h

@[simp] lemma setPrincipalHeader_path (out : HttpRequest) (val : Bytes) :
    (setPrincipalHeader out val).path = out.path := by
  unfold setPrincipalHeader
  split_ifs <;> rfl

@[simp] lemma setPrincipalHeader_contentLength (out : HttpRequest) (val : Bytes) :
    (setPrincipalHeader out val).contentLength = out.contentLength := by
  unfold setPrincipalHeader
  split_ifs <;> rfl

@[simp] lemma plainField_path (out : HttpRequest) (name tval : Bytes) :
    (plainField out name tval).path = out.path := by
  unfold plainField
  split <;> (try split_ifs) <;> simp

@[simp] lemma plainField_contentLength (out : HttpRequest) (name tval : Bytes) :
    (plainField out name tval).contentLength = out.contentLength := by
  unfold plainField
  split <;> (try split_ifs) <;> simp

lemma hostField_ok (h : hostField st tval = .ok st') :
    ∃ host, st' = { st with hostSeen := st.hostSeen + 1, out := { st.out with host := host } } := by
  unfold hostField at h
  simp only at h
  split_ifs at h
  exact ⟨_, by simpa using h.symm⟩

lemma contentLengthField_ok (h : contentLengthField st tval = .ok st') :
    ∃ cl, tval ≠ [] ∧ parseLength 0 tval = .ok cl ∧ (st.bodyPresent = true → st.out.contentLength = cl) ∧
      st' = { st with
        out := { st.out with contentLength := cl }, bodyPresent := st.bodyPresent || cl > 0 } := by
  unfold contentLengthField at h
  split_ifs at h with hl
  rcases hp : parseLength 0 tval with e | cl
  · simp [hp] at h
  simp only [hp] at h
  split_ifs at h with hb
  refine ⟨cl, by simpa using hl, rfl, by simpa using hb, by simpa using h.symm⟩

/-- A header line that is refused is refused with one of two error codes. -/
lemma headerLine_error {e : HttpResult} (h : headerLine st line = .error e) : e = .err400 ∨ e = .err413 := by
  unfold headerLine at h
  rcases hcut : cut 58 line with _ | ⟨name, val⟩
  · rw [hcut] at h
    exact .inl (Except.error.inj h).symm
  simp only [hcut] at h
  split_ifs at h
  · unfold hostField at h
    simp only at h
    split_ifs at h
    all_goals exact .inl (Except.error.inj h).symm
  · unfold contentLengthField at h
    split_ifs at h
    · exact .inl (Except.error.inj h).symm
    · rcases hp : parseLength 0 (trimOws val) with e' | cl
      · rw [hp] at h
        exact Except.error.inj h ▸ parseLength_error hp
      · simp only [hp] at h
        split_ifs at h
        exact .inl (Except.error.inj h).symm
  · exact .inl (Except.error.inj h).symm

/-- An accepted header block consists of lines that `headerLine` took one after the other, and none
of them holds a bare CR. -/
lemma scanHeaders_ok (h : scanHeaders line rest st = (.ok, st')) (hline : cr ∉ line) :
    (crlfLines line rest).foldlM headerLine st = .ok st' ∧ ∀ l ∈ crlfLines line rest, cr ∉ l := by
  fun_induction scanHeaders line rest st with
  | case1 line st =>
    obtain ⟨hl, rfl⟩ := Prod.mk.inj h
    split_ifs at hl with hn
    simp [crlfLines, hn, pure, Except.pure]
  | case2 | case3 => simp at h
  | case4 line b' rest st hb' e he =>
    obtain rfl : e = .ok := congrArg Prod.fst h
    rcases headerLine_error he with h | h <;> cases h
  | case5 line b' rest st hb' st₁ he ih =>
    obtain rfl : b' = lf := not_not.1 hb'
    obtain ⟨hfold, hcr⟩ := ih h List.not_mem_nil
    rw [crlfLines, if_pos ⟨rfl, rfl⟩, List.foldlM_cons, he]
    refine ⟨hfold, ?_⟩
    rintro l (_ | ⟨_, hl⟩)
    · exact hline
    · exact hcr l hl
  | case6 line b b' rest st hb ih =>
    rw [crlfLines, if_neg fun hc => hb hc.1]
    exact ih h (by simp [hline, Ne.symm hb])

end Accepted

end Http
