import Picoweb.Http.Parse

/-!
# The framing headers of an accepted request

A message is framed by its `Content-Length` and `Transfer-Encoding` lines. The parser recognises them by
the bytes before the colon as they stand, and it compares a second length with the first only if the
first was not zero. So the length of an accepted request is unambiguous exactly when no framing name has
blanks around it and no zero length stands before another one.
-/

namespace Http

open ByteFile ByteText List

variable {buf line name val : Bytes} {lines : List Bytes} {req : HttpRequest} {st st' : Scan}

/-! ### Header lines -/

/-- The header lines of a buffer: the lines between the request line and the first blank line. -/
def headerLines (buf : Bytes) : List Bytes :=
  match memmem crlfcrlf buf with
  | some e => (crlfLines [] (buf.take (e + 2))).tail
  | none => []

def fieldName (line : Bytes) : Bytes := line.takeWhile (· ≠ 58)

def fieldValue (line : Bytes) : Bytes := trimBlanks ((line.dropWhile (· ≠ 58)).drop 1)

def fieldNumber (line : Bytes) : Option ℕ := decimalValue (fieldValue line)

/-- The field name is `lit`, once the blanks around it are removed. -/
def Named (lit : Bytes) (line : Bytes) : Prop := EqIgnoreCase (trimBlanks (fieldName line)) lit
deriving Decidable

/-- The field name is `lit` as it stands. -/
def Plain (lit : Bytes) (line : Bytes) : Prop := EqIgnoreCase (fieldName line) lit
deriving Decidable

/-- The field name is `lit` with blanks around it. -/
def Padded (lit : Bytes) (line : Bytes) : Prop :=
  Named lit line ∧ trimBlanks (fieldName line) ≠ fieldName line

def lengthName : Bytes := ascii "Content-Length"

def transferName : Bytes := ascii "Transfer-Encoding"

/-- The header lines leave one reading of where the message ends: no transfer coding, and every
length line carries the number `n`. -/
structure Unambiguous (lines : List Bytes) (n : ℕ) : Prop where
  transfer : ∀ l ∈ lines, ¬ Named transferName l
  length : ∀ l ∈ lines, Named lengthName l → fieldNumber l = some n
  absent : (∀ l ∈ lines, ¬ Named lengthName l) → n = 0

/-- The number on the last length line without blanks around its name, zero if there is none. -/
def declaredLength (lines : List Bytes) : ℕ :=
  ((lines.filter fun l => Plain lengthName l).getLast?.bind fieldNumber).getD 0

/-- Header lines in which the parser overlooks nothing: no padded `Transfer-Encoding`, every padded
`Content-Length` repeats the declared length, and no length of zero stands before another one. -/
structure CleanlyFramed (lines : List Bytes) : Prop where
  transfer : ∀ l ∈ lines, ¬ Padded transferName l
  length : ∀ l ∈ lines, Padded lengthName l → fieldNumber l = some (declaredLength lines)
  order : lines.Pairwise fun l l' =>
    Plain lengthName l → Plain lengthName l' → fieldNumber l = some 0 → fieldNumber l' = some 0

/-! ### How the parser recognises a name -/

lemma metalIeq_length {a b : Bytes} (h : metalIeq a b = true) : a.length = b.length := by
  unfold metalIeq at h
  split_ifs at h with hl <;> exact not_not.1 hl

/-- A lower-case letter or a hyphen. -/
def isNameByte (z : UInt8) : Bool := z = 45 || (97 ≤ z && z ≤ 122)

/-- A literal of letters and hyphens, on which setting bit 5 lowers the case. -/
def NameLiteral (lit : Bytes) : Prop := ∀ y ∈ lit, y ||| 0x20 = lower y ∧ isNameByte (lower y) = true
deriving Decidable

/-- Setting bit 5 lowers the case of a byte, or makes nothing of it that stands in a name. The one
exception is CR, which it turns into a hyphen. -/
lemma or_eq_lower_or : ∀ x : UInt8, x ≠ cr →
    x ||| 0x20 = lower x ∨ isNameByte (x ||| 0x20) = false ∧ isNameByte (lower x) = false :=
  forall_byte (by decide +kernel)

lemma or_eq_or_iff_lower {x y : UInt8} (hx : x ≠ cr) (hy : y ||| 0x20 = lower y)
    (hname : isNameByte (lower y) = true) : x ||| 0x20 = y ||| 0x20 ↔ lower x = lower y := by
  rw [hy]
  rcases or_eq_lower_or x hx with h | ⟨h, h'⟩
  · rw [h]
  · refine iff_of_false (fun he => ?_) fun he => ?_
    · simp [he, hname] at h
    · simp [he, hname] at h'

lemma map_or_eq_iff {a b : Bytes} (ha : cr ∉ a) (hb : NameLiteral b) :
    a.map (· ||| 0x20) = b.map (· ||| 0x20) ↔ EqIgnoreCase a b := by
  unfold EqIgnoreCase
  induction a generalizing b with
  | nil => simp
  | cons x a ih =>
    cases b with
    | nil => simp
    | cons y b =>
      rw [mem_cons, not_or] at ha
      obtain ⟨⟨hy, hname⟩, hb⟩ := forall_mem_cons.1 hb
      simp only [map_cons, cons.injEq, ih ha.2 hb, or_eq_or_iff_lower (Ne.symm ha.1) hy hname]

lemma framing_names : ∀ lit ∈ [lengthName, transferName], NameLiteral lit ∧
    lit.length ∈ [4, 10, 13, 14, 15, 17] ∧ ∀ y ∈ lit.map lower, isBlank y = false := by decide +kernel

section FramingName

variable {lit : Bytes} (hlit : lit ∈ [lengthName, transferName])

include hlit

/-- On a name without CR, setting bit 5 of every byte compares the framing names without case. -/
lemma metalIeq_iff (hname : cr ∉ name) : metalIeq name lit = true ↔ EqIgnoreCase name lit := by
  obtain ⟨hlit, hlen, -⟩ := framing_names lit hlit
  constructor
  · intro h
    have hl := metalIeq_length h
    rw [← map_or_eq_iff hname hlit]
    simpa [metalIeq, hl, hlen] using h
  · intro h
    have hl : name.length = lit.length := by simpa using congrArg length h
    simpa [metalIeq, hl, hlen] using (map_or_eq_iff hname hlit).2 h

lemma isBlank_eq_false_of_eqIgnoreCase (h : EqIgnoreCase name lit) : ∀ x ∈ name, isBlank x = false := by
  intro x hx
  have hx' : isBlank (lower x) = false := (framing_names lit hlit).2.2 _ (h ▸ mem_map_of_mem hx)
  by_contra hbl
  rw [Bool.not_eq_false] at hbl
  rw [lower_of_isBlank hbl, hbl] at hx'
  cases hx'

/-- A line of a framing name is either plain or padded. -/
lemma named_iff : Named lit line ↔ Plain lit line ∨ Padded lit line := by
  constructor
  · intro h
    by_cases ht : trimBlanks (fieldName line) = fieldName line
    · exact .inl (by unfold Named at h; rwa [ht] at h)
    · exact .inr ⟨h, ht⟩
  · rintro (h | h)
    · unfold Named
      rwa [trimBlanks_of_forall (isBlank_eq_false_of_eqIgnoreCase hlit h)]
    · exact h.1

end FramingName

/-! ### What one header line does to the length -/

lemma parseLength_ok {s : Bytes} {cl n : ℕ} (h : parseLength cl s = .ok n) :
    (∀ b ∈ s, isDigit b = true) ∧ n = s.foldl (fun n b => n * 10 + (b.toNat - 48)) cl := by
  induction s generalizing cl with
  | nil =>
    obtain rfl : cl = n := by simpa [parseLength] using h
    simp
  | cons c s ih =>
    simp only [parseLength] at h
    split_ifs at h with hc hlim
    obtain ⟨hs, rfl⟩ := ih h
    refine ⟨forall_mem_cons.2 ⟨?_, hs⟩, rfl⟩
    simpa [isDigit] using hc

lemma decimalValue_of_parseLength {s : Bytes} {n : ℕ} (hs : s ≠ []) (h : parseLength 0 s = .ok n) :
    decimalValue s = some n := by
  obtain ⟨hd, rfl⟩ := parseLength_ok h
  rw [decimalValue, if_pos ⟨hs, hd⟩]
  rfl

/-- The name and the value of a line that the parser cut at its first colon. -/
lemma field_of_cut (h : cut 58 line = some (name, val)) : fieldName line = name ∧ fieldValue line = trimOws val := by
  obtain ⟨rfl, hn⟩ := eq_of_cut h
  have hne : ∀ b ∈ name, decide (b ≠ 58) = true := by
    intro b hb
    simpa using fun he : b = 58 => hn (he ▸ hb)
  constructor
  · rw [fieldName, takeWhile_append_of_pos hne]
    simp
  · rw [fieldValue, dropWhile_append_of_pos hne]
    simp [trimOws]

/-- What an accepted header line that is not a length line leaves unchanged, and what one that is
does. -/
lemma headerLine_length (h : headerLine st line = .ok st') (hcr : cr ∉ line) : ¬ Plain transferName line ∧
      if Plain lengthName line then
        fieldNumber line = some st'.out.contentLength ∧
          (st.bodyPresent = true → st.out.contentLength = st'.out.contentLength) ∧
          st'.bodyPresent = (st.bodyPresent || decide (st'.out.contentLength > 0))
      else st'.out.contentLength = st.out.contentLength ∧ st'.bodyPresent = st.bodyPresent := by
  unfold headerLine at h
  rcases hc : cut 58 line with _ | ⟨name, val⟩
  · simp [hc] at h
  obtain ⟨hname, hval⟩ := field_of_cut hc
  have hcr' : cr ∉ name := fun hm => hcr ((eq_of_cut hc).1 ▸ mem_append_left _ hm)
  have hl : Plain lengthName line ↔ metalIeq name lengthName = true := by
    rw [metalIeq_iff mem_cons_self hcr', Plain, hname]
  have ht : Plain transferName line ↔ metalIeq name transferName = true := by
    rw [metalIeq_iff (mem_cons_of_mem _ mem_cons_self) hcr', Plain, hname]
  rw [hc] at h
  simp only [← lengthName.eq_def] at h
  simp only [hl, ht]
  split_ifs at h with hhost hlen htr
  · -- a host line has a name of another length
    have hlen : name.length = 4 := metalIeq_length hhost
    have hne : ∀ lit : Bytes, lit.length ≠ 4 → ¬ metalIeq name lit = true :=
      fun lit hlit hm => hlit ((metalIeq_length hm).symm.trans hlen)
    obtain ⟨host, rfl⟩ := hostField_ok h
    rw [if_neg (hne _ (by decide))]
    exact ⟨hne _ (by decide), rfl, rfl⟩
  · obtain ⟨cl, hne, hparse, hbody, rfl⟩ := contentLengthField_ok h
    rw [if_pos hlen, fieldNumber, hval]
    refine ⟨fun hm => ?_, decimalValue_of_parseLength hne hparse, hbody, rfl⟩
    exact absurd ((metalIeq_length hm).symm.trans (metalIeq_length hlen)) (by decide)
  · cases h
    rw [if_neg hlen]
    exact ⟨htr, by simp, rfl⟩

/-- The parser's note that a body was declared is its note that the length is not zero. -/
def Scan.Counts (st : Scan) : Prop := st.bodyPresent = decide (st.out.contentLength > 0)

lemma headerLine_counts (h : headerLine st line = .ok st') (hcr : cr ∉ line) (hst : st.Counts) :
    st'.Counts ∧ (st.out.contentLength ≠ 0 → st'.out.contentLength = st.out.contentLength) := by
  obtain ⟨-, hstep⟩ := headerLine_length h hcr
  unfold Scan.Counts at hst ⊢
  split_ifs at hstep with hl
  · obtain ⟨-, hbody, hpres⟩ := hstep
    rw [hst] at hbody hpres
    by_cases h0 : st.out.contentLength = 0
    · simp_all
    · have he := hbody (by simpa using Nat.pos_of_ne_zero h0)
      exact ⟨by rw [hpres, he]; simp, fun _ => he.symm⟩
  · rw [hstep.1, hstep.2]
    exact ⟨hst, fun _ => rfl⟩

/-- The lengths an accepted block carries: each is zero or the one the request ends with, which is
that of the last length line. -/
lemma foldlM_headerLine_length (h : lines.foldlM headerLine st = .ok st')
    (hcr : ∀ l ∈ lines, cr ∉ l) (hst : st.Counts) :
    (st.out.contentLength ≠ 0 → st'.out.contentLength = st.out.contentLength) ∧
    (∀ l ∈ lines, ¬ Plain transferName l) ∧ (∀ l ∈ lines, Plain lengthName l →
      fieldNumber l = some 0 ∨ fieldNumber l = some st'.out.contentLength) ∧
    (∀ l, (lines.filter fun l => Plain lengthName l).getLast? = some l → fieldNumber l = some st'.out.contentLength) ∧
    ((lines.filter fun l => Plain lengthName l) = [] → st'.out.contentLength = st.out.contentLength) := by
  induction lines generalizing st with
  | nil =>
    cases h
    simp
  | cons l lines ih =>
    rw [foldlM_cons] at h
    rcases hl : headerLine st l with e | st₁
    · simp [hl, bind, Except.bind] at h
    rw [hl] at h
    rw [forall_mem_cons] at hcr
    obtain ⟨htr, hlen⟩ := headerLine_length hl hcr.1
    obtain ⟨hst₁, hkeep⟩ := headerLine_counts hl hcr.1 hst
    obtain ⟨hkeep', htr', hvals, hlast, hnone⟩ := ih h hcr.2 hst₁
    refine ⟨fun h0 => ?_, forall_mem_cons.2 ⟨htr, htr'⟩, forall_mem_cons.2 ⟨fun hp => ?_, hvals⟩, ?_⟩
    · rw [← hkeep h0]
      exact hkeep' (by rwa [hkeep h0])
    · rw [if_pos hp] at hlen
      rw [hlen.1]
      by_cases h0 : st₁.out.contentLength = 0
      · exact .inl (by rw [h0])
      · exact .inr (by rw [hkeep' h0])
    · split_ifs at hlen with hp
      · rw [filter_cons_of_pos (by simpa using hp)]
        refine ⟨fun last hl' => ?_, by simp⟩
        rcases hf : lines.filter fun l => Plain lengthName l with _ | ⟨f, fs⟩
        · obtain rfl : l = last := by simpa [hf] using hl'
          rw [hnone hf]
          exact hlen.1
        · rw [hf, getLast?_cons_cons, ← hf] at hl'
          exact hlast last hl'
      · rw [filter_cons_of_neg (by simpa using hp), ← hlen.1]
        exact ⟨hlast, hnone⟩

/-- The first CR of a buffer that holds a blank line comes no later than that line. -/
lemma length_le_of_memmem {e : ℕ} {u v : Bytes} (he : memmem crlfcrlf buf = some e)
    (hcut : cut cr (buf.take (e + 4)) = some (u, v)) : u.length ≤ e := by
  obtain ⟨hbuf, hu⟩ := eq_of_cut hcut
  obtain ⟨r, hr⟩ := prefix_drop_of_memmem he
  by_contra hlt
  have hcr : buf[e]? = some cr := by
    have := congrArg (fun l => l[0]?) hr.symm
    simpa [crlfcrlf] using this
  have hmem : u[e]? = some cr := by
    have := congrArg (fun l => l[e]?) hbuf
    simpa [getElem?_append_left (not_le.1 hlt), hcr] using this.symm
  exact hu (mem_of_getElem? hmem)

/-- An accepted request took every header line of its buffer. -/
lemma headerLines_of_httpParse (h : httpParse buf = (.ok, req)) :
    ∃ st st' : Scan, (headerLines buf).foldlM headerLine st = .ok st' ∧
      (∀ l ∈ headerLines buf, cr ∉ l) ∧ st.bodyPresent = false ∧ st.out.contentLength = 0 ∧
      req.contentLength = st'.out.contentLength := by
  obtain ⟨e, line, after, out, he, hcut, hline, hhdr⟩ := httpParse_ok h
  obtain ⟨m, t, version, hm, -, -, -, rfl⟩ := requestLine_ok hline
  obtain ⟨st, hscan, -, rfl⟩ := parseHeaders_ok hhdr
  obtain ⟨hfold, hcr⟩ := scanHeaders_ok hscan not_mem_nil
  have hlines : headerLines buf = crlfLines [] ((buf.take (e + 2)).drop (line.length + 2)) := by
    obtain ⟨hbuf, hno⟩ := eq_of_cut hcut
    obtain ⟨k, hk⟩ := Nat.exists_eq_add_of_le (length_le_of_memmem he hcut)
    have htake : buf.take (e + 2) = line ++ cr :: lf :: after.take k := by
      have := congrArg (take (e + 2)) hbuf
      rw [take_take, Nat.min_eq_left (by omega)] at this
      rw [this, take_append, take_of_length_le (by omega), hk,
        show line.length + k + 2 - line.length = k + 2 by omega]
      rfl
    rw [headerLines, he]
    simp only [htake, crlfLines_append hno, tail_cons]
    congr 1
    simp [drop_append]
  rw [hlines]
  exact ⟨_, st, hfold, hcr, rfl, rfl, rfl⟩

/-! ### Unambiguous framing -/

/-- Where no zero length stands before another one, a zero length line makes the last one zero. -/
lemma length_eq_zero {n : ℕ} (horder : lines.Pairwise fun l l' =>
      Plain lengthName l → Plain lengthName l' → fieldNumber l = some 0 → fieldNumber l' = some 0)
    (hlast : ∀ l, (lines.filter fun l => Plain lengthName l).getLast? = some l → fieldNumber l = some n)
    (hl : line ∈ lines) (hp : Plain lengthName line) (h0 : fieldNumber line = some 0) :
    some n = some 0 := by
  have hmem : line ∈ lines.filter fun l => Plain lengthName l := by simpa using ⟨hl, hp⟩
  obtain ⟨xs, last, hxs⟩ := eq_nil_or_concat'
    (lines.filter fun l => Plain lengthName l) |>.resolve_left (ne_nil_of_mem hmem)
  have hn := hlast last (by simp [hxs])
  have hpl : Plain lengthName last := by
    have : last ∈ lines.filter fun l => Plain lengthName l := by simp [hxs]
    simpa using (mem_filter.1 this).2
  have hpair := horder.filter fun l => Plain lengthName l
  rw [hxs] at hpair hmem
  rw [← hn]
  rcases mem_append.1 hmem with hx | hx
  · exact (pairwise_append.1 hpair).2.2 line hx last (by simp) hp hpl h0
  · rwa [← mem_singleton.1 hx]

/-- An accepted request is framed unambiguously exactly when its header lines are clean: no padded
`Transfer-Encoding`, no padded `Content-Length` of another number, no zero length before another. -/
theorem framing_unambiguous_iff (h : httpParse buf = (.ok, req)) :
    Unambiguous (headerLines buf) req.contentLength ↔ CleanlyFramed (headerLines buf) := by
  obtain ⟨st, st', hfold, hcr, hbody, hzero, hlen⟩ := headerLines_of_httpParse h
  obtain ⟨-, htr, hvals, hlast, hnone⟩ :=
    foldlM_headerLine_length hfold hcr (by simp [Scan.Counts, hbody, hzero])
  have hdecl : declaredLength (headerLines buf) = req.contentLength := by
    rw [declaredLength, hlen]
    rcases hf : ((headerLines buf).filter fun l => Plain lengthName l).getLast? with _ | l
    · rw [hnone (getLast?_eq_none_iff.1 hf), hzero]
      rfl
    · simp [hlast l hf]
  rw [← hlen] at hvals hlast
  constructor
  · intro hu
    refine ⟨fun l hl hp => hu.transfer l hl hp.1, fun l hl hp => ?_, ?_⟩
    · rw [hdecl]
      exact hu.length l hl hp.1
    · refine pairwise_of_forall_mem_list fun l hl l' hl' hp hp' h0 => ?_
      rw [hu.length l hl ((named_iff mem_cons_self).2 (.inl hp))] at h0
      rw [hu.length l' hl' ((named_iff mem_cons_self).2 (.inl hp')), h0]
  · intro hc
    refine ⟨fun l hl hn => ?_, fun l hl hn => ?_, fun hno => ?_⟩
    · exact ((named_iff (mem_cons_of_mem _ mem_cons_self)).1 hn).elim (htr l hl) (hc.transfer l hl)
    · rcases (named_iff mem_cons_self).1 hn with hp | hp
      · refine (hvals l hl hp).elim (fun h0 => ?_) id
        rw [h0, eq_comm]
        exact length_eq_zero hc.order hlast hl hp h0
      · rw [hc.length l hl hp, hdecl]
    · rw [← hdecl, declaredLength, filter_eq_nil_iff.2]
      · rfl
      · exact fun l hl => by simpa using fun hp => hno l hl ((named_iff mem_cons_self).2 (.inl hp))

def framedRequest : Bytes := ascii "POST /a HTTP/1.1\r\nHost: a\r\nContent-Length: 5\r\n\r\nhello"

theorem framing_unambiguous_framed : (httpParse framedRequest).1 = .ok ∧
      (Unambiguous (headerLines framedRequest) (httpParse framedRequest).2.contentLength ↔
        CleanlyFramed (headerLines framedRequest)) := by
  have hok : (httpParse framedRequest).1 = .ok := by decide +kernel
  exact ⟨hok, framing_unambiguous_iff (Prod.ext hok rfl)⟩

/-- A request whose transfer coding stands under a name with a blank before the colon. -/
def paddedRequest : Bytes :=
  ascii "POST /a HTTP/1.1\r\nHost: a\r\nTransfer-Encoding : chunked\r\n\r\n"

/-- A request that declares the length zero and then the length five. -/
def zeroFirstRequest : Bytes :=
  ascii "POST /a HTTP/1.1\r\nHost: a\r\nContent-Length: 0\r\nContent-Length: 5\r\n\r\n"

/-- A padded transfer coding is accepted, and so are two different lengths. -/
theorem ambiguous_framing_accepted : ((httpParse paddedRequest).1 = .ok ∧
      ¬ Unambiguous (headerLines paddedRequest) (httpParse paddedRequest).2.contentLength) ∧
    (httpParse zeroFirstRequest).1 = .ok ∧
      ¬ Unambiguous (headerLines zeroFirstRequest) (httpParse zeroFirstRequest).2.contentLength := by
  refine ⟨⟨by decide +kernel, fun hu => ?_⟩, by decide +kernel, fun hu => ?_⟩
  · exact hu.transfer (ascii "Transfer-Encoding : chunked") (by decide +kernel) (by decide +kernel)
  · have h0 := hu.length (ascii "Content-Length: 0") (by decide +kernel) (by decide +kernel)
    exact absurd h0 (by decide +kernel)

end Http
