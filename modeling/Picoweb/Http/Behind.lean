import Picoweb.Http.Parse

/-!
# Bytes behind the headers

`http_parse` waits for the blank line and then looks at what stands before it only. So its answer, once
there is one, does not change when more bytes arrive, except for the flag that tells whether there are
any, which no caller reads.
-/

namespace Http

open ByteFile ByteText List

/-- The request with another end of its headers, and another value of the flag. -/
def HttpRequest.withEnd (out : HttpRequest) (n : ℕ) (b : Bool) : HttpRequest :=
  { out with consumed := n, hasLeftover := b }

variable (n : ℕ) (b : Bool)

lemma setPrincipalHeader_withEnd (out : HttpRequest) (val : Bytes) :
    setPrincipalHeader (out.withEnd n b) val = (setPrincipalHeader out val).withEnd n b := by
  unfold setPrincipalHeader HttpRequest.withEnd
  split_ifs <;> rfl

lemma plainField_withEnd (out : HttpRequest) (name tval : Bytes) :
    plainField (out.withEnd n b) name tval = (plainField out name tval).withEnd n b := by
  unfold plainField
  split
  all_goals try split_ifs
  all_goals first | rfl | exact setPrincipalHeader_withEnd n b out tval

lemma requestLine_withEnd (line : Bytes) (out : HttpRequest) : requestLine line (out.withEnd n b) =
      ((requestLine line out).1, (requestLine line out).2.withEnd n b) := by
  unfold requestLine
  split
  · rfl
  split
  · rfl
  split
  · rfl
  split
  · rfl
  dsimp only [HttpRequest.withEnd]
  split
  · rfl
  split
  · rfl
  split <;> rfl

def Scan.withEnd (st : Scan) (n : ℕ) (b : Bool) : Scan := { st with out := st.out.withEnd n b }

lemma hostField_withEnd (st : Scan) (tval : Bytes) :
    hostField (st.withEnd n b) tval = (hostField st tval).map fun st' => st'.withEnd n b := by
  rcases st with ⟨out, seen, body⟩
  cases seen with
  | zero =>
    simp only [hostField, Scan.withEnd, ne_eq]
    split_ifs <;> rfl
  | succ n => rfl

lemma contentLengthField_withEnd (st : Scan) (tval : Bytes) : contentLengthField (st.withEnd n b) tval =
      (contentLengthField st tval).map fun st' => st'.withEnd n b := by
  unfold contentLengthField
  rcases parseLength 0 tval with e | cl
  · split_ifs <;> rfl
  · by_cases hlen : tval.length = 0
    · rw [if_pos hlen, if_pos hlen]
      rfl
    rw [if_neg hlen, if_neg hlen]
    dsimp only
    by_cases hbad : (st.bodyPresent && decide (st.out.contentLength ≠ cl)) = true
    · rw [if_pos hbad]
      exact if_pos hbad
    · rw [if_neg hbad]
      exact if_neg hbad

lemma headerLine_withEnd (st : Scan) (line : Bytes) :
    headerLine (st.withEnd n b) line = (headerLine st line).map fun st' => st'.withEnd n b := by
  unfold headerLine
  rcases cut 58 line with _ | ⟨name, val⟩
  · rfl
  dsimp only
  split_ifs
  · exact hostField_withEnd n b st (trimOws val)
  · exact contentLengthField_withEnd n b st (trimOws val)
  · rfl
  · simp only [Scan.withEnd, plainField_withEnd]
    rfl

lemma scanHeaders_withEnd (line rest : Bytes) (st : Scan) : scanHeaders line rest (st.withEnd n b) =
      ((scanHeaders line rest st).1, (scanHeaders line rest st).2.withEnd n b) := by
  fun_induction scanHeaders line rest st with
  | case1 | case2 => simp [scanHeaders]
  | case3 line b' rest st hb' => simp [scanHeaders, hb']
  | case4 line b' rest st hb' e he => simp [scanHeaders, hb', headerLine_withEnd, he, Except.map]
  | case5 line b' rest st hb' st₁ he ih =>
    simp [scanHeaders, hb', headerLine_withEnd, he, Except.map, ih]
  | case6 line c b' rest st hb ih => simp [scanHeaders, hb, ih]

lemma parseHeaders_withEnd (rest : Bytes) (out : HttpRequest) : parseHeaders rest (out.withEnd n b) =
      ((parseHeaders rest out).1, (parseHeaders rest out).2.withEnd n b) := by
  have hscan := scanHeaders_withEnd n b [] rest { out := out }
  unfold parseHeaders
  rw [show ({ out := out.withEnd n b } : Scan) = Scan.withEnd { out := out } n b from rfl, hscan]
  rcases scanHeaders [] rest { out := out } with ⟨r, st⟩
  cases r
  all_goals try rfl
  dsimp only [Scan.withEnd]
  split_ifs <;> rfl

lemma memmem_append {pat l : Bytes} {n : ℕ} (h : memmem pat l = some n) (more : Bytes) :
    memmem pat (l ++ more) = some n := by
  induction l generalizing n with
  | nil =>
    rw [memmem] at h
    split_ifs at h with hp
    cases more <;> simpa [memmem, hp] using h
  | cons a l ih =>
    rw [memmem] at h
    rw [cons_append, memmem]
    split_ifs at h with hp
    · have hlong : pat <+: a :: (l ++ more) := hp.trans (prefix_append (a :: l) more)
      rw [if_pos hlong]
      exact h
    · obtain ⟨m, hm, rfl⟩ := Option.map_eq_some_iff.mp h
      -- a match that the longer string has at its start ends before the old end already
      have hnot : ¬ pat <+: a :: (l ++ more) := by
        intro hlong
        have hlen : pat.length ≤ (a :: l).length := by
          have := (prefix_drop_of_memmem hm).length_le
          simp only [length_drop, length_cons] at this ⊢
          omega
        exact hp (prefix_of_prefix_length_le hlong (prefix_append (a :: l) more) hlen)
      rw [if_neg hnot, ih hm, Option.map_some]

lemma exists_memmem_of_prefix_drop {pat l : Bytes} {n : ℕ} (h : pat <+: l.drop n) : ∃ m, memmem pat l = some m := by
  induction l generalizing n with
  | nil =>
    rw [drop_nil, prefix_nil] at h
    exact ⟨0, if_pos h⟩
  | cons a l ih =>
    rw [memmem]
    split_ifs with hp
    · exact ⟨0, rfl⟩
    · cases n with
      | zero => exact absurd h hp
      | succ n =>
        obtain ⟨m, hm⟩ := ih h
        exact ⟨m + 1, by rw [hm, Option.map_some]⟩

/-- The parser behind the search for the blank line, which ends `head`. -/
def parseHead (head : Bytes) (out : HttpRequest) : HttpResult × HttpRequest :=
  match cut cr head with
  | none => (.err400, out)
  | some (line, after) =>
    if after.head? ≠ some lf then (.err400, out)
    else
      match requestLine line out with
      | (.ok, out) => parseHeaders ((head.take (head.length - 2)).drop (line.length + 2)) out
      | (r, out) => (r, out)

lemma parseHead_withEnd (head : Bytes) (out : HttpRequest) :
    parseHead head (out.withEnd n b) = ((parseHead head out).1, (parseHead head out).2.withEnd n b) := by
  unfold parseHead
  rcases cut cr head with _ | ⟨line, after⟩
  · rfl
  dsimp only
  split_ifs
  · rfl
  · rw [requestLine_withEnd]
    rcases requestLine line out with ⟨r, out⟩
    cases r
    all_goals first | rfl | exact parseHeaders_withEnd n b _ out

/-! ### Waiting -/

lemma requestLine_ne_needMore (line : Bytes) (out : HttpRequest) : (requestLine line out).1 ≠ .needMore := by
  unfold requestLine
  split
  · simp
  split
  · simp
  split
  · simp
  split
  · simp
  dsimp only
  split_ifs <;> simp
  split <;> simp

lemma scanHeaders_ne_needMore (line rest : Bytes) (st : Scan) : (scanHeaders line rest st).1 ≠ .needMore := by
  fun_induction scanHeaders line rest st with
  | case1 line st => split_ifs <;> simp
  | case2 | case3 => simp
  | case4 line b' rest st hb' e he => rcases headerLine_error he with h | h <;> simp [h]
  | case5 _ _ _ _ _ _ _ ih | case6 _ _ _ _ _ _ ih => exact ih

lemma parseHeaders_ne_needMore (rest : Bytes) (out : HttpRequest) : (parseHeaders rest out).1 ≠ .needMore := by
  have hscan := scanHeaders_ne_needMore [] rest { out := out }
  unfold parseHeaders
  split
  · split_ifs <;> simp
  · rename_i heq
    rw [heq] at hscan
    exact hscan

lemma parseHead_ne_needMore (head : Bytes) (out : HttpRequest) : (parseHead head out).1 ≠ .needMore := by
  unfold parseHead
  rcases cut cr head with _ | ⟨line, after⟩
  · simp
  dsimp only
  split_ifs
  · simp
  have hline := requestLine_ne_needMore line out
  rcases hr : requestLine line out with ⟨r, out'⟩
  rw [hr] at hline
  cases r
  all_goals first | exact parseHeaders_ne_needMore _ _ | exact hline

variable {buf : Bytes} {pr : HttpResult} {req : HttpRequest}

lemma httpParse_of_memmem {e : ℕ} (h : memmem crlfcrlf buf = some e) :
    e + 4 ≤ buf.length ∧ httpParse buf = ((parseHead (buf.take (e + 4)) {}).1,
      (parseHead (buf.take (e + 4)) {}).2.withEnd (e + 4) (e + 4 < buf.length)) := by
  have hfits : e + 4 ≤ buf.length := by
    have := (prefix_drop_of_memmem h).length_le
    rw [length_drop] at this
    have h4 : crlfcrlf.length = 4 := rfl
    omega
  refine ⟨hfits, ?_⟩
  have hlen : (buf.take (e + 4)).length = e + 4 := length_take_of_le hfits
  have htake : (buf.take (e + 4)).take (e + 4 - 2) = buf.take (e + 2) := by
    rw [take_take]
    congr 1
    omega
  rw [← parseHead_withEnd, httpParse, if_neg (by omega), h]
  simp only [parseHead, hlen, htake]
  rfl

lemma httpParse_of_memmem_none (h : memmem crlfcrlf buf = none) :
    httpParse buf = (if 8192 ≤ buf.length then .err413 else .needMore, {}) := by
  unfold httpParse
  rw [h]
  split_ifs <;> first | rfl | omega

/-- Before it gives up, `http_parse` waits for no more than a full buffer. -/
lemma length_lt_of_needMore (h : httpParse buf = (.needMore, req)) : buf.length < 8192 := by
  rcases hend : memmem crlfcrlf buf with _ | e
  · rw [httpParse_of_memmem_none hend] at h
    split_ifs at h with hfull
    · cases h
    · exact not_le.mp hfull
  · rw [(httpParse_of_memmem hend).2] at h
    exact absurd (congrArg Prod.fst h) (parseHead_ne_needMore _ _)

/-- The headers of an accepted request are there, and there is at least their end. -/
lemma consumed_of_ok (h : httpParse buf = (.ok, req)) : 0 < req.consumed ∧ req.consumed ≤ buf.length := by
  rcases hend : memmem crlfcrlf buf with _ | e
  · rw [httpParse_of_memmem_none hend] at h
    split_ifs at h <;> cases h
  · obtain ⟨hfits, hparse⟩ := httpParse_of_memmem hend
    rw [hparse] at h
    rw [← (Prod.mk.inj h).2]
    exact ⟨Nat.succ_pos _, hfits⟩

/-- Once `http_parse` has an answer, more bytes do not change it. -/
theorem httpParse_append {more : Bytes} (h : httpParse buf = (pr, req)) (hpr : pr ≠ .needMore)
    (hlen : (buf ++ more).length ≤ 8192) : ∃ b, httpParse (buf ++ more) = (pr, { req with hasLeftover := b }) := by
  rcases hend : memmem crlfcrlf buf with _ | e
  · -- a full buffer without the end of the headers: there is no more
    have hfull : 8192 ≤ buf.length := by
      by_contra hnot
      rw [httpParse_of_memmem_none hend, if_neg hnot] at h
      exact hpr (congrArg Prod.fst h).symm
    obtain rfl : more = [] := by
      rw [length_append] at hlen
      exact length_eq_zero_iff.mp (by omega)
    refine ⟨req.hasLeftover, ?_⟩
    rw [append_nil, h]
  · obtain ⟨hfits, hparse⟩ := httpParse_of_memmem hend
    obtain ⟨-, hparse'⟩ := httpParse_of_memmem (memmem_append hend more)
    refine ⟨decide (e + 4 < (buf ++ more).length), ?_⟩
    rw [hparse', take_append_of_le_length hfits]
    obtain ⟨rfl, rfl⟩ := Prod.mk.inj (hparse.symm.trans h)
    rfl

/-- The headers of an accepted request decide about it. -/
theorem httpParse_take {n : ℕ} (h : httpParse buf = (.ok, req)) (hn : req.consumed ≤ n) :
    ∃ b, httpParse (buf.take n) = (.ok, { req with hasLeftover := b }) := by
  rcases hend : memmem crlfcrlf buf with _ | e
  · rw [httpParse_of_memmem_none hend] at h
    split_ifs at h <;> cases h
  · obtain ⟨hfits, hparse⟩ := httpParse_of_memmem hend
    obtain ⟨hok, rfl⟩ := Prod.mk.inj (hparse.symm.trans h)
    have hend' : memmem crlfcrlf (buf.take n) = some e := by
      have hprefix : crlfcrlf <+: (buf.take n).drop e := by
        rw [drop_take]
        refine prefix_take_iff.mpr ⟨prefix_drop_of_memmem hend, ?_⟩
        exact Nat.le_sub_of_add_le' hn
      obtain ⟨m, hm⟩ := exists_memmem_of_prefix_drop hprefix
      have hlong := memmem_append hm (buf.drop n)
      rw [take_append_drop, hend] at hlong
      rw [hm, hlong]
    obtain ⟨-, hparse'⟩ := httpParse_of_memmem hend'
    refine ⟨decide (e + 4 < (buf.take n).length), ?_⟩
    rw [hparse', take_take, min_eq_left (show e + 4 ≤ n from hn), hok]
    rfl

end Http
