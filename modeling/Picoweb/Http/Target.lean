import Picoweb.Http.Parse

/-!
# The path of an accepted request

`path_is_safe` looks at the whole request target; the query string is cut off afterwards. The path that
is left keeps every property the target had, apart from the one that depends on where it ends.
-/

namespace Http

open ByteFile ByteText List

variable {buf p t : Bytes} {req : HttpRequest} {st st' : Scan}

/-- A path that stays below its root: it starts with a slash, holds no control byte, and no segment of
it is two dots. -/
structure Contained (p : Bytes) : Prop where
  slash : p.head? = some 47
  printable : ∀ b ∈ p, isControl b = false
  dots : ¬ Segment 47 p (ascii "..")

/-- The request target of a buffer: what stands between its first two spaces. -/
def requestTarget (buf : Bytes) : Option Bytes :=
  (cut sp buf).bind fun r => (cut sp r.2).map Prod.fst

/-- The bytes of `p` around the place `i` where two dots stand. -/
lemma eq_take_append_drop {i : ℕ} (h : p[i]? = some 46) (h' : p[i + 1]? = some 46) :
    p = p.take i ++ ascii ".." ++ p.drop (i + 2) := by
  obtain ⟨hi, hd⟩ := List.getElem?_eq_some_iff.1 h
  obtain ⟨hi', hd'⟩ := List.getElem?_eq_some_iff.1 h'
  conv_lhs => rw [← List.take_append_drop i p, List.drop_eq_getElem_cons hi, List.drop_eq_getElem_cons hi', hd, hd']
  simp [ascii]

/-- The loop of `path_is_safe` finds exactly the segments of two dots. -/
lemma hasDotDotSegment_iff : hasDotDotSegment p = true ↔ Segment 47 p (ascii "..") := by
  simp only [hasDotDotSegment, List.any_eq_true, Bool.and_eq_true, Bool.or_eq_true, decide_eq_true_eq]
  constructor
  · rintro ⟨i, hi, ⟨⟨h, h'⟩, hleft⟩, hright⟩
    refine ⟨by decide, p.take i, p.drop (i + 2), eq_take_append_drop h h', ?_, ?_⟩
    · rcases hleft with rfl | hl
      · exact .inl rfl
      · cases i with
        | zero => exact .inl rfl
        | succ i => exact .inr ⟨p.take i, by simp_all [List.take_add_one]⟩
    · rcases hright with hr | hr
      · exact .inl (by simp [hr])
      · obtain ⟨hlt, hr⟩ := List.getElem?_eq_some_iff.1 hr
        exact .inr ⟨_, by rw [List.drop_eq_getElem_cons hlt, hr]⟩
  · rintro ⟨-, u, v, rfl, hu, hv⟩
    refine ⟨u.length, by simp [ascii], ⟨⟨?_, ?_⟩, ?_⟩, ?_⟩
    · simp [ascii]
    · simp [ascii]
    · rcases hu with rfl | ⟨u', rfl⟩
      · exact .inl rfl
      · exact .inr (by simp)
    · rcases hv with rfl | ⟨v', rfl⟩
      · exact .inl (by simp [ascii])
      · exact .inr (by simp [ascii])

lemma pathIsSafe_iff : pathIsSafe p = true ↔ p.length ≤ maxUriLen ∧ Contained p := by
  unfold pathIsSafe
  constructor
  · intro h
    split_ifs at h with h0 hlen hctl hdots
    simp only [Bool.or_eq_true, decide_eq_true_eq, not_or, not_not] at h0
    refine ⟨not_lt.1 hlen, ?_, ?_, ?_⟩
    · rw [head?_eq_getElem?]
      exact h0.2
    · simpa using hctl
    · rwa [← hasDotDotSegment_iff]
  · rintro ⟨hlen, hslash, hctl, hdots⟩
    rw [head?_eq_getElem?] at hslash
    rw [← hasDotDotSegment_iff] at hdots
    have h0 : p.length ≠ 0 := by
      rintro h
      simp [length_eq_zero_iff.1 h] at hslash
    simp_all

/-- Cutting a contained target at its first question mark can only free two dots at the new end. -/
lemma contained_cut_iff (h : Contained t) : Contained (((cut 63 t).map Prod.fst).getD t) ↔
      ¬ ∃ u v, 63 ∉ u ∧ t = u ++ ascii "/..?" ++ v := by
  have hdots : ascii "/..?" = ascii "/.." ++ [63] := by decide
  rcases hc : cut 63 t with _ | ⟨q, v⟩
  · -- without a question mark the path is the target
    have hq := cut_eq_none.1 hc
    refine iff_of_true h ?_
    rintro ⟨u, v, -, rfl⟩
    simp [hdots] at hq
  obtain ⟨rfl, hq⟩ := eq_of_cut hc
  constructor
  · rintro hcont ⟨u, w, hu, heq⟩
    have hu' : 63 ∉ u ++ ascii "/.." := by simp [hu, ascii]
    obtain ⟨rfl, -⟩ : q = u ++ ascii "/.." ∧ v = w := by
      have := cut_append hu' w
      rw [show u ++ ascii "/.." ++ 63 :: w = u ++ ascii "/..?" ++ w by simp [hdots], ← heq, hc] at this
      simpa using this
    exact hcont.dots ⟨by decide, u ++ [47], [], by simp [ascii], .inr ⟨u, rfl⟩, .inl rfl⟩
  · intro hend
    have hslash : q.head? = some 47 := by
      cases q with
      | nil | cons => simpa using h.slash
    refine ⟨hslash, fun b hb => h.printable b (mem_append_left _ hb), ?_⟩
    rintro ⟨hd, u, w, rfl, hu, hw⟩
    rcases hw with rfl | ⟨w, rfl⟩
    · -- the segment ends the path, so the question mark ends it in the target
      rcases hu with rfl | ⟨u, rfl⟩
      · simp [ascii] at hslash
      · simp only [mem_append, not_or] at hq
        exact hend ⟨u, v, hq.1.1.1, by simp [ascii]⟩
    · exact h.dots ⟨hd, u, 47 :: (w ++ 63 :: v), by simp, hu, .inr ⟨_, rfl⟩⟩

/-! ### The header lines leave it alone -/

lemma headerLine_path {line : Bytes} (h : headerLine st line = .ok st') : st'.out.path = st.out.path := by
  unfold headerLine at h
  rcases hc : cut 58 line with _ | ⟨name, val⟩
  · simp [hc] at h
  simp only [hc] at h
  split_ifs at h
  · obtain ⟨host, rfl⟩ := hostField_ok h
    rfl
  · obtain ⟨cl, -, -, -, rfl⟩ := contentLengthField_ok h
    rfl
  · cases h
    simp

lemma foldlM_headerLine_path {lines : List Bytes} (h : lines.foldlM headerLine st = .ok st') :
    st'.out.path = st.out.path := by
  induction lines generalizing st with
  | nil =>
    cases h
    rfl
  | cons l lines ih =>
    rw [foldlM_cons] at h
    rcases hl : headerLine st l with e | st₁
    · simp [hl, bind, Except.bind] at h
    · rw [hl] at h
      exact (ih h).trans (headerLine_path hl)

/-- The path of an accepted request is its target, checked and then cut at the query string. -/
lemma path_of_httpParse (h : httpParse buf = (.ok, req)) : ∃ t, requestTarget buf = some t ∧ Contained t ∧
      req.path = some (((cut 63 t).map Prod.fst).getD t) := by
  obtain ⟨e, line, after, out, -, hcut, hline, hhdr⟩ := httpParse_ok h
  obtain ⟨m, t, version, rfl, hm, ht, hsafe, rfl⟩ := requestLine_ok hline
  obtain ⟨st, hscan, -, rfl⟩ := parseHeaders_ok hhdr
  refine ⟨t, ?_, (pathIsSafe_iff.1 hsafe).2, ?_⟩
  · have hbuf : buf = m ++ sp :: (t ++ sp :: (version ++ cr :: (lf :: after ++ buf.drop (e + 4)))) := by
      conv_lhs => rw [← take_append_drop (e + 4) buf, (eq_of_cut hcut).1]
      simp
    rw [hbuf, requestTarget, cut_append hm]
    simp [cut_append ht]
  · exact foldlM_headerLine_path (scanHeaders_ok hscan not_mem_nil).1

/-- The path of an accepted request stays below its root unless the target has two dots as the
segment that its first question mark ends. -/
theorem path_contained_iff (h : httpParse buf = (.ok, req)) : ∃ p, req.path = some p ∧
      (Contained p ↔ ¬ ∃ u v, 63 ∉ u ∧ requestTarget buf = some (u ++ ascii "/..?" ++ v)) := by
  obtain ⟨t, ht, hsafe, hpath⟩ := path_of_httpParse h
  refine ⟨_, hpath, ?_⟩
  rw [contained_cut_iff hsafe, ht]
  simp only [Option.some.injEq]

/-- A request for `/a`. -/
def plainRequest : Bytes := ascii "GET /a HTTP/1.1\r\nHost: a\r\n\r\n"

theorem path_contained_plain : (httpParse plainRequest).1 = .ok ∧ ∃ p, (httpParse plainRequest).2.path = some p ∧
      (Contained p ↔ ¬ ∃ u v, 63 ∉ u ∧ requestTarget plainRequest = some (u ++ ascii "/..?" ++ v)) := by
  have hok : (httpParse plainRequest).1 = .ok := by decide +kernel
  exact ⟨hok, path_contained_iff (Prod.ext hok rfl)⟩

/-- A request for `/..` with a query string is accepted. -/
theorem climbing_path_accepted : (httpParse (ascii "GET /..?x HTTP/1.1\r\nHost: a\r\n\r\n")).1 = .ok ∧
      (httpParse (ascii "GET /..?x HTTP/1.1\r\nHost: a\r\n\r\n")).2.path = some (ascii "/..") ∧
      ¬ Contained (ascii "/..") := by
  refine ⟨by decide +kernel, by decide +kernel, fun h => h.dots ?_⟩
  exact ⟨by decide, [47], [], by decide, .inr ⟨[], rfl⟩, .inl rfl⟩

end Http
