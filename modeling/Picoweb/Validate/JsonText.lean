import Picoweb.Validate.Json

/-!
# The values a document holds

The members of a document with the text of their values, to compare with what the validator keeps of
them. It keeps nothing of an object and of a long array, and takes a unicode escape for the letters
it is written with; of every other value it keeps the content.
-/

namespace Validate

open ByteFile ByteText CString List

/-- A value as JSON has it: the characters of a string, and the text of any other value. -/
structure JsonValue where
  kind : JvKind
  content : Bytes
  deriving DecidableEq, Repr

/-! ### Strings -/

def hexDigit (b : UInt8) : ℕ :=
  if isDigit b then b.toNat - 48 else if 97 ≤ b then b.toNat - 87 else b.toNat - 55

/-- The UTF-8 bytes of a code unit. -/
def utf8Unit (n : ℕ) : Bytes :=
  if n < 0x80 then [UInt8.ofNat n]
  else if n < 0x800 then [UInt8.ofNat (0xc0 + n / 64), UInt8.ofNat (0x80 + n % 64)]
  else [UInt8.ofNat (0xe0 + n / 4096), UInt8.ofNat (0x80 + n / 64 % 64), UInt8.ofNat (0x80 + n % 64)]

/-- The characters of the text between two quotes, after the first `skip` bytes. -/
def unquoteFrom : (skip : ℕ) → Bytes → Bytes
  | _, [] => []
  | skip + 1, _ :: p => unquoteFrom skip p
  | 0, [b] => [b]
  | 0, b :: b' :: p =>
    if b ≠ 92 then b :: unquoteFrom 0 (b' :: p)
    else if b' ≠ 117 then unescape b' :: unquoteFrom 0 p
    else utf8Unit ((p.take 4).foldl (fun n h => n * 16 + hexDigit h) 0) ++ unquoteFrom 4 p

/-- The characters that the text between two quotes stands for. -/
def unquote (p : Bytes) : Bytes := unquoteFrom 0 p

/-- Whether the text between two quotes has a unicode escape. -/
def hasUnicodeEscape : Bytes → Bool
  | [] => false
  | [_] => false
  | b :: b' :: p => if b = 92 then b' = 117 || hasUnicodeEscape p else hasUnicodeEscape (b' :: p)

lemma unquote_cons {b : UInt8} (hb : b ≠ 92) (p : Bytes) : unquote (b :: p) = b :: unquote p := by
  cases p with
  | nil => rfl
  | cons b' p => simp [unquote, unquoteFrom, hb]

lemma unquote_escape {b : UInt8} (hb : b ≠ 117) (p : Bytes) : unquote (92 :: b :: p) = unescape b :: unquote p := by
  simp [unquote, unquoteFrom, hb]

lemma hasUnicodeEscape_cons {b : UInt8} (hb : b ≠ 92) (p : Bytes) :
    hasUnicodeEscape (b :: p) = hasUnicodeEscape p := by
  cases p with
  | nil => rfl
  | cons b' p => rw [hasUnicodeEscape, if_neg hb]

/-- A string is read up to its closing quote, and without unicode escapes it is read right. -/
lemma stringBody_eq {cap : ℕ} {out p text rest : Bytes} (h : stringBody cap out p = some (text, rest)) :
    ∃ inner, p = inner ++ 34 :: rest ∧ (hasUnicodeEscape inner = false → text = out ++ unquote inner) := by
  induction out, p using stringBody.induct cap with
  | case1 out => simp [stringBody] at h
  | case2 out =>
    obtain ⟨rfl, rfl⟩ : out = text ∧ [] = rest := by simpa [stringBody] using h
    exact ⟨[], rfl, by simp [unquote, unquoteFrom]⟩
  | case3 out b hb => simp [stringBody, hb] at h
  | case4 out b' p =>
    obtain ⟨rfl, rfl⟩ : out = text ∧ b' :: p = rest := by simpa [stringBody] using h
    exact ⟨[], rfl, by simp [unquote, unquoteFrom]⟩
  | case5 out b b' p hb hcap =>
    rw [stringBody, if_neg hb, if_pos hcap] at h
    cases h
  | case6 out b' p hcap hb ih =>
    rw [stringBody, if_neg hcap] at h
    obtain ⟨inner, rfl, htext⟩ := ih h
    refine ⟨92 :: b' :: inner, rfl, ?_⟩
    intro hno
    simp only [hasUnicodeEscape, if_true, Bool.or_eq_false_iff, decide_eq_false_iff_not] at hno
    rw [htext hno.2, unquote_escape hno.1]
    simp
  | case7 out b b' p hb hcap hesc ih =>
    rw [stringBody, if_neg hb, if_neg hcap, if_neg hesc] at h
    obtain ⟨inner, hp, htext⟩ := ih h
    refine ⟨b :: inner, by rw [hp]; rfl, ?_⟩
    intro hno
    rw [hasUnicodeEscape_cons hesc] at hno
    rw [htext hno, unquote_cons hesc]
    simp

/-! ### Values -/

/-- What was read of `p` when `rest` is left. -/
def consumed (p rest : Bytes) : Bytes := p.take (p.length - rest.length)

lemma consumed_append (u v : Bytes) : consumed (u ++ v) v = u := by
  simp [consumed]

lemma consumed_of_prefix {u p : Bytes} (h : u <+: p) : consumed p (p.drop u.length) = u := by
  obtain ⟨v, rfl⟩ := h
  simp [consumed]

def jsonContent (kind : JvKind) (raw : Bytes) : Bytes :=
  if kind = .string then unquote raw.tail.dropLast else raw

/-- The validator keeps the content of such a value. -/
def Plain (kind : JvKind) (raw : Bytes) : Prop :=
  kind ≠ .object ∧ (kind = .array → raw.length < maxValueLen) ∧
    (kind = .string → hasUnicodeEscape raw.tail.dropLast = false)
deriving Decidable

lemma jsonContent_of_parseJsonNumber {cap : ℕ} {p text rest : Bytes}
    (h : parseJsonNumber cap p = some (text, rest)) : consumed p rest = text := by
  simp only [parseJsonNumber] at h
  set sign := if p.head? = some 45 ∨ p.head? = some 43 then p.take 1 else [] with hsign
  split_ifs at h with hbad
  obtain ⟨rfl, rfl⟩ := h
  apply consumed_of_prefix
  have hp : p = sign ++ p.drop sign.length := by
    rw [hsign]
    split_ifs
    · cases p <;> simp
    · simp
  conv_rhs => rw [hp]
  exact prefix_append_right_inj sign |>.2 (List.takeWhile_prefix _)

/-- Of a plain value the validator keeps the content. -/
lemma jsonContent_of_parseJsonValue {p text rest : Bytes} {kind : JvKind}
    (h : parseJsonValue p = some (kind, text, rest)) (hplain : Plain kind (consumed p rest)) :
    jsonContent kind (consumed p rest) = text := by
  rw [parseJsonValue] at h
  split_ifs at h with hq ht hf hn ho ha
  · -- a string
    obtain ⟨⟨text', rest'⟩, hs, he⟩ := Option.map_eq_some_iff.1 h
    obtain ⟨rfl, rfl, rfl⟩ : .string = kind ∧ text' = text ∧ rest' = rest := by simpa using he
    rw [parseJsonString, if_pos hq] at hs
    obtain ⟨inner, hp, htext⟩ := stringBody_eq hs
    obtain ⟨tl, rfl⟩ := head?_eq_some_iff.1 hq
    have hraw : consumed (34 :: tl) rest' = 34 :: (inner ++ [34]) := by
      have : 34 :: tl = (34 :: (inner ++ [34])) ++ rest' := by
        rw [tail_cons] at hp
        simp [hp]
      rw [this, consumed_append]
    have hno := hplain.2.2 rfl
    rw [hraw] at hno ⊢
    simpa [jsonContent] using (htext (by simpa using hno)).symm
  · obtain ⟨rfl, rfl, rfl⟩ : .bool = kind ∧ ascii "true" = text ∧ p.drop 4 = rest := by simpa using h
    exact consumed_of_prefix ht
  · obtain ⟨rfl, rfl, rfl⟩ : .bool = kind ∧ ascii "false" = text ∧ p.drop 5 = rest := by simpa using h
    exact consumed_of_prefix hf
  · obtain ⟨rfl, rfl, rfl⟩ : .null = kind ∧ ascii "null" = text ∧ p.drop 4 = rest := by simpa using h
    exact consumed_of_prefix hn
  · obtain ⟨rfl, -, -⟩ : .object = kind ∧ [] = text ∧ skipJsonValue p = rest := by simpa using h
    exact absurd rfl hplain.1
  · simp only [Option.some.injEq, Prod.mk.injEq] at h
    obtain ⟨rfl, htext, rfl⟩ := h
    have hshort : (p.take (p.length - (skipJsonValue p).length)).length < maxValueLen := hplain.2.1 rfl
    rw [if_pos hshort] at htext
    exact htext
  · obtain ⟨⟨text', rest'⟩, hs, he⟩ := Option.map_eq_some_iff.1 h
    obtain ⟨rfl, rfl, rfl⟩ : .number = kind ∧ text' = text ∧ rest' = rest := by simpa using he
    simpa [jsonContent] using jsonContent_of_parseJsonNumber hs

/-! ### Members -/

/-- Where the value of the member at `p` starts. -/
def valueStart (p : Bytes) : Bytes :=
  match parseJsonString maxTokenLen p with
  | none => []
  | some (_, q) => skipWs (skipWs q).tail

/-- The members that the loop of `parse_json_object` reads, with the text of their values. -/
def rawMembers : (room : ℕ) → Bytes → List (JField × Bytes)
  | 0, _ => []
  | room + 1, p =>
    match parseMember (skipWs p) with
    | none => []
    | some (f, rest) =>
      (f, consumed (valueStart (skipWs p)) rest) ::
        if (skipWs rest).head? = some 44 then rawMembers room (skipWs rest).tail else []

def members (doc : Bytes) : List (JField × Bytes) :=
  if (parseJsonObject (cstr doc)).isSome then rawMembers maxFields (skipWs (cstr doc)).tail else []

def jsonField (name doc : Bytes) : Option JsonValue :=
  ((members doc).find? fun m => m.1.key = name).map fun m => ⟨m.1.kind, jsonContent m.1.kind m.2⟩

lemma eq_of_parseMember {p rest : Bytes} {f : JField} (h : parseMember p = some (f, rest)) :
    parseJsonValue (valueStart p) = some (f.kind, f.text, rest) := by
  obtain ⟨⟨key, q⟩, hs, h⟩ := Option.bind_eq_some_iff.1 h
  simp only [Option.ite_none_right_eq_some, Option.map_eq_some_iff] at h
  obtain ⟨-, ⟨kind, text, rest'⟩, hv, he⟩ := h
  obtain ⟨rfl, rfl⟩ : { key, kind, text } = f ∧ rest' = rest := by simpa using he
  rw [valueStart, hs]
  exact hv

lemma parseMember_close {p : Bytes} (h : p.head? = some 125) : parseMember p = none := by
  have : parseJsonString maxTokenLen p = none := by
    rw [parseJsonString, if_neg]
    rw [h]
    decide
  rw [parseMember, this]
  rfl

lemma eq_of_parseMembers {room : ℕ} {acc obj : JObject} {p : Bytes}
    (h : parseMembers room acc p = some obj) : obj = acc ++ (rawMembers room p).map Prod.fst := by
  induction room generalizing acc p with
  | zero =>
    rw [parseMembers] at h
    split_ifs at h
    simpa [rawMembers] using h.symm
  | succ room ih =>
    rw [parseMembers] at h
    by_cases hclose : (skipWs p).head? = some 125
    · rw [if_pos hclose] at h
      simpa [rawMembers, parseMember_close hclose] using h.symm
    rw [if_neg hclose] at h
    rcases hm : parseMember (skipWs p) with _ | ⟨f, rest⟩
    · rw [hm] at h
      cases h
    rw [hm] at h
    simp only at h
    rw [rawMembers, hm]
    by_cases hcomma : (skipWs rest).head? = some 44
    · rw [if_pos hcomma] at h
      simp [hcomma, ih h]
    · split_ifs at h
      simpa [hcomma] using h.symm

/-- Of a plain value of a document the validator keeps the content. -/
lemma jsonContent_of_mem_rawMembers {room : ℕ} {p : Bytes} {m : JField × Bytes}
    (h : m ∈ rawMembers room p) (hplain : Plain m.1.kind m.2) : jsonContent m.1.kind m.2 = m.1.text := by
  induction room generalizing p with
  | zero => simp [rawMembers] at h
  | succ room ih =>
    rw [rawMembers] at h
    rcases hm : parseMember (skipWs p) with _ | ⟨f, rest⟩
    · simp [hm] at h
    simp only [hm, mem_cons] at h
    rcases h with rfl | h
    · exact jsonContent_of_parseJsonValue (eq_of_parseMember hm) hplain
    · split_ifs at h
      · exact ih h
      · simp at h

lemma map_members {doc : Bytes} {obj : JObject} (h : parseJsonObject (cstr doc) = some obj) :
    obj = (members doc).map Prod.fst := by
  rw [members, h]
  rw [parseJsonObject] at h
  split_ifs at h
  simpa using eq_of_parseMembers h

end Validate
