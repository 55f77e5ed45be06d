import Picoweb.Validate.Json
import Picoweb.Picowal.Records

/-!
# The rules of a schema

The lists and maps that a schema document holds as text, and the checks of one body against each of
them. A check answers with the status and the text of its refusal, or with nothing.
-/

namespace Validate

open ByteFile ByteText CString Picowal

abbrev recordMax : ℕ := 4194303
abbrev maxSchemaLen : ℕ := dataMax + 1

/-- The HTTP status and the message of a refused mutation. -/
abbrev Refusal := ℕ × String

/-! ### Lists and maps -/

def parseU16Dec (s : Bytes) (max : ℕ) : Option UInt16 := (parseDec s max).map UInt16.ofNat

def parseU32Dec (s : Bytes) (max : ℕ) : Option UInt32 := (parseDec s max).map UInt32.ofNat

def parseCsvList (csv : Bytes) (maxItems : ℕ) : List Bytes :=
  ((((tokens 44 (truncate maxSchemaLen csv)).map trim).filter (· ≠ [])).take maxItems).map (truncate maxTokenLen)

def listHasToken (list : List Bytes) (token : Bytes) : Bool := token ≠ [] && list.contains token

/-- The two sides of an assignment: it is cut at its first equals sign, or else at its first colon. -/
def splitAssign (tok : Bytes) : Option (Bytes × Bytes) :=
  ((cut 61 tok).orElse fun _ => cut 58 tok).map fun (k, v) => (trim k, trim v)

/-- `kv_map_t`. -/
structure KvMap where
  field : Bytes
  value : Bytes
  deriving DecidableEq, Repr

def parseAssignMap (text : Bytes) (maxItems : ℕ) : List KvMap :=
  (((tokens 59 (truncate maxSchemaLen text)).filterMap fun tok =>
    (splitAssign (trim tok)).filter fun (k, v) => k ≠ [] ∧ v ≠ []).take maxItems).map
    fun (k, v) => { field := truncate maxTokenLen k, value := truncate maxValueLen v }

/-- `join_map_t`. -/
structure JoinMap where
  targetPack : UInt16
  fkField : Bytes
  deriving DecidableEq, Repr

def parseJoin (tok : Bytes) : Option JoinMap :=
  (splitAssign (trim tok)).bind fun (p, f) =>
    (parseU16Dec p cardMax).bind fun target =>
      if f = [] then none else some { targetPack := target, fkField := truncate maxTokenLen f }

def parseJoinsMap (csv : Bytes) (maxItems : ℕ) : List JoinMap :=
  ((tokens 44 (truncate maxSchemaLen csv)).filterMap parseJoin).take maxItems

/-! ### Types of values -/

def isEmailLike (s : Bytes) : Bool :=
  match cut 64 s with
  | none => false
  | some (u, d) =>
    match cut 46 d with
    | none => false
    | some (h, t) => u ≠ [] && d ≠ [] && 64 ∉ d && h ≠ [] && t ≠ [] && !s.any isSpace

def parseNumberRecordId (f : JField) : Option UInt32 :=
  if f.kind = .number then parseU32Dec f.text recordMax else none

def parseJsonWholeInt (f : JField) : Option ℤ :=
  if f.kind ≠ .number ∨ 46 ∈ f.text ∨ 101 ∈ f.text ∨ 69 ∈ f.text then none
  else
    match strtoll f.text with
    | (v, rest, erange) => if rest ≠ [] ∨ erange then none else some v

def intInRange (f : JField) (lo hi : ℤ) : Bool :=
  match parseJsonWholeInt f with
  | none => false
  | some v => lo ≤ v && v ≤ hi

/-- The number of two digits at position `i`. -/
def twoDigits (s : Bytes) (i : ℕ) : ℕ := decimal ((s.drop i).take 2)

/-- Digits stand at each of the positions. -/
def digitsAt (s : Bytes) (is : List ℕ) : Bool := is.all fun i => (s[i]?).any isDigit

def isDateLike (s : Bytes) : Bool :=
  s.length = 10 && digitsAt s [0, 1, 2, 3, 5, 6, 8, 9] && s[4]? = some 45 && s[7]? = some 45 &&
    (1 ≤ twoDigits s 5 && twoDigits s 5 ≤ 12 && 1 ≤ twoDigits s 8 && twoDigits s 8 ≤ 31)

def isTimeLike (s : Bytes) : Bool :=
  (s.length = 5 || s.length = 8) && digitsAt s [0, 1, 3, 4] && s[2]? = some 58 &&
    (s.length = 5 || s[5]? = some 58 && digitsAt s [6, 7]) &&
    (twoDigits s 0 ≤ 23 && twoDigits s 3 ≤ 59 && (s.length = 5 || twoDigits s 6 ≤ 59))

def isDatetimeLike (s : Bytes) : Bool :=
  19 ≤ s.length && (s[10]? = some 84 || s[10]? = some 32) && isDateLike (s.take 10) && isTimeLike ((s.drop 11).take 8)

/-- The loop of `array_ints_in_range`; every round consumes a digit, so `fuel` is the length of the text. -/
def arrayItemsInRange (lo hi : ℤ) : (fuel : ℕ) → Bytes → Bool
  | 0, _ => false
  | fuel + 1, p =>
    let p := skipWs p
    match strtoll p with
    | (v, rest, erange) =>
      if rest = p ∨ erange then false
      else if v < lo ∨ hi < v then false
      else
        let q := skipWs rest
        if q.head? = some 44 then arrayItemsInRange lo hi fuel (skipWs q.tail)
        else q.head? = some 93

def arrayIntsInRange (raw : Bytes) (lo hi : ℤ) : Bool :=
  if raw.head? ≠ some 91 then false
  else
    let p := skipWs raw.tail
    if p.head? = some 93 then true else arrayItemsInRange lo hi p.length p

def isBase64Byte (b : UInt8) : Bool :=
  isDigit b || (65 ≤ b && b ≤ 90) || (97 ≤ b && b ≤ 122) || b = 43 || b = 47

def isBase64Like (s : Bytes) : Bool :=
  let pad := s.dropWhile (· ≠ 61)
  s.length % 4 = 0 && (s.takeWhile (· ≠ 61)).all isBase64Byte && pad.all (· = 61) && pad.length ≤ 2

/-- Whether a value is of the type that a schema names; nothing when there is no such type. -/
def hasType (f : JField) (expect : Bytes) : Option Bool :=
  if expect = ascii "string" then some (f.kind = .string)
  else if expect = ascii "number" ∨ expect = ascii "integer" ∨ expect = ascii "decimal" then
    some (f.kind = .number)
  else if expect = ascii "bool" ∨ expect = ascii "boolean" then some (f.kind = .bool)
  else if expect = ascii "object" then some (f.kind = .object)
  else if expect = ascii "array" then some (f.kind = .array)
  else if expect = ascii "ascii" then some (f.kind = .string && f.text.all (· ≤ 0x7f))
  else if expect = ascii "utf8" then some (f.kind = .string)
  else if expect = ascii "uint8" then some (intInRange f 0 255)
  else if expect = ascii "uint16" then some (intInRange f 0 65535)
  else if expect = ascii "uint32" then some (intInRange f 0 4294967295)
  else if expect = ascii "int8" then some (intInRange f (-128) 127)
  else if expect = ascii "int16" then some (intInRange f (-32768) 32767)
  else if expect = ascii "int32" then some (intInRange f (-2147483648) 2147483647)
  else if expect = ascii "date" then some (f.kind = .string && isDateLike f.text)
  else if expect = ascii "time" then some (f.kind = .string && isTimeLike f.text)
  else if expect = ascii "datetime" then some (f.kind = .string && isDatetimeLike f.text)
  else if expect = ascii "array_u16" then some (f.kind = .array && arrayIntsInRange f.text 0 65535)
  else if expect = ascii "blob" then
    some (f.kind = .string && isBase64Like f.text || f.kind = .array && arrayIntsInRange f.text 0 255)
  else if expect = ascii "lookup" then some (intInRange f 0 recordMax)
  else none

/-! ### Checks of a body -/

/-- The first refusal of a check of each item in turn. -/
def firstRefusal {α : Type*} (items : List α) (check : α → Option Refusal) : Option Refusal :=
  items.findSome? check

def validateOneFieldType (f : JField) (expect : Bytes) : Option Refusal :=
  match hasType f expect with
  | none => some (500, "schema has unsupported type")
  | some false => some (400, "field type mismatch")
  | some true => none

def validateFieldTypes (body : JObject) (types : List KvMap) (nullable : List Bytes) : Option Refusal :=
  firstRefusal types fun t =>
    match jsonObjectGet body t.field with
    | none => none
    | some f =>
      let expect := trim (truncate maxTokenLen t.value)
      let marked := 1 < expect.length ∧ expect.getLast? = some 63
      let expect := if marked then expect.dropLast else expect
      if f.kind = .null ∧ (marked ∨ listHasToken nullable t.field) then none
      else validateOneFieldType f expect

/-- The number of elements that `validate_max_lengths` counts in the text of an array. -/
def arrayCount (raw : Bytes) : ℕ :=
  let p := skipWs raw.tail
  if p.head? = some 93 then 0 else 1 + p.count 44

def validateMaxLengths (body : JObject) (maxLengths : List KvMap) : Option Refusal :=
  firstRefusal maxLengths fun m =>
    match jsonObjectGet body m.field with
    | none => none
    | some f =>
      if f.kind = .null then none
      else
        match strtoll m.value with
        | (maxLen, rest, erange) =>
          if rest ≠ [] ∨ erange ∨ maxLen < 0 then none
          else if f.kind = .string then
            if maxLen < f.text.length then some (400, "field exceeds max length") else none
          else if f.kind = .array then
            if f.text.head? ≠ some 91 then some (400, "array too large to validate max length")
            else if maxLen < arrayCount f.text then some (400, "field exceeds max length")
            else none
          else none

/-- `load_record_json`: the text of a record, in a buffer of `PWV_MAX_SCHEMA_LEN` bytes. -/
def loadRecordJson (db : Records) (packId : UInt16) (recordId : UInt32) : Option Bytes :=
  (packKey packId recordId).bind fun key => (db.getKey key dataMax).map cstr

/-- What the record holds now, when it can be read. -/
def oldObject (db : Records) (packId : UInt16) (recordId : UInt32) : Option JObject :=
  (loadRecordJson db packId recordId).bind parseJsonObject

/-- Whether `validate_readonly_fields` takes the new value of a field for the old one. -/
def sameValue (old : Option JField) (new : JField) : Bool :=
  match old with
  | none => new.kind = .null
  | some old => old.kind = new.kind && old.text = new.text

def validateReadonlyFields (db : Records) (packId : UInt16) (recordId : UInt32) (isPut : Bool)
    (body : JObject) (readonly : List Bytes) : Option Refusal :=
  if readonly = [] ∨ !isPut ∨ recordId.toNat > recordMax then none
  else
    match oldObject db packId recordId with
    | none => none
    | some old =>
      firstRefusal readonly fun name =>
        match jsonObjectGet body name with
        | none => none
        | some new =>
          if sameValue (jsonObjectGet old name) new then none else some (409, "field is read-only")

def validateJoinRefs (db : Records) (body : JObject) (joins : List JoinMap) : Option Refusal :=
  firstRefusal joins fun j =>
    match jsonObjectGet body j.fkField with
    | none => none
    | some fk =>
      if fk.kind = .null then none
      else
        match parseNumberRecordId fk with
        | none => some (400, "lookup field must be numeric")
        | some ref =>
          match packKey j.targetPack ref with
          | none => some (400, "invalid lookup target")
          | some key => if db.existsKey key then none else some (409, "lookup value does not exist")

/-- The two states of one alternative of a transition rule. -/
def splitTransition (tok : Bytes) : Option (Bytes × Bytes) :=
  (cut 62 (trim tok)).map fun (a, b) => (trim a, trim b)

def transitionAllowed (mapping source target : Bytes) : Bool :=
  (tokens 124 (truncate maxSchemaLen mapping)).any fun tok =>
    splitTransition tok = some (source, target)

def validateTransitions (db : Records) (packId : UInt16) (recordId : UInt32) (body : JObject)
    (transitions : List KvMap) : Option Refusal :=
  if recordId.toNat > recordMax ∨ transitions = [] then none
  else
    match oldObject db packId recordId with
    | none => none
    | some old =>
      firstRefusal transitions fun t =>
        match jsonObjectGet old t.field, jsonObjectGet body t.field with
        | some oldf, some newf =>
          if oldf.kind = .null ∨ newf.kind = .null then none
          else if oldf.kind ≠ .string ∨ newf.kind ≠ .string then
            some (400, "transition fields must be strings")
          else if oldf.text = newf.text then none
          else if transitionAllowed t.value oldf.text newf.text then none
          else some (409, "transition not allowed")
        | _, _ => none

/-- `regcomp` and `regexec` on a pattern and a text: nothing when the pattern does not compile. -/
abbrev Regex := Bytes → Bytes → Option Bool

def validateRegexRules (regex : Regex) (body : JObject) (regexes : List KvMap) : Option Refusal :=
  firstRefusal regexes fun r =>
    match jsonObjectGet body r.field with
    | none => none
    | some f =>
      if f.kind = .null then none
      else if f.kind ≠ .string then some (400, "regex field must be string")
      else
        match regex r.value f.text with
        | none => some (500, "invalid regex in schema")
        | some false => some (400, "regex validation failed")
        | some true => none

end Validate
