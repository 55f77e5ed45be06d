import Picoweb.Lib.CString

/-!
# The validator's reading of a JSON object

`parse_json_object` (`picowal_validate.c`): one level of members, at most 64 of them, in buffers of fixed
size. A nested object leaves no text, and a nested array leaves its own text only when that is short.
A pointer into the text is what the text has from there on.
-/

namespace Validate

open ByteFile ByteText CString

abbrev maxFields : ℕ := 64
abbrev maxTokenLen : ℕ := 96
abbrev maxValueLen : ℕ := 512

/-- `jv_kind_t` of a member. -/
inductive JvKind
  | string
  | number
  | bool
  | null
  | object
  | array
  deriving DecidableEq, Repr

/-- `jfield_t`. -/
structure JField where
  key : Bytes
  kind : JvKind
  text : Bytes
  deriving DecidableEq, Repr

/-- `jobject_t`. -/
abbrev JObject := List JField

/-- The loop of `skip_json_string`, after the opening quote. -/
def skipStringBody : Bytes → Bytes
  | [] => []
  | [_] => []
  | b :: b' :: p =>
    if b = 92 then skipStringBody p
    else if b = 34 then b' :: p
    else skipStringBody (b' :: p)

/-- The loop of `skip_json_value` over a bracketed value. The strings that it hands to `skip_json_string`
are skipped in the state `inString`. -/
def skipBrackets (opening closing : UInt8) : (inString : Bool) → (depth : ℕ) → Bytes → Bytes
  | _, _, [] => []
  | true, _, [_] => []
  | true, depth, b :: b' :: p =>
    if b = 92 then skipBrackets opening closing true depth p
    else skipBrackets opening closing (b ≠ 34) depth (b' :: p)
  | false, depth, b :: p =>
    if b = 34 then skipBrackets opening closing true depth p
    else if b = opening then skipBrackets opening closing false (depth + 1) p
    else if b = closing then
      if depth = 1 then p else skipBrackets opening closing false (depth - 1) p
    else skipBrackets opening closing false depth p

/-- Where a number, or any other unquoted value, stops. -/
def isScalarEnd (b : UInt8) : Bool := b = 44 || b = 125 || b = 93 || isSpace b

/-- `skip_json_value`. -/
def skipJsonValue (p : Bytes) : Bytes :=
  let p := skipWs p
  if p.head? = some 34 then skipStringBody p.tail
  else if p.head? = some 123 then skipBrackets 123 125 false 0 p
  else if p.head? = some 91 then skipBrackets 91 93 false 0 p
  else p.dropWhile fun b => !isScalarEnd b

def unescape (b : UInt8) : UInt8 :=
  if b = 98 then 8
  else if b = 102 then 12
  else if b = 110 then 10
  else if b = 114 then 13
  else if b = 116 then 9
  else b

/-- The loop of `parse_json_string`: what is decoded so far, and the text that is left. -/
def stringBody (cap : ℕ) : Bytes → Bytes → Option (Bytes × Bytes)
  | _, [] => none
  | out, [b] => if b = 34 then some (out, []) else none
  | out, b :: b' :: p =>
    if b = 34 then some (out, b' :: p)
    else if out.length + 1 ≥ cap then none
    else if b = 92 then stringBody cap (out ++ [unescape b']) p
    else stringBody cap (out ++ [b]) (b' :: p)

def parseJsonString (cap : ℕ) (p : Bytes) : Option (Bytes × Bytes) :=
  if p.head? = some 34 then stringBody cap [] p.tail else none

def parseJsonNumber (cap : ℕ) (p : Bytes) : Option (Bytes × Bytes) :=
  let sign := if p.head? = some 45 ∨ p.head? = some 43 then p.take 1 else []
  let out := sign ++ (p.drop sign.length).takeWhile fun b => !isScalarEnd b
  if out.length ≥ cap ∨ out = [] ∨ out = [45] ∨ out = [43] then none
  else some (out, p.drop out.length)

/-- The value of a member: its kind, the text kept of it, and what follows it. -/
def parseJsonValue (p : Bytes) : Option (JvKind × Bytes × Bytes) :=
  if p.head? = some 34 then (parseJsonString maxValueLen p).map fun r => (.string, r)
  else if ascii "true" <+: p then some (.bool, ascii "true", p.drop 4)
  else if ascii "false" <+: p then some (.bool, ascii "false", p.drop 5)
  else if ascii "null" <+: p then some (.null, ascii "null", p.drop 4)
  else if p.head? = some 123 then some (.object, [], skipJsonValue p)
  else if p.head? = some 91 then
    let e := skipJsonValue p
    let raw := p.take (p.length - e.length)
    some (.array, if raw.length < maxValueLen then raw else [], e)
  else (parseJsonNumber maxValueLen p).map fun r => (.number, r)

def parseMember (p : Bytes) : Option (JField × Bytes) :=
  (parseJsonString maxTokenLen p).bind fun (key, p) =>
    let p := skipWs p
    if p.head? = some 58 then
      (parseJsonValue (skipWs p.tail)).map fun (kind, text, p) => ({ key, kind, text }, p)
    else none

/-- The loop of `parse_json_object`; `room` is the number of members it can still keep. -/
def parseMembers : (room : ℕ) → JObject → Bytes → Option JObject
  | 0, obj, p => if (skipWs p).head? = some 125 then some obj else none
  | room + 1, obj, p =>
    let p := skipWs p
    if p.head? = some 125 then some obj
    else
      match parseMember p with
      | none => none
      | some (f, p) =>
        let p := skipWs p
        if p.head? = some 44 then parseMembers room (obj ++ [f]) p.tail
        else if p.head? = some 125 then some (obj ++ [f])
        else none

def parseJsonObject (json : Bytes) : Option JObject :=
  let p := skipWs json
  if p.head? = some 123 then parseMembers maxFields [] p.tail else none

def jsonObjectGet (obj : JObject) (key : Bytes) : Option JField :=
  if key = [] then none else obj.find? fun f => f.key = key

end Validate
