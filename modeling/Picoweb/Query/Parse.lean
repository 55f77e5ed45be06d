import Picoweb.Validate.Json
import Picoweb.Picowal.Records

/-!
# The text of a query

`parse_query` (`picowal_query.c`): the lines `S:`, `F:` and `W:` of a query, in tables of fixed size, and
`json_get_field`, the query engine's own reading of one member of a document.
-/

namespace Query

open ByteFile ByteText CString Picowal

abbrev maxSelect : ℕ := 16
abbrev maxWhere : ℕ := 8
abbrev maxFrom : ℕ := 4

/-- `pwq_op_t`. -/
inductive Op
  | eq
  | ne
  | gt
  | lt
  | ge
  | le
  | inList
  | notInList
  deriving DecidableEq, Repr

/-- `pwq_select_t`. -/
structure Select where
  pack : Bytes
  field : Bytes
  label : Bytes
  deriving DecidableEq, Repr

/-- `pwq_where_t`. -/
structure Where where
  pack : Bytes
  field : Bytes
  op : Op
  value : Bytes
  deriving DecidableEq, Repr

/-- `pwq_query_t`; the packs of `froms` have their ids in `fromIds` once they are resolved. -/
structure Pwq where
  froms : List Bytes := []
  fromIds : List UInt16 := []
  selectAll : Bool := false
  selects : List Select := []
  wheres : List Where := []
  deriving DecidableEq, Repr

/-! ### Lines -/

def parseOp (s : Bytes) : Op :=
  if s = ascii "==" then .eq
  else if s = ascii "!=" then .ne
  else if s = ascii ">" then .gt
  else if s = ascii "<" then .lt
  else if s = ascii ">=" then .ge
  else if s = ascii "<=" then .le
  else if EqIgnoreCase s (ascii "IN") then .inList
  else if EqIgnoreCase s (ascii "NI") then .notInList
  else .eq

/-- `split_dotted` into buffers of 32 bytes: the pack, empty without a dot, and the field. -/
def splitDotted (s : Bytes) : Bytes × Bytes :=
  match cut 46 s with
  | none => ([], truncate 32 s)
  | some (pack, field) => (truncate 32 pack, truncate 32 field)

def items (s : Bytes) : List Bytes := ((tokens 44 s).map trim).filter (· ≠ [])

def toSelect (tok : Bytes) : Select :=
  { pack := (splitDotted tok).1, field := (splitDotted tok).2, label := truncate 64 tok }

/-- The three parts of a predicate, cut at its first two bars. -/
def toWhere (p : Bytes) : Option Where :=
  (cut 124 p).bind fun (p, rest) =>
    (cut 124 rest).map fun (op, value) =>
      { pack := (splitDotted (trim p)).1
        field := (splitDotted (trim p)).2
        op := parseOp (trim op)
        value := truncate 64 (trim value) }

/-- The loop body of `parse_query`; a full table takes no more entries. -/
def parseLine (q : Pwq) (l : Bytes) : Pwq :=
  let l := trim l
  let p := l.drop 2
  if ascii "S:" <+: l then
    if trim p = ascii "*" then { q with selectAll := true }
    else
      let room := maxSelect - q.selects.length
      { q with selects := q.selects ++ ((items (trim p)).take room).map toSelect }
  else if ascii "F:" <+: l then
    { q with froms := q.froms ++ ((items p).take (maxFrom - q.froms.length)).map (truncate 32) }
  else if ascii "W:" <+: l then
    if q.wheres.length ≥ maxWhere then q else { q with wheres := q.wheres ++ (toWhere p).toList }
  else q

def parseQuery (text : Bytes) : Except String Pwq :=
  if text = [] then .error "empty query"
  else if text.length ≥ 1024 then .error "query too long"
  else
    let q := (tokens lf (text.map fun b => if b = cr then lf else b)).foldl parseLine {}
    if q.froms = [] then .error "missing FROM" else .ok q

/-! ### Members of a document -/

/-- `jval_kind_t` of a member that was found. -/
inductive JvalKind
  | string
  | number
  | bool
  | null
  | raw
  deriving DecidableEq, Repr

/-- `jval_t`; its buffer is as long as the longest record. -/
structure Jval where
  kind : JvalKind
  text : Bytes
  deriving DecidableEq, Repr

/-- `skip_json_value`: outside of strings and brackets a value ends at a comma or a closing brace only. -/
def skipJsonValue (p : Bytes) : Bytes :=
  let p := skipWs p
  if p.head? = some 34 then Validate.skipStringBody p.tail
  else if p.head? = some 123 then Validate.skipBrackets 123 125 false 0 p
  else if p.head? = some 91 then Validate.skipBrackets 91 93 false 0 p
  else p.dropWhile fun b => !(b = 44 || b = 125)

def unescape (b : UInt8) : UInt8 :=
  if b = 110 then 10 else if b = 114 then 13 else if b = 116 then 9 else b

/-- The loop of `parse_json_string_value`. -/
def stringValue : Bytes → Bytes
  | [] => []
  | [b] => if b = 34 then [] else [b]
  | b :: b' :: p =>
    if b = 34 then []
    else if b = 92 then unescape b' :: stringValue p
    else b :: stringValue (b' :: p)

/-- The loop over the bytes of a key, in a buffer of 64 bytes: the key, and what is left. -/
def keyBody : Bytes → Bytes → Bytes × Bytes
  | key, [] => (key, [])
  | key, [b] => if b = 34 ∨ key.length + 1 ≥ 64 then (key, [b]) else (key ++ [b], [])
  | key, b :: b' :: p =>
    if b = 34 ∨ key.length + 1 ≥ 64 then (key, b :: b' :: p)
    else if b = 92 then keyBody (key ++ [b']) p
    else keyBody (key ++ [b]) (b' :: p)

def readValue (p : Bytes) : Option Jval :=
  if p.head? = some 34 then some ⟨.string, stringValue p.tail⟩
  else if ascii "true" <+: p then some ⟨.bool, ascii "true"⟩
  else if ascii "false" <+: p then some ⟨.bool, ascii "false"⟩
  else if ascii "null" <+: p then some ⟨.null, ascii "null"⟩
  else if p.head? = some 91 ∨ p.head? = some 123 then
    some ⟨.raw, p.take (p.length - (skipJsonValue p).length)⟩
  else
    let n := p.takeWhile fun b => !(b = 44 || b = 125 || isSpace b)
    if n = [] then none else some ⟨.number, n⟩

/-- The loop of `json_get_field`; every round reads a quote, so `fuel` is the length of the document. -/
def findMember (field : Bytes) : (fuel : ℕ) → Bytes → Option Jval
  | 0, _ => none
  | fuel + 1, p =>
    let p := skipWs p
    if p.head? ≠ some 34 then none
    else
      match keyBody [] p.tail with
      | (key, p) =>
        if p.head? ≠ some 34 then none
        else
          let p := skipWs p.tail
          if p.head? ≠ some 58 then none
          else
            let p := skipWs p.tail
            if key = field then readValue p
            else
              let p := skipWs (skipJsonValue p)
              findMember field fuel (if p.head? = some 44 then p.tail else p)

def jsonGetField (json field : Bytes) : Option Jval :=
  let p := skipWs json
  if p.head? = some 123 then findMember field p.length p.tail else none

end Query
