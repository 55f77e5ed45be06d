import Picoweb.Query.Parse
import Picoweb.Lib.Asking
import Picoweb.Validate.References

/-!
# Resolving a query

The part of `picowal_query_run` before the execution: the packs of the `F:` line are looked up by name and
the fields of the others are checked against the schemas. All of it is a program over calls to
the database, which it makes one at a time and without a lock between them.
-/

namespace Query

open ByteFile ByteText CString Picowal Asking
open Validate (loadRecordJson packUsers packNames packSchema)

abbrev scanLimit : ℕ := 4096

/-- The calls to the database that resolve a query: the records of pack 1, one of them, and the
record of pack 2 for a pack. -/
inductive SchemaCall
  | listNames
  | getName (record : UInt32)
  | getSchema (packId : UInt16)
  deriving DecidableEq, Repr

abbrev SchemaCall.Answer : SchemaCall → Type
  | listNames => List UInt32
  | getName _ => Option Bytes
  | getSchema _ => Option Bytes

def answer (db : Records) : (c : SchemaCall) → c.Answer
  | .listNames => db.listRecords packNames scanLimit
  | .getName record => loadRecordJson db packNames record
  | .getSchema packId => loadRecordJson db packSchema packId.toUInt32

abbrev Resolver (R : Type) := Prog SchemaCall SchemaCall.Answer R

def listNames : Resolver (List UInt32) := Prog.call SchemaCall.listNames

def getName (record : UInt32) : Resolver (Option Bytes) := Prog.call (SchemaCall.getName record)

def getSchema (packId : UInt16) : Resolver (Option Bytes) := Prog.call (SchemaCall.getSchema packId)

def parseU16Dec (s : Bytes) (max : ℕ) : Option UInt16 := Validate.parseU16Dec s max

/-- The pack that a record of the name registry gives to a name. -/
def namedPack (token : Bytes) (record : UInt32) (doc : Bytes) : Option UInt16 :=
  match jsonGetField doc (ascii "name") with
  | some ⟨.string, name⟩ =>
    if EqIgnoreCase name token then
      let mapped := match jsonGetField doc (ascii "pack") with
        | some ⟨.number, text⟩ => parseU16Dec text cardMax
        | _ => none
      match mapped with
      | some packId => some packId
      | none => if record.toNat ≤ cardMax then some record.toUInt16 else none
    else none
  | _ => none

/-- The loop of `resolve_pack_token` over the records of the name registry. -/
def findName (token : Bytes) : List UInt32 → Resolver (Option UInt16)
  | [] => pure none
  | record :: records => do
    match (← getName record).bind (namedPack token record) with
    | some packId => pure (some packId)
    | none => findName token records

def resolvePackToken (token : Bytes) : Resolver (Option UInt16) :=
  match parseU16Dec token cardMax with
  | some packId => pure (some packId)
  | none => do findName token (← listNames)

def resolveFroms : List Bytes → Resolver (Except String (List UInt16))
  | [] => pure (.ok [])
  | token :: tokens => do
    match ← resolvePackToken token with
    | none => pure (.error "FROM pack not found")
    | some packId =>
      if packId = packUsers then pure (.error "query access to users pack denied")
      else
        match ← resolveFroms tokens with
        | .error e => pure (.error e)
        | .ok ids => pure (.ok (packId :: ids))

/-! ### Fields -/

def fromIndex (q : Pwq) (pack : Bytes) : Option ℕ :=
  if pack = [] then some 0 else q.froms.findIdx? (· = pack)

def csvHasToken (csv token : Bytes) : Bool :=
  token ≠ [] && ((tokens 44 (truncate 256 csv)).map trim).contains token

/-- What a schema says about a field; without a list of fields it allows each. -/
def schemaAllows (field : Bytes) (schema : Option Bytes) : Bool :=
  match schema.bind fun doc => jsonGetField doc (ascii "fields") with
  | some ⟨.string, fields⟩ => csvHasToken fields field
  | _ => true

def schemaAllowsField (packId : UInt16) (field : Bytes) : Resolver Bool := do
  pure (schemaAllows field (← getSchema packId))

/-- The loops over the predicates and over the selected fields. -/
def checkFields (q : Pwq) (noPack noField : String) : List (Bytes × Bytes) → Resolver (Option String)
  | [] => pure none
  | (pack, field) :: rest =>
    match fromIndex q pack with
    | none => pure (some noPack)
    | some i => do
      if ← schemaAllowsField (q.fromIds.getD i 0) field then checkFields q noPack noField rest
      else pure (some noField)

def resolveQuery (q : Pwq) : Resolver (Except String Pwq) := do
  match ← resolveFroms q.froms with
  | .error e => pure (.error e)
  | .ok ids =>
    let q := { q with fromIds := ids }
    match ← checkFields q "WHERE pack not in FROM" "WHERE field not in schema"
        (q.wheres.map fun w => (w.pack, w.field)) with
    | some e => pure (.error e)
    | none =>
      match ← checkFields q "SELECT pack not in FROM" "SELECT field not in schema"
          (q.selects.map fun s => (s.pack, s.field)) with
      | some e => pure (.error e)
      | none => pure (.ok q)

def resolveText (text : Bytes) : Resolver (Except String Pwq) :=
  match parseQuery text with
  | .error e => pure (.error e)
  | .ok q => resolveQuery q

def resolution (db : Records) (text : Bytes) : Except String Pwq := (resolveText text).run (answer db)

/-- A write outside of packs 1 and 2 changes no answer. -/
lemma answer_write {key : UInt32} (h : keyCard key ≠ 1 ∧ keyCard key ≠ 2) (db : Records)
    (v : Option Bytes) : answer (db.write key v) = answer db := by
  have hnames : keyCard key ≠ packNames.toUInt32 := h.1
  have hschema : keyCard key ≠ packSchema.toUInt32 := h.2
  funext c
  cases c with
  | listNames => exact Records.listRecords_write hnames v scanLimit
  | getName record =>
    simp only [answer, Validate.loadRecordJson_eq, Records.get_write_of_card_ne hnames]
  | getSchema packId =>
    simp only [answer, Validate.loadRecordJson_eq, Records.get_write_of_card_ne hschema]

end Query
