import Picoweb.Validate.Rules
import Picoweb.Partition.Store

/-!
# Validation of a mutation

`picowal_validate_mutation`: a write is checked against the schema of its pack, a delete against the
records that refer to what it deletes. The records of the system packs are not checked at all.
-/

namespace Validate

open ByteFile ByteText CString Picowal
open Partition (ValidateOp)

abbrev packUsers : UInt16 := 0
abbrev packNames : UInt16 := 1
abbrev packSchema : UInt16 := 2
abbrev packPermissions : UInt16 := 3
abbrev maxRecordsScan : ℕ := 4096

def isSystemPack (packId : UInt16) : Bool :=
  packId = packUsers || packId = packNames || packId = packSchema || packId = packPermissions

/-- A nonempty string member of a schema. -/
def schemaText (schema : JObject) (name : String) : Option Bytes :=
  (jsonObjectGet schema (ascii name)).bind fun f =>
    if f.kind = .string ∧ f.text ≠ [] then some f.text else none

def rule (schema : JObject) (name : String) (check : Bytes → Option Refusal) : Option Refusal :=
  (schemaText schema name).bind check

def allowedFields (schema : JObject) : List Bytes :=
  match schemaText schema "fields" with
  | none => []
  | some text => parseCsvList text maxFields

def validateRequired (body : JObject) (required : List Bytes) : Option Refusal :=
  firstRefusal required fun name =>
    match jsonObjectGet body name with
    | none => some (400, "required field missing")
    | some f =>
      if f.kind = .null ∨ f.kind = .string ∧ f.text = [] then some (400, "required field missing")
      else none

def validateEmails (body : JObject) (emails : List Bytes) : Option Refusal :=
  firstRefusal emails fun name =>
    match jsonObjectGet body name with
    | none => none
    | some f =>
      if f.kind = .null then none
      else if f.kind ≠ .string ∨ !isEmailLike f.text then some (400, "email validation failed")
      else none

/-- The part of `validate_write` after the body and the schema have been read. -/
def validateObject (regex : Regex) (db : Records) (packId : UInt16) (recordId : UInt32) (isPut : Bool)
    (body schema : JObject) : Option Refusal :=
  let allowed := allowedFields schema
  if allowed = [] then none
  else
    firstRefusal [firstRefusal body fun f =>
        if listHasToken allowed f.key then none else some (400, "field not defined in schema"),
      rule schema "required" fun text => validateRequired body (parseCsvList text maxFields),
      rule schema "types" fun text =>
        validateFieldTypes body (parseAssignMap text maxFields)
          ((schemaText schema "nullable").elim [] fun t => parseCsvList t maxFields),
      rule schema "max_lengths" fun text => validateMaxLengths body (parseAssignMap text maxFields),
      rule schema "readonly" fun text =>
        validateReadonlyFields db packId recordId isPut body (parseCsvList text maxFields),
      rule schema "email" fun text => validateEmails body (parseCsvList text maxFields),
      rule schema "regex" fun text => validateRegexRules regex body (parseAssignMap text maxFields),
      rule schema "joins" fun text => validateJoinRefs db body (parseJoinsMap text maxFields),
      rule schema "transitions" fun text =>
        validateTransitions db packId recordId body (parseAssignMap text maxFields)] id

def validateWrite (regex : Regex) (db : Records) (packId : UInt16) (recordId : UInt32) (isPut : Bool)
    (body : Bytes) : Option Refusal :=
  if body.length = 0 ∨ body.length > dataMax then some (400, "request body required")
  else
    match parseJsonObject (cstr body) with
    | none => some (400, "body must be a JSON object")
    | some obj =>
      match loadRecordJson db packSchema packId.toUInt32 with
      | none => none
      | some json =>
        match parseJsonObject json with
        | none => some (500, "schema document is invalid")
        | some schema => validateObject regex db packId recordId isPut obj schema

/-- The record that a field of a record refers to. -/
def reference (db : Records) (packId : UInt16) (recordId : UInt32) (field : Bytes) : Option UInt32 :=
  ((oldObject db packId recordId).bind fun obj => jsonObjectGet obj field).bind parseNumberRecordId

/-- The records of a child pack that refer to a record through one join. -/
def blockedBy (db : Records) (childPack : UInt16) (recordId : UInt32) (field : Bytes) : Option Refusal :=
  firstRefusal (db.listRecords childPack maxRecordsScan) fun k =>
    if reference db childPack k field = some recordId then
      some (409, "delete blocked by referential integrity")
    else none

def validateDeleteRefs (db : Records) (packId : UInt16) (recordId : UInt32) : Option Refusal :=
  firstRefusal (db.listRecords packSchema maxRecordsScan) fun childPackU32 =>
    if childPackU32.toNat > cardMax ∨ isSystemPack childPackU32.toUInt16 then none
    else
      match oldObject db packSchema childPackU32.toUInt16.toUInt32 with
      | none => none
      | some schema =>
        rule schema "joins" fun text =>
          firstRefusal (parseJoinsMap text maxFields) fun j =>
            if j.targetPack ≠ packId then none
            else blockedBy db childPackU32.toUInt16 recordId j.fkField

def picowalValidateMutation (regex : Regex) (db : Records) (packId : UInt16) (recordId : UInt32)
    (op : ValidateOp) (body : Bytes) : Option Refusal :=
  if isSystemPack packId then none
  else
    match op with
    | .put => validateWrite regex db packId recordId true body
    | .post => validateWrite regex db packId recordId false body
    | .delete => validateDeleteRefs db packId recordId

/-! ### Applying a mutation -/

/-- The record requests of `dispatch_picowal`. A `create` is a `POST` without a record id: it is validated
for the record id `UINT32_MAX` and then stored under one that is drawn. -/
inductive Mutation
  | put (pack : UInt16) (record : UInt32) (body : Bytes)
  | post (pack : UInt16) (record : UInt32) (body : Bytes)
  | create (pack : UInt16) (drawn : UInt32) (body : Bytes)
  | delete (pack : UInt16) (record : UInt32)
  deriving DecidableEq, Repr

namespace Mutation

def pack : Mutation → UInt16
  | put pack _ _ => pack
  | post pack _ _ => pack
  | create pack _ _ => pack
  | delete pack _ => pack

def target : Mutation → UInt32
  | put _ record _ => record
  | post _ record _ => record
  | create _ drawn _ => drawn &&& 0x003fffff
  | delete _ record => record

/-- What `picowal_validate_mutation` answers to a mutation. -/
def refusal (regex : Regex) (db : Records) : Mutation → Option Refusal
  | put pack record body => picowalValidateMutation regex db pack record .put body
  | post pack record body => picowalValidateMutation regex db pack record .post body
  | create pack _ body => picowalValidateMutation regex db pack 0xffffffff .post body
  | delete pack record => picowalValidateMutation regex db pack record .delete []

/-- The value that a mutation leaves in its record, if the engine takes it: `POST` only creates, and
only what is there is deleted. -/
def stored (live : Bool) : Mutation → Option (Option Bytes)
  | put _ _ body => if body.length = 0 ∨ body.length > dataMax then none else some (some body)
  | post _ _ body => if body.length = 0 ∨ body.length > dataMax ∨ live then none else some (some body)
  | create _ _ body => if body.length = 0 ∨ body.length > dataMax ∨ live then none else some (some body)
  | delete _ _ => if live then some none else none

end Mutation

/-- A mutation is applied when it is accepted. -/
def step (regex : Regex) (db : Records) (m : Mutation) : Records :=
  match m.refusal regex db, packKey m.pack m.target with
  | none, some key =>
    match m.stored (db.existsKey key) with
    | none => db
    | some v => db.write key v
  | _, _ => db

/-- A step changes nothing, or writes what an accepted mutation leaves in its record. -/
lemma step_cases (regex : Regex) (db : Records) (m : Mutation) :
    step regex db m = db ∨ ∃ key v, m.refusal regex db = none ∧
      packKey m.pack m.target = some key ∧ m.stored (db.existsKey key) = some v ∧
      step regex db m = db.write key v := by
  rw [step]
  rcases hr : m.refusal regex db with _ | r
  · rcases hk : packKey m.pack m.target with _ | key
    · exact .inl rfl
    · rcases hs : m.stored (db.existsKey key) with _ | v
      · exact .inl (by simp [hs])
      · exact .inr ⟨key, v, rfl, rfl, hs, by simp [hs]⟩
  · exact .inl rfl

lemma firstRefusal_eq_none {α : Type*} {items : List α} {check : α → Option Refusal} :
    firstRefusal items check = none ↔ ∀ a ∈ items, check a = none :=
  List.findSome?_eq_none_iff

lemma rule_eq_none {schema : JObject} {name : String} {check : Bytes → Option Refusal}
    (h : rule schema name check = none) {text : Bytes} (ht : schemaText schema name = some text) :
    check text = none := by
  rwa [rule, ht] at h

/-- What an accepted body has passed, as far as the later results need it. -/
structure Passed (db : Records) (packId : UInt16) (recordId : UInt32) (isPut : Bool)
    (body schema : JObject) : Prop where
  readonly : ∀ text, schemaText schema "readonly" = some text →
    validateReadonlyFields db packId recordId isPut body (parseCsvList text maxFields) = none
  joins : ∀ text, schemaText schema "joins" = some text →
    validateJoinRefs db body (parseJoinsMap text maxFields) = none
  transitions : ∀ text, schemaText schema "transitions" = some text →
    validateTransitions db packId recordId body (parseAssignMap text maxFields) = none

variable {regex : Regex} {db : Records} {packId : UInt16} {recordId : UInt32} {isPut : Bool}

lemma passed_of_validateObject {body schema : JObject} (hallowed : allowedFields schema ≠ [])
    (h : validateObject regex db packId recordId isPut body schema = none) :
    Passed db packId recordId isPut body schema := by
  rw [validateObject, if_neg hallowed, firstRefusal_eq_none] at h
  simp only [List.forall_mem_cons] at h
  obtain ⟨-, -, -, -, hreadonly, -, -, hjoins, htransitions, -⟩ := h
  exact ⟨fun _ => rule_eq_none hreadonly, fun _ => rule_eq_none hjoins, fun _ => rule_eq_none htransitions⟩

/-- An accepted write has a body that can be read, and passes the rules of a schema that lists
fields. -/
lemma passed_of_validateWrite {body : Bytes} (h : validateWrite regex db packId recordId isPut body = none) :
    body.length ≤ dataMax ∧ ∃ obj, parseJsonObject (cstr body) = some obj ∧
      ∀ schema, oldObject db packSchema packId.toUInt32 = some schema → allowedFields schema ≠ [] →
        Passed db packId recordId isPut obj schema := by
  rw [validateWrite] at h
  by_cases hlen : body.length = 0 ∨ body.length > dataMax
  · rw [if_pos hlen] at h
    cases h
  rw [if_neg hlen] at h
  push Not at hlen
  rcases hobj : parseJsonObject (cstr body) with _ | obj
  · rw [hobj] at h
    cases h
  refine ⟨hlen.2, obj, rfl, ?_⟩
  intro schema hschema hallowed
  obtain ⟨json, hjson, hparse⟩ := Option.bind_eq_some_iff.1 hschema
  simp only [hobj, hjson, hparse] at h
  exact passed_of_validateObject hallowed h

end Validate
