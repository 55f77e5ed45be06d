import Picoweb.Validate.Mutation
import Picoweb.Lib.Run

/-!
# References

A join of a schema makes a field of one pack a reference to another. Writes check the reference and
deletes look for records that refer to what they delete. A write skips the joins of a schema that lists
no fields, and a delete looks at the first 4096 schemas and the first 4096 records of a pack only. Where
neither happens, no reference ever dangles.
-/

namespace Validate

open ByteFile ByteText CString Picowal

variable {regex : Regex} {db : Records} {child parent : UInt16} {field : Bytes} {schema : JObject}
  {m : Mutation}

/-- The joins of a schema make `field` a reference to `parent`. -/
def Declares (schema : JObject) (parent : UInt16) (field : Bytes) : Prop :=
  ∃ text n, schemaText schema "joins" = some text ∧ ⟨parent, field⟩ ∈ parseJoinsMap text n

/-- Each record of `child` whose `field` is a number refers to a record of `parent`. -/
def Resolves (db : Records) (child parent : UInt16) (field : Bytes) : Prop :=
  ∀ record v obj f, db.get child record = some v → parseJsonObject (cstr v) = some obj →
    jsonObjectGet obj field = some f → f.kind = .number →
    ∃ ref, parseNumberRecordId f = some ref ∧ (db.get parent ref).isSome

/-- The schema makes the code look at the join: it lists fields, the join is among the first 64, and
neither pack is a system pack. -/
structure Enforced (schema : JObject) (child parent : UInt16) (field : Bytes) : Prop where
  fields : allowedFields schema ≠ []
  listed : ∀ text, schemaText schema "joins" = some text → ⟨parent, field⟩ ∈ parseJoinsMap text maxFields
  child_checked : isSystemPack child = false
  parent_checked : isSystemPack parent = false

/-- When a parent is deleted, the scans have room for every schema and every child. -/
def Covered (child parent : UInt16) (db : Records) (m : Mutation) : Prop :=
  ∀ record, m = .delete parent record → (db.liveRecords packSchema).length ≤ maxRecordsScan ∧
      (db.liveRecords child).length ≤ maxRecordsScan

/-! ### What an accepted mutation has passed -/

lemma loadRecordJson_eq (db : Records) (pack : UInt16) (record : UInt32) :
    loadRecordJson db pack record = ((db.get pack record).filter fun v => v.length ≤ dataMax).map cstr := by
  rw [loadRecordJson, Records.get]
  cases packKey pack record with
  | none | some => rfl

variable {pack : UInt16} {record : UInt32}

lemma loadRecordJson_of_get {v : Bytes} (h : db.get pack record = some v) (hlen : v.length ≤ dataMax) :
    loadRecordJson db pack record = some (cstr v) := by
  rw [loadRecordJson_eq, h]
  simp [hlen]

lemma oldObject_congr {db' : Records} (h : db'.get pack record = db.get pack record) :
    oldObject db' pack record = oldObject db pack record := by
  rw [oldObject, oldObject, loadRecordJson_eq, loadRecordJson_eq, h]

lemma isSome_get {key : UInt32} (hk : packKey pack record = some key) :
    (db.get pack record).isSome = db.existsKey key := by
  rw [Records.get_of_packKey hk, Records.existsKey]

lemma ne_packSchema (h : isSystemPack pack = false) : pack ≠ packSchema := by
  rintro rfl
  exact absurd h (by decide)

/-- A mutation that leaves a value has had its body validated. -/
lemma validateWrite_of_stored {live : Bool} {body : Bytes} (hsys : isSystemPack m.pack = false)
    (hr : m.refusal regex db = none) (hs : m.stored live = some (some body)) :
    ∃ record isPut, validateWrite regex db m.pack record isPut body = none := by
  cases m with
  | put pack id b | post pack id b | create pack id b =>
    obtain ⟨-, rfl⟩ : _ ∧ b = body := by simpa [Mutation.stored] using hs
    simp only [Mutation.pack] at hsys
    simp only [Mutation.refusal, picowalValidateMutation, hsys] at hr
    exact ⟨_, _, hr⟩
  | delete pack record => simp [Mutation.stored] at hs

/-- A mutation that leaves nothing is a delete that no reference has blocked. -/
lemma validateDeleteRefs_of_stored {live : Bool} (hsys : isSystemPack m.pack = false)
    (hr : m.refusal regex db = none) (hs : m.stored live = some none) :
    m = .delete m.pack m.target ∧ validateDeleteRefs db m.pack m.target = none := by
  cases m with
  | put pack id b | post pack id b | create pack id b => simp [Mutation.stored] at hs
  | delete pack record =>
    simp only [Mutation.pack] at hsys
    exact ⟨rfl, by simpa [Mutation.refusal, Mutation.pack, Mutation.target, picowalValidateMutation, hsys] using hr⟩

/-- A body that passes the joins refers to a record that is there. -/
lemma exists_of_validateJoinRefs {body : JObject} {joins : List JoinMap} {f : JField}
    (h : validateJoinRefs db body joins = none) (hj : ⟨parent, field⟩ ∈ joins)
    (hf : jsonObjectGet body field = some f) (hnum : f.kind = .number) :
    ∃ ref, parseNumberRecordId f = some ref ∧ (db.get parent ref).isSome := by
  have hcheck := firstRefusal_eq_none.1 h _ hj
  simp only [hf, hnum] at hcheck
  rcases href : parseNumberRecordId f with _ | ref
  · simp [href] at hcheck
  rcases hk : packKey parent ref with _ | key
  · simp [href, hk] at hcheck
  refine ⟨ref, rfl, ?_⟩
  rw [isSome_get hk]
  by_contra hno
  simp [href, hk, hno] at hcheck

/-! ### The invariant -/

/-- The schema stands, each child can be read again, and each reference resolves. -/
structure Intact (schema : JObject) (child parent : UInt16) (field : Bytes) (db : Records) : Prop where
  schema_eq : oldObject db packSchema child.toUInt32 = some schema
  bounded : ∀ record v, db.get child record = some v → v.length ≤ dataMax
  resolves : Resolves db child parent field

/-- A write outside the system cards leaves the schema. -/
lemma Intact.schema_write (h : Intact schema child parent field db) {key : UInt32} {v : Option Bytes}
    (hsys : isSystemPack m.pack = false) (hk : packKey m.pack m.target = some key) :
    oldObject (db.write key v) packSchema child.toUInt32 = some schema := by
  rw [← h.schema_eq]
  apply oldObject_congr
  rw [Records.get_write hk, if_neg]
  rintro ⟨hpack, -⟩
  exact ne_packSchema hsys hpack.symm

section Steps

variable (hd : Declares schema parent field) (he : Enforced schema child parent field)
include hd he

/-- No reference blocks a delete that has been accepted, provided that the scans were complete. -/
lemma reference_ne_of_validateDeleteRefs (h : Intact schema child parent field db)
    {target : UInt32} (hdel : validateDeleteRefs db parent target = none)
    (hscan : (db.liveRecords packSchema).length ≤ maxRecordsScan ∧ (db.liveRecords child).length ≤ maxRecordsScan)
    {v : Bytes} (hv : db.get child record = some v) :
    reference db child record field ≠ some target := by
  obtain ⟨text, -, htext, -⟩ := hd
  -- the schema of the child is among the schemas that the delete looks at
  obtain ⟨json, hjson, -⟩ := Option.bind_eq_some_iff.1 h.schema_eq
  rw [loadRecordJson_eq] at hjson
  obtain ⟨doc, hdoc, -⟩ := Option.map_eq_some_iff.1 hjson
  have hget : db.get packSchema child.toUInt32 = some doc := (Option.filter_eq_some_iff.1 hdoc).1
  have hmem := Records.mem_listRecords hscan.1 hget
  have hcard : child.toNat ≤ cardMax := by
    obtain ⟨key, hk, -⟩ := Option.bind_eq_some_iff.1 hv
    exact (packKey_eq_some.1 hk).1
  have hback : child.toUInt32.toUInt16 = child := by simp
  have hpass : ¬ (child.toUInt32.toNat > cardMax ∨ isSystemPack child.toUInt32.toUInt16) := by
    rw [hback, he.child_checked]
    simpa using hcard
  have hjoins := firstRefusal_eq_none.1 hdel _ hmem
  rw [if_neg hpass, hback, h.schema_eq] at hjoins
  -- and so is the record, under the join
  have hblocked := firstRefusal_eq_none.1 (rule_eq_none hjoins htext) _ (he.listed text htext)
  simp only [ne_eq] at hblocked
  intro href
  have := firstRefusal_eq_none.1 hblocked _ (Records.mem_listRecords hscan.2 hv)
  rw [if_pos href] at this
  cases this

lemma Intact.write (h : Intact schema child parent field db) {body : Bytes} {key : UInt32} {live : Bool}
    (hsys : isSystemPack m.pack = false) (hr : m.refusal regex db = none) (hk : packKey m.pack m.target = some key)
    (hs : m.stored live = some (some body)) : Intact schema child parent field (db.write key (some body)) := by
  obtain ⟨id, isPut, hvalid⟩ := validateWrite_of_stored hsys hr hs
  obtain ⟨hlen, obj, hobj, hpass⟩ := passed_of_validateWrite hvalid
  have hkeep : ∀ ref, (db.get parent ref).isSome → ((db.write key (some body)).get parent ref).isSome := by
    intro ref href
    rw [Records.get_write hk]
    split_ifs
    · rfl
    · exact href
  refine ⟨?_, ?_, ?_⟩
  · exact h.schema_write hsys hk
  · intro record v hv
    rw [Records.get_write hk] at hv
    split_ifs at hv with hat
    · obtain rfl : body = v := by simpa using hv
      exact hlen
    · exact h.bounded record v hv
  · intro record v obj' f hv hobj' hf hnum
    rw [Records.get_write hk] at hv
    split_ifs at hv with hat
    · -- the record just written: its joins have been checked
      obtain rfl : body = v := by simpa using hv
      rw [hobj, Option.some.injEq] at hobj'
      subst hobj'
      obtain ⟨text, -, htext, -⟩ := hd
      have hp := hpass schema (hat.1 ▸ h.schema_eq) he.fields
      obtain ⟨ref, href, hex⟩ :=
        exists_of_validateJoinRefs (hp.joins text htext) (he.listed text htext) hf hnum
      exact ⟨ref, href, hkeep ref hex⟩
    · obtain ⟨ref, href, hex⟩ := h.resolves record v obj' f hv hobj' hf hnum
      exact ⟨ref, href, hkeep ref hex⟩

lemma Intact.delete (h : Intact schema child parent field db) {key : UInt32} {live : Bool}
    (hsys : isSystemPack m.pack = false) (hcov : Covered child parent db m)
    (hr : m.refusal regex db = none) (hk : packKey m.pack m.target = some key)
    (hs : m.stored live = some none) : Intact schema child parent field (db.write key none) := by
  obtain ⟨hm, hdel⟩ := validateDeleteRefs_of_stored hsys hr hs
  have hold : ∀ record v, (db.write key none).get child record = some v → db.get child record = some v := by
    intro record v hv
    rw [Records.get_write hk] at hv
    split_ifs at hv
    exact hv
  refine ⟨?_, ?_, ?_⟩
  · exact h.schema_write hsys hk
  · intro record v hv
    exact h.bounded record v (hold record v hv)
  · intro record v obj f hv hobj hf hnum
    obtain ⟨ref, href, hex⟩ := h.resolves record v obj f (hold record v hv) hobj hf hnum
    refine ⟨ref, href, ?_⟩
    rw [Records.get_write hk, if_neg]
    · exact hex
    · rintro ⟨rfl, rfl⟩
      -- the record refers to what is deleted, so the delete would have been refused
      refine reference_ne_of_validateDeleteRefs hd he h hdel (hcov _ hm) (hold record v hv) ?_
      rw [reference, oldObject, loadRecordJson_of_get (hold record v hv) (h.bounded _ _ (hold record v hv))]
      simp [hobj, hf, href]

lemma Intact.step (h : Intact schema child parent field db) (hm : m.pack = child ∨ m.pack = parent)
    (hcov : Covered child parent db m) : Intact schema child parent field (step regex db m) := by
  have hsys : isSystemPack m.pack = false := by
    rcases hm with hm | hm
    · rw [hm, he.child_checked]
    · rw [hm, he.parent_checked]
  obtain hid | ⟨key, v, hr, hk, hs, hstep⟩ := step_cases regex db m
  · rwa [hid]
  · rw [hstep]
    cases v with
    | some body => exact h.write hd he hsys hr hk hs
    | none => exact h.delete hd he hsys hcov hr hk hs

end Steps

/-! ### Runs -/

/-- A volume that holds nothing but a schema of pack 10. -/
def withSchema (doc : Bytes) : Records := Records.write HashChains.Table.empty 8388618 (some doc)

lemma get_withSchema (doc : Bytes) {card : UInt16} (h : card ≠ packSchema) (record : UInt32) :
    (withSchema doc).get card record = none := by
  have hk : packKey packSchema 10 = some 8388618 := by decide
  rw [withSchema, Records.get_write hk, if_neg fun hc => h hc.1, Records.get]
  cases packKey card record with
  | none | some => rfl

/-- No pattern compiles. -/
def noRegex : Regex := fun _ _ => none

/-- Pack 10 refers to pack 11 with its field `p`. -/
def joinedSchema : Bytes := ascii "\x7b\"fields\":\"p\",\"joins\":\"11=p\"\x7d"

/-- The same schema without its list of fields. -/
def bareSchema : Bytes := ascii "\x7b\"joins\":\"11=p\"\x7d"

def refersToFive : Bytes := ascii "\x7b\"p\":5\x7d"

/-- From a volume without children, as long as the schema makes the code look at the join and the
scans of the deletes are complete, every reference resolves. -/
theorem references_resolve (regex : Regex) {db : Records} {child parent : UInt16} {field : Bytes}
    {schema : JObject} (hschema : oldObject db packSchema child.toUInt32 = some schema)
    (hd : Declares schema parent field) (he : Enforced schema child parent field)
    (hempty : ∀ record, db.get child record = none) {ms : List Mutation}
    (hm : ∀ m ∈ ms, m.pack = child ∨ m.pack = parent) (hcov : Run.Guarded (step regex) (Covered child parent) db ms) :
    Resolves (ms.foldl (step regex) db) child parent field := by
  have h₀ : Intact schema child parent field db := by
    refine ⟨hschema, ?_, ?_⟩
    · intro record v hv
      rw [hempty] at hv
      cases hv
    · intro record v obj f hv
      rw [hempty] at hv
      cases hv
  have hrun : Intact schema child parent field (ms.foldl (step regex) db) := by
    refine (hcov.and_mem hm).invariant ?_ h₀
    rintro db m h ⟨hcov, hpack⟩
    exact h.step hd he hpack hcov
  exact hrun.resolves

/-- What the code reads of `joinedSchema`. -/
def joinedObject : JObject :=
  [⟨ascii "fields", .string, ascii "p"⟩, ⟨ascii "joins", .string, ascii "11=p"⟩]

/-- A parent, a child that refers to it, and a delete of the parent that is refused. -/
theorem references_resolve_refused_delete :
    Resolves ([.put 11 5 (ascii "\x7b\x7d"), .put 10 1 refersToFive, .delete 11 5].foldl
      (step noRegex) (withSchema joinedSchema)) 10 11 (ascii "p") := by
  have htext : schemaText joinedObject "joins" = some (ascii "11=p") := by decide +kernel
  have hschema : oldObject (withSchema joinedSchema) packSchema (UInt16.toUInt32 10) = some joinedObject := by
    decide +kernel
  have henforced : Enforced joinedObject 10 11 (ascii "p") := by
    refine ⟨by decide +kernel, ?_, by decide, by decide⟩
    intro text h
    obtain rfl : ascii "11=p" = text := by rwa [htext, Option.some.injEq] at h
    decide +kernel
  refine references_resolve noRegex hschema ⟨_, 64, htext, by decide +kernel⟩ henforced
    (get_withSchema _ (by decide)) (by simp [Mutation.pack]) ⟨?_, ?_, ?_, trivial⟩
  · simp [Covered]
  · simp [Covered]
  · intro _ _
    decide +kernel

/-- A schema without a list of fields lets a child refer to a parent that is not there. -/
theorem dangling_reference_accepted :
    oldObject (withSchema bareSchema) packSchema 10 = some [⟨ascii "joins", .string, ascii "11=p"⟩] ∧
    Declares [⟨ascii "joins", .string, ascii "11=p"⟩] 11 (ascii "p") ∧
    (∀ record, (withSchema bareSchema).get 10 record = none ∧ (withSchema bareSchema).get 11 record = none) ∧
    ¬ Resolves ([.put 10 1 refersToFive].foldl (step noRegex) (withSchema bareSchema)) 10 11 (ascii "p") := by
  refine ⟨by decide +kernel, ⟨ascii "11=p", 64, by decide +kernel, by decide +kernel⟩, ?_, ?_⟩
  · intro record
    exact ⟨get_withSchema _ (by decide) record, get_withSchema _ (by decide) record⟩
  intro h
  obtain ⟨ref, href, hex⟩ := h 1 refersToFive [⟨ascii "p", .number, ascii "5"⟩]
    ⟨ascii "p", .number, ascii "5"⟩ (by decide +kernel) (by decide +kernel) (by decide +kernel) rfl
  have h5 : parseNumberRecordId ⟨ascii "p", .number, ascii "5"⟩ = some 5 := by decide +kernel
  rw [h5, Option.some.injEq] at href
  subst href
  revert hex
  decide +kernel

end Validate
