import Picoweb.Validate.References
import Picoweb.Validate.JsonText
import Picoweb.Lib.History

/-!
# The history of a record

A schema can fix a field of a record and restrict the changes of another. Each `PUT` is checked against
the document it replaces, but only what both documents hold: a field left out of one can come back with
any value, and values whose content the validator does not keep are all the same to it. Where no `PUT`
does so, the rules hold over the whole history of the record.
-/

namespace Validate

open ByteFile ByteText CString Picowal List Option

variable {regex : Regex} {db : Records} {pack : UInt16} {record : UInt32} {schema : JObject}
  {name doc body : Bytes}

/-- One `PUT` of the record. -/
def put (regex : Regex) (pack : UInt16) (record : UInt32) (db : Records) (body : Bytes) : Records :=
  step regex db (.put pack record body)

/-- The documents that the record holds in the states of a run. -/
def documents (regex : Regex) (pack : UInt16) (record : UInt32) (db : Records) (bodies : List Bytes) : List Bytes :=
  (Run.states (put regex pack record) db bodies).filterMap fun db => db.get pack record

/-- The string that a document holds in a field. -/
def stringValue (field doc : Bytes) : Option Bytes :=
  (jsonField field doc).bind fun v => if v.kind = .string then some v.content else none

/-! ### Rules -/

/-- The schema has a transition rule. -/
def HasTransition (schema : JObject) (t : KvMap) : Prop :=
  ∃ text n, schemaText schema "transitions" = some text ∧ t ∈ parseAssignMap text n

/-- The schema lists a field as read-only. -/
def IsReadonly (schema : JObject) (name : Bytes) : Prop :=
  ∃ text n, schemaText schema "readonly" = some text ∧ name ∈ parseCsvList text n

/-- The rules that the code reads. -/
def transitionRules (schema : JObject) : List KvMap :=
  (schemaText schema "transitions").elim [] fun text => parseAssignMap text maxFields

def readonlyFields (schema : JObject) : List Bytes :=
  (schemaText schema "readonly").elim [] fun text => parseCsvList text maxFields

/-- The code looks at every rule of the schema: it lists fields, there are no more than 64 rules of a
kind, and the pack is not a system pack. -/
structure Ruled (schema : JObject) (pack : UInt16) : Prop where
  fields : allowedFields schema ≠ []
  checked : isSystemPack pack = false
  transitions : ∀ t, HasTransition schema t → t ∈ transitionRules schema
  readonly : ∀ name, IsReadonly schema name → name ∈ readonlyFields schema

/-- The member of a document with a name. -/
def member (name doc : Bytes) : Option (JField × Bytes) :=
  (members doc).find? fun m => m.1.key = name

/-- What the validator finds under a name is the member of the document. -/
lemma jsonObjectGet_of_member {doc name : Bytes} {obj : JObject} {m : JField × Bytes}
    (h : parseJsonObject (cstr doc) = some obj) (hname : name ≠ []) (hm : member name doc = some m) :
    jsonObjectGet obj name = some m.1 := by
  rw [jsonObjectGet, if_neg hname, map_members h, find?_map]
  exact congrArg (Option.map Prod.fst) hm

/-- What the validator keeps of a field is its content. -/
def PlainAt (name doc : Bytes) : Prop := ∀ m, member name doc = some m → Plain m.1.kind m.2
deriving Decidable

def Unescaped (name doc : Bytes) : Prop :=
  ∀ m, member name doc = some m → m.1.kind = .string → Plain m.1.kind m.2
deriving Decidable

/-- The document can be read, no body leaves out what a rule is about, and what the rules are about
is kept by the validator. -/
structure Careful (schema : JObject) (pack : UInt16) (record : UInt32) (db : Records) (body : Bytes) :
    Prop where
  readable : ∃ doc, db.get pack record = some doc ∧ doc.length ≤ dataMax ∧ (parseJsonObject (cstr doc)).isSome
  transitions : ∀ t ∈ transitionRules schema, ∀ doc, db.get pack record = some doc →
    Unescaped t.field doc ∧ Unescaped t.field body ∧
      ((stringValue t.field doc).isSome → ∃ m, member t.field body = some m ∧ m.1.kind ≠ .null)
  readonly : ∀ name ∈ readonlyFields schema, ∀ doc, db.get pack record = some doc →
    PlainAt name doc ∧ PlainAt name body ∧ ((member name doc).isSome → (member name body).isSome)

instance (schema : JObject) (pack : UInt16) (record : UInt32) (db : Records) (body : Bytes) :
    Decidable (Careful schema pack record db body) :=
  decidable_of_iff (_ ∧ _ ∧ _) ⟨fun h => ⟨h.1, h.2.1, h.2.2⟩, fun h => ⟨h.readable, h.transitions, h.readonly⟩⟩

/-! ### One step -/

/-- What one document owes to the one before it. -/
structure Follows (schema : JObject) (doc doc' : Bytes) : Prop where
  transitions : ∀ t ∈ transitionRules schema, ∀ a, stringValue t.field doc = some a →
    ∃ b, stringValue t.field doc' = some b ∧ (a = b ∨ transitionAllowed t.value a b = true)
  readonly : ∀ name ∈ readonlyFields schema, ∀ v, jsonField name doc = some v → jsonField name doc' = some v

lemma Follows.refl (schema : JObject) (doc : Bytes) : Follows schema doc doc :=
  ⟨fun _ _ a ha => ⟨a, ha, .inl rfl⟩, fun _ _ _ hv => hv⟩

lemma truncate_ne_nil {cap : ℕ} (hcap : 1 < cap) {s : Bytes} (hs : s ≠ []) : truncate cap s ≠ [] := by
  cases s with
  | nil => exact absurd rfl hs
  | cons b s =>
    obtain ⟨n, rfl⟩ : ∃ n, cap = n + 2 := ⟨cap - 2, by omega⟩
    simp [truncate]

lemma ne_nil_of_mem_parseCsvList {text : Bytes} {n : ℕ} (h : name ∈ parseCsvList text n) : name ≠ [] := by
  obtain ⟨s, hs, rfl⟩ := mem_map.1 h
  have := mem_of_mem_take hs
  exact truncate_ne_nil (by decide) (by simpa using (mem_filter.1 this).2)

lemma field_ne_nil_of_mem_parseAssignMap {text : Bytes} {n : ℕ} {t : KvMap}
    (h : t ∈ parseAssignMap text n) : t.field ≠ [] := by
  obtain ⟨⟨k, v⟩, hs, rfl⟩ := mem_map.1 h
  obtain ⟨tok, -, htok⟩ := mem_filterMap.1 (mem_of_mem_take hs)
  have := (filter_eq_some_iff.1 htok).2
  exact truncate_ne_nil (by decide) (by simpa using (of_decide_eq_true this).1)

lemma jsonField_of_member {m : JField × Bytes} (h : member name doc = some m)
    (hplain : Plain m.1.kind m.2) : jsonField name doc = some ⟨m.1.kind, m.1.text⟩ := by
  have hmem : m ∈ rawMembers maxFields (skipWs (cstr doc)).tail := by
    have := mem_of_find?_eq_some h
    rw [members] at this
    split_ifs at this
    · exact this
    · simp at this
  have hfind : (members doc).find? (fun m => m.1.key = name) = some m := h
  rw [jsonField, hfind, map_some, jsonContent_of_mem_rawMembers hmem hplain]

lemma member_of_jsonField {v : JsonValue} (h : jsonField name doc = some v) : ∃ m, member name doc = some m := by
  obtain ⟨m, hm, -⟩ := map_eq_some_iff.1 h
  exact ⟨m, hm⟩

lemma stringValue_of_member {m : JField × Bytes} (h : member name doc = some m)
    (hplain : Unescaped name doc) (hkind : m.1.kind = .string) : stringValue name doc = some m.1.text := by
  rw [stringValue, jsonField_of_member h (hplain m h hkind)]
  simp [hkind]

lemma member_of_stringValue {a : Bytes} (h : stringValue name doc = some a) (hplain : Unescaped name doc) :
    ∃ m, member name doc = some m ∧ m.1.kind = .string ∧ m.1.text = a := by
  obtain ⟨v, hv, hs⟩ := bind_eq_some_iff.1 h
  obtain ⟨m, hm, rfl⟩ := map_eq_some_iff.1 hv
  have hkind : m.1.kind = .string := by
    by_contra hno
    simp [hno] at hs
  refine ⟨m, hm, hkind, ?_⟩
  have := stringValue_of_member hm hplain hkind
  rw [h, some.injEq] at this
  exact this.symm

/-- An accepted `PUT` follows the document it replaces. -/
lemma follows_of_passed {old obj : JObject} (hc : Careful schema pack record db body)
    (hrec : record.toNat ≤ recordMax) (hdoc : db.get pack record = some doc)
    (hold : oldObject db pack record = some old) (hparse : parseJsonObject (cstr doc) = some old)
    (hobj : parseJsonObject (cstr body) = some obj)
    (hp : Passed db pack record true obj schema) : Follows schema doc body := by
  constructor
  · intro t ht a ha
    obtain ⟨hdocPlain, hbodyPlain, hkeep⟩ := hc.transitions t ht doc hdoc
    obtain ⟨m, hm, hkind, htext⟩ := member_of_stringValue ha hdocPlain
    obtain ⟨m', hm', hnull⟩ := hkeep (by simp [ha])
    rcases hs : schemaText schema "transitions" with _ | text
    · simp [transitionRules, hs] at ht
    have ht' : t ∈ parseAssignMap text maxFields := by simpa [transitionRules, hs] using ht
    have hne := field_ne_nil_of_mem_parseAssignMap ht'
    have hall := hp.transitions text hs
    have hguard : ¬ (record.toNat > recordMax ∨ parseAssignMap text maxFields = []) := by
      rintro (h | h)
      · omega
      · simp [h] at ht'
    rw [validateTransitions, if_neg hguard, hold] at hall
    have hcheck := firstRefusal_eq_none.1 hall t ht'
    have hget := jsonObjectGet_of_member hparse hne hm
    have hget' := jsonObjectGet_of_member hobj hne hm'
    have hkind' : m'.1.kind = .string := by
      by_contra hno
      simp [hget, hget', hkind, hnull, hno] at hcheck
    refine ⟨m'.1.text, stringValue_of_member hm' hbodyPlain hkind', ?_⟩
    by_cases hsame : m.1.text = m'.1.text
    · exact .inl (htext.symm.trans hsame)
    · right
      by_contra hno
      rw [← htext] at hno
      simp [hget, hget', hkind, hkind', hsame, hno] at hcheck
  · intro name hname v hv
    obtain ⟨hdocPlain, hbodyPlain, hkeep⟩ := hc.readonly name hname doc hdoc
    obtain ⟨m, hm⟩ := member_of_jsonField hv
    obtain ⟨m', hm'⟩ := isSome_iff_exists.1 (hkeep (by simp [hm]))
    rcases hs : schemaText schema "readonly" with _ | text
    · simp [readonlyFields, hs] at hname
    have hname' : name ∈ parseCsvList text maxFields := by simpa [readonlyFields, hs] using hname
    have hne := ne_nil_of_mem_parseCsvList hname'
    have hall := hp.readonly text hs
    have hguard : ¬ (parseCsvList text maxFields = [] ∨ !true ∨ record.toNat > recordMax) := by
      rintro (h | h | h)
      · simp [h] at hname'
      · simp at h
      · omega
    rw [validateReadonlyFields, if_neg hguard, hold] at hall
    have hcheck := firstRefusal_eq_none.1 hall name hname'
    have hget := jsonObjectGet_of_member hparse hne hm
    have hget' := jsonObjectGet_of_member hobj hne hm'
    -- kind and text are the same, and they are the whole value
    have hsame : m.1.kind = m'.1.kind ∧ m.1.text = m'.1.text := by
      by_contra hno
      have : sameValue (some m.1) m'.1 = false := by simpa [sameValue] using hno
      simp [hget, hget', this] at hcheck
    rw [← hv, jsonField_of_member hm (hdocPlain m hm), jsonField_of_member hm' (hbodyPlain m' hm'), hsame.1, hsame.2]

/-- The document of the second state follows the document of the first. -/
def Succeeds (schema : JObject) (pack : UInt16) (record : UInt32) (db db' : Records) : Prop :=
  ∀ doc, db.get pack record = some doc → ∃ doc', db'.get pack record = some doc' ∧ Follows schema doc doc'

/-- A `PUT` leaves a document that follows the one before, and the schema as it is. -/
lemma succeeds_of_put (regex : Regex) (hr : Ruled schema pack)
    (hschema : oldObject db packSchema pack.toUInt32 = some schema) (hc : Careful schema pack record db body) :
    oldObject (put regex pack record db body) packSchema pack.toUInt32 = some schema ∧
      Succeeds schema pack record db (put regex pack record db body) := by
  obtain hid | ⟨key, v, hrefusal, hk, hs, hstep⟩ := step_cases regex db (.put pack record body)
  · rw [put, hid]
    exact ⟨hschema, fun doc hdoc => ⟨doc, hdoc, Follows.refl schema doc⟩⟩
  obtain ⟨hlen, rfl⟩ : _ ∧ some body = v := by simpa [Mutation.stored] using hs
  have hvalid : validateWrite regex db pack record true body = none := by
    simpa [Mutation.refusal, picowalValidateMutation, hr.checked] using hrefusal
  obtain ⟨-, obj, hobj, hpass⟩ := passed_of_validateWrite hvalid
  have hp := hpass schema hschema hr.fields
  rw [put, hstep]
  constructor
  · rw [← hschema]
    apply oldObject_congr
    rw [Records.get_write hk, if_neg]
    rintro ⟨hpack, -⟩
    exact ne_packSchema hr.checked hpack.symm
  · intro doc hdoc
    refine ⟨body, ?_, ?_⟩
    · rw [Records.get_write hk, if_pos ⟨rfl, rfl⟩]
    obtain ⟨doc', hdoc', hshort, hread⟩ := hc.readable
    obtain rfl : doc' = doc := by rwa [hdoc', some.injEq] at hdoc
    obtain ⟨old, hold⟩ := isSome_iff_exists.1 hread
    have hrec : record.toNat ≤ recordMax := by
      have := (packKey_eq_some.1 hk).2.2
      have hlt := toNat_keyRecord key
      simp only [Mutation.target] at this
      rw [this] at hlt
      simp only [recordMax]
      omega
    refine follows_of_passed hc hrec hdoc' ?_ hold hobj hp
    rw [oldObject, loadRecordJson_of_get hdoc' hshort, bind_some, hold]

/-! ### Runs -/

/-- Each document of a careful run follows the one before it. -/
lemma isChain_documents {bodies : List Bytes} (hr : Ruled schema pack)
    (hschema : oldObject db packSchema pack.toUInt32 = some schema)
    (hrun : Run.Guarded (put regex pack record) (Careful schema pack record) db bodies) :
    (documents regex pack record db bodies).IsChain (Follows schema) := by
  have hstates : (Run.states (put regex pack record) db bodies).IsChain (Succeeds schema pack record) := by
    refine hrun.isChain (P := fun db => oldObject db packSchema pack.toUInt32 = some schema) ?_ hschema
    intro db body h hc
    exact succeeds_of_put regex hr h hc
  have hdocs : (documents regex pack record db bodies).IsChain fun doc doc' =>
      doc = doc' ∨ Follows schema doc doc' := by
    apply Run.isChain_filterMap _ hstates
    intro db db' h doc hdoc
    obtain ⟨doc', hdoc', hf⟩ := h doc hdoc
    exact ⟨doc', hdoc', .inr hf⟩
  apply hdocs.imp
  rintro doc doc' (rfl | h)
  · exact Follows.refl schema doc
  · exact h

section Listed

variable {α : Type*} {l : List α} {k n : ℕ}

lemma take_subset_take (h : (l.take (k + 1)).length ≤ k) : l.take n ⊆ l.take k := by
  have hk : l.length ≤ k := by
    rw [length_take] at h
    omega
  rw [take_of_length_le hk]
  exact take_subset n l

end Listed

lemma ruled_of_length (hfields : allowedFields schema ≠ []) (hpack : isSystemPack pack = false)
    (ht : ∀ text, schemaText schema "transitions" = some text →
      (parseAssignMap text (maxFields + 1)).length ≤ maxFields)
    (hro : ∀ text, schemaText schema "readonly" = some text →
      (parseCsvList text (maxFields + 1)).length ≤ maxFields) : Ruled schema pack := by
  refine ⟨hfields, hpack, ?_, ?_⟩
  · rintro t ⟨text, n, htext, hmem⟩
    have hlen := ht text htext
    rw [parseAssignMap, length_map] at hlen
    simp only [transitionRules, htext]
    exact map_subset _ (take_subset_take hlen) hmem
  · rintro name ⟨text, n, htext, hmem⟩
    have hlen := hro text htext
    rw [parseCsvList, length_map] at hlen
    simp only [readonlyFields, htext]
    exact map_subset _ (take_subset_take hlen) hmem

/-- Along every run of `PUT`s that leave out nothing the rules are about: the successive distinct
strings of a field step along its transition rule, and a read-only field keeps its value. -/
theorem rules_hold_over_history (regex : Regex) {db : Records} {pack : UInt16} {record : UInt32}
    {schema : JObject} (hschema : oldObject db packSchema pack.toUInt32 = some schema)
    (hr : Ruled schema pack) {bodies : List Bytes}
    (hrun : Run.Guarded (put regex pack record) (Careful schema pack record) db bodies) :
    (∀ t, HasTransition schema t →
      (((documents regex pack record db bodies).filterMap (stringValue t.field)).destutter
        (· ≠ ·)).IsChain fun a b => transitionAllowed t.value a b = true) ∧
    (∀ name, IsReadonly schema name → (documents regex pack record db bodies).Pairwise fun doc doc' =>
        ∀ v, jsonField name doc = some v → jsonField name doc' = some v) := by
  have hchain := isChain_documents hr hschema hrun
  constructor
  · intro t ht
    apply Run.isChain_destutter_ne
    refine Run.isChain_filterMap ?_ hchain
    intro doc doc' h a ha
    exact h.transitions t (hr.transitions t ht) a ha
  · intro name hname
    let keeps (doc doc' : Bytes) : Prop := ∀ v, jsonField name doc = some v → jsonField name doc' = some v
    have : Trans keeps keeps keeps := ⟨fun h h' v hv => h' v (h v hv)⟩
    exact isChain_iff_pairwise.1 (hchain.imp fun doc doc' h => h.readonly name (hr.readonly name hname))

/-- Pack 10 has states in `s`, and fixes `k`. -/
def ruledSchema : Bytes :=
  ascii "\x7b\"fields\":\"s,k\",\"transitions\":\"s=a>b\",\"readonly\":\"k\"\x7d"

/-- What the code reads of `ruledSchema`. -/
def ruledObject : JObject :=
  [⟨ascii "fields", .string, ascii "s,k"⟩, ⟨ascii "transitions", .string, ascii "s=a>b"⟩,
    ⟨ascii "readonly", .string, ascii "k"⟩]

lemma schemaText_ruledObject : schemaText ruledObject "transitions" = some (ascii "s=a>b") ∧
    schemaText ruledObject "readonly" = some (ascii "k") := by
  decide +kernel

lemma ruled_ruledObject : Ruled ruledObject 10 := by
  obtain ⟨ht, hro⟩ := schemaText_ruledObject
  refine ruled_of_length (by decide +kernel) (by decide) ?_ ?_
  · intro text h
    obtain rfl : ascii "s=a>b" = text := by rwa [ht, some.injEq] at h
    decide +kernel
  · intro text h
    obtain rfl : ascii "k" = text := by rwa [hro, some.injEq] at h
    decide +kernel

/-- Record 1 of pack 10 with a first document. -/
def withRecord (doc : Bytes) : Records := (withSchema ruledSchema).write 41943041 (some doc)

lemma oldObject_withRecord (doc : Bytes) :
    oldObject (withRecord doc) packSchema (UInt16.toUInt32 10) = some ruledObject := by
  have hk : packKey 10 1 = some 41943041 := by decide
  have hget : (withRecord doc).get packSchema (UInt16.toUInt32 10) =
      (withSchema ruledSchema).get packSchema (UInt16.toUInt32 10) := by
    rw [withRecord, Records.get_write hk, if_neg (by decide)]
  rw [oldObject_congr hget]
  decide +kernel

/-- A step from `a` to `b` with the fixed field in place. -/
theorem rules_hold_over_one_put : (∀ t, HasTransition ruledObject t →
      (((documents noRegex 10 1 (withRecord (ascii "\x7b\"s\":\"a\",\"k\":1\x7d"))
        [ascii "\x7b\"s\":\"b\",\"k\":1\x7d"]).filterMap (stringValue t.field)).destutter
        (· ≠ ·)).IsChain fun a b => transitionAllowed t.value a b = true) ∧
    (∀ name, IsReadonly ruledObject name → (documents noRegex 10 1 (withRecord (ascii "\x7b\"s\":\"a\",\"k\":1\x7d"))
        [ascii "\x7b\"s\":\"b\",\"k\":1\x7d"]).Pairwise fun doc doc' =>
        ∀ v, jsonField name doc = some v → jsonField name doc' = some v) :=
  rules_hold_over_history noRegex (oldObject_withRecord _) ruled_ruledObject (by decide +kernel)

/-- The documents of a record that loses its state and comes back with another, while its fixed
field is replaced by another object. -/
def lostState : List Bytes :=
  documents noRegex 10 1 (withRecord (ascii "\x7b\"s\":\"a\",\"k\":\x7b\"x\":1\x7d\x7d"))
    [ascii "\x7b\"k\":\x7b\"x\":2\x7d\x7d", ascii "\x7b\"s\":\"c\",\"k\":\x7b\"x\":2\x7d\x7d"]

/-- The state goes from `a` to `c`, which is not listed, and the fixed field changes. -/
theorem unlisted_transition_accepted :
    HasTransition ruledObject ⟨ascii "s", ascii "a>b"⟩ ∧ IsReadonly ruledObject (ascii "k") ∧
    ¬ ((lostState.filterMap (stringValue (ascii "s"))).destutter (· ≠ ·)).IsChain
      (fun a b => transitionAllowed (ascii "a>b") a b = true) ∧
    lostState.map (jsonField (ascii "k")) =
      [some ⟨.object, ascii "\x7b\"x\":1\x7d"⟩, some ⟨.object, ascii "\x7b\"x\":2\x7d"⟩,
        some ⟨.object, ascii "\x7b\"x\":2\x7d"⟩] := by
  refine ⟨⟨_, 64, schemaText_ruledObject.1, ?_⟩, ⟨_, 64, schemaText_ruledObject.2, ?_⟩, ?_, ?_⟩
  · decide +kernel
  · decide +kernel
  · decide +kernel
  · decide +kernel

end Validate
