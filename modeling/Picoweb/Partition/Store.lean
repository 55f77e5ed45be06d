import Picoweb.Partition.Owner
import Picoweb.Picowal.Db
import Picoweb.Http.Parse

/-!
# Record requests

The part of `dispatch_picowal` (`api.c`) that handles `PUT`, `POST` and `DELETE` of records: the split of
the path, the routing to the owner of the key, and what a node does with a request it keeps. The volume
is its map from keys to values; validation and failures of the volume come from outside.
-/

namespace Partition

open ByteFile ByteText Picowal Http Function

/-- The live records of a volume. -/
abbrev Volume := UInt32 → Option Bytes

/-! ### Paths -/

/-- `split_path` on what follows the route prefix: the collection, and the id if there is one. -/
def splitPath (p : Bytes) : Option (Bytes × Option Bytes) :=
  let coll := p.takeWhile (· ≠ 47)
  if coll = [] then none
  else
    match p.dropWhile (· ≠ 47) with
    | [] => some (coll, none)
    | [_] => some (coll, none)
    | _ :: id => if 47 ∈ id then none else some (coll, some id)

def parseU32Dec (s : Bytes) (max : ℕ) : Option ℕ := parseDec s max

def picowalPathToKey (coll id : Bytes) : Option UInt32 :=
  (parseU32Dec coll cardMax).bind fun card =>
    (parseU32Dec id 4194303).bind fun record => packKey (UInt16.ofNat card) (UInt32.ofNat record)

/-! ### Requests and answers -/

structure Request where
  method : HttpMethod
  path : Bytes
  body : Bytes := []
  tenant : Bytes := []
  deriving DecidableEq, Repr

structure Resp where
  status : ℕ
  text : String := ""
  deriving DecidableEq, Repr

/-- How a node refuses a write for reasons of its own: it runs as a read replica, or its engine is
read-only, full or failing. -/
inductive Fault
  | replica
  | readOnly
  | noSpace
  | io
  deriving DecidableEq, Repr

/-- `PWV_OP_*`. -/
inductive ValidateOp
  | put
  | post
  | delete
  deriving DecidableEq, Repr

inductive WriteError
  | inval
  | rofs
  | exist
  | noent
  | nospc
  | io
  deriving DecidableEq, Repr

/-- `picowal_validate_mutation` on the local volume: the status and text of a refusal, if any. -/
abbrev Validate := Volume → ValidateOp → UInt32 → UInt32 → Bytes → Option (ℕ × String)

def putKey (db : Volume) (fault : Option Fault) (key : UInt32) (body : Bytes) (createOnly : Bool) :
    Except WriteError Volume :=
  if body.length = 0 ∨ body.length > dataMax then .error .inval
  else if fault = some .readOnly then .error .rofs
  else if createOnly && (db key).isSome then .error .exist
  else
    match fault with
    | some .noSpace => .error .nospc
    | some _ => .error .io
    | none => .ok (update db key (some body))

def deleteKey (db : Volume) (fault : Option Fault) (key : UInt32) : Except WriteError Volume :=
  if fault = some .readOnly then .error .rofs
  else if (db key).isNone then .error .noent
  else
    match fault with
    | some .noSpace => .error .nospc
    | some _ => .error .io
    | none => .ok (update db key none)

/-- The response to a write error that all handlers share; `failed` is their text for the rest. -/
def writeErrorResp (failed : String) : WriteError → Resp
  | .rofs => ⟨503, "writes must go to the current primary\n"⟩
  | .nospc => ⟨507, "wal volume full\n"⟩
  | .exist => ⟨409, ""⟩
  | .noent => ⟨404, ""⟩
  | _ => ⟨500, failed⟩

/-! ### What a node does with a request it keeps -/

/-- The loop over random record ids; `none` is a draw that came up short. -/
def createRandom (db : Volume) (fault : Option Fault) (card : UInt16) (body : Bytes) :
    List (Option UInt32) → Resp × Volume
  | [] => (⟨500, "id gen retries exhausted\n"⟩, db)
  | none :: draws => createRandom db fault card body draws
  | some draw :: draws =>
    match packKey card (draw &&& 0x003fffff) with
    | none => createRandom db fault card body draws
    | some key =>
      match putKey db fault key body true with
      | .ok db' => (⟨201, ""⟩, db')
      | .error .exist => createRandom db fault card body draws
      | .error e => (writeErrorResp "wal write failed\n" e, db)

def mutate (validate : Validate) (db : Volume) (op : ValidateOp) (key : UInt32) (body : Bytes)
    (failed : String) (done : ℕ) (write : Except WriteError Volume) : Resp × Volume :=
  match validate db op (keyCard key) (keyRecord key) body with
  | some (status, text) => (⟨status, text⟩, db)
  | none =>
    match write with
    | .ok db' => (⟨done, ""⟩, db')
    | .error e => (writeErrorResp failed e, db)

def readReplica : Resp := ⟨503, "read replica: writes must go to the primary\n"⟩

/-- The switch of `dispatch_picowal`, for the methods that write. -/
def applyLocal (validate : Validate) (db : Volume) (fault : Option Fault)
    (draws : List (Option UInt32)) (req : Request) : Resp × Volume :=
  match splitPath req.path with
  | none => (⟨400, "invalid wal path\n"⟩, db)
  | some (coll, id) =>
    if fault = some .replica ∧ (req.method = .put ∨ req.method = .post ∨ req.method = .delete) then
      (readReplica, db)
    else
    match req.method, id with
    | .put, none => (⟨400, "missing record id\n"⟩, db)
    | .put, some id =>
      if req.body.length > dataMax then (⟨413, ""⟩, db)
      else
        match picowalPathToKey coll id with
        | none => (⟨400, "invalid card/record\n"⟩, db)
        | some key =>
          mutate validate db .put key req.body "wal write failed\n" 204 (putKey db fault key req.body false)
    | .post, none =>
      if req.body.length > dataMax then (⟨413, ""⟩, db)
      else
        match parseU32Dec coll cardMax with
        | none => (⟨400, "invalid card\n"⟩, db)
        | some card =>
          match validate db .post (UInt32.ofNat card) 0xffffffff req.body with
          | some (status, text) => (⟨status, text⟩, db)
          | none => createRandom db fault (UInt16.ofNat card) req.body (draws.take 32)
    | .post, some id =>
      if req.body.length > dataMax then (⟨413, ""⟩, db)
      else
        match picowalPathToKey coll id with
        | none => (⟨400, "invalid card/record\n"⟩, db)
        | some key =>
          mutate validate db .post key req.body "wal write failed\n" 201 (putKey db fault key req.body true)
    | .delete, none => (⟨400, "missing record id\n"⟩, db)
    | .delete, some id =>
      match picowalPathToKey coll id with
      | none => (⟨400, "invalid card/record\n"⟩, db)
      | some key =>
        mutate validate db .delete key [] "wal delete failed\n" 204 (deleteKey db fault key)
    | _, _ => (⟨405, ""⟩, db)

def recordKey (req : Request) : Option UInt32 :=
  match splitPath req.path with
  | some (coll, some id) => picowalPathToKey coll id
  | _ => none

/-- Where `dispatch_picowal` sends a request it does not keep: to the owner of the key, if that is
another node. -/
def route (cfg : Config) (self : NodeId) (req : Request) : Option NodeId :=
  if req.method = .put ∨ req.method = .post ∨ req.method = .delete then
    match recordKey req with
    | some key =>
      match cfg.ownerOf req.tenant key with
      | some owner => if owner = self then none else some owner
      | none => none
    | none => none
  else none

/-! ### What a kept request changes -/

section Local

variable {validate : Validate} {db db' : Volume} {fault : Option Fault} {body : Bytes} {key k : UInt32}

lemma putKey_ok {createOnly : Bool} (h : putKey db fault key body createOnly = .ok db') :
    db' = update db key (some body) := by
  unfold putKey at h
  split_ifs at h
  split at h <;> cases h
  rfl

lemma deleteKey_ok (h : deleteKey db fault key = .ok db') : db' = update db key none := by
  unfold deleteKey at h
  split_ifs at h
  split at h <;> cases h
  rfl

lemma deleteKey_noent (h : deleteKey db fault key = .error .noent) : db key = none := by
  unfold deleteKey at h
  split at h
  · cases h
  split at h
  · rename_i hnone
    exact Option.isNone_iff_eq_none.mp hnone
  · split at h <;> cases h

lemma eq_of_update_ne {v : Option Bytes} (h : update db key v k ≠ db k) : k = key := by
  by_contra hne
  exact h (update_of_ne hne v db)

/-- A validated write to `key` changes no other key. -/
lemma mutate_changes {op : ValidateOp} {failed : String} {done : ℕ} {write : Except WriteError Volume}
    (hw : ∀ db', write = .ok db' → ∃ v, db' = update db key v)
    (h : (mutate validate db op key body failed done write).2 k ≠ db k) : k = key := by
  unfold mutate at h
  split at h
  · exact absurd rfl h
  · split at h
    · obtain ⟨v, rfl⟩ := hw _ rfl
      exact eq_of_update_ne h
    · exact absurd rfl h

lemma createRandom_changes {card : UInt16} {draws : List (Option UInt32)}
    (h : (createRandom db fault card body draws).2 k ≠ db k) :
    ∃ draw, some draw ∈ draws ∧ packKey card (draw &&& 0x003fffff) = some k := by
  have hcons : ∀ {d : Option UInt32} {draws : List (Option UInt32)},
      (∃ draw, some draw ∈ draws ∧ packKey card (draw &&& 0x003fffff) = some k) →
      ∃ draw, some draw ∈ d :: draws ∧ packKey card (draw &&& 0x003fffff) = some k :=
    fun ⟨draw, hd, hk⟩ => ⟨draw, List.mem_cons_of_mem _ hd, hk⟩
  induction draws with
  | nil => exact absurd rfl h
  | cons d draws ih =>
    rcases d with _ | draw
    · exact hcons (ih h)
    · rw [createRandom] at h
      split at h
      · exact hcons (ih h)
      · rename_i key hkey
        split at h
        · rename_i db' hput
          rw [putKey_ok hput] at h
          exact ⟨draw, List.mem_cons_self, eq_of_update_ne h ▸ hkey⟩
        · exact hcons (ih h)
        · exact absurd rfl h

/-- Whatever a node keeps a request for, it changes the key that the request names, or one it drew
for it. -/
lemma applyLocal_changes {draws : List (Option UInt32)} {req : Request}
    (h : (applyLocal validate db fault draws req).2 k ≠ db k) :
    (recordKey req = some k ∧ (req.method = .put ∨ req.method = .post ∨ req.method = .delete)) ∨
      ∃ coll card draw, splitPath req.path = some (coll, none) ∧ req.method = .post ∧
        parseU32Dec coll cardMax = some card ∧ some draw ∈ draws ∧
        packKey (UInt16.ofNat card) (draw &&& 0x003fffff) = some k := by
  unfold applyLocal at h
  rcases hs : splitPath req.path with _ | ⟨coll, id⟩
  · exact absurd (by simp [hs]) h
  simp only [hs] at h
  by_cases hrep : fault = some .replica ∧ (req.method = .put ∨ req.method = .post ∨ req.method = .delete)
  · exact absurd (by simp [hrep]) h
  rw [if_neg hrep] at h
  -- a request that names a record and is written under its key
  have named : ∀ {id' key : _}, id = some id' → picowalPathToKey coll id' = some key →
      (req.method = .put ∨ req.method = .post ∨ req.method = .delete) → k = key →
      recordKey req = some k ∧ (req.method = .put ∨ req.method = .post ∨ req.method = .delete) := by
    rintro id' key rfl hkey hm rfl
    exact ⟨by rw [recordKey, hs]; exact hkey, hm⟩
  split at h
  · exact absurd rfl h
  · rename_i hm
    split_ifs at h
    · exact absurd rfl h
    · split at h
      · exact absurd rfl h
      · rename_i key hkey
        exact .inl (named rfl hkey (.inl hm) (mutate_changes (fun _ h => ⟨_, putKey_ok h⟩) h))
  · rename_i hm
    split_ifs at h
    · exact absurd rfl h
    · split at h
      · exact absurd rfl h
      · rename_i card hcard
        split at h
        · exact absurd rfl h
        · obtain ⟨draw, hd, hk⟩ := createRandom_changes h
          exact .inr ⟨coll, card, draw, rfl, hm, hcard, List.mem_of_mem_take hd, hk⟩
  · rename_i hm
    split_ifs at h
    · exact absurd rfl h
    · split at h
      · exact absurd rfl h
      · rename_i key hkey
        exact .inl (named rfl hkey (.inr (.inl hm)) (mutate_changes (fun _ h => ⟨_, putKey_ok h⟩) h))
  · exact absurd rfl h
  · rename_i hm
    split at h
    · exact absurd rfl h
    · rename_i key hkey
      exact .inl (named rfl hkey (.inr (.inr hm)) (mutate_changes (fun _ h => ⟨_, deleteKey_ok h⟩) h))
  · exact absurd rfl h

end Local

end Partition
