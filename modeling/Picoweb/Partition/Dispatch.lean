import Picoweb.Partition.Store

/-!
# The picowal API

`dispatch_picowal` and `dispatch_picowal_pack_record` (`api.c`): the routes under the prefix, the checks of
credentials on the way to them, and what each does to the records of the node. Routes that only read
answer from outside the model, and so do the login routes, which touch nothing but the session table.
-/

namespace Partition

open ByteFile ByteText Picowal Http

/-- A request as `api_dispatch` hands it over; the path is what follows the route prefix. -/
structure ApiRequest extends Request where
  pwAuthHeader : Bool := false
  writeToken : Bytes := []
  cookie : Bytes := []
  partitionHop : Bool := false
  deriving DecidableEq, Repr

structure ApiConfig where
  /-- `g_oidc_cookie_auth` -/
  cookieAuth : Bool
  /-- `g_write_token` -/
  writeToken : Bytes
  self : NodeId
  /-- The cluster, where `picowal_partition_enabled`. -/
  cluster : Option Config
  proxyMode : Bool

/-- What the handling of a request meets with. -/
structure Env where
  /-- `auth_require_cookie`: the cookie names a live session. -/
  session : Bytes → Bool
  fault : Option Fault := none
  draws : List (Option UInt32) := []
  /-- The answer of the owner to a proxied request. -/
  proxied : Resp := ⟨502, ""⟩
  /-- The answer of a route that only reads. -/
  readAnswer : Volume → ApiRequest → Resp := fun _ _ => ⟨200, ""⟩

/-- The outcome of a request on the node: `fanOut` tells that the change goes to the other nodes before
the answer is sent. -/
structure Handled where
  resp : Resp
  db : Volume
  fanOut : Bool := false

/-- `auth_require_cookie` behind the `X-PW-Auth` header: the refusal, if any. -/
def requireCookie (env : Env) (req : ApiRequest) : Option Resp :=
  if req.pwAuthHeader = false then some ⟨403, "missing X-PW-Auth header\n"⟩
  else if env.session req.cookie then none
  else some ⟨401, ""⟩

/-- The check at the head of every route but the login routes. -/
def cookieGate (cfg : ApiConfig) (env : Env) (req : ApiRequest) : Option Resp :=
  if cfg.cookieAuth then requireCookie env req else none

/-- `api_require_pw_auth`: the refusal, if any. -/
def requirePwAuth (cfg : ApiConfig) (env : Env) (req : ApiRequest) : Option Resp :=
  if cfg.cookieAuth then requireCookie env req
  else if cfg.writeToken = [] then
    some ⟨503, "raw picowal writes are disabled: configure --picowal-write-token " ++
      "or enable --oidc-cookie-auth\n"⟩
  else if req.writeToken = [] ∨ req.writeToken ≠ cfg.writeToken then
    some ⟨401, "missing or invalid X-PW-Write-Token header\n"⟩
  else none

/-! ### Metadata records -/

def Mutates (req : ApiRequest) : Prop := req.method = .put ∨ req.method = .post ∨ req.method = .delete
deriving Decidable

def metadataKey (metaPack : UInt16) (packId : ℕ) : Option UInt32 := packKey metaPack (UInt32.ofNat packId)

def metadataWriteError : WriteError → Resp
  | .rofs => readReplica
  | .exist => ⟨409, ""⟩
  | .nospc => ⟨507, "wal volume full\n"⟩
  | _ => ⟨500, "metadata write failed\n"⟩

def metadataDeleteError : WriteError → Resp
  | .noent => ⟨404, ""⟩
  | _ => ⟨500, "metadata delete failed\n"⟩

/-- `PUT` and `POST` of a metadata record. -/
def putMetadata (env : Env) (db : Volume) (req : ApiRequest) (key : UInt32) : Handled :=
  if env.fault = some .replica then ⟨readReplica, db, false⟩
  else if req.body.length = 0 ∨ req.body.length > dataMax then ⟨⟨413, ""⟩, db, false⟩
  else
    match putKey db env.fault key req.body (req.method = .post) with
    | .ok db' => ⟨⟨if req.method = .post then 201 else 204, ""⟩, db', true⟩
    | .error e => ⟨metadataWriteError e, db, false⟩

/-- `DELETE` of a metadata record. -/
def deleteMetadata (env : Env) (db : Volume) (key : UInt32) : Handled :=
  if env.fault = some .replica then ⟨readReplica, db, false⟩
  else
    match deleteKey db env.fault key with
    | .ok db' => ⟨⟨204, ""⟩, db', true⟩
    | .error e => ⟨metadataDeleteError e, db, false⟩

/-- The methods of `dispatch_picowal_pack_record` that write. -/
def mutateMetadata (env : Env) (db : Volume) (req : ApiRequest) (key : UInt32) : Handled :=
  if req.method = .delete then deleteMetadata env db key else putMetadata env db req key

/-- The check in front of a write to a metadata record: only pack 3 has one. -/
def metadataAuth (cfg : ApiConfig) (env : Env) (req : ApiRequest) (metaPack : UInt16) : Option Resp :=
  if metaPack = 3 then requirePwAuth cfg env req else none

/-- `dispatch_picowal_pack_record` up to the replication. -/
def packRecord (cfg : ApiConfig) (env : Env) (db : Volume) (req : ApiRequest) (metaPack : UInt16)
    (record : Bytes) : Handled :=
  match parseU32Dec record cardMax with
  | none => ⟨⟨400, "invalid metadata pack id\n"⟩, db, false⟩
  | some packId =>
    match metadataKey metaPack packId with
    | none => ⟨⟨400, "invalid metadata key\n"⟩, db, false⟩
    | some key =>
      if req.method = .get ∨ req.method = .head then ⟨env.readAnswer db req, db, false⟩
      else if Mutates req then
        match metadataAuth cfg env req metaPack with
        | some refusal => ⟨refusal, db, false⟩
        | none => mutateMetadata env db req key
      else ⟨⟨405, ""⟩, db, false⟩

/-! ### Routes -/

/-- The routes of `dispatch_picowal`. -/
inductive Route
  /-- `auth/login`, `auth/logout` and `auth/me` -/
  | auth
  /-- A metadata record: the pack it lies in and its id. -/
  | metadata (metaPack : UInt16) (record : Bytes)
  | badMetadata
  /-- The combined metadata, forms, lists, reports, dashboards, partitions and queries. -/
  | reads
  /-- A card, with or without a record. -/
  | card
  deriving DecidableEq, Repr

/-- What follows a fixed text in a longer path. -/
def after (text : String) (p : Bytes) : Option Bytes :=
  let n := (ascii text).length
  if n < p.length ∧ p.take n = ascii text then some (p.drop n) else none

def routeOf (p : Bytes) : Route :=
  if p = ascii "auth/login" ∨ p = ascii "auth/logout" ∨ p = ascii "auth/me" then .auth
  else
    match after "metadata/" p with
    | some mp =>
      match after "name/" mp, after "schema/" mp, after "permissions/" mp with
      | some record, _, _ => .metadata 1 record
      | none, some record, _ => .metadata 2 record
      | none, none, some record => .metadata 3 record
      | none, none, none => if 47 ∈ mp then .badMetadata else .reads
    | none =>
      if (after "forms/" p).isSome ∨ (after "list/" p).isSome ∨ p = ascii "report" ∨
          p = ascii "dashboard" ∨ p = ascii "partitions" then .reads
      else
        match after "schema/" p with
        | some record => .metadata 2 record
        | none => if p = ascii "query" then .reads else .card

/-- The part of `dispatch_picowal` behind `split_path`. -/
def cardRoute (cfg : ApiConfig) (validate : Validate) (env : Env) (db : Volume) (req : ApiRequest) : Handled :=
  match cfg.cluster.bind fun c => route c cfg.self req.toRequest with
  | some _ => ⟨if cfg.proxyMode then env.proxied else ⟨307, ""⟩, db, false⟩
  | none =>
    if (splitPath req.path).isSome ∧ (req.method = .get ∨ req.method = .head) then
      ⟨env.readAnswer db req, db, false⟩
    else
      let r := applyLocal validate db env.fault env.draws req.toRequest
      ⟨r.1, r.2, false⟩

def dispatchPicowal (cfg : ApiConfig) (validate : Validate) (env : Env) (db : Volume) (req : ApiRequest) : Handled :=
  if routeOf req.path = .auth then ⟨env.readAnswer db req, db, false⟩
  else
    match cookieGate cfg env req with
    | some refusal => ⟨refusal, db, false⟩
    | none =>
      match routeOf req.path with
      | .metadata metaPack record => packRecord cfg env db req metaPack record
      | .badMetadata => ⟨⟨400, "invalid metadata path\n"⟩, db, false⟩
      | .card => cardRoute cfg validate env db req
      | _ => ⟨env.readAnswer db req, db, false⟩

end Partition
