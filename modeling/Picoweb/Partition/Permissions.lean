import Picoweb.Lib.Run
import Picoweb.Partition.Dispatch

/-!
# Who changes the permissions pack

The records of pack 3 are behind `api_require_pw_auth` on their metadata route. The same records can be
named as card 3, and that route asks for credentials only where cookie authentication is on.
-/

namespace Partition

open ByteFile ByteText Picowal Http

structure ApiEvent where
  env : Env
  req : ApiRequest

def apiStep (cfg : ApiConfig) (validate : Validate) (db : Volume) (e : ApiEvent) : Volume :=
  (dispatchPicowal cfg validate e.env db e.req).db

def cardOf (p : Bytes) : Option ℕ := (splitPath p).bind fun c => parseU32Dec c.1 cardMax

/-- A write to the permissions pack as card 3. -/
def WritesCardThree (req : ApiRequest) : Prop :=
  routeOf req.path = .card ∧ Mutates req ∧ cardOf req.path = some 3

/-- Cookie authentication is on, or the request does not write card 3, or it carries the write token. -/
def TokenForCardThree (cfg : ApiConfig) (_ : Volume) (e : ApiEvent) : Prop :=
  cfg.cookieAuth = true ∨ ¬ WritesCardThree e.req ∨ (cfg.writeToken ≠ [] ∧ e.req.writeToken = cfg.writeToken)

def written (req : ApiRequest) : Option Bytes := if req.method = .delete then none else some req.body

/-- The outcome of a request for `key`: the key is written and the change goes on to the other nodes, or
nothing changes; a refused write has status 404 only where there was nothing to delete. -/
def Outcome (db : Volume) (req : ApiRequest) (key : UInt32) (h : Handled) : Prop :=
  (h.fanOut = true ∧ Mutates req ∧ h.db = Function.update db key (written req) ∧ h.resp.status < 400) ∨
    (h.fanOut = false ∧ h.db = db ∧
      (Mutates req → 400 ≤ h.resp.status ∧ (h.resp.status = 404 → db key = none)))

section Changes

variable {cfg : ApiConfig} {validate : Validate} {env : Env} {db : Volume} {req : ApiRequest}
  {k key : UInt32}

/-- The card of a key that was packed from a parsed card. -/
lemma toNat_keyCard_of_parsed {coll : Bytes} {card : ℕ} {record : UInt32}
    (hcard : parseU32Dec coll cardMax = some card)
    (hk : packKey (UInt16.ofNat card) record = some k) : (keyCard k).toNat = card := by
  have hle := parseDec_le hcard
  rw [(packKey_eq_some.mp hk).2.1, UInt16.toNat_toUInt32, UInt16.toNat_ofNat']
  simp only [cardMax] at hle
  omega

lemma Outcome.refused {r : Resp} (hle : 400 ≤ r.status) (hne : r.status ≠ 404) : Outcome db req key ⟨r, db, false⟩ :=
  .inr ⟨rfl, rfl, fun _ => ⟨hle, fun h => absurd h hne⟩⟩

lemma deleteMetadata_outcome (hm : req.method = .delete) : Outcome db req key (deleteMetadata env db key) := by
  unfold deleteMetadata
  split
  · exact .refused (by decide) (by decide)
  split
  · rename_i hdel
    exact .inl ⟨rfl, .inr (.inr hm), by rw [deleteKey_ok hdel, written, if_pos hm],
      (by decide : 204 < 400)⟩
  · rename_i err hdel
    by_cases he : err = .noent
    · subst he
      exact .inr ⟨rfl, rfl, fun _ => ⟨(by decide : 400 ≤ 404), fun _ => deleteKey_noent hdel⟩⟩
    · refine .refused ?_ ?_ <;> cases err <;> first | exact absurd rfl he | decide

lemma putMetadata_outcome (hm : req.method = .put ∨ req.method = .post) :
    Outcome db req key (putMetadata env db req key) := by
  have hmut : Mutates req := hm.imp_right .inl
  have hnd : req.method ≠ .delete := by rcases hm with h | h <;> simp [h]
  unfold putMetadata
  split
  · exact .refused (by decide) (by decide)
  split
  · exact .refused (by decide) (by decide)
  split
  · rename_i hput
    refine .inl ⟨rfl, hmut, by rw [putKey_ok hput, written, if_neg hnd], ?_⟩
    dsimp only
    split_ifs <;> decide
  · rename_i err _
    refine .refused ?_ ?_ <;> cases err <;> decide

lemma mutateMetadata_outcome (hm : Mutates req) : Outcome db req key (mutateMetadata env db req key) := by
  rw [mutateMetadata]
  split
  · rename_i hdel
    exact deleteMetadata_outcome hdel
  · rename_i hdel
    exact putMetadata_outcome (by simpa [Mutates, hdel] using hm)

lemma Outcome.of_ne {h : Handled} (ho : Outcome db req key h) {k : UInt32} (hk : k ≠ key) : h.db k = db k := by
  rcases ho with ⟨-, -, hdb, -⟩ | ⟨-, hdb, -⟩
  · rw [hdb, Function.update_of_ne hk]
  · rw [hdb]

/-- A metadata route changes a record of its own pack, and one of pack 3 only behind the check. -/
lemma packRecord_changes {metaPack : UInt16} {record : Bytes}
    (h : (packRecord cfg env db req metaPack record).db k ≠ db k) :
    keyCard k = metaPack.toUInt32 ∧ (metaPack = 3 → requirePwAuth cfg env req = none) := by
  unfold packRecord at h
  split at h
  · exact absurd rfl h
  split at h
  · exact absurd rfl h
  rename_i hkey
  split at h
  · exact absurd rfl h
  split at h
  · rename_i hm
    split at h
    · exact absurd rfl h
    · rename_i hauth
      obtain rfl := not_imp_comm.1 (mutateMetadata_outcome hm).of_ne h
      refine ⟨(packKey_eq_some.mp hkey).2.1, fun hpack => ?_⟩
      rwa [metadataAuth, if_pos hpack] at hauth
  · exact absurd rfl h

/-- The card route changes a record of the card that the path names. -/
lemma cardRoute_changes (h : (cardRoute cfg validate env db req).db k ≠ db k) :
    Mutates req ∧ cardOf req.path = some (keyCard k).toNat := by
  unfold cardRoute at h
  split at h
  · exact absurd rfl h
  split at h
  · exact absurd rfl h
  rcases applyLocal_changes h with ⟨hkey, hm⟩ | ⟨coll, card, draw, hs, hm, hcard, -, hk⟩
  · refine ⟨hm, ?_⟩
    simp only [recordKey] at hkey
    split at hkey
    · rename_i coll id hs
      simp only [picowalPathToKey, Option.bind_eq_some_iff] at hkey
      obtain ⟨card, hcard, record, -, hk⟩ := hkey
      simp only [cardOf, hs, Option.bind_some, hcard, toNat_keyCard_of_parsed hcard hk]
    · cases hkey
  · refine ⟨.inr (.inl hm), ?_⟩
    simp only [cardOf, hs, Option.bind_some, hcard, toNat_keyCard_of_parsed hcard hk]

/-- Every change lies behind the cookie gate, and is made by a metadata route or the card route. -/
lemma dispatchPicowal_changes (h : (dispatchPicowal cfg validate env db req).db k ≠ db k) :
    cookieGate cfg env req = none ∧ ((∃ metaPack : UInt16, keyCard k = metaPack.toUInt32 ∧
          (metaPack = 3 → requirePwAuth cfg env req = none)) ∨
        (routeOf req.path = .card ∧ Mutates req ∧ cardOf req.path = some (keyCard k).toNat)) := by
  unfold dispatchPicowal at h
  split at h
  · exact absurd rfl h
  split at h
  · exact absurd rfl h
  rename_i hgate
  refine ⟨hgate, ?_⟩
  split at h
  · exact .inl ⟨_, packRecord_changes h⟩
  · exact absurd rfl h
  · rename_i hroute
    exact .inr ⟨hroute, cardRoute_changes h⟩
  · exact absurd rfl h

lemma requirePwAuth_of_gate (hcookie : cfg.cookieAuth = true) (h : cookieGate cfg env req = none) :
    requirePwAuth cfg env req = none := by
  rw [cookieGate, if_pos hcookie] at h
  rw [requirePwAuth, if_pos hcookie, h]

lemma requirePwAuth_of_token (hcookie : cfg.cookieAuth = false) (htoken : cfg.writeToken ≠ [])
    (heq : req.writeToken = cfg.writeToken) : requirePwAuth cfg env req = none := by
  simp [requirePwAuth, hcookie, heq, htoken]

end Changes

variable {cfg : ApiConfig} {validate : Validate}

/-- One request that meets the condition changes pack 3 with credentials only. -/
lemma apiStep_permissions {db : Volume} {e : ApiEvent} (hguard : TokenForCardThree cfg db e) {key : UInt32}
    (hcard : keyCard key = 3) (hch : apiStep cfg validate db e key ≠ db key) :
    requirePwAuth cfg e.env e.req = none := by
  obtain ⟨hgate, ⟨metaPack, hpack, hauth⟩ | ⟨hroute, hmut, hof⟩⟩ := dispatchPicowal_changes hch
  · apply hauth
    rw [hcard] at hpack
    have hnat : metaPack.toUInt32.toNat = (3 : UInt16).toNat := by rw [← hpack]; rfl
    exact UInt16.toNat_inj.mp ((UInt16.toNat_toUInt32 metaPack).symm.trans hnat)
  · rw [hcard] at hof
    rcases Bool.eq_false_or_eq_true cfg.cookieAuth with hcookie | hcookie
    · exact requirePwAuth_of_gate hcookie hgate
    · rcases hguard with h | h | ⟨htoken, heq⟩
      · rw [hcookie] at h
        cases h
      · exact absurd ⟨hroute, hmut, hof⟩ h
      · exact requirePwAuth_of_token hcookie htoken heq

/-- Where every write to card 3 without cookie authentication carries the write token, a record of
pack 3 changes only while a request with credentials is handled. -/
theorem permissions_need_credentials {db : Volume} {events : List ApiEvent}
    (h : Run.Guarded (apiStep cfg validate) (TokenForCardThree cfg) db events) (before : List ApiEvent)
    (e : ApiEvent) (later : List ApiEvent) (hevents : events = before ++ e :: later) (key : UInt32)
    (hcard : keyCard key = 3) (hch : apiStep cfg validate (before.foldl (apiStep cfg validate) db) e key ≠
      before.foldl (apiStep cfg validate) db key) :
    requirePwAuth cfg e.env e.req = none := by
  rw [hevents] at h
  exact apiStep_permissions (Run.guarded_append.mp h).2.1 hcard hch

/-! ### A node without cookie authentication -/

/-- A node with a write token, cookie authentication off and no cluster. -/
def tokenNode : ApiConfig :=
  { cookieAuth := false, writeToken := ascii "secret", self := ascii "a:1", cluster := none,
    proxyMode := false }

/-- The records of the system packs are not validated, and no other is accepted. -/
def systemPacksOnly : Validate := fun _ _ pack _ _ =>
  if pack ≤ 3 then none else some (400, "body must be a JSON object")

/-- A `PUT` of a record of card 3. -/
def putCardThree (token : Bytes) : ApiEvent where
  env := { session := fun _ => false }
  req := { method := .put, path := ascii "3/5", body := ascii "x", writeToken := token }

theorem permissions_need_credentials_with_token :
    requirePwAuth tokenNode (putCardThree (ascii "secret")).env (putCardThree (ascii "secret")).req = none :=
  @permissions_need_credentials tokenNode systemPacksOnly (fun _ => none)
    [putCardThree (ascii "secret")] ⟨.inr (.inr ⟨by decide, rfl⟩), trivial⟩ [] _ [] rfl 0xc00005
    (by decide) (by decide +kernel)

/-- Without the token the same request is refused by `api_require_pw_auth` and stored all the same. -/
theorem permissions_changed_without_credentials :
    requirePwAuth tokenNode (putCardThree []).env (putCardThree []).req =
        some ⟨401, "missing or invalid X-PW-Write-Token header\n"⟩ ∧
      keyCard 0xc00005 = 3 ∧
      apiStep tokenNode systemPacksOnly (fun _ => none) (putCardThree []) 0xc00005 = some (ascii "x") := by
  decide +kernel

end Partition
