import Picoweb.Partition.Permissions

/-!
# Metadata on every node

`replicate_metadata_or_502` and `picowal_partition_replicate_metadata`: a node applies a metadata request
to its own records and then forwards it to the other nodes of the pool, one after the other. Nothing
orders the forwards of two requests, so what a node ends up with depends on their interleaving.
-/

namespace Partition

open ByteFile ByteText Picowal Http List Function

/-- A request that its node has applied and is forwarding. -/
structure FanOut where
  /-- The request as it is forwarded, with the hop header. -/
  req : ApiRequest
  key : UInt32
  /-- The status of the answer, where no node fails. -/
  status : ℕ
  remaining : List NodeId
  failed : ℕ
  deriving DecidableEq, Repr

/-- The nodes with the same node list, the requests that are being forwarded and the statuses of the
answers so far. -/
structure Pool where
  vol : NodeId → Volume
  active : List FanOut
  answers : List ℕ

inductive PoolEvent
  /-- A client sends a request to a node. -/
  | request (node : NodeId) (req : ApiRequest) (env : Env)
  /-- A request in progress reaches the next node. -/
  | forward (i : ℕ) (env : Env)

def requestKey (req : ApiRequest) : Option UInt32 :=
  match routeOf req.path with
  | .metadata metaPack record => (parseU32Dec record cardMax).bind (metadataKey metaPack)
  | _ => none

/-- `peer_ok` of `picowal_partition_replicate_metadata`. -/
def peerOk (method : HttpMethod) (status : ℕ) : Prop := status < 400 ∨ method = .delete ∧ status = 404
deriving Decidable

/-- A request after a node on its list has answered with `status`. -/
def FanOut.reached (f : FanOut) (remaining : List NodeId) (status : ℕ) : FanOut :=
  { f with remaining := remaining, failed := if peerOk f.req.method status then f.failed else f.failed + 1 }

/-- The request that `pp_http_roundtrip` sends for another: a write token of the node where there is none, and
the header of a browser with every cookie. -/
def forwarded (cfg : ApiConfig) (req : ApiRequest) : ApiRequest :=
  { req with
    partitionHop := true
    writeToken := if req.writeToken = [] then cfg.writeToken else req.writeToken
    pwAuthHeader := req.cookie ≠ [] }

namespace Pool

variable (nodes : List NodeId) (cfg : NodeId → ApiConfig) (validate : Validate)

/-- The answer of a request whose forwards are done. -/
def answer (f : FanOut) : ℕ := if f.failed = 0 then f.status else 502

/-- A request goes on as long as it has nodes left, and is answered then. -/
def proceed (s : Pool) (f : FanOut) : Pool :=
  if f.remaining = [] then { s with answers := s.answers ++ [answer f] }
  else { s with active := s.active ++ [f] }

def receive (s : Pool) (node : NodeId) (req : ApiRequest) (env : Env) : Pool :=
  match requestKey req with
  | none => s
  | some key =>
    let h := dispatchPicowal (cfg node) validate env (s.vol node) req
    let s' := { s with vol := update s.vol node h.db }
    if h.fanOut ∧ req.partitionHop = false then
      s'.proceed
        { req := forwarded (cfg node) req, key := key, status := h.resp.status,
          remaining := nodes.filter (· ≠ node), failed := 0 }
    else { s' with answers := s.answers ++ [h.resp.status] }

/-- One round of the loop in `picowal_partition_replicate_metadata`. -/
def forward (s : Pool) (i : ℕ) (env : Env) : Pool :=
  match s.active[i]? with
  | none => s
  | some f =>
    match f.remaining with
    | [] => s
    | peer :: remaining =>
      let h := dispatchPicowal (cfg peer) validate env (s.vol peer) f.req
      { s with vol := update s.vol peer h.db, active := s.active.eraseIdx i }.proceed
        (f.reached remaining h.resp.status)

def step (s : Pool) : PoolEvent → Pool
  | .request node req env => if node ∈ nodes then s.receive nodes cfg validate node req env else s
  | .forward i env => s.forward cfg validate i env

def Answered (s : Pool) : Prop := s.active = [] ∧ ∀ a ∈ s.answers, a < 400
deriving Decidable

def Agree (s : Pool) (key : UInt32) : Prop := ∀ n ∈ nodes, ∀ m ∈ nodes, s.vol n key = s.vol m key

/-- A client's request for a key starts while no other request for it is in progress, and does not
claim to be a forward. -/
def Alone (s : Pool) : PoolEvent → Prop
  | .request _ req _ => req.partitionHop = false ∧ ∀ f ∈ s.active, requestKey req ≠ some f.key
  | .forward _ _ => True

instance (s : Pool) : (e : PoolEvent) → Decidable (s.Alone e)
  | .request _ _ _ => inferInstanceAs (Decidable (_ ∧ _))
  | .forward _ _ => isTrue trivial

end Pool

section Outcome

variable {cfg : ApiConfig} {validate : Validate} {env : Env} {db : Volume} {req : ApiRequest} {key : UInt32}

lemma requirePwAuth_status {r : Resp} (h : requirePwAuth cfg env req = some r) : 400 ≤ r.status ∧ r.status ≠ 404 := by
  unfold requirePwAuth requireCookie at h
  split_ifs at h
  all_goals
    cases h
    exact ⟨by decide, by decide⟩

lemma cookieGate_status {r : Resp} (h : cookieGate cfg env req = some r) : 400 ≤ r.status ∧ r.status ≠ 404 := by
  unfold cookieGate requireCookie at h
  split_ifs at h
  all_goals
    cases h
    exact ⟨by decide, by decide⟩

lemma packRecord_outcome {metaPack : UInt16} {record : Bytes} {packId : ℕ}
    (hrec : parseU32Dec record cardMax = some packId) (hkey : metadataKey metaPack packId = some key) :
    Outcome db req key (packRecord cfg env db req metaPack record) := by
  unfold packRecord
  simp only [hrec, hkey]
  split
  · rename_i hread
    refine .inr ⟨rfl, rfl, fun hm => ?_⟩
    rcases hread with h | h <;> simp [Mutates, h] at hm
  split
  · rename_i hm
    split
    · rename_i hauth
      rw [metadataAuth] at hauth
      split_ifs at hauth
      obtain ⟨hle, hne⟩ := requirePwAuth_status hauth
      exact .refused hle hne
    · exact mutateMetadata_outcome hm
  · exact .refused (by decide) (by decide)

lemma dispatchPicowal_outcome (hkey : requestKey req = some key) :
    Outcome db req key (dispatchPicowal cfg validate env db req) := by
  unfold requestKey at hkey
  split at hkey
  · rename_i metaPack record hroute
    obtain ⟨packId, hrec, hkey⟩ := Option.bind_eq_some_iff.mp hkey
    unfold dispatchPicowal
    simp only [hroute, reduceCtorEq, if_false]
    split
    · rename_i hgate
      obtain ⟨hle, hne⟩ := cookieGate_status hgate
      exact .refused hle hne
    · exact packRecord_outcome hrec hkey
  · cases hkey

/-- A node that accepts a forwarded request holds what the request writes, and nothing else changes. -/
lemma Outcome.of_peerOk {h : Handled} (ho : Outcome db req key h) (hm : Mutates req)
    (hok : peerOk req.method h.resp.status) : h.db key = written req := by
  rcases ho with ⟨-, -, hdb, -⟩ | ⟨-, hdb, hrefused⟩
  · rw [hdb, update_self]
  · obtain ⟨hle, hnone⟩ := hrefused hm
    rcases hok with hlt | ⟨hdel, h404⟩
    · exact absurd hle hlt.not_ge
    · rw [hdb, hnone h404, written, if_pos hdel]

end Outcome

/-! ### Whole runs -/

lemma FanOut.failed_reached_eq_zero {f : FanOut} {remaining : List NodeId} {status : ℕ} :
    (f.reached remaining status).failed = 0 ↔ f.failed = 0 ∧ peerOk f.req.method status := by
  unfold FanOut.reached
  split_ifs with hok
  · exact (and_iff_left hok).symm
  · exact ⟨False.elim, fun h => hok h.2⟩

namespace Pool

variable {nodes : List NodeId} {cfg : NodeId → ApiConfig} {validate : Validate} {s : Pool} {key : UInt32}

/-- No request has been refused so far. -/
def Clean (s : Pool) : Prop := (∀ a ∈ s.answers, a < 400) ∧ ∀ f ∈ s.active, f.failed = 0

/-- The requests in progress are for different keys. As long as none has been refused, a request for
`key` has reached every node that is not on its list, and without one the nodes agree. -/
structure Inv (nodes : List NodeId) (key : UInt32) (s : Pool) : Prop where
  wf : ∀ f ∈ s.active, Mutates f.req ∧ requestKey f.req = some f.key
  apart : (s.active.map FanOut.key).Nodup
  spread : s.Clean → ∀ f ∈ s.active, f.key = key → ∀ n ∈ nodes, n ∉ f.remaining →
    s.vol n key = written f.req
  agree : s.Clean → (∀ f ∈ s.active, f.key ≠ key) → s.Agree nodes key

lemma Inv.of_perm {active : List FanOut} (h : Inv nodes key { s with active := active })
    (hp : s.active.Perm active) : Inv nodes key s where
  wf f hf := h.wf f (hp.mem_iff.mp hf)
  apart := (hp.map _).nodup_iff.mpr h.apart
  spread hc f hf := h.spread ⟨hc.1, fun g hg => hc.2 g (hp.mem_iff.mpr hg)⟩ f (hp.mem_iff.mp hf)
  agree hc hno := h.agree ⟨hc.1, fun g hg => hc.2 g (hp.mem_iff.mpr hg)⟩ fun g hg =>
    hno g (hp.mem_iff.mpr hg)

/-- A request with nobody left to reach can be answered. -/
lemma Inv.proceed {f : FanOut} (h : Inv nodes key { s with active := f :: s.active }) :
    Inv nodes key (s.proceed f) := by
  unfold Pool.proceed
  split_ifs with hdone
  · have hclean : Clean { s with answers := s.answers ++ [answer f] } →
        Clean { s with active := f :: s.active } := by
      rintro ⟨hanswers, hactive⟩
      have hlast := hanswers (answer f) (by simp)
      have hfailed : f.failed = 0 := by
        by_contra hne
        rw [answer, if_neg hne] at hlast
        exact absurd hlast (by decide)
      refine ⟨fun a ha => hanswers a (mem_append_left _ ha), ?_⟩
      rintro g (_ | ⟨_, hg⟩)
      · exact hfailed
      · exact hactive g hg
    refine ⟨fun g hg => h.wf g (mem_cons_of_mem _ hg), (nodup_cons.mp h.apart).2,
      fun hc g hg => h.spread (hclean hc) g (mem_cons_of_mem _ hg), fun hc hno => ?_⟩
    by_cases hk : f.key = key
    · have hall : ∀ n ∈ nodes, s.vol n key = written f.req := fun n hn =>
        h.spread (hclean hc) f mem_cons_self hk n hn (by simp [hdone])
      exact fun n hn m hm => (hall n hn).trans (hall m hm).symm
    · exact h.agree (hclean hc) (forall_mem_cons.mpr ⟨hk, hno⟩)
  · exact @Inv.of_perm nodes { s with active := s.active ++ [f] } key (f :: s.active) h
      (perm_append_singleton f s.active)

lemma vol_update_of_ne {node : NodeId} {h : Handled} {req : ApiRequest} {k : UInt32}
    (ho : Outcome (s.vol node) req k h) (hk : key ≠ k) (n : NodeId) :
    update s.vol node h.db n key = s.vol n key := by
  by_cases hn : n = node
  · subst hn
    rw [update_self, ho.of_ne hk]
  · rw [update_of_ne hn]

lemma agree_update {node : NodeId} {h : Handled} {req : ApiRequest} {k : UInt32} {active answers}
    (ho : Outcome (s.vol node) req k h) (hk : key ≠ k) (hagree : s.Agree nodes key) :
    Agree nodes ⟨update s.vol node h.db, active, answers⟩ key := fun n hn m hm =>
  (vol_update_of_ne ho hk n).trans ((hagree n hn m hm).trans (vol_update_of_ne ho hk m).symm)

lemma Inv.receive (h : Inv nodes key s) {node : NodeId} {req : ApiRequest} {env : Env}
    (halone : s.Alone (.request node req env)) : Inv nodes key (s.receive nodes cfg validate node req env) := by
  obtain ⟨hhop, halone⟩ := halone
  unfold Pool.receive
  split
  · exact h
  rename_i k hkey
  have ho : Outcome (s.vol node) req k (dispatchPicowal (cfg node) validate env (s.vol node) req) :=
    dispatchPicowal_outcome hkey
  dsimp only
  split_ifs with hfan
  · obtain ⟨-, hm, hdb, -⟩ := ho.resolve_right fun hno => by simp [hno.1] at hfan
    have hnew : ∀ g ∈ s.active, g.key ≠ k := fun g hg he => halone g hg (he ▸ hkey)
    apply Inv.proceed
    refine ⟨?_, ?_, ?_, ?_⟩
    · exact forall_mem_cons.mpr ⟨⟨hm, hkey⟩, h.wf⟩
    · refine nodup_cons.mpr ⟨fun hmem => ?_, h.apart⟩
      obtain ⟨g, hg, he⟩ := mem_map.mp hmem
      exact hnew g hg he
    · rintro hc f (_ | ⟨_, hf⟩) hk n hn hnot
      · have hnode : n = node := by simpa [hn] using hnot
        dsimp only at hk ⊢
        rw [hnode, update_self, hdb, ← hk, update_self]
        rfl
      · have hne : key ≠ k := fun he => hnew f hf (hk.trans he)
        have hclean : s.Clean := ⟨hc.1, fun g hg => hc.2 g (mem_cons_of_mem _ hg)⟩
        exact (vol_update_of_ne ho hne n).trans (h.spread hclean f hf hk n hn hnot)
    · intro hc hno
      have hclean : s.Clean := ⟨hc.1, fun g hg => hc.2 g (mem_cons_of_mem _ hg)⟩
      exact agree_update ho (hno _ mem_cons_self).symm (h.agree hclean fun g hg => hno g (mem_cons_of_mem _ hg))
  · -- the client's request does not carry the hop header, so nothing was changed
    obtain ⟨-, hdb, -⟩ := ho.resolve_left fun hyes => hfan ⟨hyes.1, hhop⟩
    rw [hdb, update_eq_self]
    have hclean : Clean { s with answers := s.answers ++
        [(dispatchPicowal (cfg node) validate env (s.vol node) req).resp.status] } → s.Clean :=
      fun hc => ⟨fun a ha => hc.1 a (mem_append_left _ ha), hc.2⟩
    exact ⟨h.wf, h.apart, fun hc => h.spread (hclean hc), fun hc => h.agree (hclean hc)⟩

lemma Inv.forward (h : Inv nodes key s) (i : ℕ) (env : Env) : Inv nodes key (s.forward cfg validate i env) := by
  unfold Pool.forward
  split
  · exact h
  rename_i f hf
  split
  · exact h
  rename_i peer remaining hrem
  obtain ⟨hi, hfi⟩ := List.getElem?_eq_some_iff.mp hf
  have hperm : s.active.Perm (f :: s.active.eraseIdx i) := by
    rw [← hfi]
    exact (getElem_cons_eraseIdx_perm hi).symm
  have hmem : f ∈ s.active := hfi ▸ getElem_mem hi
  have hrest : ∀ g ∈ s.active.eraseIdx i, g ∈ s.active := fun g hg =>
    hperm.mem_iff.mpr (mem_cons_of_mem _ hg)
  obtain ⟨hm, hkey⟩ := h.wf f hmem
  have hapart : (f.key :: (s.active.eraseIdx i).map FanOut.key).Nodup :=
    (hperm.map FanOut.key).nodup_iff.mp h.apart
  have hother : ∀ g ∈ s.active.eraseIdx i, g.key ≠ f.key := fun g hg he =>
    (nodup_cons.mp hapart).1 (he ▸ mem_map_of_mem hg)
  have ho : Outcome (s.vol peer) f.req f.key (dispatchPicowal (cfg peer) validate env (s.vol peer) f.req) :=
    dispatchPicowal_outcome hkey
  apply Inv.proceed
  have hclean : ∀ {vol status}, Clean ⟨vol, f.reached remaining status :: s.active.eraseIdx i, s.answers⟩ →
      s.Clean ∧ peerOk f.req.method status := by
    rintro vol status ⟨hanswers, hactive⟩
    obtain ⟨hfailed, hactive⟩ := forall_mem_cons.mp hactive
    obtain ⟨hfailed, hok⟩ := FanOut.failed_reached_eq_zero.mp hfailed
    refine ⟨⟨hanswers, fun g hg => ?_⟩, hok⟩
    rcases mem_cons.mp (hperm.mem_iff.mp hg) with rfl | hg
    · exact hfailed
    · exact hactive g hg
  refine ⟨?_, hapart, ?_, ?_⟩
  · exact forall_mem_cons.mpr ⟨⟨hm, hkey⟩, fun g hg => h.wf g (hrest g hg)⟩
  · rintro hc g (_ | ⟨_, hg⟩) hk n hn hnot
    · obtain ⟨hc, hok⟩ := hclean hc
      dsimp only [FanOut.reached] at hk hnot ⊢
      by_cases hp : n = peer
      · rw [hp, update_self, ← hk]
        exact ho.of_peerOk hm hok
      · rw [update_of_ne hp]
        exact h.spread hc f hmem hk n hn (by simp [hrem, hp, hnot])
    · have hne : key ≠ f.key := fun he => hother g hg (hk.trans he)
      exact (vol_update_of_ne ho hne n).trans (h.spread (hclean hc).1 g (hrest g hg) hk n hn hnot)
  · intro hc hno
    have hne : key ≠ f.key := (hno _ mem_cons_self).symm
    refine agree_update ho hne (h.agree (hclean hc).1 fun g hg => ?_)
    rcases mem_cons.mp (hperm.mem_iff.mp hg) with rfl | hg
    · exact hne.symm
    · exact hno g (mem_cons_of_mem _ hg)

lemma Inv.step (h : Inv nodes key s) {e : PoolEvent} (halone : s.Alone e) :
    Inv nodes key (s.step nodes cfg validate e) := by
  match e with
  | .request node req env =>
    rw [Pool.step]
    split_ifs
    · exact h.receive halone
    · exact h
  | .forward i env => exact h.forward i env

/-- Where a request for a key starts only while no other request for it is in progress, the nodes hold
the same metadata whenever all requests have been answered with success. -/
theorem metadata_agrees {events : List PoolEvent} (hidle : s.active = [])
    (hsame : ∀ key, keyCard key ∈ [1, 2, 3] → s.Agree nodes key)
    (h : Run.Guarded (Pool.step nodes cfg validate) Alone s events)
    (hdone : (events.foldl (Pool.step nodes cfg validate) s).Answered) : ∀ key, keyCard key ∈ [1, 2, 3] →
      (events.foldl (Pool.step nodes cfg validate) s).Agree nodes key := by
  intro key hkey
  have hstart : Inv nodes key s := by
    refine ⟨?_, ?_, ?_, fun _ _ => hsame key hkey⟩ <;> simp [hidle]
  have hinv := h.invariant (P := Inv nodes key) (fun _ _ hs => hs.step) hstart
  obtain ⟨hactive, hanswers⟩ := hdone
  exact hinv.agree ⟨hanswers, by simp [hactive]⟩ (by simp [hactive])

/-! ### Two nodes -/

def fresh : Pool := ⟨fun _ _ => none, [], []⟩

def poolNodes : List NodeId := [ascii "a:1", ascii "b:1"]

def putName (body : String) : ApiRequest :=
  { method := .put, path := ascii "metadata/name/7", body := ascii body }

def plainEnv : Env := { session := fun _ => false }

/-- One node's request is done before the other's starts. -/
def inTurn : List PoolEvent :=
  [.request (ascii "a:1") (putName "1") plainEnv, .forward 0 plainEnv,
    .request (ascii "b:1") (putName "2") plainEnv, .forward 0 plainEnv]

/-- Both nodes apply their own request before either forwards it. -/
def crossing : List PoolEvent :=
  [.request (ascii "a:1") (putName "1") plainEnv, .request (ascii "b:1") (putName "2") plainEnv,
    .forward 0 plainEnv, .forward 0 plainEnv]

def nameKey : UInt32 := 0x400007

theorem metadata_agrees_in_turn :
    (inTurn.foldl (Pool.step poolNodes (fun _ => tokenNode) systemPacksOnly) fresh).Agree poolNodes nameKey :=
  metadata_agrees rfl (fun _ _ _ _ _ _ => rfl) (by decide +kernel) (by decide +kernel) nameKey (by decide)

theorem metadata_diverges_crossing :
    let s := crossing.foldl (Pool.step poolNodes (fun _ => tokenNode) systemPacksOnly) fresh
    s.Answered ∧ s.answers = [204, 204] ∧ keyCard nameKey = 1 ∧
      s.vol (ascii "a:1") nameKey = some (ascii "2") ∧ s.vol (ascii "b:1") nameKey = some (ascii "1") := by
  decide +kernel

end Pool

end Partition
