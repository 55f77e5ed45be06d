import Picoweb.Partition.Store
import Picoweb.Lib.Run

/-!
# One owner for every record

A cluster of nodes with one configuration serves requests sent to any of them, with proxying and
redirects followed. A record stays on the owner of its key as long as every request names its record
and every tenant it goes through has the same owner for it; a record that a node names itself, or that
a tenant of another pool writes, lands elsewhere.
-/

namespace Partition

open ByteFile ByteText Picowal Http

/-- The volumes of the nodes. -/
abbrev Cluster := NodeId → Volume

/-- A request as it is sent: to which node, and what its handling meets with: the random ids drawn,
the fault of the node that keeps it, and how many times it can be passed on before it is lost. -/
structure Event where
  node : NodeId
  req : Request
  draws : List (Option UInt32) := []
  fault : Option Fault := none
  hops : ℕ := 2
  deriving DecidableEq, Repr

/-- The node that keeps a request, and the request as it arrives there. -/
def deliver (cfg : Config) : ℕ → NodeId → Request → Option (NodeId × Request)
  | hops, n, req =>
    match route cfg n req with
    | none => some (n, req)
    | some owner =>
      match hops with
      | 0 => none
      | hops + 1 => deliver cfg hops owner { req with tenant := forwardTenant owner }

def step (cfg : Config) (validate : Validate) (c : Cluster) (e : Event) : Cluster :=
  match deliver cfg e.hops e.node e.req with
  | none => c
  | some (n, req) => Function.update c n (applyLocal validate (c n) e.fault e.draws req).2

/-- Every record lies on the owner of its key. -/
def Owned (cfg : Config) (c : Cluster) : Prop :=
  ∀ n key v, c n key = some v → cfg.ownerOf [] key = some n

/-- The keys a request without a record id can come up with. -/
def drawnKey (e : Event) (key : UInt32) : Prop :=
  ∃ coll card draw, splitPath e.req.path = some (coll, none) ∧ e.req.method = .post ∧
    parseU32Dec coll cardMax = some card ∧ some draw ∈ e.draws ∧
    packKey (UInt16.ofNat card) (draw &&& 0x003fffff) = some key

/-- A request that is routed by its key alone: the tenant it comes with, and the one it is passed on
with, have the owner of the global pool for its key; and a key drawn by a node is one it owns. -/
structure RoutedByKey (cfg : Config) (e : Event) : Prop where
  tenant : ∀ key, recordKey e.req = some key → cfg.ownerOf e.req.tenant key = cfg.ownerOf [] key
  forward : ∀ key owner, recordKey e.req = some key → cfg.ownerOf [] key = some owner →
    cfg.ownerOf (forwardTenant owner) key = some owner
  drawn : ∀ key, drawnKey e key → cfg.ownerOf [] key = some e.node

/-! ### Where a request ends up -/

section Deliver

variable {cfg : Config} {n m : NodeId} {req req' : Request} {key : UInt32} {hops : ℕ}

lemma Config.exists_owner (cfg : Config) (key : UInt32) : ∃ owner, cfg.ownerOf [] key = some owner := by
  have h : ∃ owner ∈ cfg.nodes, heaviest (partitionOfKey key) cfg.nodes = some owner :=
    Run.exists_mem_foldl (fun _ => rfl) (fun _ _ => ite_eq_or_eq _ _ _) cfg.nodes_ne_nil
  exact h.imp fun _ => And.right

/-- A request that names a record is kept by the owner or sent to it. -/
lemma route_of_owner (hm : req.method = .put ∨ req.method = .post ∨ req.method = .delete)
    (hkey : recordKey req = some key) {owner : NodeId} (ho : cfg.ownerOf req.tenant key = some owner) :
    route cfg n req = if owner = n then none else some owner := by
  simp [route, hm, hkey, ho]

lemma route_of_no_key (hkey : recordKey req = none) : route cfg n req = none := by
  simp [route, hkey]

/-- On its way a request changes its tenant only. -/
lemma deliver_same (h : deliver cfg hops n req = some (m, req')) :
    req'.method = req.method ∧ req'.path = req.path := by
  induction hops generalizing n req with
  | zero =>
    rw [deliver] at h
    split at h
    · cases h
      exact ⟨rfl, rfl⟩
    · cases h
  | succ hops ih =>
    rw [deliver] at h
    split at h
    · cases h
      exact ⟨rfl, rfl⟩
    · rename_i owner _
      exact @ih _ { req with tenant := forwardTenant owner } h

lemma deliver_of_route_none (h : route cfg n req = none) : deliver cfg hops n req = some (n, req) := by
  cases hops <;> rw [deliver, h]

/-- A write to a record whose tenants agree on the owner is kept by that owner. -/
lemma deliver_owner {owner : NodeId} (hm : req.method = .put ∨ req.method = .post ∨ req.method = .delete)
    (hkey : recordKey req = some key) (ho : cfg.ownerOf req.tenant key = some owner)
    (hf : cfg.ownerOf (forwardTenant owner) key = some owner)
    (h : deliver cfg hops n req = some (m, req')) : m = owner := by
  have hroute := route_of_owner (n := n) hm hkey ho
  split_ifs at hroute with hn
  · rw [deliver_of_route_none hroute] at h
    cases h
    exact hn.symm
  · cases hops with
    | zero =>
      rw [deliver, hroute] at h
      cases h
    | succ hops =>
      rw [deliver, hroute] at h
      have hkeep := @route_of_owner cfg owner { req with tenant := forwardTenant owner } key hm hkey owner hf
      rw [if_pos rfl] at hkeep
      simp only [deliver_of_route_none hkeep] at h
      cases h
      rfl

end Deliver

section Runs

variable {cfg : Config} {validate : Validate} {c : Cluster} {e : Event}

lemma Owned.step (h : Owned cfg c) (he : RoutedByKey cfg e) : Owned cfg (step cfg validate c e) := by
  unfold Partition.step
  rcases hd : deliver cfg e.hops e.node e.req with _ | ⟨m, req'⟩
  · exact h
  simp only
  obtain ⟨hm, hp⟩ := deliver_same hd
  have hrec : recordKey req' = recordKey e.req := by rw [recordKey, recordKey, hp]
  intro n key v hv
  by_cases hn : n = m
  · subst hn
    rw [Function.update_self] at hv
    by_cases hold : c n key = some v
    · exact h n key v hold
    have hch : (applyLocal validate (c n) e.fault e.draws req').2 key ≠ c n key := by
      rw [hv]
      exact Ne.symm hold
    rcases applyLocal_changes hch with ⟨hkey, hmeth⟩ | ⟨coll, card, draw, hs, hpost, hcard, hdraw, hk⟩
    · rw [hrec] at hkey
      rw [hm] at hmeth
      obtain ⟨owner, ho⟩ := cfg.exists_owner key
      have hown := deliver_owner hmeth hkey ((he.tenant key hkey).trans ho) (he.forward key owner hkey ho) hd
      rw [ho, hown]
    · -- a request without a record id stays where it was sent
      rw [hp] at hs
      rw [hm] at hpost
      have hnokey : recordKey e.req = none := by rw [recordKey, hs]
      rw [deliver_of_route_none (route_of_no_key hnokey)] at hd
      cases hd
      exact he.drawn key ⟨coll, card, draw, hs, hpost, hcard, hdraw, hk⟩
  · rw [Function.update_of_ne hn] at hv
    exact h n key v hv

/-- In every run whose requests are routed by their keys alone, every record lies on the node that
owns its key, so no two nodes hold values for one key. -/
theorem records_single_owner (cfg : Config) (validate : Validate) (events : List Event)
    (h : ∀ e ∈ events, RoutedByKey cfg e) {c : Cluster}
    (hc : c = events.foldl (Partition.step cfg validate) fun _ _ => none) :
    (∀ n key v, c n key = some v → cfg.ownerOf [] key = some n) ∧
      ∀ n m key v w, c n key = some v → c m key = some w → n = m ∧ v = w := by
  have hown : Owned cfg c := by
    rw [hc]
    exact List.foldlRecOn events (Partition.step cfg validate) (by simp [Owned]) fun c hc e he => hc.step (h e he)
  refine ⟨hown, fun n m key v w hv hw => ?_⟩
  obtain rfl : n = m := by simpa [hown n key v hv] using hown m key w hw
  exact ⟨rfl, by simpa [hv] using hw⟩

/-- Without a tenant map, a request is routed by its key unless it is a `POST` without a record id. -/
lemma routedByKey_of_no_tenants (hcfg : cfg.tenants = [])
    (he : e.req.method = .post → ∀ coll, splitPath e.req.path ≠ some (coll, none)) : RoutedByKey cfg e where
  tenant key _ := by
    simp only [Config.ownerOf, Config.partitionOwner, Config.nodesForTenant_of_no_tenants hcfg]
  forward key owner _ ho := by
    simpa only [Config.ownerOf, Config.partitionOwner, Config.nodesForTenant_of_no_tenants hcfg] using ho
  drawn := by
    rintro key ⟨coll, card, draw, hs, hpost, -⟩
    exact absurd hs (he hpost coll)

end Runs

/-! ### Two nodes -/

def nodeA : NodeId := ascii "a:1"
def nodeB : NodeId := ascii "b:1"

def pair : Config := { nodes := [nodeA, nodeB], nodes_ne_nil := by simp }

/-- A validation that accepts everything, as it does without a schema. -/
def acceptAll : Validate := fun _ _ _ _ _ => none

/-- Record 1 of pack 10, which `b` owns. -/
def sharedKey : UInt32 := 0x2800001

/-- A `PUT` of that record, sent to `a`. -/
def putShared (body tenant : Bytes) : Event :=
  { node := nodeA, req := { method := .put, path := ascii "10/1", body := body, tenant := tenant } }

theorem records_single_owner_put :
    [putShared [120] []].foldl (Partition.step pair acceptAll) (fun _ _ => none) nodeB sharedKey =
        some [120] ∧ pair.ownerOf [] sharedKey = some nodeB := by
  have hb : [putShared [120] []].foldl (Partition.step pair acceptAll) (fun _ _ => none) nodeB
      sharedKey = some [120] := by decide +kernel
  refine ⟨hb, (records_single_owner pair acceptAll [putShared [120] []] ?_ rfl).1 nodeB _ _ hb⟩
  intro e he
  obtain rfl := List.mem_singleton.1 he
  exact routedByKey_of_no_tenants rfl fun h => by simp [putShared] at h

/-- A `POST` without a record id to `a`, which draws the record that `b` owns. -/
def postDrawn : Event :=
  { node := nodeA, req := { method := .post, path := ascii "10", body := [120] }, draws := [some 1] }

/-- The two nodes with a tenant that only `a` serves. -/
def pairWithTenant : Config :=
  { nodes := [nodeA, nodeB], tenants := [(ascii "acme", [nodeA])], nodes_ne_nil := by simp }

/-- Two nodes hold different values for one key: after a record with a drawn id is overwritten, and
after two tenants of different pools have written it. -/
theorem two_nodes_hold_one_key :
    (let c := [postDrawn, putShared [121] []].foldl (Partition.step pair acceptAll) (fun _ _ => none)
     c nodeA sharedKey = some [120] ∧ c nodeB sharedKey = some [121]) ∧
    (let c := [putShared [120] (ascii "acme"), putShared [121] (ascii "other")].foldl
        (Partition.step pairWithTenant acceptAll) (fun _ _ => none)
     c nodeA sharedKey = some [120] ∧ c nodeB sharedKey = some [121]) := by
  refine ⟨⟨?_, ?_⟩, ?_, ?_⟩ <;> decide +kernel

end Partition
