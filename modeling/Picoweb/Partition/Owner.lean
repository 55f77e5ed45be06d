import Mathlib.Data.List.MinMax
import Picoweb.Lib.ByteText
import Picoweb.Picowal.Format

/-!
# Virtual partitions and their owners

`picowal_partition.c`: a key is hashed to one of a thousand virtual partitions, and a partition is owned
by the node of the tenant's pool with the highest hash of partition and node id together. The tenant of
a request is the first label of its `Host` header (`server.c`).
-/

namespace Partition

open ByteFile ByteText Picowal List

abbrev NodeId := Bytes

abbrev partitionCount : ℕ := 1000

structure Config where
  nodes : List NodeId
  tenants : List (Bytes × List NodeId) := []
  nodes_ne_nil : nodes ≠ []

def fmix64 (h : UInt64) : UInt64 :=
  let h := h ^^^ (h >>> 33)
  let h := h * 0xff51afd7ed558ccd
  let h := h ^^^ (h >>> 33)
  let h := h * 0xc4ceb9fe1a85ec53
  h ^^^ (h >>> 33)

def partitionOfKey (key : UInt32) : UInt32 :=
  UInt32.ofNat ((fmix64 (metalFnv1a (leBytes 4 key.toNat))).toNat % partitionCount)

/-- The pool of a tenant; a tenant without an entry has the global pool. -/
def Config.nodesForTenant (cfg : Config) (tenant : Bytes) : List NodeId :=
  if 0 < tenant.length ∧ tenant.length < 64 then
    match cfg.tenants.find? fun t => t.1 = tenant with
    | some t => t.2
    | none => cfg.nodes
  else cfg.nodes

def weight (vpart : UInt32) (node : NodeId) : UInt64 :=
  fmix64 (metalFnv1a (leBytes 4 vpart.toNat ++ node))

/-- The loop of `picowal_partition_owner`: the first node of the highest weight. -/
def heaviest (vpart : UInt32) (nodes : List NodeId) : Option NodeId :=
  nodes.foldl (fun best node =>
    match best with
    | none => some node
    | some b => if weight vpart b < weight vpart node then some node else some b) none

def Config.partitionOwner (cfg : Config) (tenant : Bytes) (vpart : UInt32) : Option NodeId :=
  heaviest vpart (cfg.nodesForTenant tenant)

def Config.ownerOf (cfg : Config) (tenant : Bytes) (key : UInt32) : Option NodeId :=
  cfg.partitionOwner tenant (partitionOfKey key)

def isCtxTokenChar (c : UInt8) : Bool :=
  (97 ≤ c && c ≤ 122) || (65 ≤ c && c ≤ 90) || isDigit c || c = 45 || c = 95

def tenantOfHost (host : Bytes) : Bytes :=
  let label := (host.takeWhile (· ≠ 46)).filter isCtxTokenChar
  if label = [] then ascii "default" else label.take 63

/-- The tenant under which a node handles a request that was proxied or redirected to it: the request
then names the node itself as its host. -/
def forwardTenant (node : NodeId) : Bytes := tenantOfHost ((node.takeWhile (· ≠ 58)).map lower)

lemma Config.nodesForTenant_of_no_tenants {cfg : Config} (h : cfg.tenants = []) (tenant : Bytes) :
    cfg.nodesForTenant tenant = cfg.nodes := by
  simp [Config.nodesForTenant, h]

variable {vpart : UInt32}

lemma heaviest_eq_argmax (nodes : List NodeId) :
    heaviest vpart nodes = nodes.argmax fun n => (weight vpart n).toNat := by
  unfold heaviest argmax
  congr 1
  funext best node
  cases best with
  | none => rfl
  | some b => simp only [argAux, UInt64.lt_iff_toNat_lt]

/-- A node that joins takes the partition over or leaves its owner alone. -/
lemma heaviest_insert (l r : List NodeId) (x : NodeId) :
    heaviest vpart (l ++ x :: r) = some x ∨ heaviest vpart (l ++ x :: r) = heaviest vpart (l ++ r) := by
  simp only [heaviest_eq_argmax]
  -- from the back of the list: a node in front of the winner of the rest wins unless it is lighter
  induction l with
  | nil =>
    rw [nil_append, nil_append, argmax_cons]
    cases argmax (fun n => (weight vpart n).toNat) r with
    | none => exact .inl rfl
    | some c =>
      dsimp only
      split
      · exact .inr rfl
      · exact .inl rfl
  | cons a l ih =>
    rw [cons_append, cons_append, argmax_cons, argmax_cons]
    rcases ih with h | h
    · rw [h]
      dsimp only
      split
      · exact .inl rfl
      · cases hc : argmax (fun n => (weight vpart n).toNat) (l ++ r) with
        | none => exact .inr rfl
        | some c =>
          have hmem : c ∈ l ++ x :: r := by
            have := argmax_mem hc
            simp only [mem_append] at this ⊢
            tauto
          have hle := le_of_mem_argmax hmem h
          exact .inr (if_neg (by omega)).symm
    · exact .inr (by rw [h])

lemma heaviest_perm {l l' : List NodeId} (h : l.Perm l') (hw : (l.map (weight vpart)).Nodup) :
    heaviest vpart l = heaviest vpart l' := by
  simp only [heaviest_eq_argmax]
  cases hl : argmax (fun n => (weight vpart n).toNat) l with
  | none =>
    rw [argmax_eq_none.mp hl] at h
    rw [← h.nil_eq, argmax_nil]
  | some m =>
    cases hl' : argmax (fun n => (weight vpart n).toNat) l' with
    | none =>
      rw [argmax_eq_none.mp hl'] at h
      rw [h.eq_nil] at hl
      cases hl
    | some m' =>
      have hm := argmax_mem hl
      have hm' := h.mem_iff.mpr (argmax_mem hl')
      have h1 := le_of_mem_argmax hm' hl
      have h2 := le_of_mem_argmax (h.mem_iff.mp hm) hl'
      -- both winners have the highest weight of the list, which only one node has
      exact congrArg some (inj_on_of_nodup_map hw hm hm' (UInt64.toNat_inj.mp (le_antisymm h2 h1)))

/-- A partition keeps its owner when other nodes come and go and when the list is reordered. -/
theorem rendezvous_stable (vpart : UInt32) : (∀ l r x, heaviest vpart (l ++ x :: r) = some x ∨
      heaviest vpart (l ++ x :: r) = heaviest vpart (l ++ r)) ∧
    (∀ l r x, heaviest vpart (l ++ x :: r) ≠ some x → heaviest vpart (l ++ r) = heaviest vpart (l ++ x :: r)) ∧
    ∀ l l' : List NodeId, l.Perm l' → (l.map (weight vpart)).Nodup → heaviest vpart l = heaviest vpart l' := by
  refine ⟨heaviest_insert, fun l r x hx => ?_, fun l l' h hw => heaviest_perm h hw⟩
  exact ((heaviest_insert l r x).resolve_left hx).symm

theorem rendezvous_stable_swapped : heaviest 0 [ascii "a:80", ascii "b:80"] =
    heaviest 0 [ascii "b:80", ascii "a:80"] :=
  (rendezvous_stable 0).2.2 _ _ (List.Perm.swap _ _ _) (by decide +kernel)

end Partition
