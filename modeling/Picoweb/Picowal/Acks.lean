import Mathlib.Data.List.MinMax
import Mathlib.Data.Prod.Lex
import Picoweb.Picowal.Fresh
import Picoweb.Picowal.Repl

/-!
# The replicas a quorum counts

A slot of the ack registry holds the last position its replica reported, and `wait_for_ack_quorum`
counts the slots in the waited-for segment. So a replica that is ahead is counted exactly when it has
one of the 32 slots and its last report was in that very segment.
-/

namespace Picowal

open List

/-- A call of `picowal_db_repl_ack`. -/
structure Ack where
  replicaId : String
  segId : UInt32
  offset : ℕ

/-- Positions are ordered by segment id, then offset. -/
def Ack.position (a : Ack) : ℕ ×ₗ ℕ := toLex (a.segId.toNat, a.offset)

def Db.replAcks (db : Db) (calls : List Ack) : Db :=
  calls.foldl (fun db a => db.replAck a.replicaId a.segId a.offset) db

/-- The replicas that reported, in the order of their first reports. -/
def replicas (calls : List Ack) : List String := (calls.map Ack.replicaId).reverse.dedup.reverse

def highest (calls : List Ack) (id : String) : WithBot (ℕ ×ₗ ℕ) :=
  ((calls.filter fun a => a.replicaId == id).map Ack.position).maximum

/-- The replicas whose highest position is at or beyond the given one. -/
def ahead (calls : List Ack) (segId : UInt32) (offset : ℕ) : List String :=
  (replicas calls).filter fun id =>
    decide (((toLex (segId.toNat, offset) : ℕ ×ₗ ℕ) : WithBot (ℕ ×ₗ ℕ)) ≤ highest calls id)

def lastAck (calls : List Ack) (id : String) : Option Ack :=
  calls.reverse.find? fun a => a.replicaId == id

variable {calls : List Ack} {a : Ack} {id : String}

lemma nodup_replicas : (replicas calls).Nodup := nodup_reverse.mpr (nodup_dedup _)

lemma replicas_append_of_mem (h : a.replicaId ∈ replicas calls) : replicas (calls ++ [a]) = replicas calls := by
  have hmem : a.replicaId ∈ (calls.map Ack.replicaId).reverse := by simpa [replicas] using h
  simp [replicas, dedup_cons_of_mem hmem]

lemma replicas_append_of_notMem (h : a.replicaId ∉ replicas calls) :
    replicas (calls ++ [a]) = replicas calls ++ [a.replicaId] := by
  have hmem : a.replicaId ∉ (calls.map Ack.replicaId).reverse := by simpa [replicas] using h
  simp [replicas, dedup_cons_of_notMem hmem]

lemma lastAck_append_self : lastAck (calls ++ [a]) a.replicaId = some a := by simp [lastAck]

lemma lastAck_append_of_ne (h : a.replicaId ≠ id) : lastAck (calls ++ [a]) id = lastAck calls id := by
  simp [lastAck, h]

lemma le_highest {p : ℕ ×ₗ ℕ} (ha : a ∈ calls) (h : p ≤ a.position) :
    (p : WithBot (ℕ ×ₗ ℕ)) ≤ highest calls a.replicaId := by
  refine (WithBot.coe_le_coe.mpr h).trans (le_maximum_of_mem' ?_)
  simp only [mem_map, mem_filter, beq_iff_eq]
  exact ⟨a, ⟨ha, rfl⟩, rfl⟩

namespace Db

variable {db : Db} {segId : UInt32} {offset : ℕ}

/-- The slots belong to the first replicas that reported and hold their last reports. -/
structure Registry (db : Db) (calls : List Ack) : Prop where
  ids : db.acks.map AckSlot.id = (replicas calls).take maxReplicaAcks
  last : ∀ s ∈ db.acks, lastAck calls s.id = some ⟨s.id, s.segId, s.offset⟩

lemma Registry.step (h : db.Registry calls) (a : Ack) :
    (db.replAck a.replicaId a.segId a.offset).Registry (calls ++ [a]) := by
  have hlen : db.acks.length = min maxReplicaAcks (replicas calls).length := by
    rw [← length_map AckSlot.id, h.ids, length_take]
  have hmem : (db.acks.any fun s => s.id == a.replicaId) = true ↔
      a.replicaId ∈ (replicas calls).take maxReplicaAcks := by
    simp [← h.ids]
  have hother : ∀ s ∈ db.acks, a.replicaId ≠ s.id → lastAck (calls ++ [a]) s.id = some ⟨s.id, s.segId, s.offset⟩ := by
    intro s hs hne
    rw [lastAck_append_of_ne hne, h.last s hs]
  unfold replAck
  split_ifs with hknown hroom
  · have hids : (db.acks.map fun s => if s.id = a.replicaId then
        (⟨a.replicaId, a.segId, a.offset⟩ : AckSlot) else s).map AckSlot.id = db.acks.map AckSlot.id := by
      rw [map_map]
      apply map_congr_left
      intro s _
      by_cases hs : s.id = a.replicaId <;> simp [hs]
    constructor
    · rw [hids, h.ids, replicas_append_of_mem (mem_of_mem_take (hmem.mp hknown))]
    · intro t ht
      obtain ⟨s, hs, rfl⟩ := mem_map.mp ht
      split_ifs with heq
      · exact lastAck_append_self
      · exact hother s hs (Ne.symm heq)
  · have hall : (replicas calls).length ≤ maxReplicaAcks := by omega
    rw [hmem, take_of_length_le hall] at hknown
    constructor
    · rw [replicas_append_of_notMem hknown, take_of_length_le, map_append, h.ids, take_of_length_le hall]
      · rfl
      · rw [length_append, length_singleton]
        omega
    · intro s hs
      obtain hs | hs := mem_append.mp hs
      · refine hother s hs fun heq => hknown (heq ▸ ?_)
        rw [← take_of_length_le hall, ← h.ids]
        exact mem_map_of_mem hs
      · rw [mem_singleton.mp hs]
        exact lastAck_append_self
  · constructor
    · by_cases hin : a.replicaId ∈ replicas calls
      · rw [h.ids, replicas_append_of_mem hin]
      · rw [h.ids, replicas_append_of_notMem hin, take_append_of_le_length (by omega)]
    · intro s hs
      refine hother s hs fun heq => hknown (hmem.mpr ?_)
      rw [← h.ids, heq]
      exact mem_map_of_mem hs

lemma registry_replAcks (hnone : db.acks = []) (calls : List Ack) : (db.replAcks calls).Registry calls := by
  induction calls using List.reverseRecOn with
  | nil => exact ⟨by simp [replAcks, hnone, replicas], by simp [replAcks, hnone]⟩
  | append_singleton calls a ih =>
    rw [replAcks, foldl_append]
    exact ih.step a

def counted (db : Db) (segId : UInt32) (offset : ℕ) : List String :=
  (db.acks.filter fun s => s.segId == segId && decide (offset ≤ s.offset)).map AckSlot.id

lemma Registry.mem_counted (h : db.Registry calls) : id ∈ db.counted segId offset ↔
    id ∈ (replicas calls).take maxReplicaAcks ∧
      ∃ a, lastAck calls id = some a ∧ a.segId = segId ∧ offset ≤ a.offset := by
  simp only [counted, mem_map, mem_filter, Bool.and_eq_true, beq_iff_eq, decide_eq_true_eq, ← h.ids]
  constructor
  · rintro ⟨s, ⟨hs, hseg, hoff⟩, rfl⟩
    exact ⟨⟨s, hs, rfl⟩, _, h.last s hs, hseg, hoff⟩
  · rintro ⟨⟨s, hs, rfl⟩, a, ha, hseg, hoff⟩
    rw [h.last s hs] at ha
    cases ha
    exact ⟨s, ⟨hs, hseg, hoff⟩, rfl⟩

lemma Registry.counted_subperm (h : db.Registry calls) :
    (db.counted segId offset).Subperm (ahead calls segId offset) := by
  have hnodup : (db.acks.map AckSlot.id).Nodup := by
    rw [h.ids]
    exact nodup_replicas.sublist (take_sublist _ _)
  apply (hnodup.sublist (filter_sublist.map _)).subperm
  intro id hid
  obtain ⟨hmem, a, hlast, rfl, hoff⟩ := h.mem_counted.mp hid
  have hid : a.replicaId = id := by simpa using List.find?_some hlast
  have ha : a ∈ calls := mem_reverse.mp (mem_of_find?_eq_some hlast)
  rw [ahead, mem_filter, ← hid]
  refine ⟨hid ▸ mem_of_mem_take hmem, decide_eq_true (le_highest ha ?_)⟩
  rw [Ack.position, Prod.Lex.toLex_le_toLex]
  exact .inr ⟨rfl, hoff⟩

/-- The test passes when as many replicas as the quorum asks for are counted. -/
lemma ackQuorumReached_iff {quorum : UInt32} (hq : quorum ≠ 0) :
    (db.replAckSetQuorum quorum).ackQuorumReached segId offset = true ↔
      quorum.toNat ≤ (db.counted segId offset).length := by
  have hpos : 0 < quorum.toNat := Nat.pos_of_ne_zero fun h => hq (UInt32.toNat_inj.mp h)
  simp only [replAckSetQuorum, if_neg hq, ackQuorumReached, counted, Bool.and_eq_true, decide_eq_true_eq,
    length_map, and_iff_right_iff_imp]
  intro hle hnil
  rw [length_eq_zero_iff.mp hnil] at hle
  exact absurd (hpos.trans_le hle) (lt_irrefl 0)

end Db

/-- The quorum test counts the replicas that are ahead, exactly when each of them is one of the first 32
that reported and made its last report in the waited-for segment, not before the waited-for offset. -/
theorem acks_counted_iff (db : Db) (hnone : db.acks = []) (calls : List Ack) (segId : UInt32) (offset : ℕ) :
    (∀ quorum : UInt32, quorum ≠ 0 →
        (((db.replAcks calls).replAckSetQuorum quorum).ackQuorumReached segId offset = true ↔
          quorum.toNat ≤ (ahead calls segId offset).length)) ↔
      ∀ id ∈ ahead calls segId offset, id ∈ (replicas calls).take maxReplicaAcks ∧
        ∃ a, lastAck calls id = some a ∧ a.segId = segId ∧ offset ≤ a.offset := by
  have h := Db.registry_replAcks hnone calls
  have hsub : ((db.replAcks calls).counted segId offset).Subperm (ahead calls segId offset) :=
    h.counted_subperm
  constructor
  · intro hall id hid
    have hfew : ((db.replAcks calls).counted segId offset).length ≤ maxReplicaAcks := by
      rw [Db.counted, length_map]
      apply (length_filter_le _ _).trans
      rw [← length_map AckSlot.id, h.ids]
      exact length_take_le _ _
    have hle : (ahead calls segId offset).length ≤ ((db.replAcks calls).counted segId offset).length := by
      by_contra hlt
      -- a quorum of one replica more than are counted
      obtain ⟨quorum, hq⟩ : ∃ quorum : UInt32, quorum.toNat = ((db.replAcks calls).counted segId offset).length + 1 :=
        ⟨_, UInt32.toNat_ofNat_of_lt' (Nat.add_lt_of_lt_sub (hfew.trans_lt (by decide)))⟩
      have hne : quorum ≠ 0 := by
        rintro rfl
        exact absurd hq nofun
      have hiff := hall quorum hne
      rw [Db.ackQuorumReached_iff hne, hq] at hiff
      exact absurd (hiff.mpr (not_le.mp hlt)) (Nat.not_succ_le_self _)
    exact h.mem_counted.mp ((hsub.perm_of_length_le hle).mem_iff.mpr hid)
  · intro hcond quorum hq
    have hback : (ahead calls segId offset).Subperm ((db.replAcks calls).counted segId offset) :=
      (nodup_replicas.filter _).subperm fun id hid => h.mem_counted.mpr (hcond id hid)
    rw [Db.ackQuorumReached_iff hq, hsub.length_le.antisymm hback.length_le]

theorem acks_counted_iff_one_replica :
    (((Db.fresh 1024).replAcks [⟨"replica", 1, 1024⟩]).replAckSetQuorum 1).ackQuorumReached 1 512 = true ↔
      (1 : UInt32).toNat ≤ (ahead [⟨"replica", 1, 1024⟩] 1 512).length := by
  refine (acks_counted_iff (Db.fresh 1024) rfl [⟨"replica", 1, 1024⟩] 1 512).mpr ?_ 1 (by decide)
  intro id hid
  obtain rfl : id = "replica" := by simpa [replicas] using mem_of_mem_filter hid
  exact ⟨by decide, ⟨"replica", 1, 1024⟩, rfl, rfl, by decide⟩

/-- A replica that reported a later segment, or an earlier offset after a later one, is not counted. -/
theorem ahead_but_not_counted : ((ahead [⟨"replica", 2, 512⟩] 1 1024).length = 1 ∧
      ((Db.fresh 1024).replAcks [⟨"replica", 2, 512⟩]).ackQuorumReached 1 1024 = false) ∧
    (ahead [⟨"replica", 1, 1024⟩, ⟨"replica", 1, 512⟩] 1 1024).length = 1 ∧
      ((Db.fresh 1024).replAcks [⟨"replica", 1, 1024⟩, ⟨"replica", 1, 512⟩]).ackQuorumReached 1 1024 = false := by
  decide +kernel

end Picowal
