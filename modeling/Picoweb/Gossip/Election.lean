import Picoweb.Gossip.Cluster

/-!
# Election safety

Two nodes promoted in one term would share a voter. A node's vote in a term changes only when a healthy
primary clears its candidate and a ballot of the same term then puts another one in its place; as long
as that never happens to a node that has voted, no term has two winners. The last section is a run of
three nodes in which it does happen.
-/

namespace Gossip

open Quorum

variable {cfg : Config} {c : Cluster} {e : Event} {events : List Event} {n : Id}

/-- No term is counted past `INT_MAX`, and a ballot is not taken over, into an empty candidate, by a node that
has voted for another candidate in the ballot's term. -/
def Loyal (c : Cluster) : Event → Prop
  | .tick n healthy => healthy = true ∨ (c.nodes n).term < intMax
  | .deliver n v => v.term = (c.nodes n).term → (c.nodes n).candidate = [] →
      ∀ w ∈ c.cast, w.voter = n → w.term = v.term → w.candidate = v.candidate

/-- No node votes for two candidates in one term, and in its own term it has no other candidate than
the one it voted for. -/
structure OneVote (c : Cluster) : Prop where
  unique : ∀ v ∈ c.cast, ∀ w ∈ c.cast, v.voter = w.voter → v.term = w.term → v.candidate = w.candidate
  term_le : ∀ v ∈ c.cast, v.term ≤ (c.nodes v.voter).term
  current : ∀ v ∈ c.cast, v.term = (c.nodes v.voter).term →
    (c.nodes v.voter).candidate = [] ∨ (c.nodes v.voter).candidate = v.candidate

/-! ### One step -/

/-- A turn of node `n` that casts no ballot keeps one vote a term if it moves the node to a later term
or leaves it without a candidate or with the one it voted for. -/
lemma OneVote.turn (h : OneVote c) {s : Node} {l : Id} (hterm : (c.nodes n).term ≤ s.term)
    (hcur : ∀ v ∈ c.cast, v.voter = n → v.term = s.term → s.candidate = [] ∨ s.candidate = v.candidate) :
    OneVote (c.put n s l) := by
  refine ⟨h.unique, fun v hv => ?_, fun v hv => ?_⟩
  · by_cases hn : v.voter = n
    · have := h.term_le v hv
      rw [hn] at this ⊢
      simpa [Cluster.put] using this.trans hterm
    · simpa [Cluster.put, Function.update_of_ne hn] using h.term_le v hv
  · by_cases hn : v.voter = n
    · simpa [Cluster.put, hn] using hcur v hv hn
    · simpa [Cluster.put, Function.update_of_ne hn] using h.current v hv

/-- An unhealthy tick starts a new term or votes for the candidate it already has. -/
lemma ballot_cases (followers : List Id) (self : Id) (s : Node) : (ballot followers self s).term = nextTerm s.term ∨
      (ballot followers self s).term = s.term ∧ (ballot followers self s).candidate = s.candidate := by
  obtain ⟨dead, h⟩ := blacklist_eq followers s
  rw [ballot, castBit_term, castBit_candidate, h]
  unfold nominate
  simp only
  split_ifs
  · exact .inl rfl
  · exact .inr ⟨rfl, rfl⟩

/-- A ballot that arrives changes the term and the candidate of its node as `adopt` does. -/
lemma recordVote_adopt (followers : List Id) (self : Id) (s : Node) (v : Vote) :
    (recordVote followers self s v).1.term = (adopt s v).term ∧
      (recordVote followers self s v).1.candidate = (adopt s v).candidate := by
  unfold recordVote
  simp only
  split_ifs
  · exact ⟨rfl, rfl⟩
  · obtain ⟨ht, hc, -⟩ := checkQuorum_spec followers self (castBit followers v.voter (adopt s v))
    rw [ht, hc]
    simp

lemma OneVote.unhealthy (h : OneVote c) (n : Id) (hroom : (c.nodes n).term < intMax) :
    OneVote (step cfg c (.tick n false)) := by
  rcases hs : ballot (cfg.followers n) n (c.nodes n) with s
  obtain ⟨ht, hc, -⟩ := checkQuorum_spec (cfg.followers n) n s
  have hcand : s.candidate ≠ [] := hs ▸ cfg.named _ (ballot_candidate_mem cfg n (c.nodes n))
  have hcases := hs ▸ ballot_cases (cfg.followers n) n (c.nodes n)
  rw [nextTerm, if_pos hroom] at hcases
  -- an earlier ballot of this node in the term it votes in is for the same candidate
  have hsame : ∀ w ∈ c.cast, w.voter = n → w.term = s.term → w.candidate = s.candidate := by
    intro w hw hn hwt
    have hle := h.term_le w hw
    have hcur := h.current w hw
    rw [hn] at hle hcur
    rcases hcases with hb | ⟨hb, hbc⟩
    · omega
    · rw [← hbc] at hcur
      exact ((hcur (hwt.trans hb)).resolve_left hcand).symm
  have hold : OneVote (c.put n (checkQuorum (cfg.followers n) n s).1 (checkQuorum (cfg.followers n) n s).2) := by
    refine h.turn (by omega) fun v hv hn hvt => .inr ?_
    rw [hc]
    exact (hsame v hv hn (hvt.trans ht)).symm
  rw [step_unhealthy cfg c n hs rfl]
  refine ⟨?_, List.forall_mem_cons.2 ⟨?_, hold.term_le⟩, List.forall_mem_cons.2 ⟨fun _ => ?_, hold.current⟩⟩
  · rintro v (_ | ⟨_, hv⟩) w (_ | ⟨_, hw⟩) hn hvt
    · rfl
    · exact (hsame w hw hn.symm hvt.symm).symm
    · exact hsame v hv hn hvt
    · exact h.unique v hv w hw hn hvt
  · simp [Cluster.put, ht]
  · simp [Cluster.put, hc]

lemma OneVote.deliver (h : OneVote c) {v : Vote} (hl : Loyal c (.deliver n v)) :
    OneVote (step cfg c (.deliver n v)) := by
  obtain ⟨ht, hc⟩ := recordVote_adopt (cfg.followers n) n (c.nodes n) v
  rw [step_deliver]
  unfold adopt at ht hc
  split_ifs at ht hc with hlt he
  · refine h.turn (by rw [ht]; exact hlt.le) fun w hw hn hwt => ?_
    have hle := h.term_le w hw
    have hwv : w.term = v.term := hwt.trans ht
    rw [hn] at hle
    omega
  · refine h.turn (by rw [ht]) fun w hw hn hwt => .inr ?_
    rw [hc]
    exact (hl he.1 he.2 w hw hn (hwt.trans (ht.trans he.1.symm))).symm
  · refine h.turn (by rw [ht]) fun w hw hn hwt => ?_
    have := h.current w hw
    rw [hn] at this
    rw [hc]
    exact this (hwt.trans ht)

lemma OneVote.step (h : OneVote c) (hl : Loyal c e) : OneVote (step cfg c e) := by
  match e with
  | .tick n true =>
    rw [step_healthy]
    exact h.turn le_rfl fun _ _ _ _ => .inl rfl
  | .tick n false => exact h.unhealthy n (hl.resolve_left nofun)
  | .deliver n v => exact h.deliver hl

/-- Two candidates elected in one term are one. -/
lemma OneVote.elected_unique (h : OneVote c) {x y : Id} {t : ℤ} (hx : Elected cfg c x t)
    (hy : Elected cfg c y t) : x = y := by
  obtain ⟨v, hvx, hvy⟩ := Majority.exists_mem_inter hx hy
  exact h.unique _ (Finset.mem_filter.1 hvx).2 _ (Finset.mem_filter.1 hvy).2 rfl rfl

/-- In a run in which no term passes `INT_MAX` and no node takes over a candidate in a term it has voted in for
another, no two nodes are promoted by quorums of one term. -/
theorem promotions_unique (cfg : Config) (events : List Event)
    (h : Run.Guarded (Gossip.step cfg) (fun c e => Enabled c e ∧ Loyal c e) {} events) (t : ℤ) :
    {x | (x, t) ∈ (events.foldl (Gossip.step cfg) {}).promotions}.Subsingleton := by
  have hinv : Honest cfg (events.foldl (Gossip.step cfg) {}) ∧ OneVote (events.foldl (Gossip.step cfg) {}) := by
    refine h.invariant (P := fun c => Honest cfg c ∧ OneVote c) ?_ ⟨honest_init cfg, by constructor <;> simp⟩
    exact fun c e hc he => ⟨hc.1.step he.1, hc.2.step he.2⟩
  intro x hx y hy
  exact hinv.2.elected_unique (hinv.1.promotions _ hx) (hinv.1.promotions _ hy)

/-! ### Two winners of one term -/

instance (c : Cluster) (e : Event) : Decidable (Loyal c e) :=
  match e with
  | .tick _ _ => inferInstanceAs (Decidable (_ ∨ _))
  | .deliver _ _ => inferInstanceAs (Decidable (_ → _ → ∀ w ∈ c.cast, _))

theorem promotions_unique_trio : (idA, 1) ∈ (firstElection.foldl (Gossip.step trio) {}).promotions ∧
      {x | (x, 1) ∈ (firstElection.foldl (Gossip.step trio) {}).promotions}.Subsingleton :=
  ⟨by decide +kernel, promotions_unique trio firstElection (by decide +kernel) 1⟩

/-- `c` learns that `a` leads, finds it dead and nominates `b` in term 2, where `a` and `b` vote for
`a`. The primary of `b` then looks healthy for a moment, which clears its candidate, the ballot of `c`
for `b` arrives, and when `a` fails `b` votes for itself in the same term. -/
def splitElection : List Event :=
  [.tick idA false, .tick idC false, .deliver idC ⟨1, idA, idA⟩, .tick idC false,
    .tick idA true, .tick idA false, .deliver idB ⟨2, idA, idA⟩, .tick idB false,
    .deliver idA ⟨2, idA, idB⟩, .tick idB true, .deliver idB ⟨2, idB, idC⟩, .tick idB false]

/-- Two nodes are promoted in term 2. -/
theorem two_leaders_in_one_term : Run.Guarded (Gossip.step trio) Enabled {} splitElection ∧
      (splitElection.foldl (Gossip.step trio) {}).promotions = [(idB, 2), (idA, 2)] ∧ idA ≠ idB :=
  ⟨by decide +kernel, by decide +kernel, by decide⟩

end Gossip
