import Picoweb.Gossip.Node
import Picoweb.Lib.Run

/-!
# A cluster of gossiping nodes

Every node lists the same set of registered followers, in an order of its own. A step is a tick of one
node, with whatever its health check says, or the arrival at one node of a ballot posted to it at any
time before: ballots are delayed, reordered, duplicated and lost at will.
-/

namespace Gossip

open Quorum List

/-- What all nodes are configured with, and the order in which each one lists it. -/
structure Config where
  members : Finset Id
  followers : Id → List Id
  mem_followers : ∀ n id, id ∈ followers n ↔ id ∈ members
  named : ∀ id ∈ members, id ≠ []
  nonempty : members.Nonempty
  length_le : ∀ n, (followers n).length ≤ gossipMaxFollowers

/-- The nodes by their ids, the ballots posted and to whom, and the history of the run: the ballots
cast, the leaders confirmed and the promotions, each with its term. -/
structure Cluster where
  nodes : Id → Node := fun _ => {}
  posted : List (Id × Vote) := []
  cast : List Vote := []
  confirmed : List (Id × Id × ℤ) := []
  promotions : List (Id × ℤ) := []

/-- One step of a cluster. The gossip thread tests `g_promoted` before it takes the lock, so a tick
can also find its node promoted meanwhile. -/
inductive Event
  | tick (n : Id) (healthy : Bool)
  | deliver (n : Id) (v : Vote)
  deriving DecidableEq, Repr

/-- Node `n` becomes `s`, having confirmed `newLeader` if that is not empty. -/
def Cluster.put (c : Cluster) (n : Id) (s : Node) (newLeader : Id) : Cluster :=
  { c with
    nodes := Function.update c.nodes n s
    confirmed := if newLeader = [] then c.confirmed else (n, newLeader, s.term) :: c.confirmed
    promotions :=
      if s.promoted && !(c.nodes n).promoted then (n, s.term) :: c.promotions else c.promotions }

def step (cfg : Config) (c : Cluster) : Event → Cluster
  | .tick n true => c.put n (healthyTick (c.nodes n)) []
  | .tick n false =>
    let followers := cfg.followers n
    let (s, newLeader, vote) := unhealthyTick followers n (c.nodes n)
    { c.put n s newLeader with
      posted := (followers.filter (· ≠ n)).map (·, vote) ++ c.posted
      cast := vote :: c.cast }
  | .deliver n v =>
    let (s, newLeader) := recordVote (cfg.followers n) n (c.nodes n) v
    c.put n s newLeader

/-- A ballot arrives only where it was posted to. -/
def Enabled (c : Cluster) : Event → Prop
  | .tick _ _ => True
  | .deliver n v => (n, v) ∈ c.posted

/-- More than half of the registered followers voted for `candidate` in `term`. -/
def Elected (cfg : Config) (c : Cluster) (candidate : Id) (term : ℤ) : Prop :=
  Majority cfg.members (cfg.members.filter fun id => ⟨term, candidate, id⟩ ∈ c.cast)

/-! ### What the parts of a step do -/

section Node

variable {followers : List Id} {self id : Id} {s : Node} {v : Vote}

@[simp] lemma castBit_term (voter : Id) : (castBit followers voter s).term = s.term := by
  unfold castBit
  split <;> rfl

@[simp] lemma castBit_candidate (voter : Id) : (castBit followers voter s).candidate = s.candidate := by
  unfold castBit
  split <;> rfl

@[simp] lemma castBit_knownLeader (voter : Id) : (castBit followers voter s).knownLeader = s.knownLeader := by
  unfold castBit
  split <;> rfl

@[simp] lemma castBit_promoted (voter : Id) : (castBit followers voter s).promoted = s.promoted := by
  unfold castBit
  split <;> rfl

lemma blacklist_eq (followers : List Id) (s : Node) :
    ∃ dead, blacklist followers s = { s with dead := dead, knownLeader := [] } := by
  unfold blacklist
  split_ifs with h
  · exact ⟨s.dead, by rw [← h]⟩
  · split <;> exact ⟨_, rfl⟩

@[simp] lemma adopt_promoted : (adopt s v).promoted = s.promoted := by
  unfold adopt
  split_ifs <;> rfl

@[simp] lemma adopt_knownLeader : (adopt s v).knownLeader = s.knownLeader := by
  unfold adopt
  split_ifs <;> rfl

@[simp] lemma nominate_knownLeader : (nominate followers s).knownLeader = s.knownLeader := by
  unfold nominate
  simp only
  split_ifs <;> rfl

@[simp] lemma nominate_promoted : (nominate followers s).promoted = s.promoted := by
  unfold nominate
  simp only
  split_ifs <;> rfl

lemma nominate_candidate : (nominate followers s).candidate = pickCandidate followers s.dead := by
  unfold nominate
  simp only
  split_ifs with h
  · rfl
  · exact (not_not.1 h).symm

lemma smallest_mem {ids : List Id} (h : ids ≠ []) : ∃ id ∈ ids, smallest ids = some id :=
  Run.exists_mem_foldl (fun _ => rfl) (fun _ _ => ite_eq_or_eq _ _ _) h

/-- The pick is a registered follower, whoever is blacklisted. -/
lemma pickCandidate_mem (h : followers ≠ []) (dead : List ℕ) : pickCandidate followers dead ∈ followers := by
  unfold pickCandidate
  by_cases ha : alive followers dead = []
  · obtain ⟨id, hid, hb⟩ := smallest_mem h
    have hnone : smallest [] = none := rfl
    simpa [ha, hnone, hb] using hid
  · obtain ⟨id, hid, hb⟩ := smallest_mem ha
    simp only [alive, mem_map, mem_filter] at hid
    obtain ⟨⟨x, i⟩, ⟨hx, -⟩, rfl⟩ := hid
    rw [hb]
    exact fst_mem_of_mem_zipIdx hx

/-- What `check_quorum_locked` leaves alone, and what it takes to confirm a leader or to be
promoted. -/
lemma checkQuorum_spec (followers : List Id) (self : Id) (s : Node) : (checkQuorum followers self s).1.term = s.term ∧
    (checkQuorum followers self s).1.candidate = s.candidate ∧
    (checkQuorum followers self s).1.voteBitmask = s.voteBitmask ∧
    ((checkQuorum followers self s).1.knownLeader = s.knownLeader ∨
      (checkQuorum followers self s).1.knownLeader = (checkQuorum followers self s).2) ∧
    ((checkQuorum followers self s).2 ≠ [] → (checkQuorum followers self s).2 = s.candidate ∧
        followers.length / 2 < popcount 32 s.voteBitmask) ∧
    ((checkQuorum followers self s).1.promoted = true → s.promoted = false →
      s.candidate = self ∧ followers.length / 2 < popcount 32 s.voteBitmask) := by
  unfold checkQuorum
  simp only
  split_ifs <;> simp_all

end Node

/-! ### Honest tallies -/

section Tally

variable {cfg : Config} {cast cast' : List Vote} {followers : List Id} {s : Node} {v : Vote} {n : Id}

/-- Every bit of the mask is the place of a follower that voted for the candidate in the term, and
there is no bit without a candidate. -/
structure Tallied (cast : List Vote) (followers : List Id) (s : Node) : Prop where
  empty : s.candidate = [] → s.voteBitmask = 0
  voted : ∀ i, s.voteBitmask.testBit i = true →
    ∃ id, findFollower followers id = some i ∧ ⟨s.term, s.candidate, id⟩ ∈ cast

lemma Tallied.mono (h : Tallied cast followers s) (hsub : cast ⊆ cast') : Tallied cast' followers s :=
  ⟨h.empty, fun i hi => (h.voted i hi).imp fun _ hid => ⟨hid.1, hsub hid.2⟩⟩

lemma tallied_of_eq_zero (h : s.voteBitmask = 0) : Tallied cast followers s :=
  ⟨fun _ => h, fun i hi => by simp [h] at hi⟩

lemma Tallied.congr {s' : Node} (h : Tallied cast followers s) (ht : s'.term = s.term)
    (hc : s'.candidate = s.candidate) (hm : s'.voteBitmask = s.voteBitmask) : Tallied cast followers s' := by
  refine ⟨fun he => ?_, fun i hi => ?_⟩
  · rw [hm, h.empty (hc ▸ he)]
  · rw [ht, hc]
    exact h.voted i (hm ▸ hi)

lemma Tallied.adopt (h : Tallied cast followers s) : Tallied cast followers (adopt s v) := by
  unfold Gossip.adopt
  split_ifs with hlt he
  · exact tallied_of_eq_zero rfl
  · exact tallied_of_eq_zero (h.empty he.2)
  · exact h

lemma Tallied.nominate (h : Tallied cast followers s) : Tallied cast followers (nominate followers s) := by
  unfold Gossip.nominate
  simp only
  split_ifs
  · exact tallied_of_eq_zero rfl
  · exact h

lemma Tallied.castBit (h : Tallied cast followers s) (hs : s.candidate ≠ []) {voter : Id}
    (hv : ⟨s.term, s.candidate, voter⟩ ∈ cast) : Tallied cast followers (castBit followers voter s) := by
  rcases hf : findFollower followers voter with _ | vi
  · simpa [Gossip.castBit, hf] using h
  · simp only [Gossip.castBit, hf]
    refine ⟨fun he => absurd he hs, fun i hi => ?_⟩
    rcases testBit_setBit_iff.1 hi with hb | rfl
    · exact h.voted i hb
    · exact ⟨voter, hf, hv⟩

lemma Tallied.majority (h : Tallied cast (cfg.followers n) s)
    (hq : (cfg.followers n).length / 2 < popcount 32 s.voteBitmask) :
    Majority cfg.members (cfg.members.filter fun id => ⟨s.term, s.candidate, id⟩ ∈ cast) := by
  refine ⟨Finset.filter_subset _ _, ?_⟩
  have hle : popcount 32 s.voteBitmask ≤ (cfg.members.filter fun id => ⟨s.term, s.candidate, id⟩ ∈ cast).card := by
    refine popcount_le_card (fun id => (findFollower (cfg.followers n) id).getD 0) fun i hi => ?_
    obtain ⟨id, hid, hvote⟩ := h.voted i hi
    have hmem : id ∈ cfg.followers n := by
      by_contra hno
      simp [findFollower, idxOf?_eq_none_iff.2 hno] at hid
    exact ⟨id, Finset.mem_filter.2 ⟨(cfg.mem_followers n id).1 hmem, hvote⟩, by simp [hid]⟩
  have hcard : cfg.members.card ≤ (cfg.followers n).length := by
    refine (Finset.card_le_card fun id hid => ?_).trans (toFinset_card_le (cfg.followers n))
    exact mem_toFinset.2 ((cfg.mem_followers n id).2 hid)
  omega

end Tally

/-! ### What every run keeps -/

section Runs

variable {cfg : Config} {c : Cluster} {e : Event} {events : List Event}

lemma Config.followers_ne_nil (cfg : Config) (n : Id) : cfg.followers n ≠ [] := by
  obtain ⟨id, hid⟩ := cfg.nonempty
  exact ne_nil_of_mem ((cfg.mem_followers n id).2 hid)

/-- A ballot that can arrive was cast, every ballot names a candidate, every tally is honest, the
history has every known leader and every promoted node, and all of them were elected. -/
structure Honest (cfg : Config) (c : Cluster) : Prop where
  posted : ∀ p ∈ c.posted, p.2 ∈ c.cast
  named : ∀ v ∈ c.cast, v.candidate ≠ []
  tally : ∀ n, Tallied c.cast (cfg.followers n) (c.nodes n)
  known : ∀ n, (c.nodes n).knownLeader ≠ [] → ∃ t, (n, (c.nodes n).knownLeader, t) ∈ c.confirmed
  promoted : ∀ n, (c.nodes n).promoted = true → ∃ t, (n, t) ∈ c.promotions
  confirmed : ∀ x ∈ c.confirmed, Elected cfg c x.2.1 x.2.2
  promotions : ∀ x ∈ c.promotions, Elected cfg c x.1 x.2

lemma honest_init (cfg : Config) : Honest cfg {} where
  posted := by simp
  named := by simp
  tally _ := tallied_of_eq_zero rfl
  known _ h := absurd rfl h
  promoted := by simp
  confirmed := by simp
  promotions := by simp

/-- Once elected is elected for good: ballots are only added. -/
lemma Elected.mono {c c' : Cluster} {candidate : Id} {term : ℤ} (h : Elected cfg c candidate term)
    (hsub : c.cast ⊆ c'.cast) : Elected cfg c' candidate term :=
  Majority.mono h (Finset.monotone_filter_right _ fun _ _ hm => hsub hm) (Finset.filter_subset _ _)

/-- A turn of node `n` that leaves it with an honest tally, and with a quorum behind every leader it
confirms, keeps the whole cluster honest. -/
lemma Honest.turn (h : Honest cfg c) {n l : Id} {s : Node} {posted : List (Id × Vote)}
    {cast : List Vote} (hsub : c.cast ⊆ cast) (hposted : ∀ p ∈ posted, p.2 ∈ cast)
    (hnamed : ∀ v ∈ cast, v.candidate ≠ []) (htally : Tallied cast (cfg.followers n) s)
    (hk : s.knownLeader = [] ∨ s.knownLeader = (c.nodes n).knownLeader ∨ s.knownLeader = l)
    (hl : l ≠ [] → l = s.candidate ∧ (cfg.followers n).length / 2 < popcount 32 s.voteBitmask)
    (hp : s.promoted = true → (c.nodes n).promoted = false →
      s.candidate = n ∧ (cfg.followers n).length / 2 < popcount 32 s.voteBitmask) :
    Honest cfg { c.put n s l with posted := posted, cast := cast } := by
  have hconfirmed : c.confirmed ⊆ (c.put n s l).confirmed := by
    simp only [Cluster.put]
    split_ifs
    · exact List.Subset.refl _
    · exact subset_cons_self _ _
  have hpromotions : c.promotions ⊆ (c.put n s l).promotions := by
    simp only [Cluster.put]
    split_ifs
    · exact subset_cons_self _ _
    · exact List.Subset.refl _
  refine ⟨hposted, hnamed, ?_, ?_, ?_, ?_, ?_⟩
  · exact (Function.forall_update_iff _ _).2 ⟨htally, fun m _ => (h.tally m).mono hsub⟩
  · refine (Function.forall_update_iff c.nodes fun m s' => s'.knownLeader ≠ [] →
      ∃ t, (m, s'.knownLeader, t) ∈ (c.put n s l).confirmed).2 ⟨fun hne => ?_, fun m _ hm => ?_⟩
    · rcases hk with h0 | hsame | hnew
      · exact absurd h0 hne
      · rw [hsame] at hne ⊢
        exact (h.known n hne).imp fun t ht => hconfirmed ht
      · rw [hnew] at hne ⊢
        exact ⟨s.term, by simp [Cluster.put, hne]⟩
    · exact (h.known m hm).imp fun t ht => hconfirmed ht
  · refine (Function.forall_update_iff c.nodes fun m s' => s'.promoted = true →
      ∃ t, (m, t) ∈ (c.put n s l).promotions).2 ⟨fun hpr => ?_, fun m _ hm => ?_⟩
    · rcases hb : (c.nodes n).promoted with _ | _
      · exact ⟨s.term, by simp [Cluster.put, hpr, hb]⟩
      · exact (h.promoted n hb).imp fun t ht => hpromotions ht
    · exact (h.promoted m hm).imp fun t ht => hpromotions ht
  · intro x hx
    simp only [Cluster.put] at hx
    split_ifs at hx with hl'
    · exact (h.confirmed x hx).mono hsub
    · rcases mem_cons.1 hx with rfl | hx
      · obtain ⟨rfl, hq⟩ := hl hl'
        exact htally.majority hq
      · exact (h.confirmed x hx).mono hsub
  · intro x hx
    simp only [Cluster.put] at hx
    split_ifs at hx with hpr
    · rcases mem_cons.1 hx with rfl | hx
      · simp only [Bool.and_eq_true, Bool.not_eq_true'] at hpr
        obtain ⟨hc, hq⟩ := hp hpr.1 hpr.2
        have := htally.majority hq
        rwa [hc] at this
      · exact (h.promotions x hx).mono hsub
    · exact (h.promotions x hx).mono hsub

lemma step_healthy (cfg : Config) (c : Cluster) (n : Id) :
    step cfg c (.tick n true) = c.put n (healthyTick (c.nodes n)) [] := rfl

lemma step_unhealthy (cfg : Config) (c : Cluster) (n : Id) {s : Node} {vote : Vote}
    (hs : ballot (cfg.followers n) n (c.nodes n) = s) (hv : ⟨s.term, s.candidate, n⟩ = vote) :
    step cfg c (.tick n false) =
      { c.put n (checkQuorum (cfg.followers n) n s).1 (checkQuorum (cfg.followers n) n s).2 with
        posted := ((cfg.followers n).filter (· ≠ n)).map (·, vote) ++ c.posted
        cast := vote :: c.cast } := by
  subst hs hv
  rfl

lemma step_deliver (cfg : Config) (c : Cluster) (n : Id) (v : Vote) :
    step cfg c (.deliver n v) = c.put n (recordVote (cfg.followers n) n (c.nodes n) v).1
      (recordVote (cfg.followers n) n (c.nodes n) v).2 := rfl

lemma ballot_candidate_mem (cfg : Config) (n : Id) (s : Node) :
    (ballot (cfg.followers n) n s).candidate ∈ cfg.members := by
  rw [ballot, castBit_candidate, nominate_candidate]
  exact (cfg.mem_followers n _).1 (pickCandidate_mem (cfg.followers_ne_nil n) _)

lemma ballot_knownLeader (followers : List Id) (self : Id) (s : Node) :
    (ballot followers self s).knownLeader = [] := by
  obtain ⟨dead, h⟩ := blacklist_eq followers s
  simp [ballot, h]

lemma ballot_promoted (followers : List Id) (self : Id) (s : Node) :
    (ballot followers self s).promoted = s.promoted := by
  obtain ⟨dead, h⟩ := blacklist_eq followers s
  simp [ballot, h]

lemma Honest.healthy (h : Honest cfg c) (n : Id) : Honest cfg (step cfg c (.tick n true)) := by
  rw [step_healthy]
  refine h.turn (List.Subset.refl _) h.posted h.named ?_ ?_ (fun hl => absurd rfl hl) fun hp hn => ?_
  · exact tallied_of_eq_zero rfl
  · exact .inr (.inl rfl)
  · simp [healthyTick, hn] at hp

lemma Honest.unhealthy (h : Honest cfg c) (n : Id) : Honest cfg (step cfg c (.tick n false)) := by
  rcases hs : ballot (cfg.followers n) n (c.nodes n) with s
  rw [step_unhealthy cfg c n hs rfl]
  obtain ⟨ht, hc, hm, hk, hl, hp⟩ := checkQuorum_spec (cfg.followers n) n s
  have hcand : s.candidate ≠ [] := hs ▸ cfg.named _ (ballot_candidate_mem cfg n (c.nodes n))
  have hnode : Tallied (⟨s.term, s.candidate, n⟩ :: c.cast) (cfg.followers n) s := by
    obtain ⟨dead, hblack⟩ := blacklist_eq (cfg.followers n) (c.nodes n)
    rw [← hs, ballot, castBit_term, castBit_candidate, hblack]
    refine Tallied.castBit (Tallied.nominate ?_) ?_ mem_cons_self
    · exact ((h.tally n).mono (subset_cons_self _ _)).congr rfl rfl rfl
    · rwa [← hs, ballot, castBit_candidate, hblack] at hcand
  refine h.turn (subset_cons_self _ _) (fun p hp => ?_) (forall_mem_cons.2 ⟨hcand, h.named⟩)
    (hnode.congr ht hc hm) ?_ (by rwa [hc, hm]) fun hpr hn => ?_
  · rcases mem_append.1 hp with hp | hp
    · obtain ⟨id, -, rfl⟩ := mem_map.1 hp
      exact mem_cons_self
    · exact mem_cons_of_mem _ (h.posted p hp)
  · exact hk.imp (fun h0 => by rw [h0, ← hs, ballot_knownLeader]) .inr
  · rw [hc, hm]
    exact hp hpr (by rw [← hs, ballot_promoted, hn])

lemma Honest.deliver (h : Honest cfg c) {n : Id} {v : Vote} (hv : v ∈ c.cast) :
    Honest cfg (step cfg c (.deliver n v)) := by
  rw [step_deliver, recordVote]
  have hadopt := (h.tally n).adopt (v := v)
  split_ifs with hmis
  · refine h.turn (List.Subset.refl _) h.posted h.named hadopt (.inr (.inl adopt_knownLeader))
      (fun hl => absurd rfl hl) fun hp hn => ?_
    simp [hn] at hp
  · simp only [not_or, ne_eq, not_not] at hmis
    rcases hs : castBit (cfg.followers n) v.voter (adopt (c.nodes n) v) with s
    obtain ⟨ht, hc, hm, hk, hl, hp⟩ := checkQuorum_spec (cfg.followers n) n s
    have hnode : Tallied c.cast (cfg.followers n) s := by
      rw [← hs]
      refine hadopt.castBit (hmis.2 ▸ h.named v hv) ?_
      rw [← hmis.1, ← hmis.2]
      exact hv
    refine h.turn (List.Subset.refl _) h.posted h.named (hnode.congr ht hc hm) (.inr ?_)
      (by rwa [hc, hm]) fun hpr hn => ?_
    · exact hk.imp_left fun h0 => by rw [h0, ← hs, castBit_knownLeader, adopt_knownLeader]
    · rw [hc, hm]
      exact hp hpr (by rw [← hs]; simp [hn])

lemma Honest.step (h : Honest cfg c) (he : Enabled c e) : Honest cfg (step cfg c e) := by
  match e with
  | .tick n true => exact h.healthy n
  | .tick n false => exact h.unhealthy n
  | .deliver n v => exact h.deliver (h.posted _ he)

lemma Honest.run (h : Run.Guarded (Gossip.step cfg) Enabled c events) (hc : Honest cfg c) :
    Honest cfg (events.foldl (Gossip.step cfg) c) :=
  h.invariant (fun _ _ hc he => hc.step he) hc

/-- In every state a cluster can reach, each bit of a node's tally is the ballot of that follower for
the node's own candidate and term, and more than half of the registered followers voted, in that term,
for every leader a node has confirmed and for every node that has promoted itself. -/
theorem tallies_honest (cfg : Config) (events : List Event)
    (h : Run.Guarded (Gossip.step cfg) Enabled {} events) {c : Cluster} (hc : c = events.foldl (Gossip.step cfg) {}) :
    (∀ n i, (c.nodes n).voteBitmask.testBit i = true → ∃ id, (cfg.followers n)[i]? = some id ∧
      ⟨(c.nodes n).term, (c.nodes n).candidate, id⟩ ∈ c.cast) ∧
    (∀ n, (c.nodes n).knownLeader ≠ [] → ∃ t, (n, (c.nodes n).knownLeader, t) ∈ c.confirmed) ∧
    (∀ n leader t, (n, leader, t) ∈ c.confirmed → Elected cfg c leader t) ∧
    (∀ n, (c.nodes n).promoted = true → ∃ t, (n, t) ∈ c.promotions) ∧
    ∀ n t, (n, t) ∈ c.promotions → Elected cfg c n t := by
  subst hc
  have hon := Honest.run h (honest_init cfg)
  refine ⟨fun n i hi => ?_, hon.known, fun n leader t hx => hon.confirmed _ hx, hon.promoted,
    fun n t hx => hon.promotions _ hx⟩
  obtain ⟨id, hid, hvote⟩ := (hon.tally n).voted i hi
  refine ⟨id, ?_, hvote⟩
  obtain ⟨hlt, hget, -⟩ := List.idxOf?_eq_some_iff.1 hid
  exact List.getElem?_eq_some_iff.2 ⟨hlt, by simpa using hget⟩

end Runs

/-! ### A cluster of three -/

instance (c : Cluster) (e : Event) : Decidable (Enabled c e) :=
  match e with
  | .tick _ _ => isTrue trivial
  | .deliver n v => inferInstanceAs (Decidable ((n, v) ∈ c.posted))

def idA : Id := [97]
def idB : Id := [98]
def idC : Id := [99]

/-- Three registered followers, listed alike by every node. -/
def trio : Config where
  members := {idA, idB, idC}
  followers _ := [idA, idB, idC]
  mem_followers := by simp
  named := by decide
  nonempty := ⟨idA, by decide⟩
  length_le _ := by decide

/-- The first election: two nodes find the primary dead and vote for the smallest id. -/
def firstElection : List Event :=
  [.tick idA false, .tick idB false, .deliver idA ⟨1, idA, idB⟩]

theorem tallies_honest_trio : (idA, 1) ∈ (firstElection.foldl (step trio) {}).promotions ∧
      Elected trio (firstElection.foldl (step trio) {}) idA 1 := by
  have hp : (idA, 1) ∈ (firstElection.foldl (step trio) {}).promotions := by decide +kernel
  exact ⟨hp, (tallies_honest trio firstElection (by decide +kernel) rfl).2.2.2.2 idA 1 hp⟩

end Gossip
