import Picoweb.Lib.ByteFile
import Picoweb.Lib.Quorum

/-!
# One node of the gossip election

The state `picowal_gossip.c` keeps under `g_lock` and the three things that change it: a tick of the
gossip thread with a healthy primary, a tick with an unhealthy one, and a vote that arrives over HTTP.
Ids are byte strings, compared as `strcmp` does, and the empty string stands for none.
-/

namespace Gossip

open ByteFile Quorum

abbrev Id := Bytes

abbrev gossipMaxFollowers : ℕ := 32

/-- A ballot as `gossip_post_vote` writes it into the request body. -/
structure Vote where
  term : ℤ
  candidate : Id
  voter : Id
  deriving DecidableEq, Repr

/-- The variables of a node: `g_term`, `g_candidate`, `g_vote_bitmask`, `g_promoted`, the indices set in
`g_dead`, and `g_known_leader`. -/
structure Node where
  term : ℤ := 0
  candidate : Id := []
  voteBitmask : ℕ := 0
  promoted : Bool := false
  dead : List ℕ := []
  knownLeader : Id := []
  deriving DecidableEq, Repr

def findFollower (followers : List Id) (id : Id) : Option ℕ := followers.idxOf? id

/-- The smallest id of a list, the first of equals. -/
def smallest (ids : List Id) : Option Id :=
  ids.foldl (fun best id =>
    match best with
    | none => some id
    | some b => if id < b then some id else some b) none

/-- The followers that are not blacklisted. -/
def alive (followers : List Id) (dead : List ℕ) : List Id :=
  (followers.zipIdx.filter fun p => p.2 ∉ dead).map Prod.fst

def pickCandidate (followers : List Id) (dead : List ℕ) : Id :=
  match smallest (alive followers dead) with
  | some best => best
  | none => (smallest followers).getD []

/-- `check_quorum_locked`: the node afterwards, and the leader it newly confirmed, if any. -/
def checkQuorum (followers : List Id) (self : Id) (s : Node) : Node × Id :=
  if s.candidate = [] then (s, [])
  else
    let votes := popcount 32 s.voteBitmask
    let quorum := followers.length / 2 + 1
    if votes < quorum then (s, [])
    else
      let newLeader := if s.knownLeader ≠ s.candidate then s.candidate else []
      let s := { s with knownLeader := s.candidate }
      if s.promoted ∨ s.candidate ≠ self then (s, newLeader)
      else ({ s with promoted := true }, newLeader)

/-- The part of `record_vote_locked` before the voter is looked up. -/
def adopt (s : Node) (v : Vote) : Node :=
  if s.term < v.term then { s with term := v.term, candidate := v.candidate, voteBitmask := 0 }
  else if v.term = s.term ∧ s.candidate = [] then { s with candidate := v.candidate }
  else s

/-- The bit of a registered voter, set. -/
def castBit (followers : List Id) (voter : Id) (s : Node) : Node :=
  match findFollower followers voter with
  | some vi => { s with voteBitmask := setBit s.voteBitmask vi }
  | none => s

def recordVote (followers : List Id) (self : Id) (s : Node) (v : Vote) : Node × Id :=
  let s := adopt s v
  if v.term ≠ s.term ∨ v.candidate ≠ s.candidate then (s, [])
  else checkQuorum followers self (castBit followers v.voter s)

/-- A tick of `gossip_thread` while the primary looks healthy. -/
def healthyTick (s : Node) : Node := { s with candidate := [], voteBitmask := 0 }

/-- The first step of an unhealthy tick: a known leader that failed is blacklisted. -/
def blacklist (followers : List Id) (s : Node) : Node :=
  if s.knownLeader = [] then s
  else
    match findFollower followers s.knownLeader with
    | some di => { s with dead := di :: s.dead, knownLeader := [] }
    | none => { s with knownLeader := [] }

/-- `INT_MAX` -/
abbrev intMax : ℤ := 2147483647

/-- `g_term++`; behind `INT_MAX`, where the source has no meaning, the term wraps around. -/
def nextTerm (term : ℤ) : ℤ := if term < intMax then term + 1 else -intMax - 1

/-- The second step: a new term starts unless the pick is already the candidate. -/
def nominate (followers : List Id) (s : Node) : Node :=
  let candidate := pickCandidate followers s.dead
  if candidate ≠ s.candidate then
    { s with term := nextTerm s.term, candidate := candidate, voteBitmask := 0 }
  else s

/-- The node once an unhealthy tick has cast its own ballot. -/
def ballot (followers : List Id) (self : Id) (s : Node) : Node :=
  castBit followers self (nominate followers (blacklist followers s))

/-- A tick of `gossip_thread` while the primary looks unhealthy, and the ballot it sends to every
other follower. -/
def unhealthyTick (followers : List Id) (self : Id) (s : Node) : Node × Id × Vote :=
  let s := ballot followers self s
  let vote : Vote := ⟨s.term, s.candidate, self⟩
  let (s, newLeader) := checkQuorum followers self s
  (s, newLeader, vote)

end Gossip
