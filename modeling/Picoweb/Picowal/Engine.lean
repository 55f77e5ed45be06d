import Picoweb.Lib.Run
import Picoweb.Picowal.Checkpoint

/-!
# Runs of the engine

A run is a sequence of operations: implicit mutations, whole explicit transactions, checkpoints and
turns of the background flusher. A transaction holds the engine's lock from `picowal_db_txn_begin` to
its end, so it is one step of a run.
-/

namespace Picowal

open ByteFile

/-- A mutation request, implicit or inside a transaction. -/
inductive Req where
  | put (key : UInt32) (data : Bytes) (createOnly : Bool)
  | delete (key : UInt32)
  deriving DecidableEq, Repr

/-- An operation of a run. A transaction makes its requests in order and then commits with a
durability or, with `none`, rolls back. -/
inductive Op where
  | mutate (req : Req) (durability : Durability)
  | txn (reqs : List Req) (commit : Option Durability)
  | checkpoint
  | flush
  deriving DecidableEq, Repr

/-- How many records the operation can append. -/
def Op.size : Op → ℕ
  | .mutate _ _ => 1
  | .txn reqs _ => reqs.length
  | .checkpoint => 0
  | .flush => 0

/-- The operation syncs what it commits before it returns. -/
def Op.durable : Op → Bool
  | .mutate _ durability => decide (durability ≠ .fireAndForget)
  | .txn _ (some durability) => decide (durability ≠ .fireAndForget)
  | _ => false

namespace Db

/-- One turn of `flusher_thread`. -/
def flush (db : Db) : Db :=
  if db.dirtyUnsynced then
    let db := if db.leadingFd = .closed then db else db.syncLeading
    { db with dirtyUnsynced := false }
  else db

def mutateReq (db : Db) (req : Req) (durability : Durability) : Db × Except Errno Unit :=
  match req with
  | .put key data createOnly => db.putKeyDur key data createOnly durability
  | .delete key => db.deleteKeyDur key durability

def txnReq (db : Db) (txn : Txn) (req : Req) : Db × Txn × Except Errno Unit :=
  match req with
  | .put key data createOnly => db.txnPut txn key data createOnly
  | .delete key => db.txnDelete txn key

/-- The requests of a transaction in order, with the list of those that were accepted. -/
def txnReqs (db : Db) (txn : Txn) : List Req → Db × Txn × List Req
  | [] => (db, txn, [])
  | req :: reqs =>
    match db.txnReq txn req with
    | (db, txn, .ok ()) =>
      let (db, txn, accepted) := db.txnReqs txn reqs
      (db, txn, req :: accepted)
    | (db, txn, .error _) => db.txnReqs txn reqs

/-- One operation, with the requests it committed. -/
def step (db : Db) (op : Op) : Db × List Req :=
  match op with
  | .mutate req durability =>
    match db.mutateReq req durability with
    | (db, .ok ()) => (db, [req])
    | (db, .error _) => (db, [])
  | .txn reqs commit =>
    match db.txnBegin with
    | .error _ => (db, [])
    | .ok txn =>
      let (db, txn, accepted) := db.txnReqs txn reqs
      match commit with
      | none => (db.txnRollback txn, [])
      | some durability =>
        match db.txnCommit txn durability with
        | (db, .ok ()) => (db, accepted)
        | (db, .error _) => (db, [])
  | .checkpoint => (db.checkpoint.1, [])
  | .flush => (db.flush, [])

def run (db : Db) (ops : List Op) : Db := ops.foldl (fun db op => (db.step op).1) db

/-- No counter can wrap in the operation: there is a next segment id, and a seq for every record. -/
def Room (db : Db) (op : Op) : Prop :=
  db.leadingWalId.toNat + 1 < 2 ^ 32 ∧ db.nextSeq.toNat + op.size < 2 ^ 64
deriving Decidable

def RoomFor (db : Db) (ops : List Op) : Prop :=
  Run.Guarded (fun db op => (db.step op).1) Room db ops
deriving Decidable

end Db

/-! ### What a run is for -/

/-- The map the engine is meant to be. -/
abbrev KV := UInt32 → Option Bytes

def Req.effect : Req → UInt32 × Option Bytes
  | .put key data _ => (key, some data)
  | .delete key => (key, none)

def KV.write (m : KV) (effects : List (UInt32 × Option Bytes)) : KV :=
  effects.foldl (fun m p => Function.update m p.1 p.2) m

lemma KV.write_append (m : KV) (xs ys : List (UInt32 × Option Bytes)) :
    m.write (xs ++ ys) = (m.write xs).write ys := List.foldl_append

/-- The engine together with the map its committed requests make. -/
def stepWithMap (s : Db × KV) (op : Op) : Db × KV :=
  ((s.1.step op).1, s.2.write ((s.1.step op).2.map Req.effect))

/-- A commit as the log has it: the segment and the offset where its commit-marked record ends, what
it does to the map, and whether it returned only after the log was synced. -/
structure Commit where
  segId : UInt32
  fin : ℕ
  effects : List (UInt32 × Option Bytes)
  durable : Bool

/-- The engine together with its commits in log order. The records of an operation are the last in the
log when it returns. -/
def stepWithLog (s : Db × List Commit) (op : Op) : Db × List Commit :=
  let (db, reqs) := s.1.step op
  (db, if reqs = [] then s.2 else s.2 ++
    [{ segId := db.leadingWalId, fin := db.leadingWriteOff, effects := reqs.map Req.effect
       durable := op.durable }])

def KV.ofCommits (commits : List Commit) : KV :=
  KV.write (fun _ => none) (commits.flatMap Commit.effects)

lemma KV.ofCommits_append (cs ds : List Commit) :
    KV.ofCommits (cs ++ ds) = (KV.ofCommits cs).write (ds.flatMap Commit.effects) := by
  rw [ofCommits, ofCommits, List.flatMap_append, KV.write_append]

end Picowal
