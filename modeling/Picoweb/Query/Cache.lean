import Picoweb.Query.Resolve

/-!
# The cache of parsed queries

Calls of `picowal_query_run` by any number of threads, interleaved with writes, at the granularity of
single calls to the database and to the cache. An entry of the cache carries the schema
generation at the time it is stored, while its validation has read the database before that. It
is right when the generation has not moved in between.
-/

namespace Query

open ByteFile ByteText CString Picowal Asking List Function

abbrev cacheSize : ℕ := 128
abbrev cacheTextMax : ℕ := 512

/-- An open database: its records and `schema_gen`. -/
structure Store where
  records : Records
  schemaGen : UInt64

/-- `pwq_cache_entry_t` when it is valid. `readAt` is not part of it: the schema generations at which its
validation made its calls. -/
structure Entry where
  db : ℕ
  schemaGen : UInt64
  text : Bytes
  q : Pwq
  readAt : List UInt64
  deriving DecidableEq, Repr

/-- A thread, outside of `picowal_query_run` or before the execution, or on its way through
parsing and validation; `readAt` as for an entry. -/
inductive Thread
  | idle
  | resolving (db : ℕ) (text : Bytes) (rest : Resolver (Except String Pwq)) (readAt : List UInt64)

/-- Databases and threads have numbers in place of addresses. -/
structure State where
  stores : ℕ → Store
  cache : Fin cacheSize → Option Entry
  threads : ℕ → Thread

/-! ### Cache -/

/-- `pwq_hash`: FNV-1a over 32 bits. -/
def pwqHash (s : Bytes) : UInt32 := s.foldl (fun h b => (h ^^^ b.toUInt32) * 16777619) 2166136261

def cacheIndex (text : Bytes) : Fin cacheSize := Fin.ofNat cacheSize (pwqHash text).toNat

def cacheable (text : Bytes) : Bool := text.length ≠ 0 && text.length < cacheTextMax

/-- The entry that `pwq_cache_lookup` finds. -/
def lookupEntry (s : State) (db : ℕ) (text : Bytes) : Option Entry :=
  if cacheable text then
    (s.cache (cacheIndex text)).filter fun e =>
      e.db = db ∧ e.schemaGen = (s.stores db).schemaGen ∧ e.text = text
  else none

/-- `pwq_cache_lookup`. -/
def pwqCacheLookup (s : State) (db : ℕ) (text : Bytes) : Option Pwq := (lookupEntry s db text).map Entry.q

/-- `pwq_cache_store`, which takes the generation of the moment. -/
def pwqCacheStore (s : State) (db : ℕ) (text : Bytes) (q : Pwq) (readAt : List UInt64) : State :=
  if cacheable text then
    { s with
      cache := update s.cache (cacheIndex text)
        (some { db, schemaGen := (s.stores db).schemaGen, text, q, readAt }) }
  else s

/-! ### Steps -/

inductive Event
  /-- A committed transaction, or a single write or delete. -/
  | commit (db : ℕ) (ops : List (UInt32 × Option Bytes))
  /-- A thread calls `picowal_query_run`, which looks into the cache first. -/
  | query (thread : ℕ) (db : ℕ) (text : Bytes)
  /-- A thread makes its next call to the database. -/
  | read (thread : ℕ)
  /-- A thread is done with its validation: it stores the query, or reports an error. -/
  | finish (thread : ℕ)
  deriving DecidableEq, Repr

/-- One record of a commit, with the bump of the generation for packs 1 and 2. -/
def writeOp (st : Store) (op : UInt32 × Option Bytes) : Store :=
  { records := st.records.write op.1 op.2, schemaGen := bumpSchemaGen st.schemaGen op.1 }

def step (s : State) : Event → State
  | .commit db ops => { s with stores := update s.stores db (ops.foldl writeOp (s.stores db)) }
  | .query t db text =>
    match s.threads t, pwqCacheLookup s db text with
    | .idle, none =>
      { s with threads := update s.threads t (.resolving db text (resolveText text) []) }
    | _, _ => s
  | .read t =>
    match s.threads t with
    | .resolving db text (.ask c next) readAt =>
      { s with
        threads := update s.threads t (.resolving db text (next (answer (s.stores db).records c))
            (readAt ++ [(s.stores db).schemaGen])) }
    | _ => s
  | .finish t =>
    match s.threads t with
    | .resolving db text (.done (.ok q)) readAt =>
      let s := pwqCacheStore s db text q readAt
      { s with threads := update s.threads t .idle }
    | .resolving _ _ (.done (.error _)) _ => { s with threads := update s.threads t .idle }
    | _ => s

/-- Nothing cached yet and no thread under way. -/
def State.Initial (s : State) : Prop := (∀ i, s.cache i = none) ∧ ∀ t, s.threads t = .idle

/-- Whatever a lookup finds is the resolution of its text against the database of the moment, and its
validation has read the database at the schema generation of the moment. -/
def Invisible (s : State) : Prop :=
  ∀ db text e, lookupEntry s db text = some e →
    resolution (s.stores db).records text = .ok e.q ∧ ∀ g ∈ e.readAt, g = (s.stores db).schemaGen

def schemaWrites (ops : List (UInt32 × Option Bytes)) : ℕ :=
  ops.countP fun op => keyCard op.1 = 1 ∨ keyCard op.1 = 2

/-- A thread with a query to store has read the database at the current generation only. -/
def Thread.Settled (stores : ℕ → Store) : Thread → Prop
  | .resolving db _ (.done (.ok _)) readAt => ∀ g ∈ readAt, g = (stores db).schemaGen
  | _ => True

instance (stores : ℕ → Store) (th : Thread) : Decidable (th.Settled stores) :=
  match th with
  | .resolving db _ (.done (.ok _)) readAt => decidableBAll (· = (stores db).schemaGen) readAt
  | .resolving _ _ (.done (.error _)) _ | .resolving _ _ (.ask _ _) _ | .idle => isTrue trivial

/-- A query is stored at the schema generation at which it was validated, and the counter of the
generations does not wrap around. -/
def Settled (s : State) : Event → Prop
  | .commit db ops => (s.stores db).schemaGen.toNat + schemaWrites ops < 2 ^ 64
  | .finish t => (s.threads t).Settled s.stores
  | _ => True

lemma foldl_writeOp_gen (ops : List (UInt32 × Option Bytes)) (st : Store)
    (h : st.schemaGen.toNat + schemaWrites ops < 2 ^ 64) :
    (ops.foldl writeOp st).schemaGen.toNat = st.schemaGen.toNat + schemaWrites ops := by
  induction ops generalizing st with
  | nil => simp [schemaWrites]
  | cons op ops ih =>
    have hcount : schemaWrites (op :: ops) =
        schemaWrites ops + if keyCard op.1 = 1 ∨ keyCard op.1 = 2 then 1 else 0 := by
      simp [schemaWrites, countP_cons]
    have hgen : (writeOp st op).schemaGen.toNat =
        st.schemaGen.toNat + if keyCard op.1 = 1 ∨ keyCard op.1 = 2 then 1 else 0 := by
      rw [writeOp, bumpSchemaGen]
      split_ifs with hop
      · rw [hcount, if_pos hop] at h
        rw [UInt64.toNat_add, UInt64.toNat_one]
        omega
      · rfl
    rw [foldl_cons, ih _ (by omega)]
    omega

/-- A commit outside of packs 1 and 2 changes no answer. -/
lemma foldl_writeOp_answer {ops : List (UInt32 × Option Bytes)} (h : schemaWrites ops = 0) (st : Store) :
    answer (ops.foldl writeOp st).records = answer st.records := by
  induction ops generalizing st with
  | nil => rfl
  | cons op ops ih =>
    rw [schemaWrites, countP_eq_zero] at h
    have hop : keyCard op.1 ≠ 1 ∧ keyCard op.1 ≠ 2 := by simpa using h op mem_cons_self
    have hrest : schemaWrites ops = 0 :=
      countP_eq_zero.2 fun x hx => h x (mem_cons_of_mem _ hx)
    rw [foldl_cons, ih hrest, writeOp, answer_write hop]

/-- The generation has grown, or the answers are the same. -/
def Store.Follows (st st' : Store) : Prop :=
  st.schemaGen < st'.schemaGen ∨ st'.schemaGen = st.schemaGen ∧ answer st'.records = answer st.records

lemma Store.Follows.commit {stores : ℕ → Store} {db : ℕ} {ops : List (UInt32 × Option Bytes)}
    (h : (stores db).schemaGen.toNat + schemaWrites ops < 2 ^ 64) (i : ℕ) :
    (stores i).Follows (update stores db (ops.foldl writeOp (stores db)) i) := by
  by_cases hi : i = db
  · subst hi
    have hgen := foldl_writeOp_gen ops _ h
    rw [update_self]
    rcases Nat.eq_zero_or_pos (schemaWrites ops) with h0 | hpos
    · right
      refine ⟨UInt64.toNat_inj.1 (by rw [hgen, h0, Nat.add_zero]), foldl_writeOp_answer h0 _⟩
    · left
      rw [UInt64.lt_iff_toNat_lt]
      omega
  · rw [update_of_ne hi]
    exact .inr ⟨rfl, rfl⟩

/-! ### The invariant -/

/-- An entry of the current generation is right. -/
def Entry.Right (stores : ℕ → Store) (e : Entry) : Prop :=
  e.schemaGen ≤ (stores e.db).schemaGen ∧ (e.schemaGen = (stores e.db).schemaGen →
      resolution (stores e.db).records e.text = .ok e.q ∧ ∀ g ∈ e.readAt, g = e.schemaGen)

/-- A thread that has read at the current generation only is on its way to the current resolution. -/
def Thread.Right (stores : ℕ → Store) : Thread → Prop
  | .idle => True
  | .resolving db text rest readAt =>
    (∀ g ∈ readAt, g ≤ (stores db).schemaGen) ∧ (readAt = [] → rest = resolveText text) ∧
      ((∀ g ∈ readAt, g = (stores db).schemaGen) →
        rest.run (answer (stores db).records) = resolution (stores db).records text)

structure Sound (s : State) : Prop where
  entries : ∀ i e, s.cache i = some e → e.Right s.stores
  threads : ∀ t, (s.threads t).Right s.stores

lemma Sound.invisible {s : State} (h : Sound s) : Invisible s := by
  intro db text e he
  rw [lookupEntry] at he
  split_ifs at he
  obtain ⟨hcache, hmatch⟩ := Option.filter_eq_some_iff.1 he
  obtain ⟨rfl, hgen, rfl⟩ := of_decide_eq_true hmatch
  obtain ⟨hq, hread⟩ := (h.entries _ e hcache).2 hgen
  exact ⟨hq, fun g hg => (hread g hg).trans hgen⟩

variable {stores stores' : ℕ → Store} (hstores : ∀ i, (stores i).Follows (stores' i))
include hstores

/-- An entry stays right: it is outdated, or its resolution is the same. -/
lemma Entry.Right.follow {e : Entry} (h : e.Right stores) : e.Right stores' := by
  rw [Entry.Right]
  rcases hstores e.db with hlt | ⟨hgen, hans⟩
  · refine ⟨UInt64.le_trans h.1 (UInt64.le_of_lt hlt), ?_⟩
    intro heq
    exact absurd (heq ▸ h.1) (UInt64.not_le.2 hlt)
  · rw [hgen, resolution, hans]
    exact h

lemma Thread.Right.follow {th : Thread} (h : th.Right stores) : th.Right stores' := by
  cases th with
  | idle => trivial
  | resolving db text rest readAt =>
    obtain ⟨hle, hstart, hrun⟩ := h
    rw [Thread.Right]
    rcases hstores db with hlt | ⟨hgen, hans⟩
    · refine ⟨fun g hg => UInt64.le_trans (hle g hg) (UInt64.le_of_lt hlt), hstart, ?_⟩
      intro hall
      cases readAt with
      | nil =>
        rw [hstart rfl]
        rfl
      | cons g readAt =>
        -- what was read before is of an older generation
        have hg := hall g mem_cons_self
        exact absurd (hg ▸ hle g mem_cons_self) (UInt64.not_le.2 hlt)
    · rw [hgen, resolution, hans]
      exact ⟨hle, hstart, hrun⟩

omit hstores

lemma Sound.setThread {s : State} (h : Sound s) {t : ℕ} {th : Thread} (hth : th.Right s.stores) :
    Sound { s with threads := update s.threads t th } := by
  refine ⟨h.entries, ?_⟩
  intro t'
  by_cases ht : t' = t
  · subst ht
    simpa using hth
  · simpa [ht] using h.threads t'

lemma Sound.store {s : State} (h : Sound s) {db : ℕ} {text : Bytes} {q : Pwq} {readAt : List UInt64}
    (hq : resolution (s.stores db).records text = .ok q)
    (hread : ∀ g ∈ readAt, g = (s.stores db).schemaGen) : Sound (pwqCacheStore s db text q readAt) := by
  rw [pwqCacheStore]
  split_ifs
  · refine ⟨?_, h.threads⟩
    intro i e he
    dsimp only at he ⊢
    by_cases hi : i = cacheIndex text
    · subst hi
      rw [update_self, Option.some.injEq] at he
      subst he
      exact ⟨UInt64.le_refl _, fun _ => ⟨hq, hread⟩⟩
    · rw [update_of_ne hi] at he
      exact h.entries i e he
  · exact h

lemma Sound.step {s : State} {ev : Event} (h : Sound s) (hs : Settled s ev) : Sound (step s ev) := by
  cases ev with
  | commit db ops =>
    have hstores := Store.Follows.commit hs
    exact ⟨fun i e he => (h.entries i e he).follow hstores, fun t => (h.threads t).follow hstores⟩
  | query t db text =>
    rw [Query.step]
    split
    · exact h.setThread ⟨by simp, fun _ => rfl, fun _ => rfl⟩
    · exact h
  | read t =>
    rw [Query.step]
    split
    · rename_i db text c next readAt hth
      have hr := h.threads t
      rw [hth] at hr
      obtain ⟨hle, -, hrun⟩ := hr
      refine h.setThread ⟨?_, by simp, ?_⟩
      · intro g hg
        rcases mem_append.1 hg with hg | hg
        · exact hle g hg
        · rw [mem_singleton.1 hg]
          exact UInt64.le_refl _
      · intro hall
        exact hrun fun g hg => hall g (mem_append_left _ hg)
    · exact h
  | finish t =>
    rw [Query.step]
    split
    · rename_i db text q readAt hth
      have hr := h.threads t
      rw [hth] at hr
      have hread : ∀ g ∈ readAt, g = (s.stores db).schemaGen := by
        simpa [Settled, Thread.Settled, hth] using hs
      have hq : resolution (s.stores db).records text = .ok q := (hr.2.2 hread).symm
      have hidle : Thread.idle.Right (pwqCacheStore s db text q readAt).stores := trivial
      exact (h.store hq hread).setThread hidle
    · exact h.setThread trivial
    · exact h

/-- In every run whose queries are all stored at the generation at which they were validated, the
cache shows in no answer. -/
theorem cache_invisible {s : State} (hs : s.Initial) {evs : List Event}
    (hrun : Run.Guarded step Settled s evs) : Invisible (evs.foldl step s) := by
  have h₀ : Sound s := by
    refine ⟨fun i e he => ?_, fun t => ?_⟩
    · rw [hs.1] at he
      cases he
    · rw [hs.2]
      trivial
  exact (hrun.invariant (fun s ev h hok => h.step hok) h₀).invisible

/-! ### Runs -/

def schemaOf (fields : Bytes) : Bytes := ascii "\x7b\"fields\":\"" ++ fields ++ ascii "\"\x7d"

/-- A database whose pack 12 has the one field `x`, and nothing cached. -/
def oneField : State where
  stores := fun _ => ⟨Records.write HashChains.Table.empty 8388620 (some (schemaOf (ascii "x"))), 0⟩
  cache := fun _ => none
  threads := fun _ => .idle

lemma oneField_initial : oneField.Initial := ⟨fun _ => rfl, fun _ => rfl⟩

/-- Records of pack 12 where `x` is 1. -/
def queryX : Bytes := ascii "F:12\nW:x|==|1"

lemma settled_undisturbed :
    (([.query 0 0 queryX, .read 0].foldl step oneField).threads 0).Settled oneField.stores := by
  decide +kernel

/-- A call that resolves `queryX` with no write in between. -/
theorem cache_invisible_undisturbed :
    Invisible ([.query 0 0 queryX, .read 0, .finish 0, .query 1 0 queryX].foldl step oneField) :=
  cache_invisible oneField_initial ⟨trivial, trivial, settled_undisturbed, trivial, trivial⟩

/-- What a call makes of `queryX` while another thread takes the field away after its validation. -/
def disturbed : State :=
  [.query 0 0 queryX, .read 0, .commit 0 [(8388620, some (schemaOf (ascii "y")))], .finish 0].foldl step oneField

/-- The next call finds the query in the cache, stamped with the generation of the schema that has no
field `x`. -/
theorem stale_query_served : (pwqCacheLookup disturbed 0 queryX).isSome ∧
    resolution (disturbed.stores 0).records queryX = .error "WHERE field not in schema" ∧
    (lookupEntry disturbed 0 queryX).map (fun e => (e.schemaGen, e.readAt)) = some (1, [0]) := by
  refine ⟨?_, ?_, ?_⟩ <;> decide +kernel

end Query
