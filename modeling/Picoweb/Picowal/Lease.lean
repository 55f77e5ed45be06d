import Picoweb.Picowal.Fence
import Picoweb.Lib.Run

/-!
# Fenced mutations on a shared clock

Threads go through `fence_gate`, wait for the database mutex and append, on one monotone clock. The
control plane counts a lease from the moment it decides; the client counts it from the moment it has the
answer, and asks once for a whole operation, or a whole transaction.
-/

namespace Fence

open ByteFile List

/-- The fenced entry points: an automatic put or delete, or a transaction. -/
inductive Entry
  | single
  | txn
  deriving DecidableEq, Repr

/-- Where a thread stands. A deadline is the lease expiry under which the check let the thread pass. -/
inductive Phase
  | idle
  /-- the request is under way, with the fence mutex held -/
  | asking (entry : Entry)
  /-- the control plane has decided, at `at`, and the response is under way -/
  | decided (entry : Entry) (resp : Option Bytes) (at' : ℕ)
  /-- `picowal_fence_check` is about to return true -/
  | passed (entry : Entry) (deadline : ℕ)
  /-- `fence_gate` is passed and the database mutex is waited for -/
  | admitted (entry : Entry) (deadline : ℕ)
  /-- the thread holds the database mutex for its transaction -/
  | inTxn (deadline : ℕ)
  deriving DecidableEq, Repr

structure System where
  fence : Client
  clock : ℕ := 0
  phase : ℕ → Phase := fun _ => .idle
  /-- the thread that holds the fence mutex -/
  fenceOwner : Option ℕ := none
  /-- the thread that holds the database mutex -/
  dbOwner : Option ℕ := none
  /-- the leases granted: when the control plane decided, and for how long -/
  grants : List (ℕ × ℕ) := []
  /-- when `picowal_fence_check` returned true -/
  returns : List ℕ := []
  /-- when a record was appended -/
  appends : List ℕ := []

/-- What a thread does after a delay. -/
inductive Act
  | call (entry : Entry)
  | decide (resp : Option Bytes)
  | settle
  | ret
  | append
  | txnBegin
  | txnAppend
  | finish
  deriving DecidableEq, Repr

structure Event where
  thread : ℕ
  delay : ℕ
  act : Act
  deriving DecidableEq, Repr

def System.goto (s : System) (t : ℕ) (p : Phase) : System :=
  { s with phase := Function.update s.phase t p }

/-- One step at the clock time it happens; an act that is not the thread's to take does nothing. -/
def System.act (s : System) (t : ℕ) (a : Act) : System :=
  match a, s.phase t with
  | .call entry, .idle =>
    if s.fenceOwner ≠ none then s
    else if s.fence.leased s.clock then s.goto t (.passed entry s.fence.leaseExpiryMs)
    else { s.goto t (.asking entry) with fenceOwner := some t }
  | .decide resp, .asking entry =>
    let s := s.goto t (.decided entry resp s.clock)
    match doCheck resp with
    | some (0, leaseMs) => { s with grants := (s.clock, leaseMs) :: s.grants }
    | _ => s
  | .settle, .decided entry resp _ =>
    let (ok, fence) := s.fence.settle resp s.clock
    { s.goto t (if ok then .passed entry fence.leaseExpiryMs else .idle) with
      fence := fence, fenceOwner := none }
  | .ret, .passed entry deadline =>
    { s.goto t (.admitted entry deadline) with returns := s.clock :: s.returns }
  | .append, .admitted .single _ =>
    if s.dbOwner ≠ none then s else { s.goto t .idle with appends := s.clock :: s.appends }
  | .txnBegin, .admitted .txn deadline =>
    if s.dbOwner ≠ none then s else { s.goto t (.inTxn deadline) with dbOwner := some t }
  | .txnAppend, .inTxn _ => { s with appends := s.clock :: s.appends }
  | .finish, .inTxn _ => { s.goto t .idle with dbOwner := none }
  | .finish, .admitted _ _ => s.goto t .idle
  | _, _ => s

def System.step (s : System) (e : Event) : System :=
  { s with clock := s.clock + e.delay }.act e.thread e.act

/-- A call without another thread in between is `picowal_fence_check`: it leaves the client as that does, and
lets the thread pass exactly if that answers true. -/
lemma call_eq_picowalFenceCheck (s : System) (t : ℕ) (entry : Entry) (resp : Option Bytes)
    (d₀ d₁ d₂ : ℕ) (hidle : s.phase t = .idle) (hfree : s.fenceOwner = none) :
    let s' := [⟨t, d₀, .call entry⟩, ⟨t, d₁, .decide resp⟩, ⟨t, d₂, .settle⟩].foldl System.step s
    let r := picowalFenceCheck s.fence (s.clock + d₀) resp (s.clock + d₀ + d₁ + d₂)
    s'.fence = r.2 ∧ s'.phase t = if r.1 then .passed entry r.2.leaseExpiryMs else .idle := by
  by_cases hl : s.fence.leased (s.clock + d₀)
  · simp [System.step, System.act, System.goto, hidle, hfree, hl, picowalFenceCheck]
  · simp only [foldl_cons, foldl_nil, System.step, System.act, System.goto, hidle, hfree,
      hl, picowalFenceCheck]
    rcases hc : doCheck resp with _ | ⟨_ | n, leaseMs⟩ <;> simp [hc, Client.settle]

/-- The time lies within a lease the control plane granted. -/
def System.Leased (s : System) (time : ℕ) : Prop := ∃ x ∈ s.grants, time ≤ x.1 + x.2

/-- Every true answer of the fence and every append lies within a lease. -/
structure System.Fenced (s : System) : Prop where
  returns : ∀ time ∈ s.returns, s.Leased time
  appends : ∀ time ∈ s.appends, s.Leased time

/-- A step is prompt if it does not stretch a lease: a grant of `L` ms is settled before the capped
lease counted from then could outlive it, and a thread returns from the check and appends before the
expiry under which it passed. -/
def Prompt (s : System) (e : Event) : Prop :=
  match e.act, s.phase e.thread with
  | .settle, .decided _ resp at' =>
    match doCheck resp with
    | some (0, leaseMs) => s.clock + e.delay + min leaseMs clientLeaseCapMs ≤ at' + leaseMs + 1
    | _ => True
  | .ret, .passed _ deadline => s.clock + e.delay < deadline
  | .append, .admitted _ deadline => s.clock + e.delay < deadline
  | .txnAppend, .inTxn deadline => s.clock + e.delay < deadline
  | _, _ => True

/-! ### What every prompt run keeps -/

/-- The expiry ends no later than a granted lease does, and a check at an earlier moment is within. -/
def System.Covers (s : System) (expiry : ℕ) : Prop := ∃ x ∈ s.grants, expiry ≤ x.1 + x.2 + 1

/-- What a thread's phase owes to the control plane. -/
def System.Backed (s : System) : Phase → Prop
  | .decided _ resp at' => ∀ leaseMs, doCheck resp = some (0, leaseMs) → (at', leaseMs) ∈ s.grants
  | .passed _ deadline => s.Covers deadline
  | .admitted _ deadline => s.Covers deadline
  | .inTxn deadline => s.Covers deadline
  | _ => True

/-- Every lease the client keeps, and every deadline a thread works under, is covered by a grant. -/
structure System.Sound (s : System) : Prop extends s.Fenced where
  expiry : s.fence.leaseExpiryMs ≠ 0 → s.Covers s.fence.leaseExpiryMs
  backed : ∀ t, s.Backed (s.phase t)

variable {s s' : System} {e : Event} {t time : ℕ}

lemma System.Covers.leased {expiry : ℕ} (h : s.Covers expiry) (hlt : time < expiry) : s.Leased time := by
  obtain ⟨x, hx, hle⟩ := h
  exact ⟨x, hx, by omega⟩

section Grants

variable (hsub : s.grants ⊆ s'.grants)

include hsub

lemma System.Leased.mono (h : s.Leased time) : s'.Leased time := h.imp fun _ hx => ⟨hsub hx.1, hx.2⟩

lemma System.Covers.mono {expiry : ℕ} (h : s.Covers expiry) : s'.Covers expiry :=
  h.imp fun _ hx => ⟨hsub hx.1, hx.2⟩

lemma System.Backed.mono {p : Phase} (h : s.Backed p) : s'.Backed p := by
  cases p with
  | idle | asking => trivial
  | decided entry resp at' => exact fun L hL => hsub (h L hL)
  | passed | admitted | inTxn => exact System.Covers.mono hsub h

end Grants

/-- A step of thread `t` to phase `p` keeps a sound system sound if it only adds grants, and what it
adds to the history and to the client's lease is backed by them. -/
lemma System.Sound.goto (h : s.Sound) {p : Phase} (hsub : s.grants ⊆ s'.grants)
    (hphase : s'.phase = Function.update s.phase t p) (hp : s'.Backed p)
    (hret : ∀ r ∈ s'.returns, r ∈ s.returns ∨ s'.Leased r) (happ : ∀ r ∈ s'.appends, r ∈ s.appends ∨ s'.Leased r)
    (hexp : s'.fence.leaseExpiryMs = s.fence.leaseExpiryMs ∨ s'.fence.leaseExpiryMs = 0 ∨
      s'.Covers s'.fence.leaseExpiryMs) : s'.Sound where
  returns r hr := (hret r hr).elim (fun hr => (h.returns r hr).mono hsub) id
  appends r hr := (happ r hr).elim (fun hr => (h.appends r hr).mono hsub) id
  expiry hne := by
    rcases hexp with heq | h0 | hc
    · rw [heq] at hne ⊢
      exact (h.expiry hne).mono hsub
    · exact absurd h0 hne
    · exact hc
  backed u := by
    by_cases hu : u = t
    · subst hu
      rw [hphase, Function.update_self]
      exact hp
    · rw [hphase, Function.update_of_ne hu]
      exact (h.backed u).mono hsub

/-- A step that adds nothing keeps a sound system sound. -/
lemma System.Sound.move (h : s.Sound) {p : Phase} {f d : Option ℕ} (hp : s.Backed p) :
    System.Sound { s.goto t p with fenceOwner := f, dbOwner := d } :=
  h.goto (List.Subset.refl _) rfl hp (fun _ => .inl) (fun _ => .inl) (.inl rfl)

/-- A settled grant is covered if the step was prompt, and a refusal leaves no lease. -/
lemma settle_cases (f : Client) (resp : Option Bytes) (now : ℕ) :
    (∃ leaseMs, doCheck resp = some (0, leaseMs) ∧ (f.settle resp now).1 = true ∧
      (f.settle resp now).2.leaseExpiryMs = now + min leaseMs clientLeaseCapMs) ∨
    (f.settle resp now).1 = false ∧ (f.settle resp now).2.leaseExpiryMs = 0 := by
  unfold Client.settle
  split
  · rename_i leaseMs hcheck
    exact .inl ⟨leaseMs, hcheck, rfl, rfl⟩
  · exact .inr ⟨rfl, rfl⟩

lemma System.Sound.step (h : s.Sound) (hp : Prompt s e) : (s.step e).Sound := by
  obtain ⟨t, d, a⟩ := e
  have h₁ : System.Sound { s with clock := s.clock + d } :=
    ⟨⟨h.returns, h.appends⟩, h.expiry, h.backed⟩
  have hb := h.backed t
  unfold System.step System.act
  unfold Prompt at hp
  rcases a with entry | resp | _ | _ | _ | _ | _ | _ <;>
    rcases hph : s.phase t with _ | entry' | ⟨entry', resp', at'⟩ | ⟨entry', dl⟩ | ⟨_ | _, dl⟩ | dl <;>
    simp only [hph] at hp hb ⊢ <;> try exact h₁
  · -- a call: within the lease, or a request to make
    split_ifs with hmu hlease
    · exact h₁
    · exact h₁.move (h.expiry fun h0 => by simp [Client.leased, h0] at hlease)
    · exact h₁.move trivial
  · -- the control plane decides
    split
    · rename_i leaseMs hcheck
      refine h₁.goto (subset_cons_self _ _) rfl (fun L hL => ?_) (fun _ => .inl) (fun _ => .inl) (.inl rfl)
      obtain rfl : leaseMs = L := by simpa [hcheck] using hL
      exact mem_cons_self
    · rename_i hno
      exact h₁.move fun L hL => absurd hL (hno L)
  · -- the response is settled
    rcases settle_cases s.fence resp' (s.clock + d) with ⟨L, hcheck, hok, hexp⟩ | ⟨hok, hexp⟩
    · have hcov : ∃ x ∈ s.grants, (s.fence.settle resp' (s.clock + d)).2.leaseExpiryMs ≤ x.1 + x.2 + 1 :=
        ⟨_, hb L hcheck, by rw [hexp]; simpa only [hcheck] using hp⟩
      refine h₁.goto (List.Subset.refl _) rfl ?_ (fun _ => .inl) (fun _ => .inl) (.inr (.inr hcov))
      rw [hok]
      exact hcov
    · refine h₁.goto (List.Subset.refl _) rfl ?_ (fun _ => .inl) (fun _ => .inl) (.inr (.inl hexp))
      rw [hok]
      trivial
  · -- the check returns true
    have hnow : s.Leased (s.clock + d) := System.Covers.leased hb hp
    exact h₁.goto (List.Subset.refl _) rfl hb
      (fun r hr => (mem_cons.1 hr).elim (fun he => .inr (he ▸ hnow)) .inl) (fun _ => .inl) (.inl rfl)
  · -- a put or a delete appends
    have hnow : s.Leased (s.clock + d) := System.Covers.leased hb hp
    split_ifs
    · exact h₁
    · exact h₁.goto (List.Subset.refl _) rfl trivial (fun _ => .inl)
        (fun r hr => (mem_cons.1 hr).elim (fun he => .inr (he ▸ hnow)) .inl) (.inl rfl)
  · -- a transaction takes the database mutex
    split_ifs
    · exact h₁
    · exact h₁.move hb
  · -- an operation of a transaction appends
    exact ⟨⟨h.returns, forall_mem_cons.2 ⟨System.Covers.leased hb hp, h.appends⟩⟩, h.expiry, h.backed⟩
  all_goals exact h₁.move trivial

/-- In a prompt run, from a client without a lease and with no call under way, every true answer of
`picowal_fence_check` and every fenced append lies within a lease the control plane granted. -/
theorem fence_within_lease (f : Client) (hf : f.leaseExpiryMs = 0) (events : List Event)
    (h : Run.Guarded System.step Prompt { fence := f } events) :
    (events.foldl System.step { fence := f }).Fenced := by
  refine (h.invariant (P := System.Sound) (fun _ _ hs hp => hs.step hp) ?_).toFenced
  exact ⟨⟨by simp, by simp⟩, fun hne => absurd hf hne, fun _ => trivial⟩

/-- A transaction under a lease that is settled at once: two appends within it. -/
def promptTxn : List Event :=
  [⟨0, 1, .call .txn⟩, ⟨0, 2, .decide (some (response 0 500))⟩, ⟨0, 0, .settle⟩, ⟨0, 1, .ret⟩,
    ⟨0, 4, .txnBegin⟩, ⟨0, 10, .txnAppend⟩, ⟨0, 10, .txnAppend⟩, ⟨0, 1, .finish⟩]

def someClient : Client := {}

theorem fence_within_lease_txn : (promptTxn.foldl System.step { fence := someClient }).appends = [28, 18] ∧
      (promptTxn.foldl System.step { fence := someClient }).Fenced := by
  refine ⟨by decide +kernel, fence_within_lease someClient rfl promptTxn ?_⟩
  exact ⟨trivial, trivial, Nat.le_of_ble_eq_true rfl, Nat.le_of_ble_eq_true rfl, trivial,
    Nat.le_of_ble_eq_true rfl, Nat.le_of_ble_eq_true rfl, trivial, trivial⟩

/-- A lease of 500 ms decided at 0 whose response takes 1500 ms. -/
def slowResponse : List Event :=
  [⟨0, 0, .call .single⟩, ⟨0, 0, .decide (some (response 0 500))⟩, ⟨0, 1500, .settle⟩, ⟨0, 0, .ret⟩]

/-- A lease of 500 ms decided at 0, and a transaction that appends ten seconds later. -/
def longTxn : List Event :=
  [⟨0, 0, .call .txn⟩, ⟨0, 0, .decide (some (response 0 500))⟩, ⟨0, 0, .settle⟩, ⟨0, 0, .ret⟩,
    ⟨0, 0, .txnBegin⟩, ⟨0, 10000, .txnAppend⟩]

/-- The fence answers true a second after the only lease ended, and a transaction appends long after
its lease has. -/
theorem fence_outlives_lease : ((slowResponse.foldl System.step { fence := someClient }).grants = [(0, 500)] ∧
      (slowResponse.foldl System.step { fence := someClient }).returns = [1500]) ∧
    (longTxn.foldl System.step { fence := someClient }).grants = [(0, 500)] ∧
      (longTxn.foldl System.step { fence := someClient }).appends = [10000] ∧
    ¬ (slowResponse.foldl System.step { fence := someClient }).Fenced ∧
    ¬ (longTxn.foldl System.step { fence := someClient }).Fenced := by
  have hg : (slowResponse.foldl System.step { fence := someClient }).grants = [(0, 500)] := by
    decide +kernel
  have hr : (slowResponse.foldl System.step { fence := someClient }).returns = [1500] := by
    decide +kernel
  have hg' : (longTxn.foldl System.step { fence := someClient }).grants = [(0, 500)] := by
    decide +kernel
  have ha : (longTxn.foldl System.step { fence := someClient }).appends = [10000] := by
    decide +kernel
  refine ⟨⟨hg, hr⟩, hg', ha, fun h => ?_, fun h => ?_⟩
  · obtain ⟨x, hx, hle⟩ := h.returns 1500 (by simp [hr])
    simp only [hg, mem_singleton] at hx
    simp [hx] at hle
  · obtain ⟨x, hx, hle⟩ := h.appends 10000 (by simp [ha])
    simp only [hg', mem_singleton] at hx
    simp [hx] at hle

end Fence
