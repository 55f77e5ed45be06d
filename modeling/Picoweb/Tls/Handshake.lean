import Picoweb.Tls.Sealing
import Mathlib.Logic.Relation

/-!
# Rounds of the handshake

What one round of the handshake loop of `pw_tls_step` can do, over any suite: take the ClientHello, seal the
flight, drop a change of the cipher spec, take early data or its end, or take the client's Finished. What
every round keeps, the loop keeps.
-/

namespace Tls

open ByteFile List

namespace Engine

variable {S : Suite}

/-- What a round of the handshake does where it gets on. -/
inductive Advance (env : S.Env) (eng : Engine S) : Engine S → Prop
  | hello {hello : Hello S.Ctx} (hphase : eng.hsPhase = .waitCh) (hrecord : HasRecord eng.rx)
      (hhello : S.clientHello env eng.ctx ((headRecord eng.rx).drop recordHeaderLen) = some hello)
      (hdrive : eng.tryDriveHandshakeServer env = (.progress, eng.greeted hello)) :
      Advance env eng (eng.greeted hello)
  | flight {msgs : List Bytes} {ctx : S.Ctx} {eng₁ : Engine S} (hphase : eng.hsPhase = .afterShKeys)
      (hflight : S.flight env eng.ctx = (msgs, some ctx)) (hseal : sealHandshakeMsgs msgs eng = (true, eng₁)) :
      Advance env eng { eng₁ with ctx := ctx, hsPhase := .afterSfAwaitCf }
  | changeCipherSpec (hphase : eng.hsPhase = .afterSfAwaitCf) :
      Advance env eng { eng with rx := behindRecord eng.rx }
  | early {plain : Bytes} {read : Dir} (hphase : eng.hsPhase = .afterSfAwaitCf)
      (hactive : eng.earlyDataPhase = .active)
      (hopen : openRecord S.aead eng.read (headRecord eng.rx) = some (ctApplicationData, plain, read))
      (hmax : eng.earlyDataSeen + plain.length ≤ eng.earlyDataMax) :
      Advance env eng { eng with
        read := read
        appIn := eng.appIn ++ plain
        earlyDataSeen := eng.earlyDataSeen + plain.length
        rx := behindRecord eng.rx }
  | endOfEarlyData {read : Dir} (hphase : eng.hsPhase = .afterSfAwaitCf)
      (hactive : eng.earlyDataPhase = .active)
      (hopen : openRecord S.aead eng.read (headRecord eng.rx) = some (ctHandshake, [5, 0, 0, 0], read)) :
      Advance env eng { eng with
        ctx := (S.endOfEarlyData eng.ctx [5, 0, 0, 0]).1
        read := (S.endOfEarlyData eng.ctx [5, 0, 0, 0]).2
        earlyDataPhase := .done
        rx := behindRecord eng.rx }
  | finished {plain : Bytes} {dir read write : Dir} {ctx : S.Ctx} {hasRms : Bool}
      (hphase : eng.hsPhase = .afterSfAwaitCf) (hpassive : eng.earlyDataPhase ≠ .active)
      (hrecord : HasRecord eng.rx)
      (hopen : openRecord S.aead eng.read (headRecord eng.rx) = some (ctHandshake, plain, dir))
      (hlen : plain.length = 4 + 32) (hhead : plain.take 4 = [0x14, 0, 0, 0x20])
      (hfinished : S.finished eng.ctx plain = some (ctx, read, write, hasRms)) :
      Advance env eng { eng with
        ctx := ctx
        read := read
        write := write
        hasRms := hasRms || eng.hasRms
        state := .app
        rx := behindRecord eng.rx }

/-- What a round can do. -/
inductive Round (env : S.Env) (eng : Engine S) : Rc × Engine S → Prop
  | idle : Round env eng (.idle, eng)
  | progress {eng' : Engine S} (h : Advance env eng eng') : Round env eng (.progress, eng')
  | error (eng' : Engine S) : Round env eng (.error, eng')

variable {env : S.Env} {eng eng' : Engine S}

lemma tryDriveHandshakeServer_round : Round env eng (eng.tryDriveHandshakeServer env) := by
  generalize hdrive : eng.tryDriveHandshakeServer env = r
  have h := hdrive
  unfold tryDriveHandshakeServer at h
  split_ifs at h with hidle htype hlen hcomplete
  · exact h ▸ .idle
  · exact h ▸ .error _
  · exact h ▸ .error _
  · exact h ▸ .idle
  · split at h
    · exact h ▸ .error _
    · rename_i hello hhello
      split at h
      · exact h ▸ .error _
      · subst h
        rw [not_or, not_or, not_not, not_lt] at hidle
        exact .progress (.hello hidle.2.1 ⟨hidle.2.2, not_lt.1 hcomplete⟩ hhello hdrive)

lemma tryEmitServerFlight_round : Round env eng (eng.tryEmitServerFlight env) := by
  unfold tryEmitServerFlight
  split_ifs with hphase hconfigured
  · exact .idle
  · exact .error _
  · rcases hflight : S.flight env eng.ctx with ⟨msgs, ctx⟩
    dsimp only
    split
    · rename_i eng₁ ctx hseal
      exact .progress (.flight (not_not.1 hphase) hflight hseal)
    · exact .error _

variable {inner : ContentType} {plain : Bytes}

lemma recvEarly_round {read : Dir} (hphase : eng.hsPhase = .afterSfAwaitCf) (hactive : eng.earlyDataPhase = .active)
    (hopen : openRecord S.aead eng.read (headRecord eng.rx) = some (inner, plain, read)) :
    Round env eng (recvEarly { eng with read := read, rx := eng.rxOpened } inner plain (behindRecord eng.rx)) := by
  unfold recvEarly
  split_ifs with hdata hmax hroom hend
  · exact .error _
  · exact .error _
  · subst hdata
    exact .progress (.early hphase hactive hopen (not_lt.1 hmax))
  · obtain ⟨rfl, rfl⟩ := hend
    exact .progress (.endOfEarlyData hphase hactive hopen)
  · exact .error _

lemma recvFinished_round {read : Dir}
    (hphase : eng.hsPhase = .afterSfAwaitCf) (hpassive : eng.earlyDataPhase ≠ .active) (hrecord : HasRecord eng.rx)
    (hopen : openRecord S.aead eng.read (headRecord eng.rx) = some (inner, plain, read)) :
    Round env eng (recvFinished { eng with read := read, rx := eng.rxOpened } inner plain (behindRecord eng.rx)) := by
  unfold recvFinished
  split_ifs with hform
  · exact .error _
  · rw [not_or, not_or, not_not, not_not, not_not] at hform
    obtain ⟨rfl, hlen, hhead⟩ := hform
    split
    · exact .error _
    · rename_i hfinished
      exact .progress (.finished hphase hpassive hrecord hopen hlen hhead hfinished)

lemma tryRecvClientFinished_round : Round env eng eng.tryRecvClientFinished := by
  unfold tryRecvClientFinished
  split_ifs with hidle hversion hlen hcomplete htype hccs hother
  · exact .idle
  · exact .error _
  · exact .error _
  · exact .idle
  · exact .error _
  · rw [not_or, not_not] at hidle
    exact .progress (.changeCipherSpec hidle.1)
  · exact .error _
  · rw [not_or, not_not, not_lt] at hidle
    have hrecord : HasRecord eng.rx := ⟨hidle.2, not_lt.1 hcomplete⟩
    split
    · exact .error _
    · rename_i inner plain read hopen
      dsimp only
      split_ifs with hactive
      · exact recvEarly_round hidle.1 hactive hopen
      · exact recvFinished_round hidle.1 hactive hrecord hopen

theorem handshakeRound_round (env : S.Env) (eng : Engine S) : Round env eng (eng.handshakeRound env) := by
  have hdrive : Round env eng (eng.tryDriveHandshakeServer env) := tryDriveHandshakeServer_round
  have hemit : Round env eng (eng.tryEmitServerFlight env) := tryEmitServerFlight_round
  unfold handshakeRound
  split
  · rename_i eng₁ hidle
    rw [hidle] at hdrive
    cases hdrive
    split
    · rename_i eng₂ hidle'
      rw [hidle'] at hemit
      cases hemit
      exact tryRecvClientFinished_round
    · exact hemit
  · exact hdrive

/-- A round leaves the engine in the handshake, or brings it into the application phase. -/
lemma Advance.state (h : Advance env eng eng') (hstate : eng.state = .handshake) :
    eng'.state = .handshake ∨ eng'.state = .app := by
  cases h with
  | hello => exact .inl hstate
  | flight hphase hflight hseal => exact .inl ((OnlySeals.sealHandshakeMsgs hseal).state.trans hstate)
  | changeCipherSpec | early | endOfEarlyData => exact .inl hstate
  | finished => exact .inr rfl

/-- Only the first round finds an engine that waits for the ClientHello. -/
lemma Advance.hsPhase_ne (h : Advance env eng eng') : eng'.hsPhase ≠ .waitCh := by
  cases h with
  | hello | flight => exact nofun
  | changeCipherSpec hphase | early hphase | endOfEarlyData hphase | finished hphase =>
    exact fun hwait => nomatch hphase.symm.trans hwait

variable {eng₁ : Engine S}

/-- What every round keeps, the handshake loop keeps. -/
theorem handshakeSpin_invariant {P : Engine S → Prop}
    (hround : ∀ e e', e.state = .handshake → P e → Advance env e e' → P e') (spin : ℕ)
    (hstate : eng.state = .handshake) (hP : P eng) (h : (handshakeSpin env spin eng).1 = some eng₁) :
    P eng₁ ∧ (eng₁.state = .handshake ∨ eng₁.state = .app) := by
  induction spin generalizing eng with
  | zero =>
    cases h
    exact ⟨hP, .inl hstate⟩
  | succ spin ih =>
    have hone := handshakeRound_round env eng
    unfold handshakeSpin at h
    generalize eng.handshakeRound env = r at h hone
    cases hone with
    | idle =>
      cases h
      exact ⟨hP, .inl hstate⟩
    | error => cases h
    | progress hadvance =>
      have hP₂ := hround _ _ hstate hP hadvance
      dsimp only at h
      split at h
      · rename_i happ
        cases h
        exact ⟨hP₂, .inr happ⟩
      · rename_i hnot
        exact ih ((hadvance.state hstate).resolve_right hnot) hP₂ h

lemma handshakeSpin_eq {env : S.Env} {spin : ℕ} {eng₂ : Engine S}
    (h : handshakeSpin env spin eng = (some eng₁, eng₂)) : eng₂ = eng₁ := by
  induction spin generalizing eng with
  | zero =>
    cases h
    rfl
  | succ spin ih =>
    unfold handshakeSpin at h
    split at h
    next => cases h
    next =>
      cases h
      rfl
    next =>
      split_ifs at h
      · cases h
        rfl
      · exact ih h

/-- The engine as the application phase of a step finds it: behind the handshake. -/
def appStart (env : S.Env) (eng : Engine S) : Engine S :=
  if eng.state = .handshake then (handshakeSpin env 8 eng).2 else eng

lemma appStart_of_ne (hstate : eng.state ≠ .handshake) : eng.appStart env = eng := if_neg hstate

lemma appStart_of_spin (hstate : eng.state = .handshake)
    (hspin : (handshakeSpin env 8 eng).1 = some eng₁) : eng.appStart env = eng₁ := by
  rw [appStart, if_pos hstate]
  exact handshakeSpin_eq (Prod.ext hspin rfl)

inductive StepEnd (env : S.Env) (eng : Engine S) : Engine S → Prop
  | failed (hstate : eng.state = .failed) : StepEnd env eng eng
  | fails {eng₁ : Engine S} (hstate : eng.state = .handshake) : StepEnd env eng eng₁.handshakeFail
  | waits {eng₁ : Engine S} (hstate : eng.state = .handshake)
      (hspin : (handshakeSpin env 8 eng).1 = some eng₁) (hwaits : eng₁.state = .handshake) : StepEnd env eng eng₁
  | enters {eng₁ : Engine S} (hstate : eng.state = .handshake)
      (hspin : (handshakeSpin env 8 eng).1 = some eng₁) (happ : eng₁.state = .app) :
      StepEnd env eng eng₁.drain.2
  | drains (hstate : eng.state = .app ∨ eng.state = .closed) : StepEnd env eng eng.drain.2

theorem step_end (env : S.Env) (eng : Engine S) : StepEnd env eng (eng.step env).2 := by
  unfold step
  split
  · rename_i hstate
    exact .failed hstate
  · rename_i hstate
    split
    · exact .fails hstate
    · rename_i eng₁ eng₂ hspin
      have hfirst : (handshakeSpin env 8 eng).1 = some eng₁ := by rw [hspin]
      obtain ⟨-, hwaits | happ⟩ := handshakeSpin_invariant (P := fun _ => True) (fun _ _ _ _ _ => trivial) 8 hstate
        trivial hfirst
      · rw [if_neg (by rw [hwaits]; exact nofun)]
        exact .waits hstate hfirst hwaits
      · rw [if_pos happ]
        exact .enters hstate hfirst happ
  · rename_i hfailed hhandshake
    cases hstate : eng.state with
    | handshake => exact absurd hstate hhandshake
    | failed => exact absurd hstate hfailed
    | app => exact .drains (.inl hstate)
    | closed => exact .drains (.inr hstate)

/-! ### The application part of a step -/

lemma seq_of_openRecord {aead : Aead} {dir dir' : Dir} {record : Bytes}
    (h : openRecord aead dir record = some (inner, plain, dir')) : dir' = dir.after 1 := by
  unfold openRecord at h
  split_ifs at h
  split at h
  · cases h
  · split at h
    · cases h
    · cases h
      rfl

lemma length_of_openRecord {aead : Aead} {dir dir' : Dir} {record : Bytes}
    (h : openRecord aead dir record = some (inner, plain, dir')) : plain.length ≤ record.length := by
  unfold openRecord at h
  split_ifs at h
  split at h
  · cases h
  · rename_i text htext
    have htextLen := aead.length_decrypt _ _ _ _ _ htext
    have hdropped := (List.rdropWhile_prefix (· = 0) (l := text)).length_le
    split at h
    · cases h
    · rename_i hplain
      cases h
      have hlen := congrArg length hplain
      simp only [length_reverse, length_cons, length_drop] at hlen htextLen ⊢
      omega

/-- What `try_open_one` can do. -/
inductive Opening (eng : Engine S) : Rc × Engine S → Prop
  | waits (hnone : ¬ HasRecord eng.rx) : Opening eng (.idle, eng)
  | tooLong (hheader : recordHeaderLen ≤ eng.rx.length) (hlen : bufCap < eng.headTotal) :
      Opening eng (.error, eng)
  | forged (hrecord : HasRecord eng.rx) (hopen : openRecord S.aead eng.read (headRecord eng.rx) = none) :
      Opening eng (.error, { eng.markErr .auth with rx := eng.rxOpened })
  | overflow {plain : Bytes} {read : Dir} {eng' : Engine S} (hroom : bufCap - eng.appIn.length < plain.length)
      (hlen : eng.headTotal ≤ bufCap)
      (hopen : openRecord S.aead eng.read (headRecord eng.rx) = some (ctApplicationData, plain, read))
      (hctx : eng'.ctx = eng.ctx) : Opening eng (.error, eng')
  | data {plain : Bytes} {read : Dir} (hrecord : HasRecord eng.rx)
      (hopen : openRecord S.aead eng.read (headRecord eng.rx) = some (ctApplicationData, plain, read)) :
      Opening eng (.progress, { eng with
        read := read
        recordsIn := eng.recordsIn + 1
        appIn := eng.appIn ++ plain
        rx := behindRecord eng.rx })
  | alert {plain : Bytes} {read : Dir} (hrecord : HasRecord eng.rx)
      (hopen : openRecord S.aead eng.read (headRecord eng.rx) = some (ctAlert, plain, read)) :
      Opening eng (.progress, { eng with
        read := read
        recordsIn := eng.recordsIn + 1
        state := .closed
        rx := behindRecord eng.rx })
  | handshake {plain : Bytes} {read : Dir} (hrecord : HasRecord eng.rx)
      (hopen : openRecord S.aead eng.read (headRecord eng.rx) = some (ctHandshake, plain, read)) :
      Opening eng (.progress, { eng with
        read := read
        recordsIn := eng.recordsIn + 1
        rx := behindRecord eng.rx })
  | unknown {inner : ContentType} {plain : Bytes} {read : Dir} (hrecord : HasRecord eng.rx)
      (hopen : openRecord S.aead eng.read (headRecord eng.rx) = some (inner, plain, read))
      (hinner : inner ≠ ctApplicationData ∧ inner ≠ ctAlert ∧ inner ≠ ctHandshake) :
      Opening eng (.error, { eng with read := read, recordsIn := eng.recordsIn + 1, rx := eng.rxOpened })

theorem tryOpenOne_opening (eng : Engine S) : Opening eng eng.tryOpenOne := by
  unfold tryOpenOne
  split_ifs with hheader htotal hcomplete
  · exact .waits fun hrecord => hheader.not_ge hrecord.1
  · exact .tooLong (not_lt.1 hheader) htotal
  · exact .waits fun hrecord => hcomplete.not_ge hrecord.2
  · have hrecord : HasRecord eng.rx := ⟨not_lt.1 hheader, not_lt.1 hcomplete⟩
    split
    · rename_i hopen
      exact .forged hrecord hopen
    · rename_i inner plain read hopen
      unfold takeOpened
      split_ifs with hdata hroom halert hhandshake
      · subst hdata
        exact .overflow hroom (not_lt.1 htotal) hopen rfl
      · subst hdata
        exact .data hrecord hopen
      · subst halert
        exact .alert hrecord hopen
      · subst hhandshake
        exact .handshake hrecord hopen
      · exact .unknown hrecord hopen ⟨hdata, halert, hhandshake⟩

/-- What the application part of a step leaves: the secrets as they were, and the state where it was unless
the peer closed or the flag says that it failed. -/
structure Drained (eng : Engine S) (r : Bool × Engine S) : Prop where
  ctx : r.2.ctx = eng.ctx
  state : if r.1 then r.2.state = eng.state ∨ r.2.state = .closed else r.2.state = .failed

lemma Drained.trans {r : Bool × Engine S} (h₁ : Drained eng (true, eng₁)) (h₂ : Drained eng₁ r) : Drained eng r where
  ctx := h₂.ctx.trans h₁.ctx
  state := by
    have hstate₁ := h₁.state
    have hstate₂ := h₂.state
    split_ifs at hstate₂ ⊢ with hflag
    · rcases hstate₂ with hsame | hclosed
      · rw [hsame]
        exact hstate₁
      · exact .inr hclosed
    · exact hstate₂

lemma Drained.refl : Drained eng (true, eng) := ⟨rfl, .inl rfl⟩

lemma ne_handshake_of_drained {r : Bool × Engine S} (h : Drained eng r) (hstate : eng.state ≠ .handshake) :
    r.2.state ≠ .handshake := by
  intro hhandshake
  have hleft := h.state
  split_ifs at hleft
  · rcases hleft with hsame | hclosed
    · exact hstate (hsame.symm.trans hhandshake)
    · cases hclosed.symm.trans hhandshake
  · cases hleft.symm.trans hhandshake

lemma Opening.drained (h : Opening eng (.progress, eng')) : Drained eng (true, eng') := by
  cases h with
  | data => exact ⟨rfl, .inl rfl⟩
  | alert => exact ⟨rfl, .inr rfl⟩
  | handshake => exact ⟨rfl, .inl rfl⟩

lemma Opening.ctx {rc : Rc} (h : Opening eng (rc, eng')) : eng'.ctx = eng.ctx := by
  cases h with
  | overflow _ _ _ hctx => exact hctx
  | _ => rfl

/-- What the loop over RX does. -/
inductive Loops : Engine S → Bool × Engine S → Prop
  | full {eng : Engine S} (hin : eng.appIn ≠ []) : Loops eng (true, eng)
  | waits {eng : Engine S} (hin : eng.appIn = []) (hidle : eng.tryOpenOne = (.idle, eng)) : Loops eng (true, eng)
  | fails {eng eng₁ : Engine S} (hin : eng.appIn = []) (hopen : Opening eng (.error, eng₁)) :
      Loops eng (false, eng₁.setFailed .protocol)
  | stops {eng eng₁ : Engine S} (hin : eng.appIn = []) (hopen : Opening eng (.progress, eng₁))
      (hnot : eng₁.state ≠ .app) : Loops eng (true, eng₁)
  | goes {eng eng₁ : Engine S} {r : Bool × Engine S} (hin : eng.appIn = []) (hopen : Opening eng (.progress, eng₁))
      (happ : eng₁.state = .app) (hrest : Loops eng₁ r) : Loops eng r

lemma length_behindRecord {rx : Bytes} (h : HasRecord rx) : (behindRecord rx).length < rx.length := by
  have hheader := h.1
  rw [behindRecord, length_drop]
  simp only [recordHeaderLen] at hheader ⊢
  omega

lemma Opening.rx_lt (h : Opening eng (.progress, eng')) : eng'.rx.length < eng.rx.length := by
  cases h with
  | data hrecord | alert hrecord | handshake hrecord => exact length_behindRecord hrecord

theorem openLoop_loops {fuel : ℕ} (hfuel : eng.rx.length < fuel) : Loops eng (openLoop fuel eng) := by
  induction fuel generalizing eng with
  | zero => exact absurd hfuel (Nat.not_lt_zero _)
  | succ fuel ih =>
    have hopen := tryOpenOne_opening eng
    by_cases hin : eng.appIn = []
    · rcases hone : eng.tryOpenOne with ⟨rc, eng₁⟩
      rw [hone] at hopen
      cases rc with
      | error =>
        rw [openLoop_of_error fuel hin hone]
        exact .fails hin hopen
      | idle =>
        rw [openLoop_of_idle fuel hin hone]
        cases hopen
        exact .waits hin hone
      | progress =>
        rw [openLoop_of_progress fuel hin hone]
        split_ifs with happ
        · exact .goes hin hopen happ (ih (hopen.rx_lt.trans_le (Nat.le_of_lt_succ hfuel)))
        · exact .stops hin hopen happ
    · rw [openLoop, if_pos hin]
      exact .full hin

/-- What every opened record keeps, the loop over RX keeps. -/
theorem Loops.invariant {P : Engine S → Prop} (hone : ∀ e e', P e → Opening e (.progress, e') → P e')
    {r : Bool × Engine S} (h : Loops eng r) (hok : r.1 = true) (hP : P eng) : P r.2 := by
  induction h with
  | full | waits => exact hP
  | fails => cases hok
  | stops hin hopen => exact hone _ _ hP hopen
  | goes hin hopen happ hrest ih => exact ih hok (hone _ _ hP hopen)

lemma Loops.drained {r : Bool × Engine S} (h : Loops eng r) : Drained eng r := by
  induction h with
  | full | waits => exact .refl
  | fails hin hopen => exact ⟨hopen.ctx, rfl⟩
  | stops hin hopen => exact hopen.drained
  | goes hin hopen happ hrest ih => exact hopen.drained.trans ih

lemma sealLoop_drained (fuel : ℕ) (eng : Engine S) : Drained eng (sealLoop fuel eng) := by
  obtain ⟨eng₁, ⟨_, _, _, _, rfl⟩, -, ⟨hloop, -⟩ | hloop⟩ := sealLoop_cases fuel eng
  · rw [hloop]
    exact ⟨rfl, .inl rfl⟩
  · rw [hloop]
    exact ⟨rfl, rfl⟩

theorem drain_drained (eng : Engine S) : Drained eng eng.drain := by
  have hopen := (openLoop_loops (Nat.lt_succ_self eng.rx.length)).drained
  unfold drain
  split
  · rename_i eng₁ hloop
    rw [hloop] at hopen
    exact hopen.trans (sealLoop_drained _ _)
  · exact hopen

lemma ne_handshake_of_ended (h : eng.state = .app ∨ eng.state = .closed) : eng.state ≠ .handshake := by
  rcases h with h | h <;> exact fun hstate => nomatch hstate.symm.trans h

/-- Behind a step the engine is in the handshake only if its loop has ended there. -/
lemma step_spin (h : (eng.step env).2.state = .handshake) :
    eng.state = .handshake ∧ (handshakeSpin env 8 eng).1 = some (eng.step env).2 := by
  have hend := step_end env eng
  generalize (eng.step env).2 = eng' at hend h
  cases hend with
  | failed hstate => cases hstate.symm.trans h
  | fails hstate => cases h
  | waits hstate hspin hwaits => exact ⟨hstate, hspin⟩
  | enters hstate hspin happ => exact absurd h (ne_handshake_of_drained (drain_drained _)
      (ne_handshake_of_ended (.inl happ)))
  | drains hstate => exact absurd h (ne_handshake_of_drained (drain_drained _) (ne_handshake_of_ended hstate))

end Engine

end Tls
