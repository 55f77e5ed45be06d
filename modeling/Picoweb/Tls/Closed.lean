import Picoweb.Lib.Run
import Picoweb.Tls.Sealing

/-!
# The engine after its end

Once the engine is CLOSED or FAILED nothing should pass through it any more. `pw_tls_step` looks for
FAILED only: a closed engine still opens the record at the head of RX and seals what waits in APP_OUT.
-/

namespace Tls

open ByteFile

/-- The calls on an engine that has ended. -/
inductive Call (S : Suite)
  | rxAck (bytes : Bytes)
  | step (env : S.Env)
  | appOutPush (iov : List Bytes)
  | appSealIov (iov : List Bytes)
  | emitSessionTicket (nst : Option Bytes)

structure Traffic where
  recordsIn : ℕ
  recordsOut : ℕ
  appIn : Bytes
  tx : Bytes
  deriving DecidableEq, Repr

namespace Engine

variable {S : Suite}

def call (eng : Engine S) : Call S → Engine S
  | .rxAck bytes => eng.rxAck bytes
  | .step env => (eng.step env).2
  | .appOutPush iov => (eng.appOutPush iov).2
  | .appSealIov iov => (eng.appSealIov iov).2
  | .emitSessionTicket nst => (eng.emitSessionTicket nst).2

def traffic (eng : Engine S) : Traffic := ⟨eng.recordsIn, eng.recordsOut, eng.appIn, eng.tx⟩

def Ended (eng : Engine S) : Prop := eng.state = .closed ∨ eng.state = .failed

/-- A step of a closed engine finds nothing to open, and nothing to seal unless a bad record stops it
first. -/
def Quiet (eng : Engine S) : Call S → Prop
  | .step _ => eng.state = .closed →
      ¬ (eng.appIn = [] ∧ eng.Openable) ∧ (eng.Sealable → eng.appIn = [] ∧ eng.BadHead)
  | _ => True

variable {eng : Engine S}

lemma Ended.ne_app (h : eng.Ended) : eng.state ≠ .app := by
  rcases h with h | h <;> simp [h]

/-! ### The two loops -/

section OpenLoop

variable (fuel : ℕ)

lemma openLoop_pending (h : ¬ (eng.appIn = [] ∧ (eng.Openable ∨ eng.BadHead))) :
    openLoop (fuel + 1) eng = (true, eng) := by
  by_cases hin : eng.appIn = []
  · have hpending : ¬ eng.Openable ∧ ¬ eng.BadHead := not_or.mp fun hhead => h ⟨hin, hhead⟩
    exact openLoop_of_idle fuel hin (tryOpenOne_of_pending hpending.1 hpending.2)
  · rw [openLoop, if_pos hin]

lemma openLoop_bad (hin : eng.appIn = []) (hbad : eng.BadHead) : ∃ eng',
    openLoop (fuel + 1) eng = (false, eng') ∧ eng'.state = .failed ∧ eng'.traffic = eng.traffic := by
  obtain ⟨rx, lastErr, hopen⟩ := tryOpenOne_of_bad hbad
  exact ⟨_, openLoop_of_error fuel hin hopen, rfl, rfl⟩

/-- A closed engine goes through the loop once. -/
lemma openLoop_open (hclosed : eng.state = .closed) (hin : eng.appIn = []) (hopen : eng.Openable) :
    (openLoop (fuel + 1) eng).2.Ended ∧ (openLoop (fuel + 1) eng).2.recordsIn = eng.recordsIn + 1 ∧
      (openLoop (fuel + 1) eng).2.recordsOut = eng.recordsOut := by
  obtain ⟨inner, plain, read, -, htake⟩ := tryOpenOne_of_openable hopen
  obtain ⟨rc, rx, appIn, state, lastErr, heq, hrc, hstate⟩ := takeOpened_eq
    { eng with read := read, recordsIn := eng.recordsIn + 1, rx := eng.rxOpened } inner plain
      (eng.rx.drop eng.headTotal)
  have hstate : state = .closed := hstate.elim (·.trans hclosed) id
  rw [heq] at htake
  match rc with
  | .error =>
    rw [openLoop_of_error fuel hin htake]
    exact ⟨.inr rfl, rfl, rfl⟩
  | .idle => exact absurd rfl hrc
  | .progress =>
    have hnot : state ≠ .app := by simp [hstate]
    rw [openLoop_of_progress fuel hin htake, if_neg hnot]
    exact ⟨.inl hstate, rfl, rfl⟩

end OpenLoop

section SealLoop

lemma sealLoop_quiet (h : ¬ eng.Sealable) (fuel : ℕ) : (sealLoop (fuel + 1) eng).2.traffic = eng.traffic := by
  obtain ⟨rc, hrc, hseal, -⟩ := trySealOne_of_not_sealable h
  match rc with
  | .error => rw [sealLoop_of_error fuel hseal]; rfl
  | .idle => rw [sealLoop_of_idle fuel hseal]
  | .progress => exact absurd rfl hrc

lemma sealLoop_grows (hended : eng.Ended) (fuel : ℕ) :
    (sealLoop fuel eng).2.Ended ∧ (sealLoop fuel eng).2.recordsIn = eng.recordsIn ∧
      eng.recordsOut ≤ (sealLoop fuel eng).2.recordsOut := by
  obtain ⟨eng₁, ⟨_, _, _, _, rfl⟩, hcount, ⟨hloop, -⟩ | hloop⟩ := sealLoop_cases fuel eng
  · rw [hloop]
    exact ⟨hended, rfl, hcount⟩
  · rw [hloop]
    exact ⟨.inr rfl, rfl, hcount⟩

lemma sealLoop_seals (h : eng.Sealable) (fuel : ℕ) :
    eng.recordsOut < (sealLoop (fuel + 1) eng).2.recordsOut := by
  obtain ⟨record, write, -, hseal⟩ := trySealOne_of_sealable h
  rw [sealLoop_of_progress fuel hseal]
  obtain ⟨eng₁, -, hcount, ⟨hloop, -⟩ | hloop⟩ := sealLoop_cases fuel { eng with
    tx := eng.tx ++ record, write := write, appOut := eng.appOut.drop maxPlaintext, recordsOut := eng.recordsOut + 1 }
  · rw [hloop]
    exact hcount
  · rw [hloop]
    exact hcount

end SealLoop

/-! ### One call -/

lemma drain_of_go {eng' : Engine S} (h : openLoop (eng.rx.length + 1) eng = (true, eng')) :
    eng.drain = sealLoop (eng'.appOut.length + 1) eng' := by
  rw [drain, h]

lemma drain_of_stop {eng' : Engine S} (h : openLoop (eng.rx.length + 1) eng = (false, eng')) :
    eng.drain = (false, eng') := by
  rw [drain, h]

lemma drain_open (hclosed : eng.state = .closed) (hin : eng.appIn = []) (hopen : eng.Openable) :
    eng.drain.2.Ended ∧ eng.recordsIn < eng.drain.2.recordsIn ∧ eng.recordsOut ≤ eng.drain.2.recordsOut := by
  obtain ⟨hended, hrecIn, hrecOut⟩ := openLoop_open eng.rx.length hclosed hin hopen
  rcases hloop : openLoop (eng.rx.length + 1) eng with ⟨go, eng'⟩
  rw [hloop] at hended hrecIn hrecOut
  cases go with
  | false =>
    rw [drain_of_stop hloop]
    exact ⟨hended, hrecIn ▸ Nat.lt_succ_self _, hrecOut.ge⟩
  | true =>
    rw [drain_of_go hloop]
    obtain ⟨hended', hin', hout'⟩ := sealLoop_grows hended (eng'.appOut.length + 1)
    exact ⟨hended', hin' ▸ hrecIn ▸ Nat.lt_succ_self _, hrecOut ▸ hout'⟩

lemma drain_bad (hin : eng.appIn = []) (hbad : eng.BadHead) :
    eng.drain.2.Ended ∧ eng.drain.2.traffic = eng.traffic := by
  obtain ⟨eng', hloop, hfailed, htraffic⟩ := openLoop_bad eng.rx.length hin hbad
  rw [drain_of_stop hloop]
  exact ⟨.inr hfailed, htraffic⟩

lemma drain_pending (h : ¬ (eng.appIn = [] ∧ (eng.Openable ∨ eng.BadHead))) :
    eng.drain = sealLoop (eng.appOut.length + 1) eng :=
  drain_of_go (openLoop_pending eng.rx.length h)

lemma step_failed (h : eng.state = .failed) (env : S.Env) : (eng.step env).2 = eng := by
  simp only [step, h]

lemma step_closed (h : eng.state = .closed) (env : S.Env) : eng.step env = eng.drain := by
  simp only [step, h]

/-- Apart from a step, a call on an ended engine can do no more than take bytes into RX. -/
lemma call_port (h : eng.Ended) {c : Call S} (hc : ∀ env, c ≠ .step env) :
    ∃ rx, eng.call c = { eng with rx := rx } := by
  match c with
  | .rxAck bytes =>
    simp only [call, rxAck]
    split_ifs
    · exact ⟨eng.rx, rfl⟩
    · exact ⟨_, rfl⟩
  | .step env => exact absurd rfl (hc env)
  | .appOutPush iov => exact ⟨eng.rx, by rw [call, appOutPush, if_pos h.ne_app]⟩
  | .appSealIov iov => exact ⟨eng.rx, by rw [call, appSealIov, if_pos h.ne_app]⟩
  | .emitSessionTicket nst => exact ⟨eng.rx, by simp [call, emitSessionTicket, h.ne_app]⟩

lemma drain_ended (h : eng.state = .closed) : eng.drain.2.Ended := by
  by_cases hhead : eng.appIn = [] ∧ (eng.Openable ∨ eng.BadHead)
  · obtain ⟨hin, hopen | hbad⟩ := hhead
    · exact (drain_open h hin hopen).1
    · exact (drain_bad hin hbad).1
  · rw [drain_pending hhead]
    exact (sealLoop_grows (.inl h) _).1

lemma call_ended (h : eng.Ended) (c : Call S) : (eng.call c).Ended := by
  by_cases hc : ∀ env, c ≠ .step env
  · obtain ⟨rx, hcall⟩ := call_port h hc
    rw [hcall]
    exact h
  · push Not at hc
    obtain ⟨env, rfl⟩ := hc
    rcases h with hclosed | hfailed
    · rw [call, step_closed hclosed]
      exact drain_ended hclosed
    · rw [call, step_failed hfailed]
      exact .inr hfailed

lemma call_quiet (h : eng.Ended) {c : Call S} (hquiet : eng.Quiet c) : (eng.call c).traffic = eng.traffic := by
  by_cases hc : ∀ env, c ≠ .step env
  · obtain ⟨rx, hcall⟩ := call_port h hc
    rw [hcall]
    rfl
  push Not at hc
  obtain ⟨env, rfl⟩ := hc
  rcases h with hclosed | hfailed
  · obtain ⟨hopen, hseal⟩ := hquiet hclosed
    rw [call, step_closed hclosed]
    by_cases hbad : eng.appIn = [] ∧ eng.BadHead
    · exact (drain_bad hbad.1 hbad.2).2
    · have hpending : ¬ (eng.appIn = [] ∧ (eng.Openable ∨ eng.BadHead)) := by
        rintro ⟨hin, hhead⟩
        exact hhead.elim (fun ho => hopen ⟨hin, ho⟩) fun hb => hbad ⟨hin, hb⟩
      rw [drain_pending hpending]
      exact sealLoop_quiet (fun hsealable => hbad (hseal hsealable)) _
  · rw [call, step_failed hfailed]

lemma call_not_quiet {c : Call S} (hquiet : ¬ eng.Quiet c) :
    eng.recordsIn + eng.recordsOut < (eng.call c).recordsIn + (eng.call c).recordsOut := by
  match c with
  | .step env =>
    simp only [Quiet, Classical.not_imp] at hquiet
    obtain ⟨hclosed, hquiet⟩ := hquiet
    rw [call, step_closed hclosed]
    by_cases hopen : eng.appIn = [] ∧ eng.Openable
    · obtain ⟨-, hrecIn, hrecOut⟩ := drain_open hclosed hopen.1 hopen.2
      exact Nat.add_lt_add_of_lt_of_le hrecIn hrecOut
    · -- nothing opens and no bad record stops the step, so it goes on to seal
      have hseal : eng.Sealable ∧ ¬ (eng.appIn = [] ∧ eng.BadHead) := by
        by_contra hnot
        exact hquiet ⟨hopen, fun hsealable => not_not.mp fun hbad => hnot ⟨hsealable, hbad⟩⟩
      have hpending : ¬ (eng.appIn = [] ∧ (eng.Openable ∨ eng.BadHead)) := by
        rintro ⟨hin, hhead⟩
        exact hhead.elim (fun ho => hopen ⟨hin, ho⟩) fun hb => hseal.2 ⟨hin, hb⟩
      rw [drain_pending hpending]
      have hrecIn := (sealLoop_grows (.inl hclosed) (eng.appOut.length + 1)).2.1
      exact Nat.add_lt_add_of_le_of_lt hrecIn.ge (sealLoop_seals hseal.1 _)
  | .rxAck _ | .appOutPush _ | .appSealIov _ | .emitSessionTicket _ => exact absurd trivial hquiet

/-- Nothing passes through an ended engine exactly if every step it takes is quiet. -/
theorem traffic_after_end (h : eng.Ended) (calls : List (Call S)) :
    (calls.foldl call eng).traffic = eng.traffic ↔ Run.Guarded call Quiet eng calls :=
  Run.guarded_iff_observe_eq (fun t : Traffic => t.recordsIn + t.recordsOut)
    (fun _ c hs => call_ended hs c) (fun _ _ hs => call_quiet hs) (fun _ _ _ => call_not_quiet) h calls

/-- An engine with application keys that is closed while one byte waits in APP_OUT. -/
def closedWithByte : Engine clearSuite :=
  (((init () false).installAppKeys .wiped .wiped).appOutPush [[0x47]]).2.close

/-- One that is closed with nothing to send gets a part of a record and takes a step. -/
theorem traffic_after_end_of_step :
    let eng : Engine clearSuite := ((init () false).installAppKeys .wiped .wiped).close
    ([Call.appOutPush [[0]], .rxAck [23, 3, 3], .step ()].foldl call eng).traffic = eng.traffic := by
  intro eng
  refine (traffic_after_end (.inl rfl) _).mpr ⟨trivial, trivial, fun _ => ⟨fun hopen => ?_, fun hseal => ?_⟩, trivial⟩
  · exact absurd hopen.2.1 (by decide)
  · exact absurd rfl hseal.1

/-- The step after the close seals the byte. -/
theorem seals_after_close : closedWithByte.state = .closed ∧ closedWithByte.recordsOut = 0 ∧
    (closedWithByte.call (.step ())).recordsOut = 1 :=
  ⟨rfl, rfl, rfl⟩

end Engine

end Tls
