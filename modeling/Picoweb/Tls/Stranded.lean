import Picoweb.Http.Behind
import Picoweb.Lib.Run
import Picoweb.Tls.Handshake
import Picoweb.Tls.Worker

/-!
# Input that the TLS worker leaves behind

An event reads all that the socket has and then makes one step of the engine, which stops at the first
record that carries application data. A record behind it stays in RX, although it could be opened and
answered, until more bytes arrive. Where only the last record carries data, nothing is left behind.
-/

namespace Tls

open ByteFile ByteText Http Sockets

/-- The record carries no application data under the given keys. -/
def Quiet (aead : Aead) (dir : Dir) (record : Bytes) : Prop :=
  ∀ plain dir', openRecord aead dir record = some (ctApplicationData, plain, dir') → plain = []

/-- Of the complete records in RX, only the last may carry application data. -/
inductive LastData (aead : Aead) : Dir → Bytes → Prop
  | none {dir : Dir} {rx : Bytes} (h : ¬ HasRecord rx) : LastData aead dir rx
  | last {dir : Dir} {rx : Bytes} (h : ¬ HasRecord (behindRecord rx)) : LastData aead dir rx
  | quiet {dir : Dir} {rx : Bytes} (h : Quiet aead dir (headRecord rx))
      (rest : LastData aead { dir with seq := dir.seq + 1 } (behindRecord rx)) : LastData aead dir rx

namespace Engine

variable {S : Suite} {eng eng' : Engine S}

/-- What the loop over the records of RX finds can be taken in one go. -/
def Digestible (eng : Engine S) : Prop :=
  ¬ HasRecord eng.rx ∨ eng.appIn = [] ∧ LastData S.aead eng.read eng.rx

/-- What an opened record leaves: the records behind it, the moved keys, and its data in APP_IN. -/
lemma Opening.left (hopen : Opening eng (.progress, eng')) (happ : eng'.state = .app) :
    ∃ inner plain read, HasRecord eng.rx ∧ openRecord S.aead eng.read (headRecord eng.rx) = some (inner, plain, read) ∧
      eng'.rx = behindRecord eng.rx ∧ eng'.read = read ∧
      eng'.appIn = if inner = ctApplicationData then eng.appIn ++ plain else eng.appIn := by
  cases hopen with
  | data hrecord hrecordOpen => exact ⟨_, _, _, hrecord, hrecordOpen, rfl, rfl, (if_pos rfl).symm⟩
  | alert => exact absurd happ nofun
  | handshake hrecord hrecordOpen => exact ⟨_, _, _, hrecord, hrecordOpen, rfl, rfl, rfl⟩

/-- A record that is opened leaves the rest of RX, which is as digestible. -/
lemma Digestible.opening (h : eng.Digestible) (hin : eng.appIn = [])
    (hopen : Opening eng (.progress, eng')) (happ : eng'.state = .app) : eng'.Digestible := by
  obtain ⟨inner, plain, read, hrecord, hopened, hrx, hread, hin'⟩ := hopen.left happ
  rcases h with hnone | ⟨-, hlast⟩
  · exact absurd hrecord hnone
  cases hlast with
  | none hnone => exact absurd hrecord hnone
  | last hbehind => exact .inl (hrx ▸ hbehind)
  | quiet hquiet hrest =>
    have hdir := seq_of_openRecord hopened
    refine .inr ⟨?_, ?_⟩
    · rw [hin']
      split_ifs with hdata
      · rw [hin]
        exact hquiet plain read (hdata ▸ hopened)
      · exact hin
    · rwa [hrx, hread, hdir]

/-- The loop over the records ends without a complete record in RX. -/
lemma Loops.settles {r : Bool × Engine S} (hloop : Loops eng r) (h : eng.Digestible) (hok : r.1 = true)
    (happ : r.2.state = .app) : ¬ HasRecord r.2.rx := by
  induction hloop with
  | full hin => exact h.resolve_right fun hright => hin hright.1
  | @waits eng hin hidle =>
    have hopen := tryOpenOne_opening eng
    rw [hidle] at hopen
    cases hopen with
    | waits hnone => exact hnone
  | fails => cases hok
  | stops hin hopen hnot => exact absurd happ hnot
  | goes hin hopen happ₁ hrest ih => exact ih (h.opening hin hopen happ₁) hok happ

lemma drain_settles (h : eng.state = .app → eng.Digestible) (hdrain : eng.drain = (true, eng'))
    (happ : eng'.state = .app) : ¬ HasRecord eng'.rx := by
  unfold drain at hdrain
  split at hdrain
  next eng₁ hloop =>
    obtain ⟨_, _, _, _, rfl⟩ := OnlySeals.sealLoop hdrain
    have hloops := openLoop_loops (Nat.lt_succ_self eng.rx.length)
    rw [hloop] at hloops
    have happ₁ : eng₁.state = .app := happ
    rcases hloops.drained.state with hsame | hclosed
    · exact hloops.settles (h (hsame.symm.trans happ₁)) rfl happ₁
    · cases hclosed.symm.trans happ₁
  next r hnot => exact absurd hdrain (hnot _)

/-- A step from a digestible engine leaves no complete record in RX. -/
lemma step_settles {env : S.Env} (h : (eng.appStart env).state = .app → (eng.appStart env).Digestible)
    (hstep : eng.step env = (true, eng')) (happ : eng'.state = .app) : ¬ HasRecord eng'.rx := by
  unfold step at hstep
  unfold appStart at h
  split at hstep
  next => cases hstep
  next hhandshake =>
    rw [if_pos hhandshake] at h
    split at hstep
    next => cases hstep
    next eng₁ eng₂ hspin =>
      obtain rfl := handshakeSpin_eq hspin
      rw [hspin] at h
      split_ifs at hstep with happ₁
      · exact drain_settles h hstep happ
      · cases hstep
        exact absurd happ happ₁
  next hnot =>
    rw [if_neg hnot] at h
    exact drain_settles h hstep happ

end Engine

/-! ### The worker -/

/-- The buffer starts with a request that can be answered: its headers are there, and its body if it goes
to the blob store. -/
def HasRequest (cfg : WorkerCfg) (plain : Bytes) : Prop :=
  plain ≠ [] ∧ (httpParse plain).1 ≠ .needMore ∧ KConn.bodyGate cfg plain (httpParse plain).1 (httpParse plain).2 ≠ none

namespace KConn

variable {S : Suite} {cfg : WorkerCfg} {c c' : KConn S}

/-- Everything that can be answered has been answered. -/
def NothingStranded (cfg : WorkerCfg) (c : KConn S) : Prop :=
  c.eng.state = .app → c.wantClose = false → ¬ HasRecord c.eng.rx ∧ ¬ HasRequest cfg c.plain

/-- An event that reads finds application data in the last complete record only. -/
def DataLast (c : KConn S) : Event S → Prop
  | .epoll ev recvs _ out => ev.input = true → c.armed = true →
      let eng := Engine.appStart out.env
        { c.eng with rx := c.eng.rx ++ received recvs (bufCap - c.eng.rx.length) c.inbox }
      eng.state = .app → eng.Digestible
  | .sweep => True

/-- Between two events APP_IN is empty, and nothing is left behind. -/
structure Settled (cfg : WorkerCfg) (c : KConn S) : Prop where
  appIn : c.eng.appIn = []
  records : c.eng.state = .app → ¬ HasRecord c.eng.rx
  requests : c.eng.state = .app → c.wantClose = false → ¬ HasRequest cfg c.plain

lemma compact_length_lt {plain : Bytes} {pr : HttpResult} {req : HttpRequest} (hplain : plain ≠ []) :
    (compact cfg plain pr req).length < plain.length := by
  have hpos := List.length_pos_of_ne_nil hplain
  unfold compact
  by_cases hok : pr = .ok ∧ 0 < req.consumed ∧ req.consumed < plain.length
  · rw [if_pos hok, List.length_drop]
    omega
  · rwa [if_neg hok]

/-- The request loop leaves the engine's input alone, and stops in front of a request that is not complete
unless it marks the connection to close. -/
lemma requestLoop_settles (stats : ℕ → ℕ → UInt8) {fuel : ℕ} (hfuel : c.plain.length < fuel) :
    c.eng.OnlySeals (requestLoop cfg stats fuel c).2.eng ∧
      ((requestLoop cfg stats fuel c).1 = false → ¬ HasRequest cfg (requestLoop cfg stats fuel c).2.plain) := by
  induction fuel generalizing c with
  | zero => exact absurd hfuel (Nat.not_lt_zero _)
  | succ fuel ih =>
    unfold requestLoop
    dsimp only
    split_ifs with hplain hmore
    · exact ⟨.refl, fun _ h => h.1 hplain⟩
    · exact ⟨.refl, fun _ h => h.2.1 hmore⟩
    split
    next hwait => exact ⟨.refl, fun _ h => h.2.2 hwait⟩
    next pr hgate =>
      obtain ⟨eng, reqCount, hint, honly, -, hcases⟩ :=
        c.answer_cases cfg (stats c.reqCount) pr (httpParse c.plain).2
      rcases hcases with heq | ⟨part, -, -, heq⟩
      · rw [heq]
        cases (c.buildHttpResponseIov cfg pr (httpParse c.plain).2).1.closeAfter with
        | true => exact ⟨honly, nofun⟩
        | false =>
          have hlt : (compact cfg c.plain pr (httpParse c.plain).2).length < fuel :=
            (compact_length_lt hplain).trans_le (Nat.lt_succ_iff.mp hfuel)
          obtain ⟨honly', hsettled⟩ := @ih { c with
            eng := eng
            reqCount := reqCount
            sealed := _
            plain := compact cfg c.plain pr (httpParse c.plain).2 } hlt
          exact ⟨honly.trans honly', hsettled⟩
      · rw [heq]
        exact ⟨honly, nofun⟩

/-- Taking the plaintext empties APP_IN and touches nothing else of the engine's input. -/
lemma takePlain_settles {stats : ℕ → UInt8} {b : Bool} (h : takePlain cfg c stats = .ok (b, c')) :
    c'.eng.appIn = [] ∧ c'.eng.rx = c.eng.rx ∧ c'.eng.state = c.eng.state := by
  unfold takePlain at h
  dsimp only at h
  split_ifs at h with hnil hover hstate
  · cases h
    exact ⟨hnil, rfl, rfl⟩
  · obtain ⟨reqCount, hbuild⟩ := c.buildHttpResponseIov_eq cfg .err413 {}
    have hlen := c.length_segs_le cfg .err413 {}
    generalize c.buildHttpResponseIov cfg .err413 {} = built at hbuild hlen h
    obtain ⟨resp, c₁⟩ := built
    subst hbuild
    have hfrags : (resp.segs.map (Seg.bytes stats)).length ≤ iovMaxFrags := by rwa [List.length_map]
    obtain ⟨ok, eng, n, heq, ⟨_, _, _, _, rfl⟩, -⟩ := sealIov_spec { c with reqCount := reqCount } hfrags
    rw [heq] at h
    cases ok with
    | false => cases h
    | true =>
      cases h
      simp [Engine.appInAck]
  · cases h
    simp [Engine.appInAck]

lemma answerRequests_settles (closeAfter : Bool) (stats : ℕ → ℕ → UInt8) :
    c.eng.OnlySeals (c.answerRequests cfg closeAfter stats).2.eng ∧
      (c.eng.state = .app → (c.answerRequests cfg closeAfter stats).1 = false →
        ¬ HasRequest cfg (c.answerRequests cfg closeAfter stats).2.plain) := by
  unfold answerRequests
  split_ifs with happ
  · obtain ⟨honly, hsettled⟩ := requestLoop_settles stats (Nat.lt_succ_self c.plain.length)
    exact ⟨honly, fun _ => hsettled⟩
  · exact ⟨.refl, fun hstate _ hreq => happ ⟨hstate, hreq.1⟩⟩

/-- A turn of the engine answers the requests in the buffer; from where RX is digestible, it leaves nothing
behind. -/
lemma drive_settles {out : Outside S} {b : Bool} (h : c.drive cfg out = .ok (b, c')) : c'.eng.appIn = [] ∧
      (((c.eng.appStart out.env).state = .app → (c.eng.appStart out.env).Digestible) →
        c'.eng.state = .app → ¬ HasRecord c'.eng.rx) ∧
      (c'.eng.state = .app → b = false → ¬ HasRequest cfg c'.plain) := by
  unfold drive at h
  split at h
  next => cases h
  next eng hstep =>
    split at h
    next => cases h
    next b₁ c₁ htake =>
      obtain ⟨happIn, hrx, hstate⟩ := takePlain_settles htake
      obtain ⟨⟨_, _, _, _, honly⟩, hsettled⟩ := c₁.answerRequests_settles b₁ out.stats
      generalize c₁.answerRequests cfg b₁ out.stats = r at honly hsettled h
      obtain ⟨closeAfter, c₂⟩ := r
      obtain ⟨eng₃, emitted, hticket, ⟨_, _, _, _, rfl⟩⟩ := c₂.maybeEmitSessionTicket_eq out.nst
      dsimp only at honly hsettled h
      have hin : c₂.eng.appIn = [] := by rwa [honly]
      have hrecords : ((c.eng.appStart out.env).state = .app → (c.eng.appStart out.env).Digestible) →
          c₂.eng.state = .app → ¬ HasRecord c₂.eng.rx := by
        rw [honly]
        rw [hstate, hrx]
        exact fun hdigest happ => Engine.step_settles hdigest hstep happ
      have hsettled' : c₂.eng.state = .app → closeAfter = false → ¬ HasRequest cfg c₂.plain := by rwa [honly]
      rw [hticket] at h
      cases closeAfter with
      | true =>
        cases h
        exact ⟨hin, hrecords, nofun⟩
      | false =>
        cases h
        exact ⟨hin, hrecords, hsettled'⟩

lemma finishTurn_settles (h : c.Settled cfg) (rdhup : Bool) (sends : List SendResult) :
    (c.finishTurn rdhup sends).closed.isSome ∨ (c.finishTurn rdhup sends).Settled cfg := by
  have hspec := c.finishTurn_spec rdhup sends
  generalize c.finishTurn rdhup sends = c' at hspec ⊢
  cases hspec with
  | failed | drained | hungUp => exact .inl rfl
  | half => exact .inr ⟨h.appIn, h.records, nofun⟩
  | waiting => exact .inr ⟨h.appIn, h.records, h.requests⟩

lemma tryRecvAndDrive_settles (cfg : WorkerCfg) (c : KConn S) {recvs : List ReadResult} {out : Outside S}
    (hdigest : (Engine.appStart out.env
        { c.eng with rx := c.eng.rx ++ received recvs (bufCap - c.eng.rx.length) c.inbox }).state = .app →
      (Engine.appStart out.env
        { c.eng with rx := c.eng.rx ++ received recvs (bufCap - c.eng.rx.length) c.inbox }).Digestible) :
    (c.tryRecvAndDrive cfg recvs out).closed.isSome ∨ (c.tryRecvAndDrive cfg recvs out).Settled cfg := by
  obtain ⟨rc, inbox, heq⟩ := recvLoop_spec recvs c
  unfold tryRecvAndDrive
  rw [heq]
  cases rc with
  | failed => exact .inl rfl
  | go | fin =>
    dsimp only
    split
    next => exact .inl rfl
    next closeAfter c₂ hdrive =>
      obtain ⟨happIn, hrecords, hrequests⟩ := drive_settles hdrive
      refine .inr ⟨happIn, hrecords hdigest, fun happ hwant => hrequests happ ?_⟩
      simp only [Bool.or_eq_false_iff] at hwant
      exact hwant.1.2

/-- An event under the condition keeps the connection settled. -/
lemma turn_settles (h : c.closed.isSome ∨ c.Settled cfg) (e : Event S) (hlast : c.DataLast e) :
    (c.turn cfg e).closed.isSome ∨ (c.turn cfg e).Settled cfg := by
  cases e with
  | sweep =>
    simp only [turn]
    split_ifs with hclosed
    · exact .inl hclosed
    · exact .inl rfl
  | epoll ev recvs sends out =>
    simp only [turn]
    split_ifs with hclosed herr hin hclosed'
    · exact .inl hclosed
    · exact .inl rfl
    · exact .inl hclosed'
    · have hsettled := c.tryRecvAndDrive_settles cfg (hlast hin.1 hin.2)
      exact finishTurn_settles (hsettled.resolve_left hclosed') _ _
    · exact finishTurn_settles (h.resolve_left hclosed) _ _

/-- Whenever the worker has finished an event of a run in which application data only ever came in the last
complete record, a live connection holds no record and no request that could be answered. -/
theorem nothing_stranded (cfg : WorkerCfg) (ctx : S.Ctx) (configured : Bool) (stream : Bytes) (events : List (Event S))
    (hlast : Run.Guarded (turn cfg) DataLast { eng := .init ctx configured, inbox := stream } events) :
    (events.foldl (turn cfg) { eng := .init ctx configured, inbox := stream }).closed.isSome ∨
      (events.foldl (turn cfg) { eng := .init ctx configured, inbox := stream }).NothingStranded cfg := by
  have hinit : Settled cfg { eng := Engine.init (S := S) ctx configured, inbox := stream } := ⟨rfl, nofun, nofun⟩
  have hrun := hlast.invariant (P := fun c => c.closed.isSome ∨ c.Settled cfg)
    (fun c e h hlast => turn_settles h e hlast) (.inr hinit)
  exact hrun.imp_right fun h happ hwant => ⟨h.records happ, h.requests happ hwant⟩

def emptySite : WorkerCfg := siteOf { head := ascii "HTTP/1.1 200 OK\r\nContent-Length: 0\r\n" }

/-- A client that sends each request in a record of its own. -/
def requests (n : ℕ) : Bytes :=
  clearHello ++ clearFinished ++ (List.replicate n (clearRecord ctApplicationData getRoot)).flatten

/-- The handshake in two events, then everything else in one. -/
def threeEvents : List (Event clearSuite) :=
  [readEvent clearHello.length, readEvent clearFinished.length, readEvent bufCap]

theorem nothing_stranded_one_request :
    (threeEvents.foldl (turn emptySite) { eng := .init () true, inbox := requests 1 }).closed.isSome ∨
      (threeEvents.foldl (turn emptySite) { eng := .init () true, inbox := requests 1 }).NothingStranded emptySite := by
  have hlast : Run.Guarded (turn emptySite) DataLast { eng := .init () true, inbox := requests 1 } threeEvents := by
    refine ⟨?_, ?_, ?_, trivial⟩
    · exact fun _ _ happ => absurd happ (by decide +kernel)
    · exact fun _ _ _ => .inl (by decide +kernel)
    · exact fun _ _ _ => .inr ⟨by decide +kernel, .last (by decide +kernel)⟩
  exact nothing_stranded (S := clearSuite) emptySite () true (requests 1) threeEvents hlast

/-- The connection after two requests in two records that arrive together. -/
def twoTogether : KConn clearSuite :=
  threeEvents.foldl (turn emptySite) { eng := .init () true, inbox := requests 2 }

/-- The second request stays in RX. -/
theorem second_record_stranded : ¬ (twoTogether.closed.isSome ∨ twoTogether.NothingStranded emptySite) := by
  have hstate : twoTogether.closed = none ∧ twoTogether.eng.state = .app ∧ twoTogether.wantClose = false ∧
      HasRecord twoTogether.eng.rx := by
    decide +kernel
  obtain ⟨hopen, happ, hwant, hrecord⟩ := hstate
  rintro (hclosed | hnothing)
  · cases hclosed
  · exact (hnothing happ hwant).1 hrecord

end KConn

end Tls
