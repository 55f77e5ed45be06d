import Picoweb.Tls.Calls

/-!
# No application state without a verified Finished

The bytes that went through an engine tie its phase to the messages of the handshake: the transcript is
the hash of what was received and sent, and the keys are derived from it. The engine enters APP only
behind a Finished over this transcript. Until then only early data gets into APP_IN.
-/

namespace Tls.Verified

open ByteFile Engine List

variable {cfg : ServerConfig}

/-- The plaintexts of early data among some records, and the direction behind them: each is opened under the
next sequence number, and the other records are passed over. -/
inductive Early (aead : Aead) (dir : Dir) : List Bytes → List Bytes → Dir → Prop
  | nil : Early aead dir [] [] dir
  | skip {recs plains : List Bytes} {dir' : Dir} (h : Early aead dir recs plains dir') (record : Bytes) :
      Early aead dir (recs ++ [record]) plains dir'
  | data {recs plains : List Bytes} {record plain : Bytes} {dir' dir'' : Dir} (h : Early aead dir recs plains dir')
      (hopen : openRecord aead dir' record = some (ctApplicationData, plain, dir'')) :
      Early aead dir (recs ++ [record]) (plains ++ [plain]) dir''

/-- A handshake that the server has answered: `header` is the header of the ClientHello's record, and `flight`
the messages from EncryptedExtensions to the server's Finished. -/
structure Talk (cfg : ServerConfig) extends Greeting cfg where
  header : Bytes
  length_header : header.length = recordHeaderLen
  /-- The ticket was accepted from a store. -/
  accepted : ∃ ctx store, sel = (acceptPsk ctx msg ch store).2
  flight : List Bytes

namespace Talk

variable (t : Talk cfg)

def output : Bytes :=
  recordHeader ctHandshake t.sh.length ++ t.sh ++
    wireRecords (chachaPoly cfg.impl) ctHandshake (trafficDir t.secrets.server) t.flight

def transcript (endOfEarlyData : Bool) : Bytes :=
  t.msg ++ t.sh ++ t.flight.flatten ++ if endOfEarlyData then [5, 0, 0, 0] else []

end Talk

/-! ### Histories of an engine -/

/-- An engine with the bytes that went into its RX and that were taken from its TX and its APP_IN, and whether
it has entered APP by a handshake. -/
structure World (cfg : ServerConfig) where
  eng : Engine (serverSuite cfg)
  fed : Bytes
  sent : Bytes
  drained : Bytes
  entered : Bool

namespace World

/-- After `pw_tls_engine_init` and `pw_tls_engine_configure_server`. -/
def init : World cfg := ⟨Engine.init ServerCtx.init true, [], [], [], false⟩

def step (w : World cfg) (c : ServerCall) : World cfg where
  eng := w.eng.serverCall c
  fed := match c with
    | .port (.rxAck bytes) => if bufCap - w.eng.rx.length < bytes.length then w.fed else w.fed ++ bytes
    | _ => w.fed
  sent := match c with
    | .port (.txAck n) => if w.eng.tx.length < n then w.sent else w.sent ++ w.eng.tx.take n
    | _ => w.sent
  drained := match c with
    | .port (.appInAck n) => if w.eng.appIn.length < n then w.drained else w.drained ++ w.eng.appIn.take n
    | _ => w.drained
  entered := w.entered || decide (w.eng.Finishes c)

/-- What came out of APP_IN or is still there. -/
def delivered (w : World cfg) : Bytes := w.drained ++ w.eng.appIn

/-- Only early data under the keys of an accepted ticket was delivered. -/
def EarlyOnly (w : World cfg) : Prop :=
  w.delivered = [] ∨ ∃ (t : Talk cfg) (secret : Bytes) (recs plains : List Bytes) (dir : Dir) (rest : Bytes),
    w.fed = t.header ++ t.msg ++ recs.flatten ++ rest ∧ t.earlySecret = some secret ∧
      Early (chachaPoly cfg.impl) (trafficDir secret) recs plains dir ∧ w.delivered <+: plains.flatten

/-- Behind a Finished: it is in a record that RX held, opens under the keys of the client's handshake traffic
secret, and is over the messages that were received and sent. -/
def Confirmed (fed sent rx : Bytes) (eng : Engine (serverSuite cfg)) : Prop :=
  ∃ (t : Talk cfg) (recs : List Bytes) (passed record verifyData : Bytes) (dir : Dir),
    fed = t.header ++ t.msg ++ recs.flatten ++ record ++ eng.rx ∧ rx = passed ++ record ++ eng.rx ∧
    sent ++ eng.tx = t.output ∧
    openRecord (chachaPoly cfg.impl) (trafficDir t.secrets.client) record =
      some (ctHandshake, [0x14, 0, 0, 0x20] ++ verifyData, dir) ∧
    computeFinished t.secrets.client
      (Sha256.sha256 (t.transcript (eng.ctx : ServerCtx).earlyDataAccepted)) = some verifyData

/-- No keys are installed from outside, and the engine is not closed. -/
def Allowed : ServerCall → Prop
  | .installAppKeys _ _ | .close => False
  | _ => True

/-! ### What an engine in the handshake knows -/

/-- The engine has answered the ClientHello of a talk and taken some records behind it. -/
structure Follows (w : World cfg) (t : Talk cfg) (recs plains : List Bytes) : Prop where
  fed : w.fed = t.header ++ t.msg ++ recs.flatten ++ w.eng.rx
  sent : w.sent ++ w.eng.tx = t.output
  delivered : w.delivered = plains.flatten
  client : (w.eng.ctx : ServerCtx).csHandshakeSecret = t.secrets.client
  accepted : (w.eng.ctx : ServerCtx).earlyDataAccepted = t.early.isSome
  active : w.eng.earlyDataPhase = .active → t.early.isSome = true
  transcript : (w.eng.ctx : ServerCtx).transcript = Sha256.update Sha256.init
    (t.transcript (t.early.isSome && decide (w.eng.earlyDataPhase ≠ .active)))
  noEarly : t.earlySecret = none → plains = []
  early : ∀ secret, t.earlySecret = some secret → ∃ dir,
    Early (chachaPoly cfg.impl) (trafficDir secret) recs plains dir ∧
      (w.eng.earlyDataPhase = .active → w.eng.read = dir)
  passive : w.eng.earlyDataPhase ≠ .active → w.eng.read = trafficDir t.secrets.client
  saved : w.eng.earlyDataPhase = .active →
    (⟨(w.eng.ctx : ServerCtx).savedHsReadKey, (w.eng.ctx : ServerCtx).savedHsReadIv, 0⟩ : Dir) =
      trafficDir t.secrets.client
  waiting : w.eng.hsPhase ≠ .waitCh
  answering : w.eng.hsPhase = .afterShKeys → w.eng.write = trafficDir t.secrets.server ∧ t.flight = [] ∧
    (t.early.isSome = true → w.eng.earlyDataPhase = .active)

/-- An engine in the handshake waits for its ClientHello, or follows a talk. -/
inductive Progress (w : World cfg) : Prop
  | waits (hphase : w.eng.hsPhase = .waitCh) (hfed : w.fed = w.eng.rx) (hsent : w.sent ++ w.eng.tx = [])
      (hdelivered : w.delivered = []) : Progress w
  | follows {t : Talk cfg} {recs plains : List Bytes} (h : w.Follows t recs plains) : Progress w

lemma Progress.earlyOnly {w : World cfg} (h : w.Progress) : w.EarlyOnly := by
  cases h with
  | waits _ _ _ hdelivered => exact .inl hdelivered
  | @follows t recs plains h =>
    cases hsecret : t.earlySecret with
    | none =>
      left
      rw [h.delivered, h.noEarly hsecret, flatten_nil]
    | some secret =>
      obtain ⟨dir, hearly, -⟩ := h.early secret hsecret
      exact .inr ⟨t, secret, recs, plains, dir, w.eng.rx, h.fed, hsecret, hearly, h.delivered ▸ prefix_rfl⟩

/-- The early data that was accepted, if any, has not ended. -/
lemma not_ended {accepted : Bool} {phase : EarlyPhase} (h : accepted = true → phase = .active) :
    (accepted && decide (phase ≠ .active)) = false := by
  cases accepted with
  | false => rfl
  | true => rw [h rfl]; rfl

/-! ### Rounds of the handshake -/

variable {w : World cfg} {env : ServerEnv}

/-- The ClientHello starts a talk. -/
lemma Follows.hello (hfed : w.fed = w.eng.rx) (hsent : w.sent ++ w.eng.tx = []) (hdelivered : w.delivered = [])
    (hrecord : HasRecord w.eng.rx) {g : Greeting cfg} (hmsg : g.msg = (headRecord w.eng.rx).drop recordHeaderLen)
    (hsel : g.sel = (acceptPsk w.eng.ctx g.msg g.ch env.store).2) :
    ∃ t : Talk cfg, Follows { w with eng := w.eng.greeted (g.hello w.eng.ctx) } t [] [] := by
  have hheader : ((headRecord w.eng.rx).take recordHeaderLen).length = recordHeaderLen := by
    rw [length_take, headRecord, length_take]
    have := hrecord.1
    omega
  obtain ⟨t, rfl, htheader, htflight⟩ : ∃ t : Talk cfg, t.toGreeting = g ∧
      t.header = (headRecord w.eng.rx).take recordHeaderLen ∧ t.flight = [] :=
    ⟨⟨g, _, hheader, ⟨_, _, hsel⟩, []⟩, rfl, rfl, rfl⟩
  have hphase : (w.eng.greeted (t.hello w.eng.ctx)).earlyDataPhase = if t.early.isSome then .active else .none := by
    rw [← t.isSome_earlyMax w.eng.ctx]
    rfl
  have hactive : (w.eng.greeted (t.hello w.eng.ctx)).earlyDataPhase = .active → t.early.isSome = true := by
    intro hactive
    by_contra hnot
    rw [hphase, if_neg hnot] at hactive
    cases hactive
  obtain ⟨hsentNil, htxNil⟩ := append_eq_nil_iff.1 hsent
  refine ⟨t, ?_⟩
  constructor
  case fed =>
    change w.fed = t.header ++ t.msg ++ [] ++ behindRecord w.eng.rx
    rw [hfed, htheader, hmsg, append_nil, take_append_drop, headRecord_append_behindRecord]
  case sent =>
    change w.sent ++ (w.eng.tx ++ recordHeader ctHandshake t.sh.length ++ t.sh) = t.output
    rw [hsentNil, htxNil, Talk.output, htflight, wireRecords, append_nil, nil_append, nil_append]
  case delivered => exact hdelivered
  case client => rfl
  case accepted => exact t.isSome_earlySecret
  case active => exact hactive
  case transcript =>
    rw [not_ended fun hsome => hphase.trans (if_pos hsome), Talk.transcript, htflight, flatten_nil,
      append_nil, if_neg Bool.false_ne_true, append_nil]
    rfl
  case noEarly => exact fun _ => rfl
  case early =>
    intro secret hsecret
    refine ⟨trafficDir secret, .nil, fun _ => ?_⟩
    change (t.earlySecret.map trafficDir).getD (trafficDir t.secrets.client) = trafficDir secret
    rw [hsecret, Option.map_some, Option.getD_some]
  case passive =>
    intro hpassive
    have hsecret : t.earlySecret = none := by
      rw [← Option.not_isSome_iff_eq_none, t.isSome_earlySecret]
      intro hsome
      exact hpassive (hphase.trans (if_pos hsome))
    change (t.earlySecret.map trafficDir).getD (trafficDir t.secrets.client) = trafficDir t.secrets.client
    rw [hsecret, Option.map_none, Option.getD_none]
  case saved =>
    intro hnow
    simp only [greeted, Greeting.hello, hactive hnow, if_true, trafficDir]
  case waiting => rintro ⟨⟩
  case answering =>
    exact fun _ => ⟨rfl, htflight, fun hsome => hphase.trans (if_pos hsome)⟩

variable {t : Talk cfg} {recs plains : List Bytes}

variable {eng : Engine (serverSuite cfg)}

/-- The flight is sealed behind the ServerHello. -/
lemma Follows.flight (h : w.Follows t recs plains) (hphase : w.eng.hsPhase = .afterShKeys) {msgs : List Bytes}
    {ctx : ServerCtx} (hflight : Tls.flight cfg env w.eng.ctx = (msgs, some ctx))
    (hseal : sealHandshakeMsgs msgs w.eng = (true, eng)) :
    Follows { w with eng := { eng with ctx := ctx, hsPhase := .afterSfAwaitCf } } { t with flight := msgs }
      recs plains := by
  obtain ⟨hwrite, hflightNil, hactive⟩ := h.answering hphase
  obtain ⟨transcript, secrets, rfl, htranscript⟩ := flight_eq_some hflight
  have htx := (Emits.sealHandshakeMsgs hseal).tx
  obtain ⟨tx, write, appOut, recordsOut, rfl⟩ := OnlySeals.sealHandshakeMsgs hseal
  refine { h with sent := ?_, transcript := ?_, waiting := nofun, answering := nofun }
  · have hsent := h.sent
    rw [Talk.output, hflightNil, wireRecords, append_nil] at hsent
    rw [htx, ← append_assoc, hsent, hwrite]
    rfl
  · have hseen := h.transcript
    rw [not_ended hactive, Talk.transcript, hflightNil, flatten_nil, append_nil, if_neg Bool.false_ne_true,
      append_nil] at hseen
    rw [htranscript _ hseen, not_ended hactive, Talk.transcript, if_neg Bool.false_ne_true, append_nil]

/-- A record that is taken goes from RX to the records behind the ClientHello. -/
lemma Follows.fed_take (h : w.Follows t recs plains) :
    w.fed = t.header ++ t.msg ++ (recs ++ [headRecord w.eng.rx]).flatten ++ behindRecord w.eng.rx := by
  rw [flatten_append, flatten_singleton, h.fed, append_assoc _ _ (behindRecord w.eng.rx),
    append_assoc recs.flatten, headRecord_append_behindRecord, append_assoc]

lemma Follows.changeCipherSpec (h : w.Follows t recs plains) :
    Follows { w with eng := { w.eng with rx := behindRecord w.eng.rx } } t (recs ++ [headRecord w.eng.rx]) plains := by
  refine { h with fed := h.fed_take, early := fun secret hsecret => ?_ }
  obtain ⟨dir, hearly, hread⟩ := h.early secret hsecret
  exact ⟨dir, hearly.skip _, hread⟩

/-- A record of early data goes to APP_IN. -/
lemma Follows.earlyData (h : w.Follows t recs plains) (hphase : w.eng.hsPhase = .afterSfAwaitCf)
    (hactive : w.eng.earlyDataPhase = .active) {plain : Bytes} {read : Dir}
    (hopen : openRecord (chachaPoly cfg.impl) w.eng.read (headRecord w.eng.rx) = some (ctApplicationData, plain, read)) :
    Follows { w with eng := { w.eng with
      read := read
      appIn := w.eng.appIn ++ plain
      earlyDataSeen := w.eng.earlyDataSeen + plain.length
      rx := behindRecord w.eng.rx } } t (recs ++ [headRecord w.eng.rx]) (plains ++ [plain]) := by
  refine { h with
    fed := h.fed_take
    delivered := ?_
    noEarly := fun hnone => ?_
    early := fun secret hsecret => ?_
    passive := fun hpassive => absurd hactive hpassive
    answering := fun hanswering => nomatch hphase.symm.trans hanswering }
  · have hdelivered := h.delivered
    rw [World.delivered] at hdelivered ⊢
    rw [← append_assoc, hdelivered, flatten_append, flatten_singleton]
  · have hsome := t.isSome_earlySecret.trans (h.active hactive)
    rw [hnone] at hsome
    cases hsome
  · obtain ⟨dir, hearly, hread⟩ := h.early secret hsecret
    refine ⟨read, hearly.data ?_, fun _ => rfl⟩
    rw [← hread hactive]
    exact hopen

/-- The end of the early data brings the handshake keys back. -/
lemma Follows.endOfEarlyData (h : w.Follows t recs plains) (hphase : w.eng.hsPhase = .afterSfAwaitCf)
    (hactive : w.eng.earlyDataPhase = .active) : Follows { w with eng := { w.eng with
      ctx := (Tls.endOfEarlyData w.eng.ctx [5, 0, 0, 0]).1
      read := (Tls.endOfEarlyData w.eng.ctx [5, 0, 0, 0]).2
      earlyDataPhase := .done
      rx := behindRecord w.eng.rx } } t (recs ++ [headRecord w.eng.rx]) plains := by
  refine { h with
    fed := h.fed_take
    active := nofun
    transcript := ?_
    early := fun secret hsecret => ?_
    passive := fun _ => h.saved hactive
    saved := nofun
    answering := fun hanswering => nomatch hphase.symm.trans hanswering }
  · have hseen := h.transcript
    rw [not_ended fun _ => hactive] at hseen
    have hafter : (t.early.isSome && decide (EarlyPhase.done ≠ .active)) = true := by
      rw [h.active hactive]
      rfl
    dsimp only [Tls.endOfEarlyData]
    rw [hafter, hseen, Sha256.update_init_append, Talk.transcript, Talk.transcript, if_neg Bool.false_ne_true,
      append_nil, if_pos rfl]
  · obtain ⟨dir, hearly, -⟩ := h.early secret hsecret
    exact ⟨dir, hearly.skip _, nofun⟩

/-- A Finished that is verified. -/
lemma Follows.finished (h : w.Follows t recs plains) (hpassive : w.eng.earlyDataPhase ≠ .active) {plain : Bytes}
    {dir read write : Dir} {ctx : ServerCtx} {hasRms : Bool}
    (hopen : openRecord (chachaPoly cfg.impl) w.eng.read (headRecord w.eng.rx) = some (ctHandshake, plain, dir))
    (hlen : plain.length = 4 + 32) (hhead : plain.take 4 = [0x14, 0, 0, 0x20])
    (hfinished : clientFinished w.eng.ctx plain = some (ctx, read, write, hasRms)) :
    Confirmed w.fed w.sent w.eng.rx ({ w.eng with
      ctx := ctx
      read := read
      write := write
      hasRms := hasRms || w.eng.hasRms
      state := .app
      rx := behindRecord w.eng.rx } : Engine (serverSuite cfg)) := by
  obtain ⟨hverified, transcript, rms, rfl⟩ := clientFinished_eq_some hfinished
  have hplain : plain = [0x14, 0, 0, 0x20] ++ plain.drop 4 := by
    rw [← hhead, take_append_drop]
  have hdrop : (plain.drop 4).length = hashLen := by
    rw [length_drop, hlen]
  have hfed := h.fed_take
  rw [flatten_append, flatten_singleton, ← append_assoc] at hfed
  refine ⟨t, recs, [], headRecord w.eng.rx, plain.drop 4, dir, hfed, ?_, h.sent, ?_, ?_⟩
  · exact (headRecord_append_behindRecord _).symm
  · rw [← hplain, ← h.passive hpassive]
    exact hopen
  · have hverify := eq_of_verifyFinished hdrop hverified
    have hover := h.transcript
    rw [decide_eq_true hpassive, Bool.and_true] at hover
    rw [h.client, hover] at hverify
    rw [h.accepted]
    exact hverify

lemma Confirmed.of_suffix {fed sent rx rx' : Bytes} (h : Confirmed fed sent rx eng)
    {passed : Bytes} (hrx : rx' = passed ++ rx) : Confirmed fed sent rx' eng := by
  obtain ⟨t, recs, passed', record, verifyData, dir, hfed, hrecord, hrest⟩ := h
  refine ⟨t, recs, passed ++ passed', record, verifyData, dir, hfed, ?_, hrest⟩
  rw [hrx, hrecord]
  simp only [append_assoc]

/-- A round leaves an engine in the handshake behind its talk, and one in APP behind a Finished. -/
lemma Progress.advance (h : w.Progress) (hstate : w.eng.state = .handshake)
    (hadvance : Advance (S := serverSuite cfg) env w.eng eng) :
    (eng.state = .handshake → Progress { w with eng := eng }) ∧
      (eng.state = .app → Confirmed w.fed w.sent w.eng.rx eng) ∧ ∃ passed, w.eng.rx = passed ++ eng.rx := by
  have hnot : ∀ {e : Engine (serverSuite cfg)}, e.state = w.eng.state → e.state = .app →
      Confirmed w.fed w.sent w.eng.rx e := fun hsame happ => nomatch (hsame.trans hstate).symm.trans happ
  have hbehind : ∃ passed, w.eng.rx = passed ++ behindRecord w.eng.rx :=
    ⟨_, (headRecord_append_behindRecord w.eng.rx).symm⟩
  cases h with
  | waits hphase hfed hsent hdelivered =>
    cases hadvance with
    | hello hphase hrecord hhello =>
      obtain ⟨g, hmsg, hsel, rfl⟩ := clientHello_eq_some hhello
      rw [← hmsg] at hsel
      obtain ⟨t, ht⟩ := Follows.hello hfed hsent hdelivered hrecord hmsg hsel
      exact ⟨fun _ => .follows ht, hnot rfl, hbehind⟩
    | flight hanswers => cases hphase.symm.trans hanswers
    | changeCipherSpec hanswered => cases hphase.symm.trans hanswered
    | early hanswered => cases hphase.symm.trans hanswered
    | endOfEarlyData hanswered => cases hphase.symm.trans hanswered
    | finished hanswered => cases hphase.symm.trans hanswered
  | follows h =>
    cases hadvance with
    | hello hphase => exact absurd hphase h.waiting
    | flight hphase hflight hseal =>
      have hsame := (OnlySeals.sealHandshakeMsgs hseal).state
      have hrx := (Emits.sealHandshakeMsgs hseal).rx
      exact ⟨fun _ => .follows (h.flight hphase hflight hseal), hnot hsame, [], hrx.symm⟩
    | changeCipherSpec hphase => exact ⟨fun _ => .follows h.changeCipherSpec, hnot rfl, hbehind⟩
    | early hphase hactive hopen hmax =>
      exact ⟨fun _ => .follows (h.earlyData hphase hactive hopen), hnot rfl, hbehind⟩
    | endOfEarlyData hphase hactive hopen =>
      exact ⟨fun _ => .follows (h.endOfEarlyData hphase hactive), hnot rfl, hbehind⟩
    | finished hphase hpassive hrecord hopen hlen hhead hfinished =>
      exact ⟨nofun, fun _ => h.finished hpassive hopen hlen hhead hfinished, hbehind⟩

lemma Progress.spin (h : w.Progress) (hstate : w.eng.state = .handshake)
    (hspin : (handshakeSpin (S := serverSuite cfg) env 8 w.eng).1 = some eng) :
    (eng.state = .handshake → Progress { w with eng := eng }) ∧
      (eng.state = .app → Confirmed w.fed w.sent w.eng.rx eng) := by
  have hloop := handshakeSpin_invariant (P := fun e => (e.state = .handshake → Progress { w with eng := e }) ∧
      (e.state = .app → Confirmed w.fed w.sent w.eng.rx e) ∧ ∃ passed, w.eng.rx = passed ++ e.rx) ?_ 8 hstate
    ⟨fun _ => h, fun happ => absurd happ (by rw [hstate]; exact nofun), [], rfl⟩ hspin
  · exact ⟨hloop.1.1, hloop.1.2.1⟩
  · rintro e e' he ⟨hprogress, -, passed, hpassed⟩ hadvance
    obtain ⟨hkeeps, hconfirmed, passed', hpassed'⟩ := (hprogress he).advance he hadvance
    refine ⟨hkeeps, fun happ => (hconfirmed happ).of_suffix hpassed, passed ++ passed', ?_⟩
    rw [hpassed, append_assoc]
    exact congrArg (passed ++ ·) hpassed'

/-! ### Calls -/

/-- What a port does outside APP. -/
inductive Moves (w : World cfg) : World cfg → Prop
  | idle : Moves w w
  | rx (bytes : Bytes) :
      Moves w { w with eng := { w.eng with rx := w.eng.rx ++ bytes }, fed := w.fed ++ bytes }
  | tx (n : ℕ) :
      Moves w { w with eng := { w.eng with tx := w.eng.tx.drop n }, sent := w.sent ++ w.eng.tx.take n }
  | appIn (n : ℕ) :
      Moves w { w with eng := { w.eng with appIn := w.eng.appIn.drop n }, drained := w.drained ++ w.eng.appIn.take n }

lemma step_moves (happ : w.eng.state ≠ .app) (p : Port) : Moves w (w.step (.port p)) := by
  have hentered : (w.entered || decide (w.eng.Finishes (.port p))) = w.entered := Bool.or_false _
  unfold step
  rw [hentered]
  cases p with
  | rxAck bytes =>
    dsimp only [serverCall, port, rxAck]
    split_ifs
    · exact .idle
    · exact .rx bytes
  | txAck n =>
    dsimp only [serverCall, port, txAck]
    split_ifs
    · exact .idle
    · exact .tx n
  | appInAck n =>
    dsimp only [serverCall, port, appInAck]
    split_ifs
    · exact .idle
    · exact .appIn n
  | appOutPush _ | appSealIov _ | emitSessionTicket _ =>
    simp only [serverCall, port, appOutPush, appSealIov, emitSessionTicket.eq_def, ne_eq, happ]
    exact .idle

variable {w' : World cfg}

/-- Bytes come in at the end; what has come out with what is left in the other two buffers stays the same. -/
lemma Moves.spec (h : Moves w w') : ∃ bytes rx tx appIn fed sent drained,
    w' = { w with eng := { w.eng with rx := rx, tx := tx, appIn := appIn }, fed, sent, drained } ∧
      rx = w.eng.rx ++ bytes ∧ fed = w.fed ++ bytes ∧ sent ++ tx = w.sent ++ w.eng.tx ∧ drained ++ appIn = w.delivered := by
  have hnil (l : Bytes) : l = l ++ [] := (append_nil l).symm
  have htake (l m : Bytes) (n : ℕ) : l ++ m.take n ++ m.drop n = l ++ m := by
    rw [append_assoc, take_append_drop]
  cases h with
  | idle => exact ⟨[], _, _, _, _, _, _, rfl, hnil _, hnil _, rfl, rfl⟩
  | rx bytes => exact ⟨bytes, _, _, _, _, _, _, rfl, rfl, rfl, rfl, rfl⟩
  | tx n => exact ⟨[], _, _, _, _, _, _, rfl, hnil _, hnil _, htake _ _ n, rfl⟩
  | appIn n => exact ⟨[], _, _, _, _, _, _, rfl, hnil _, hnil _, rfl, htake _ _ n⟩

lemma Progress.moves (h : w.Progress) (hmoves : Moves w w') : w'.Progress := by
  obtain ⟨bytes, rx, tx, appIn, fed, sent, drained, rfl, rfl, rfl, hsent', hdelivered'⟩ := hmoves.spec
  cases h with
  | waits hphase hfed hsent hdelivered =>
    exact .waits hphase (congrArg (· ++ bytes) hfed) (hsent'.trans hsent) (hdelivered'.trans hdelivered)
  | follows h =>
    refine .follows { h with fed := ?_, sent := hsent'.trans h.sent, delivered := hdelivered'.trans h.delivered }
    rw [h.fed, append_assoc _ w.eng.rx]

/-- More bytes in RX and fewer of those delivered. -/
lemma EarlyOnly.of_prefix (h : w.EarlyOnly) (hfed : w.fed <+: w'.fed) (hdelivered : w'.delivered <+: w.delivered) :
    w'.EarlyOnly := by
  rcases h with hnil | ⟨t, secret, recs, plains, dir, rest, hrest, hsecret, hearly, hplains⟩
  · left
    rw [hnil] at hdelivered
    exact prefix_nil.1 hdelivered
  · obtain ⟨more, hmore⟩ := hfed
    refine .inr ⟨t, secret, recs, plains, dir, rest ++ more, ?_, hsecret, hearly, hdelivered.trans hplains⟩
    rw [← hmore, hrest, append_assoc _ rest]

lemma EarlyOnly.moves (h : w.EarlyOnly) (hmoves : Moves w w') : w'.EarlyOnly := by
  obtain ⟨bytes, rx, tx, appIn, fed, sent, drained, rfl, -, rfl, -, hdelivered⟩ := hmoves.spec
  exact h.of_prefix (prefix_append _ _) (hdelivered ▸ prefix_rfl)

structure Inv (w : World cfg) : Prop where
  handshake : w.eng.state = .handshake → w.entered = false ∧ w.Progress
  early : w.entered = false → w.EarlyOnly
  entered : w.eng.state = .app ∨ w.eng.state = .closed → w.entered = true

lemma inv_init : (init : World cfg).Inv where
  handshake _ := ⟨rfl, .waits rfl rfl rfl rfl⟩
  early _ := .inl rfl
  entered h := by
    rcases h with h | h <;> cases h

/-- Nothing is left to show about an engine that has entered APP. -/
lemma Inv.of_entered (hstate : w.eng.state ≠ .handshake) (hentered : w.entered = true) : w.Inv where
  handshake h := absurd h hstate
  early h := absurd (h.symm.trans hentered) nofun
  entered _ := hentered

lemma Inv.port (h : w.Inv) (p : Port) : (w.step (.port p)).Inv := by
  have hentered : (w.step (.port p)).entered = w.entered := Bool.or_false _
  have hstate : (w.step (.port p)).eng.state = w.eng.state := by
    obtain ⟨rx, tx, appIn, appOut, write, recordsOut, heq, -⟩ := w.eng.port_eq p
    change (w.eng.port p).state = w.eng.state
    rw [heq]
  by_cases happ : w.eng.state = .app
  · refine .of_entered ?_ (hentered.trans (h.entered (.inl happ)))
    rw [hstate, happ]
    exact nofun
  · have hmoves := step_moves happ p
    refine ⟨fun hhandshake => ?_, fun hnot => ?_, fun hlater => ?_⟩
    · obtain ⟨hnot, hprogress⟩ := h.handshake (hstate.symm.trans hhandshake)
      exact ⟨hentered.trans hnot, hprogress.moves hmoves⟩
    · exact (h.early (hentered.symm.trans hnot)).moves hmoves
    · rw [hstate] at hlater
      exact hentered.trans (h.entered hlater)

lemma Inv.settings (h : w.Inv) (attached : Bool) (nowMs : ℕ) :
    Inv { w with eng := (w.eng.attachResumption attached).setClock nowMs } := by
  refine ⟨fun hstate => ?_, h.early, h.entered⟩
  obtain ⟨hnot, hprogress⟩ := h.handshake hstate
  refine ⟨hnot, ?_⟩
  cases hprogress with
  | waits hphase hfed hsent hdelivered => exact .waits hphase hfed hsent hdelivered
  | follows h => exact .follows { h with }

lemma Inv.steps (h : w.Inv) (env : ServerEnv) : (w.step (.step env)).Inv := by
  have hend := step_end (S := serverSuite cfg) env w.eng
  have hentered : w.entered = true → (w.entered || decide (w.eng.Finishes (.step env))) = true := by
    intro hentered
    rw [hentered, Bool.true_or]
  have hnot : ¬ w.eng.Finishes (.step env) → (w.entered || decide (w.eng.Finishes (.step env))) = w.entered := by
    intro hnot
    rw [decide_eq_false hnot, Bool.or_false]
  unfold step
  dsimp only [serverCall]
  generalize hend' : (w.eng.step env).2 = eng' at hend
  cases hend with
  | failed hstate =>
    rw [hnot fun hf => nomatch hstate.symm.trans hf.1]
    exact h
  | fails hstate =>
    refine ⟨nofun, fun hentered => ?_, fun hlater => ?_⟩
    · -- what was delivered before the failure
      have hearly := (h.handshake hstate).2.earlyOnly
      refine hearly.of_prefix prefix_rfl ?_
      rw [World.delivered, World.delivered]
      exact prefix_append_right_inj _ |>.2 List.nil_prefix
    · rcases hlater with hlater | hlater <;> cases hlater
  | waits hstate hspin hwaits =>
    obtain ⟨hfalse, hprogress⟩ := h.handshake hstate
    have hkeeps := (hprogress.spin hstate hspin).1 hwaits
    rw [hnot (step_waits (hend' ▸ hwaits)).2.2]
    refine ⟨fun _ => ⟨hfalse, hkeeps⟩, fun _ => hkeeps.earlyOnly, fun hlater => ?_⟩
    rcases hlater with hlater | hlater <;> cases hwaits.symm.trans hlater
  | enters hstate hspin happ =>
    have hfinishes : w.eng.Finishes (.step env) := ⟨hstate, by rw [hspin, Option.map_some, happ]⟩
    refine .of_entered ?_ (by rw [decide_eq_true hfinishes, Bool.or_true])
    exact ne_handshake_of_drained (drain_drained _) (by rw [happ]; exact nofun)
  | drains hstate =>
    refine .of_entered ?_ (hentered (h.entered hstate))
    exact ne_handshake_of_drained (drain_drained _) (ne_handshake_of_ended hstate)

lemma Inv.step (h : w.Inv) {c : ServerCall} (hallowed : Allowed c) : (w.step c).Inv := by
  cases c with
  | port p => exact h.port p
  | attachResumption attached =>
    have hset := h.settings attached (w.eng.ctx : ServerCtx).nowMs
    rwa [← Bool.or_false w.entered] at hset
  | setClock nowMs =>
    have hset := h.settings (w.eng.ctx : ServerCtx).ticketStore nowMs
    rwa [← Bool.or_false w.entered] at hset
  | installAppKeys read write => exact hallowed.elim
  | close => exact hallowed.elim
  | step env => exact h.steps env

/-- In every history without keys from outside, the engine enters APP only in a step that takes a Finished over
the messages of the handshake; before that only early data is delivered. -/
theorem confirmed_of_allowed {calls : List ServerCall} (h : ∀ c ∈ calls, Allowed c) :
    let w := calls.foldl step (init : World cfg)
    (∀ env, w.eng.Finishes (.step env) → Confirmed w.fed w.sent w.eng.rx (w.eng.appStart env)) ∧
      (w.eng.state = .app → w.entered = true) ∧ (w.entered = false → w.EarlyOnly) := by
  intro w
  have hinv : w.Inv := foldlRecOn (motive := Inv) calls step inv_init fun _ hinv c hc => hinv.step (h c hc)
  refine ⟨fun env hfinishes => ?_, fun happ => hinv.entered (.inl happ), hinv.early⟩
  obtain ⟨eng₁, hspin, happ⟩ := hfinishes.spin
  have hstart := appStart_of_spin hfinishes.1 hspin
  rw [hstart]
  exact ((hinv.handshake hfinishes.1).2.spin hfinishes.1 hspin).2 happ

def greeting : List ServerCall := [.port (.rxAck (clientHelloRecord none false)), .step plainEnv]

def greeted : World plainConfig := greeting.foldl step init

lemma finishes_of_awaits {w : World cfg} (h : w.eng.Awaits) (env : ServerEnv) :
    (w.step (.port (.rxAck w.eng.finishedRecord))).eng.Finishes (.step env) := (h.answered env).finishes

lemma greeted_awaits : greeted.eng.Awaits := by decide +kernel

/-- A whole handshake: the step that takes the Finished enters APP. -/
theorem confirmed_of_allowed_handshake :
    let w := (greeting ++ [ServerCall.port (.rxAck greeted.eng.finishedRecord)]).foldl step (init : World plainConfig)
    w.eng.Finishes (.step plainEnv) ∧ Confirmed w.fed w.sent w.eng.rx (w.eng.appStart plainEnv) := by
  have hallowed : ∀ c ∈ greeting ++ [ServerCall.port (.rxAck greeted.eng.finishedRecord)], Allowed c := by
    simp [greeting, Allowed]
  have hconfirmed := @confirmed_of_allowed plainConfig _ hallowed
  have hfinishes := finishes_of_awaits greeted_awaits plainEnv
  exact ⟨hfinishes, hconfirmed.1 plainEnv hfinishes⟩

end World

end Tls.Verified
