import Picoweb.Lib.BoundedReader

/-!
# The ClientHello parser

`tls13_parse_client_hello` walks a handshake message and records what the server decides on, among it
where the offered pre-shared keys and their binders lie. The parser reads only inside the message, and
what it records of the pre-shared keys is the layout of the last extension.
-/

namespace Tls

open ByteFile Bounded List

structure PskIdentity where
  off : ℕ
  len : ℕ
  obfuscatedAge : ℕ
  deriving DecidableEq, Repr

structure PskBinder where
  off : ℕ
  len : ℕ
  deriving DecidableEq, Repr

structure ClientHello where
  random : Bytes := []
  offersChachaPoly : Bool := false
  offersTls13 : Bool := false
  offersX25519 : Bool := false
  ecdhePubkey : Bytes := replicate 32 0
  offersEd25519 : Bool := false
  offersRsaPssRsaeSha256 : Bool := false
  offersEcdsaSecp256r1Sha256 : Bool := false
  legacySessionId : Bytes := []
  sni : Bytes := []
  pskPresent : Bool := false
  pskDheKeOffered : Bool := false
  offersEarlyData : Bool := false
  pskOfferCount : ℕ := 0
  pskPartialChOff : ℕ := 0
  pskIds : List PskIdentity := []
  pskBinders : List PskBinder := []
  deriving DecidableEq, Repr

abbrev pskMaxOffers : ℕ := 4
abbrev maxSniLen : ℕ := 253

namespace ClientHello

/-! ### The pre_shared_key extension -/

def identities (msg : Bytes) : ℕ → Cursor → Parse (List PskIdentity)
  | 0, _ => .error .stuck
  | fuel + 1, c =>
    if c.rem = 0 then pure []
    else do
      let (len, c) ← u16 msg c
      if len < 1 ∨ c.rem < len then reject
      else if c.pos > msg.length then reject
      else do
        let next ← skip c len
        let (hi, next) ← u16 msg next
        let (lo, next) ← u16 msg next
        let ids ← identities msg fuel next
        pure (⟨c.pos, len, hi * 65536 + lo⟩ :: ids)

def binders (msg : Bytes) : ℕ → Cursor → Parse (List PskBinder)
  | 0, _ => .error .stuck
  | fuel + 1, c =>
    if c.rem = 0 then pure []
    else do
      let (len, c) ← u8 msg c
      if len < 32 ∨ c.rem < len then reject
      else if c.pos > msg.length then reject
      else do
        let next ← skip c len
        let bs ← binders msg fuel next
        pure (⟨c.pos, len⟩ :: bs)

def parsePskExtension (msg : Bytes) (c : Cursor) (out : ClientHello) : Parse ClientHello := do
  let (idsTotal, c) ← u16 msg c
  if idsTotal < 7 ∨ c.rem < idsTotal then reject
  else do
    let ids ← identities msg (idsTotal + 1) ⟨c.pos, idsTotal⟩
    if ids = [] then reject
    else do
      let cut ← skip c idsTotal
      let (bsTotal, c) ← u16 msg cut
      if bsTotal < 33 ∨ c.rem < bsTotal then reject
      else if c.rem ≠ bsTotal then reject
      else do
        let bs ← binders msg (bsTotal + 1) ⟨c.pos, bsTotal⟩
        if bs.length ≠ ids.length then reject
        else
          pure { out with
            pskPresent := true
            pskOfferCount := ids.length
            pskPartialChOff := cut.pos
            pskIds := ids.take pskMaxOffers
            pskBinders := bs.take pskMaxOffers }

/-! ### The other extensions -/

def asciiLower (b : UInt8) : UInt8 := if 65 ≤ b ∧ b ≤ 90 then b + 32 else b

def serverNames (msg : Bytes) : ℕ → Cursor → ClientHello → Parse ClientHello
  | 0, _, _ => .error .stuck
  | fuel + 1, c, out =>
    if c.rem = 0 then pure out
    else do
      let (type, c) ← u8 msg c
      let (len, c) ← u16 msg c
      if c.rem < len then reject
      else if type = 0 ∧ len > maxSniLen then reject
      else do
        let name ← fetches msg c.pos len
        let c ← skip c len
        serverNames msg fuel c (if type = 0 then { out with sni := name.map asciiLower } else out)

def keyShares (msg : Bytes) : ℕ → Cursor → ClientHello → Parse ClientHello
  | 0, _, _ => .error .stuck
  | fuel + 1, c, out =>
    if c.rem < 4 then pure out
    else do
      let (group, c) ← u16 msg c
      let (len, c) ← u16 msg c
      if c.rem < len then reject
      else do
        let share ← fetches msg c.pos len
        let c ← skip c len
        keyShares msg fuel c
          (if group = 0x001d ∧ len = 32 then { out with ecdhePubkey := share, offersX25519 := true } else out)

/-- The body of an extension that is a list of two-byte numbers behind its length. -/
def u16List (msg : Bytes) (c : Cursor) : Parse (List ℕ × Cursor) := do
  let (len, c) ← u16 msg c
  if c.rem < len then reject else u16s msg (len + 1) ⟨c.pos, len⟩

def parseServerName (msg : Bytes) (c : Cursor) (out : ClientHello) : Parse ClientHello := do
  let (len, c) ← u16 msg c
  if c.rem < len then reject else serverNames msg (len + 1) ⟨c.pos, len⟩ out

def parseKeyShare (msg : Bytes) (c : Cursor) (out : ClientHello) : Parse ClientHello := do
  let (len, c) ← u16 msg c
  if c.rem < len then reject else keyShares msg (len + 1) ⟨c.pos, len⟩ out

def parseSupportedVersions (msg : Bytes) (c : Cursor) (out : ClientHello) : Parse ClientHello := do
  let (len, c) ← u8 msg c
  if c.rem < len then reject
  else do
    let (versions, _) ← u16s msg (len + 1) ⟨c.pos, len⟩
    pure { out with offersTls13 := out.offersTls13 || versions.contains 0x0304 }

/-- Both lists of signature algorithms: the length has to be even, and nothing may be left over. -/
def parseSignatureAlgorithms (msg : Bytes) (c : Cursor) (out : ClientHello) : Parse ClientHello := do
  let (len, c) ← u16 msg c
  if len % 2 = 1 then reject
  else if c.rem < len then reject
  else do
    let (algs, left) ← u16s msg (len + 1) ⟨c.pos, len⟩
    if left.rem ≠ 0 then reject
    else
      pure { out with
        offersEd25519 := out.offersEd25519 || algs.contains 0x0807
        offersRsaPssRsaeSha256 := out.offersRsaPssRsaeSha256 || algs.contains 0x0804
        offersEcdsaSecp256r1Sha256 := out.offersEcdsaSecp256r1Sha256 || algs.contains 0x0403 }

def parsePskModes (msg : Bytes) (c : Cursor) (out : ClientHello) : Parse ClientHello := do
  let (len, c) ← u8 msg c
  if len < 1 ∨ c.rem < len then reject
  else do
    let modes ← fetches msg c.pos len
    pure { out with pskDheKeOffered := out.pskDheKeOffered || modes.contains 1 }

/-- One extension; `rem` is what follows it in the message. -/
def parseExtension (msg : Bytes) (type : ℕ) (c : Cursor) (rem : ℕ) (out : ClientHello) : Parse ClientHello :=
  match type with
  | 0x0000 => parseServerName msg c out
  | 0x000a => do
    let _ ← u16List msg c
    pure out
  | 0x0033 => parseKeyShare msg c out
  | 0x002b => parseSupportedVersions msg c out
  | 0x000d => parseSignatureAlgorithms msg c out
  | 0x0032 => parseSignatureAlgorithms msg c out
  | 0x002a => if c.rem ≠ 0 then reject else pure { out with offersEarlyData := true }
  | 0x002d => parsePskModes msg c out
  | 0x0029 => if rem ≠ 0 then reject else parsePskExtension msg c out
  | _ => pure out

def parseExtensions (msg : Bytes) : ℕ → Cursor → ClientHello → Parse ClientHello
  | 0, _, _ => .error .stuck
  | fuel + 1, c, out =>
    if c.rem = 0 then pure out
    else do
      let (type, c) ← u16 msg c
      let (size, c) ← u16 msg c
      if c.rem < size then reject
      else do
        let next ← skip c size
        let out ← parseExtension msg type ⟨c.pos, size⟩ next.rem out
        parseExtensions msg fuel next out

/-! ### The message -/

/-- `tls13_parse_client_hello`. -/
def parse (msg : Bytes) : Parse ClientHello := do
  let (type, c) ← u8 msg ⟨0, msg.length⟩
  if type ≠ 1 then reject
  else do
    let (len, c) ← u24 msg c
    if len ≠ c.rem then reject
    else do
      let (version, c) ← u16 msg c
      if version ≠ 0x0303 then reject
      else do
        let (random, c) ← copy msg c 32
        let (sidLen, c) ← u8 msg c
        if sidLen > 32 then reject
        else do
          let (sid, c) ← copy msg c sidLen
          let (csLen, c) ← u16 msg c
          if csLen % 2 = 1 ∨ csLen > c.rem then reject
          else do
            let (suites, _) ← u16s msg (csLen + 1) ⟨c.pos, csLen⟩
            let c ← skip c csLen
            let (cmLen, c) ← u8 msg c
            if cmLen < 1 ∨ c.rem < cmLen then reject
            else do
              let methods ← fetches msg c.pos cmLen
              if ¬ methods.contains 0 then reject
              else do
                let c ← skip c cmLen
                let (extTotal, c) ← u16 msg c
                if extTotal ≠ c.rem then reject
                else
                  parseExtensions msg (extTotal + 1) c
                    { random := random, legacySessionId := sid,
                      offersChachaPoly := suites.contains 0x1303 }

/-! ### Where the pre-shared keys lie -/

/-- From one position to another lie these identities, each behind its length and before its age. -/
inductive Identities (msg : Bytes) : ℕ → ℕ → List PskIdentity → Prop
  | nil (pos : ℕ) : Identities msg pos pos []
  | cons {pos stop : ℕ} {id : PskIdentity} {ids : List PskIdentity} (hlen : U16At msg pos id.len)
      (hoff : id.off = pos + 2) (hrest : Identities msg (id.off + id.len + 4) stop ids) :
      Identities msg pos stop (id :: ids)

/-- From one position to another lie these binders, each behind its length. -/
inductive Binders (msg : Bytes) : ℕ → ℕ → List PskBinder → Prop
  | nil (pos : ℕ) : Binders msg pos pos []
  | cons {pos stop : ℕ} {b : PskBinder} {bs : List PskBinder} (hlen : U8At msg pos b.len)
      (hoff : b.off = pos + 1) (hrest : Binders msg (b.off + b.len) stop bs) :
      Binders msg pos stop (b :: bs)

section Layout

variable {msg : Bytes} {pos stop : ℕ} {ids : List PskIdentity} {bs : List PskBinder}

lemma Identities.le (h : Identities msg pos stop ids) : pos ≤ stop := by
  induction h with
  | nil => exact le_rfl
  | cons _ hoff _ ih => omega

lemma Identities.mem (h : Identities msg pos stop ids) {id : PskIdentity} (hid : id ∈ ids) : id.off + id.len ≤ stop := by
  induction h with
  | nil => cases hid
  | cons _ _ hrest ih =>
    rcases mem_cons.1 hid with rfl | hid
    · have := hrest.le
      omega
    · exact ih hid

lemma Binders.le (h : Binders msg pos stop bs) : pos ≤ stop := by
  induction h with
  | nil => exact le_rfl
  | cons _ hoff _ ih => omega

lemma Binders.mem (h : Binders msg pos stop bs) {b : PskBinder} (hb : b ∈ bs) : pos < b.off ∧ b.off + b.len ≤ stop := by
  induction h with
  | nil => cases hb
  | cons _ hoff hrest ih =>
    rcases mem_cons.1 hb with rfl | hb
    · have := hrest.le
      omega
    · have := ih hb
      omega

end Layout

/-- The last extension is the offer: the identities up to the cut, then the length of the binders and
the binders, one for each identity, to the end of the message. The first four of both are recorded. -/
def Offer (msg : Bytes) (ch : ClientHello) : Prop :=
  ∃ start ids bs, Identities msg start ch.pskPartialChOff ids ∧ Binders msg (ch.pskPartialChOff + 2) msg.length bs ∧
    ids.length = bs.length ∧ ch.pskOfferCount = ids.length ∧
    ch.pskIds = ids.take pskMaxOffers ∧ ch.pskBinders = bs.take pskMaxOffers

/-- What is recorded of the pre-shared keys lies inside the message and belongs together. -/
structure Inside (msg : Bytes) (ch : ClientHello) : Prop where
  cut : ch.pskPartialChOff ≤ msg.length
  pairs : ch.pskIds.length = ch.pskBinders.length
  ids : ∀ id ∈ ch.pskIds, id.off + id.len ≤ ch.pskPartialChOff
  binders : ∀ b ∈ ch.pskBinders, ch.pskPartialChOff < b.off ∧ b.off + b.len ≤ msg.length
  offer : ch.pskPresent = true → Offer msg ch
  absent : ch.pskPresent = false → ch.pskIds = [] ∧ ch.pskBinders = []

structure NoPsk (ch : ClientHello) : Prop where
  present : ch.pskPresent = false
  cut : ch.pskPartialChOff = 0
  ids : ch.pskIds = []
  binders : ch.pskBinders = []

lemma NoPsk.inside {ch : ClientHello} (h : NoPsk ch) (msg : Bytes) : Inside msg ch where
  cut := by
    rw [h.cut]
    exact Nat.zero_le _
  pairs := by rw [h.ids, h.binders, length_nil, length_nil]
  ids := by
    rw [h.ids]
    nofun
  binders := by
    rw [h.binders]
    nofun
  offer hpresent := by
    rw [h.present] at hpresent
    cases hpresent
  absent _ := ⟨h.ids, h.binders⟩

lemma Offer.inside {msg : Bytes} {ch : ClientHello} (h : Offer msg ch) (hpresent : ch.pskPresent = true) :
    Inside msg ch := by
  obtain ⟨start, ids, bs, hids, hbs, hlen, hcount, hrecIds, hrecBs⟩ := id h
  refine ⟨?_, ?_, ?_, ?_, fun _ => h, fun habsent => ?_⟩
  · have := hbs.le
    omega
  · rw [hrecIds, hrecBs, length_take, length_take, hlen]
  · intro id hid
    rw [hrecIds] at hid
    exact hids.mem (mem_of_mem_take hid)
  · intro b hb
    rw [hrecBs] at hb
    have := hbs.mem (mem_of_mem_take hb)
    omega
  · rw [hpresent] at habsent
    cases habsent

/-! ### The extension -/

section Extensions

variable {msg : Bytes} {c : Cursor} {fuel : ℕ}

lemma identities_ensures (h : c.Within msg) (hfuel : c.rem < fuel) :
    Ensures (identities msg fuel c) (Identities msg c.pos c.stop) := by
  induction fuel generalizing c with
  | zero => omega
  | succ fuel ih =>
    refine .ite (fun hrem => ?_) fun hrem => ?_
    · rw [Cursor.stop, hrem]
      exact .nil _
    refine .u16 h fun len c₁ hlen p₁ r₁ h₁ => ?_
    refine .check fun hfit => .check fun _ => ?_
    refine .skip h₁ fun c₂ p₂ r₂ h₂ => ?_
    refine .u16 h₂ fun hi c₃ _ p₃ r₃ h₃ => ?_
    refine .u16 h₃ fun lo c₄ _ p₄ r₄ h₄ => ?_
    refine .bind (ih h₄ (by omega)) fun ids hids => ?_
    have hpos : c₄.pos = c₁.pos + len + 4 := by omega
    have hstop : c₄.stop = c.stop := by
      rw [Cursor.stop, Cursor.stop]
      omega
    rw [hstop, hpos] at hids
    exact .cons hlen p₁ hids

lemma binders_ensures (h : c.Within msg) (hfuel : c.rem < fuel) :
    Ensures (binders msg fuel c) (Binders msg c.pos c.stop) := by
  induction fuel generalizing c with
  | zero => omega
  | succ fuel ih =>
    refine .ite (fun hrem => ?_) fun hrem => ?_
    · rw [Cursor.stop, hrem]
      exact .nil _
    refine .u8 h fun len c₁ hlen p₁ r₁ h₁ => ?_
    refine .check fun hfit => .check fun _ => ?_
    refine .skip h₁ fun c₂ p₂ r₂ h₂ => ?_
    refine .bind (ih h₂ (by omega)) fun bs hbs => ?_
    have hstop : c₂.stop = c.stop := by
      rw [Cursor.stop, Cursor.stop]
      omega
    rw [hstop, p₂] at hbs
    exact .cons hlen p₁ hbs

/-- The offer of a last extension. -/
lemma parsePskExtension_ensures (h : c.stop = msg.length) (out : ClientHello) :
    Ensures (parsePskExtension msg c out) (Inside msg) := by
  have hin : c.Within msg := le_of_eq h
  refine .u16 hin fun idsTotal c₁ _ p₁ r₁ h₁ => ?_
  refine .check fun hfit => ?_
  refine .bind (identities_ensures (h₁.sub (by omega)) (Nat.lt_succ_self _)) fun ids hids => ?_
  refine .check fun _ => ?_
  refine .skip h₁ fun c₂ p₂ r₂ h₂ => ?_
  refine .u16 h₂ fun bsTotal c₃ _ p₃ r₃ h₃ => ?_
  refine .check fun hfit' => .check fun hexact => ?_
  refine .bind (binders_ensures (h₃.sub (by omega)) (Nat.lt_succ_self _)) fun bs hbs => ?_
  refine .check fun hcount => ?_
  have hend : c₃.pos + bsTotal = msg.length := by
    rw [Cursor.stop] at h
    omega
  have hcut : Identities msg c₁.pos c₂.pos ids := p₂ ▸ hids
  refine @Offer.inside msg _ ⟨_, ids, bs, hcut, ?_, by omega, rfl, rfl, rfl⟩ rfl
  rw [← hend]
  exact p₃ ▸ hbs

variable {out : ClientHello}

lemma serverNames_ensures (h : c.Within msg) (hfuel : c.rem < fuel)
    (hout : NoPsk out) : Ensures (serverNames msg fuel c out) NoPsk := by
  induction fuel generalizing c out with
  | zero => omega
  | succ fuel ih =>
    refine .ite (fun _ => hout) fun hrem => ?_
    refine .u8 h fun type c₁ _ _ r₁ h₁ => ?_
    refine .u16 h₁ fun len c₂ _ _ r₂ h₂ => ?_
    refine .check fun hfit => .check fun _ => ?_
    refine .fetches (h₂.sub (Nat.not_lt.1 hfit)) fun name _ => ?_
    refine .skip h₂ fun c₃ _ r₃ h₃ => ih h₃ (by omega) ?_
    split
    · exact { hout with }
    · exact hout

lemma keyShares_ensures (h : c.Within msg) (hfuel : c.rem < fuel)
    (hout : NoPsk out) : Ensures (keyShares msg fuel c out) NoPsk := by
  induction fuel generalizing c out with
  | zero => omega
  | succ fuel ih =>
    refine .ite (fun _ => hout) fun hrem => ?_
    refine .u16 h fun group c₁ _ _ r₁ h₁ => ?_
    refine .u16 h₁ fun len c₂ _ _ r₂ h₂ => ?_
    refine .check fun hfit => ?_
    refine .fetches (h₂.sub (Nat.not_lt.1 hfit)) fun share _ => ?_
    refine .skip h₂ fun c₃ _ r₃ h₃ => ih h₃ (by omega) ?_
    split
    · exact { hout with }
    · exact hout

lemma u16List_ensures (h : c.Within msg) : Ensures (u16List msg c) fun _ => True := by
  refine .u16 h fun len c₁ _ _ _ h₁ => ?_
  refine .check fun hfit => ?_
  have hin := h₁.sub (Nat.not_lt.1 hfit)
  exact (u16s_ensures hin (Nat.lt_succ_self _)).mono fun _ _ => trivial

lemma parseServerName_ensures (h : c.Within msg) (hout : NoPsk out) : Ensures (parseServerName msg c out) NoPsk := by
  refine .u16 h fun len c₁ _ _ _ h₁ => ?_
  refine .check fun hfit => ?_
  exact serverNames_ensures (h₁.sub (Nat.not_lt.1 hfit)) (Nat.lt_succ_self _) hout

lemma parseKeyShare_ensures (h : c.Within msg) (hout : NoPsk out) : Ensures (parseKeyShare msg c out) NoPsk := by
  refine .u16 h fun len c₁ _ _ _ h₁ => ?_
  refine .check fun hfit => ?_
  exact keyShares_ensures (h₁.sub (Nat.not_lt.1 hfit)) (Nat.lt_succ_self _) hout

lemma parseSupportedVersions_ensures (h : c.Within msg) (hout : NoPsk out) :
    Ensures (parseSupportedVersions msg c out) NoPsk := by
  refine .u8 h fun len c₁ _ _ _ h₁ => ?_
  refine .check fun hfit => ?_
  have hin := h₁.sub (Nat.not_lt.1 hfit)
  refine .bind (u16s_ensures hin (Nat.lt_succ_self _)) fun _ _ => ?_
  exact { hout with }

lemma parseSignatureAlgorithms_ensures (h : c.Within msg) (hout : NoPsk out) :
    Ensures (parseSignatureAlgorithms msg c out) NoPsk := by
  refine .u16 h fun len c₁ _ _ _ h₁ => ?_
  refine .check fun _ => .check fun hfit => ?_
  have hin := h₁.sub (Nat.not_lt.1 hfit)
  refine .bind (u16s_ensures hin (Nat.lt_succ_self _)) fun _ _ => ?_
  refine .check fun _ => ?_
  exact { hout with }

lemma parsePskModes_ensures (h : c.Within msg) (hout : NoPsk out) : Ensures (parsePskModes msg c out) NoPsk := by
  refine .u8 h fun len c₁ _ _ _ h₁ => ?_
  refine .check fun hfit => ?_
  have hin := h₁.sub (Nat.not_lt.1 fun hlt => hfit (.inr hlt))
  refine .fetches hin fun _ _ => ?_
  exact { hout with }

/-- Only a last extension offers a pre-shared key. -/
lemma parseExtension_ensures (h : c.Within msg) {rem : ℕ} (hlast : rem = 0 → c.stop = msg.length)
    (type : ℕ) (hout : NoPsk out) :
    Ensures (parseExtension msg type c rem out) fun ch => NoPsk ch ∨ rem = 0 ∧ Inside msg ch := by
  unfold parseExtension
  split
  · exact (parseServerName_ensures h hout).mono fun _ => .inl
  · exact .bind (u16List_ensures h) fun _ _ => .inl hout
  · exact (parseKeyShare_ensures h hout).mono fun _ => .inl
  · exact (parseSupportedVersions_ensures h hout).mono fun _ => .inl
  · exact (parseSignatureAlgorithms_ensures h hout).mono fun _ => .inl
  · exact (parseSignatureAlgorithms_ensures h hout).mono fun _ => .inl
  · exact .check fun _ => .inl { hout with }
  · exact (parsePskModes_ensures h hout).mono fun _ => .inl
  · refine .check fun hrem => ?_
    have hend : rem = 0 := not_not.1 hrem
    exact (parsePskExtension_ensures (hlast hend) out).mono fun _ hin => .inr ⟨hend, hin⟩
  · exact .inl hout

lemma parseExtensions_ensures (h : c.stop = msg.length) (hfuel : c.rem < fuel)
    (hout : NoPsk out) : Ensures (parseExtensions msg fuel c out) (Inside msg) := by
  induction fuel generalizing c out with
  | zero => omega
  | succ fuel ih =>
    have hin : c.Within msg := le_of_eq h
    refine .ite (fun _ => hout.inside msg) fun hrem => ?_
    refine .u16 hin fun type c₁ _ p₁ r₁ h₁ => ?_
    refine .u16 h₁ fun size c₂ _ p₂ r₂ h₂ => ?_
    refine .check fun hfit => ?_
    refine .skip h₂ fun c₃ p₃ r₃ _ => ?_
    have hstop : c₃.pos + c₃.rem = msg.length := by
      rw [Cursor.stop] at h
      omega
    have hlast (hzero : c₃.rem = 0) : c₂.pos + size = msg.length := by omega
    refine .bind (parseExtension_ensures (h₂.sub (Nat.not_lt.1 hfit)) hlast type hout) ?_
    rintro ch (hnone | ⟨hzero, hinside⟩)
    · exact ih hstop (by omega) hnone
    · -- Nothing follows the offer: the next round of the loop ends it.
      obtain ⟨fuel', rfl⟩ := Nat.exists_eq_succ_of_ne_zero (show fuel ≠ 0 by omega)
      rw [parseExtensions, if_pos hzero]
      exact hinside

end Extensions

/-- The parser ends on every message without a read outside it, and what it records of an accepted one
lies inside and belongs together. -/
theorem parse_stays_inside (msg : Bytes) : Ensures (parse msg) (Inside msg) := by
  have h : (⟨0, msg.length⟩ : Cursor).Within msg := le_of_eq (Nat.zero_add _)
  refine .u8 h fun type c₁ _ p₁ r₁ h₁ => ?_
  refine .check fun _ => ?_
  refine (u24_reads h₁).bind h₁ fun len c₂ _ p₂ r₂ h₂ => ?_
  refine .check fun _ => ?_
  refine .u16 h₂ fun version c₃ _ p₃ r₃ h₃ => ?_
  refine .check fun _ => ?_
  refine (copy_reads h₃ 32).bind h₃ fun random c₄ _ p₄ r₄ h₄ => ?_
  refine .u8 h₄ fun sidLen c₅ _ p₅ r₅ h₅ => ?_
  refine .check fun _ => ?_
  refine (copy_reads h₅ sidLen).bind h₅ fun sid c₆ _ p₆ r₆ h₆ => ?_
  refine .u16 h₆ fun csLen c₇ _ p₇ r₇ h₇ => ?_
  refine .check fun hcs => ?_
  have hsuites := h₇.sub (Nat.not_lt.1 fun hlt => hcs (.inr hlt))
  refine .bind (u16s_ensures hsuites (Nat.lt_succ_self _)) fun suites _ => ?_
  refine .skip h₇ fun c₈ p₈ r₈ h₈ => ?_
  refine .u8 h₈ fun cmLen c₉ _ p₉ r₉ h₉ => ?_
  refine .check fun hcm => ?_
  have hmethods := h₉.sub (Nat.not_lt.1 fun hlt => hcm (.inr hlt))
  refine .fetches hmethods fun methods _ => ?_
  refine .check fun _ => ?_
  refine .skip h₉ fun c₁₀ p₁₀ r₁₀ h₁₀ => ?_
  refine .u16 h₁₀ fun extTotal c₁₁ _ p₁₁ r₁₁ h₁₁ => ?_
  refine .check fun hext => parseExtensions_ensures ?_ (by omega) ⟨rfl, rfl, rfl, rfl⟩
  -- The cursor reaches to the end of the message all along.
  rw [Cursor.stop]
  dsimp only at p₁ r₁
  omega

end ClientHello

end Tls
