import Mathlib.Data.List.Forall2
import Picoweb.Http.Parse

/-!
# The choice of a response

`http_select` and `etag_matches` of `http.c` over the prebuilt resources of `jumptable.h`. The bytes of a
resource do not change after the start, with one exception: the body of `/stats` lies in memory of fixed
length that the metrics updater rewrites while the server runs.
-/

namespace Http

open ByteFile ByteText List

/-- A piece of a response: bytes that stay, or the live memory behind `/stats`. -/
inductive Seg
  | fixed (bytes : Bytes)
  | live (len : ℕ)
  deriving DecidableEq, Repr

namespace Seg

def length : Seg → ℕ
  | fixed bytes => bytes.length
  | live len => len

/-- The bytes of a piece while the live memory holds `stats`. -/
def bytes (stats : ℕ → UInt8) : Seg → Bytes
  | fixed bytes => bytes
  | live len => (range len).map stats

end Seg

/-- `resource_compress_t` -/
structure Variant where
  head : Bytes
  body : Bytes
  etag : Bytes
  wire304 : Option Bytes
  deriving DecidableEq, Repr

/-- `resource_t` with the header and footer of its `chrome_t`; an empty `etag` stands for none. -/
structure Resource where
  head : Bytes
  body : Seg := .fixed []
  chromeHdr : Bytes := []
  chromeFtr : Bytes := []
  compressed : Option Variant := none
  brotli : Option Variant := none
  etag : Bytes := []
  wire304 : Option Bytes := none
  linkHdr : Bytes := []
  deriving DecidableEq, Repr

/-- `jumptable_t`: what the lookups answer, and the canned errors. -/
structure Table where
  lookup : Bytes → Bytes → Option Resource
  hostExists : Bytes → Bool
  err400 : Resource
  err404 : Resource
  err405 : Resource
  err409 : Resource
  err413 : Resource
  err414 : Resource
  err505 : Resource

/-- One resource for every path of every host, for concrete runs. -/
def Table.single (r : Resource) : Table where
  lookup _ _ := some r
  hostExists _ := true
  err400 := { head := [] }
  err404 := { head := [] }
  err405 := { head := [] }
  err409 := { head := [] }
  err413 := { head := [] }
  err414 := { head := [] }
  err505 := { head := [] }

/-- The three results of `http_select`. -/
structure Selected where
  resource : Resource
  closeAfter : Bool
  headOnly : Bool

def httpSelect (jt : Table) (pr : HttpResult) (req : HttpRequest) : Selected :=
  match pr with
  | .err400 => ⟨jt.err400, true, false⟩
  | .err409 => ⟨jt.err409, true, false⟩
  | .err413 => ⟨jt.err413, true, false⟩
  | .err414 => ⟨jt.err414, true, false⟩
  | .err505 => ⟨jt.err505, true, false⟩
  | .err405 => ⟨jt.err405, true, false⟩
  | _ =>
    match req.method with
    | .post | .put | .delete | .options => ⟨jt.err405, req.clientClose, false⟩
    | .unknown => ⟨jt.err405, true, false⟩
    | method =>
      let headOnly := method = .head
      match jt.lookup (req.host.getD []) (req.path.getD []) with
      | some r => ⟨r, req.clientClose, headOnly⟩
      | none =>
        if jt.hostExists (req.host.getD []) then ⟨jt.err404, req.clientClose, headOnly⟩
        else ⟨jt.err409, true, headOnly⟩

/-- Only a request that was read, and that does not ask for the close, leaves the connection open. -/
lemma keep_of_httpSelect {jt : Table} {pr : HttpResult} {req : HttpRequest} (hpr : pr ≠ .needMore)
    (h : (httpSelect jt pr req).closeAfter = false) : pr = .ok ∧ req.clientClose = false := by
  cases pr with
  | needMore => exact absurd rfl hpr
  | ok =>
    refine ⟨rfl, ?_⟩
    simp only [httpSelect] at h
    split at h
    all_goals try exact h
    · cases h
    · split at h
      · exact h
      · split_ifs at h
        exact h
  | _ => cases h

/-- The loop of `etag_matches` over the tags of the header; each round takes at least one byte. -/
def etagScan (our : Bytes) : ℕ → Bytes → Bool
  | 0, _ => false
  | fuel + 1, inm =>
    let rest := inm.dropWhile fun b => isBlank b || b = 44
    if rest = [] then false
    else
      let tag := if rest.take 2 = ascii "W/" then rest.drop 2 else rest
      match tag with
      | 34 :: tag =>
        let after := tag.dropWhile (· ≠ 34)
        if 34 :: (tag.takeWhile (· ≠ 34) ++ after.take 1) = our then true
        else etagScan our fuel (after.drop 1)
      | _ => etagScan our fuel (tag.dropWhile (· ≠ 44))

def etagMatches (inm etag : Bytes) : Bool :=
  if inm = [] ∨ etag = [] then false
  else if inm = [42] then true
  else etagScan (if etag.take 2 = ascii "W/" then etag.drop 2 else etag) inm.length inm

/-- The variant that a client takes: Brotli before the picoweb encoding. -/
def Resource.variant (r : Resource) (req : HttpRequest) : Option Variant :=
  match req.acceptBr, r.brotli, req.acceptPc, r.compressed with
  | true, some v, _, _ => some v
  | _, _, true, some v => some v
  | _, _, _, _ => none

/-- `CONN_CLOSE` and `CONN_KA` -/
def connTail (close : Bool) : Bytes := if close then ascii "Connection: close\r\n\r\n" else ascii "\r\n"

/-- The body of a response, from a variant or from the chrome and the plain body. -/
def Resource.bodySegs (r : Resource) : Option Variant → List Seg
  | some v => [.fixed v.body]
  | none =>
    (if r.chromeHdr = [] then [] else [.fixed r.chromeHdr]) ++ (if r.body.length = 0 then [] else [r.body]) ++
      (if r.chromeFtr = [] then [] else [.fixed r.chromeFtr])

/-- The prebuilt 304 response, where the request's tags match that of the variant or resource. -/
def Resource.notModified (r : Resource) (variant : Option Variant) (pr : HttpResult) (req : HttpRequest) :
    Option Bytes :=
  if pr = .ok ∧ (req.method = .get ∨ req.method = .head) then
    req.ifNoneMatch.bind fun inm =>
      match variant with
      | some v => if etagMatches inm v.etag then v.wire304 else none
      | none => if etagMatches inm r.etag then r.wire304 else none
  else none

/-- The segments of a response from a resource. -/
def Resource.segs (r : Resource) (variant : Option Variant) (headOnly close : Bool) (pr : HttpResult)
    (req : HttpRequest) : List Seg :=
  match r.notModified variant pr req with
  | some wire => [.fixed wire, .fixed (connTail close)]
  | none =>
    .fixed (variant.elim r.head Variant.head) :: .fixed (connTail close) ::
      if headOnly then [] else r.bodySegs variant

lemma Resource.length_bodySegs_le (r : Resource) (variant : Option Variant) : (r.bodySegs variant).length ≤ 3 := by
  cases variant with
  | some v => simp [bodySegs]
  | none =>
    simp only [bodySegs]
    split_ifs <;> simp

lemma Resource.length_segs_le (r : Resource) (variant : Option Variant) (headOnly close : Bool)
    (pr : HttpResult) (req : HttpRequest) : (r.segs variant headOnly close pr req).length ≤ 5 := by
  have hbody := r.length_bodySegs_le variant
  unfold segs
  split
  · simp
  · split_ifs
    · simp
    · simp only [length_cons]
      omega

/-! ### Responses up to the live memory -/

/-- The bytes of a piece that are fixed. -/
def pattern : Seg → List (Option UInt8)
  | .fixed bytes => bytes.map some
  | .live len => replicate len none

/-- The bytes are a response from the segments, with anything in the place of live memory. -/
def Fits (segs : List Seg) (response : Bytes) : Prop :=
  List.Forall₂ (fun p b => ∀ x ∈ p, x = b) (segs.flatMap pattern) response

section Fits

variable {segs : List Seg} {r r' : Bytes}

lemma fits_bytes (stats : ℕ → UInt8) (segs : List Seg) : Fits segs (segs.map (Seg.bytes stats)).flatten := by
  induction segs with
  | nil => exact .nil
  | cons seg segs ih =>
    refine rel_append ?_ ih
    cases seg with
    | fixed bytes => exact forall₂_map_left_iff.mpr (forall₂_same.mpr fun b _ => by simp)
    | live len =>
      refine forall₂_iff_get.mpr ⟨by simp [pattern, Seg.bytes], fun i hi _ x hx => ?_⟩
      simp only [pattern, get_eq_getElem, getElem_replicate] at hx
      exact absurd hx (Option.not_mem_none x)

lemma Fits.length (h : Fits segs r) : r.length = (segs.map Seg.length).sum := by
  have hpattern : ∀ seg : Seg, (pattern seg).length = seg.length := by
    intro seg
    cases seg <;> simp [pattern, Seg.length]
  rw [← List.Forall₂.length_eq h, length_flatMap]
  simp only [hpattern]

/-- A response of which a part was sent before and the rest after a change of the live memory. -/
lemma Fits.splice (h : Fits segs r) (h' : Fits segs r') (k : ℕ) : Fits segs (r.take k ++ r'.drop k) := by
  have happend := rel_append (forall₂_take k h) (forall₂_drop k h')
  dsimp only at happend
  rwa [take_append_drop] at happend

end Fits

/-- A request for concrete runs. -/
def getRoot : Bytes := ascii "GET / HTTP/1.1\r\nHost: a\r\n\r\n"

end Http
