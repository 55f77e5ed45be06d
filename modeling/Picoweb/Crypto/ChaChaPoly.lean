import Picoweb.Crypto.Poly1305

/-!
# ChaCha20-Poly1305

`chacha20_poly1305.c`: sealing, opening, and sealing from a list of fragments, which runs the cipher and the
authenticator side by side over the fragments. Fragments give what the joined text gives, and what was
sealed opens.
-/

namespace ChaChaPoly

open ByteFile Blockwise List

abbrev Impl := ChaCha20.Impl

/-- The zeros that fill a part up to full blocks. -/
def padding (len : ℕ) : Bytes := replicate ((16 - len % 16) % 16) 0

/-- Key and additional data of `mac_data`. -/
def macStart (polyKey aad : Bytes) : Poly1305.Ctx :=
  let ctx := Poly1305.init polyKey
  let ctx := Poly1305.update ctx aad
  Poly1305.update ctx (padding aad.length)

/-- The end of `mac_data`: the padding of the sealed text and both lengths. -/
def macFinish (ctx : Poly1305.Ctx) (aadLen ctLen : ℕ) : Bytes :=
  let ctx := Poly1305.update ctx (padding ctLen)
  let ctx := Poly1305.update ctx (leBytes 8 aadLen ++ leBytes 8 ctLen)
  Poly1305.finish ctx

/-- `mac_data` -/
def macData (polyKey aad ct : Bytes) : Bytes :=
  macFinish (Poly1305.update (macStart polyKey aad) ct) aad.length ct.length

/-- `aead_chacha20_poly1305_seal`: the sealed text and its tag. -/
def aeadSeal (impl : Impl) (key nonce aad pt : Bytes) : Bytes × Bytes :=
  let polyKey := ChaCha20.block key 0 nonce
  let ct := impl.xor key 1 nonce pt
  (ct, macData polyKey aad ct)

/-- `crypto_consttime_eq` on arrays of one length. -/
def consttimeEq (a b : Bytes) : Bool := (zipWith (· ^^^ ·) a b).foldl (· ||| ·) 0 = 0

/-- `aead_chacha20_poly1305_open` -/
def aeadOpen (impl : Impl) (key nonce aad ct tag : Bytes) : Option Bytes :=
  let polyKey := ChaCha20.block key 0 nonce
  if consttimeEq (macData polyKey aad ct) tag then some (impl.xor key 1 nonce ct) else none

/-- The loop over the fragments: each is encrypted and what comes out of it authenticated. -/
def sealFrags (impl : Impl) : ChaCha20.Stream → Poly1305.Ctx → List Bytes → Poly1305.Ctx × Bytes
  | _, ctx, [] => (ctx, [])
  | cs, ctx, f :: fs =>
    if f = [] then sealFrags impl cs ctx fs
    else
      let (cs, ct) := ChaCha20.streamXor impl cs f
      let (ctx, rest) := sealFrags impl cs (Poly1305.update ctx ct) fs
      (ctx, ct ++ rest)

/-- `aead_chacha20_poly1305_seal_iov` -/
def aeadSealIov (impl : Impl) (key nonce aad : Bytes) (frags : List Bytes) : Bytes × Bytes :=
  let polyKey := ChaCha20.block key 0 nonce
  let cs := ChaCha20.streamInit key nonce 1
  let (ctx, ct) := sealFrags impl cs (macStart polyKey aad) frags
  (ct, macFinish ctx aad.length ct.length)

section Fragments

variable (impl : Impl) {key nonce : Bytes} {start : UInt32}

/-- The fragments from one on, wherever the stream and the authenticator stand. -/
lemma sealFrags_eq {cs : ChaCha20.Stream} {pos : ℕ} (hcs : cs.At key nonce start pos)
    {ctx : Poly1305.Ctx} (hctx : ctx.buf.length < Poly1305.blockLen) (frags : List Bytes) :
    (sealFrags impl cs ctx frags).2 = xorFrom (ChaCha20.keystream key start nonce) pos frags.flatten ∧
      (sealFrags impl cs ctx frags).1 = Poly1305.update ctx (sealFrags impl cs ctx frags).2 := by
  induction frags generalizing cs pos ctx with
  | nil => exact ⟨rfl, rfl⟩
  | cons f fs ih =>
    rw [sealFrags]
    split
    · rename_i hnil
      subst hnil
      exact ih hcs hctx
    · obtain ⟨hct, hcs'⟩ := hcs.streamXor impl f
      have hctx' : (Poly1305.update ctx (ChaCha20.streamXor impl cs f).2).buf.length < Poly1305.blockLen := by
        rw [Poly1305.update_eq_fed hctx]
        exact Poly1305.Ctx.length_buf_fed _
      obtain ⟨hrest, hmac⟩ := ih hcs' hctx'
      dsimp only
      constructor
      · rw [hrest, hct, flatten_cons, xorFrom_append]
      · rw [hmac, Poly1305.update_append hctx]

lemma length_buf_macStart (polyKey aad : Bytes) : (macStart polyKey aad).buf.length < Poly1305.blockLen := by
  have hinit : (Poly1305.init polyKey).buf.length < Poly1305.blockLen := Nat.zero_lt_succ _
  rw [macStart, Poly1305.update_append hinit, Poly1305.update_eq_fed hinit]
  exact Poly1305.Ctx.length_buf_fed _

/-- The bulk path from a counter on. -/
lemma xor_eq_xorFrom (key nonce : Bytes) (start : UInt32) (data : Bytes) :
    impl.xor key start nonce data = xorFrom (ChaCha20.keystream key start nonce) 0 data := by
  have hxor := ChaCha20.Impl.xor_eq key start nonce impl 0 data
  have hstart : start + UInt32.ofNat 0 = start := UInt32.add_zero start
  rw [hstart] at hxor
  exact hxor

/-- Sealing fragments is sealing what they make up. -/
theorem aeadSealIov_eq (key nonce aad : Bytes) (frags : List Bytes) :
    aeadSealIov impl key nonce aad frags = aeadSeal impl key nonce aad frags.flatten := by
  obtain ⟨hct, hmac⟩ := sealFrags_eq impl (ChaCha20.Stream.At.init key nonce 1)
    (length_buf_macStart (ChaCha20.block key 0 nonce) aad) frags
  rw [aeadSealIov, aeadSeal]
  dsimp only
  rw [hmac, hct, xor_eq_xorFrom, macData]

end Fragments

/-! ### Opening -/

lemma length_macData (polyKey aad ct : Bytes) : (macData polyKey aad ct).length = 16 :=
  Poly1305.length_finish _

@[simp] lemma consttimeEq_self (a : Bytes) : consttimeEq a a = true := by
  have hzero (l : Bytes) : (zipWith (· ^^^ ·) l l).foldl (· ||| ·) (0 : UInt8) = 0 := by
    induction l with
    | nil => rfl
    | cons b l ih => simpa using ih
  simp only [consttimeEq, hzero, decide_true]

lemma eq_of_consttimeEq {a b : Bytes} (hlen : a.length = b.length) (h : consttimeEq a b = true) : a = b := by
  -- a bit that is set once stays set
  have hkeep (l : Bytes) : ∀ d : UInt8, l.foldl (· ||| ·) d = 0 → d = 0 ∧ ∀ x ∈ l, x = 0 := by
    induction l with
    | nil => exact fun d hd => ⟨hd, nofun⟩
    | cons x l ih =>
      intro d hd
      obtain ⟨hor, hrest⟩ := ih _ hd
      obtain ⟨hd, hx⟩ := UInt8.or_eq_zero_iff.1 hor
      refine ⟨hd, fun y hy => ?_⟩
      rcases mem_cons.1 hy with rfl | hy
      · exact hx
      · exact hrest y hy
  have hzero := (hkeep _ 0 (by simpa [consttimeEq] using h)).2
  clear h
  induction a generalizing b with
  | nil => exact (length_eq_zero_iff.1 hlen.symm).symm
  | cons x a ih =>
    cases b with
    | nil => cases hlen
    | cons y b =>
      have hxy : x = y := UInt8.xor_eq_zero_iff.1 (hzero (x ^^^ y) (by simp))
      have hab : a = b := ih (Nat.succ.inj hlen) fun z hz => hzero z (by simp [hz])
      rw [hxy, hab]

@[simp] lemma length_xor (impl : Impl) (key : Bytes) (start : UInt32) (nonce data : Bytes) :
    (impl.xor key start nonce data).length = data.length := by
  rw [xor_eq_xorFrom, length_xorFrom]

lemma aeadOpen_aeadSeal (impl impl' : Impl) (key nonce aad pt : Bytes) :
    aeadOpen impl' key nonce aad (aeadSeal impl key nonce aad pt).1 (aeadSeal impl key nonce aad pt).2 = some pt := by
  simp only [aeadOpen, aeadSeal, consttimeEq_self, if_true]
  rw [xor_eq_xorFrom, xor_eq_xorFrom, xorFrom_xorFrom]

/-- On whichever paths: a text and a tag open to what the fragments make up, if and only if sealing the fragments
gives that text and that tag. -/
theorem aeadOpen_eq_some_iff (impl impl' : Impl) (key nonce aad ct tag : Bytes) (frags : List Bytes)
    (htag : tag.length = 16) : aeadOpen impl key nonce aad ct tag = some frags.flatten ↔
      aeadSealIov impl' key nonce aad frags = (ct, tag) := by
  rw [aeadSealIov_eq]
  constructor
  · intro h
    rw [aeadOpen, Option.ite_none_right_eq_some] at h
    obtain ⟨heq, hpt⟩ := h
    have hmac := eq_of_consttimeEq ((length_macData _ _ _).trans htag.symm) heq
    rw [← Option.some.inj hpt, aeadSeal, xor_eq_xorFrom, xor_eq_xorFrom, xorFrom_xorFrom, hmac]
  · intro h
    have hopen := aeadOpen_aeadSeal impl' impl key nonce aad frags.flatten
    rw [h] at hopen
    exact hopen

/-- Three bytes, sealed in two fragments -/
theorem aeadOpen_eq_some_iff_fragments :
    let tag : Bytes := [175, 121, 63, 195, 230, 150, 147, 240, 250, 55, 123, 207, 154, 219, 141, 169]
    aeadOpen .sse2 (replicate 32 1) (replicate 12 2) [7, 8] [142, 117, 211] tag = some [104, 105, 33] :=
  (aeadOpen_eq_some_iff .sse2 .scalar _ _ _ _ _ [[104, 105], [33]] rfl).2 (by decide +kernel)

end ChaChaPoly
