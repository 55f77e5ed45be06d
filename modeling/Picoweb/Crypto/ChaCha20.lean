import Picoweb.Lib.Blockwise

/-!
# ChaCha20

`chacha20.c` and `chacha20_sse2.c`: the block function, the scalar and the four-way bulk path, and the
streaming interface that carries what is left of a keystream block from one call to the next. Both bulk
paths and the streaming interface add one and the same keystream.
-/

namespace ChaCha20

open ByteFile Blockwise List UInt32

/-! ### The rounds, over words or over lanes of words -/

/-- What the rounds need of a word. -/
structure Words (W : Type) where
  add : W → W → W
  xor : W → W → W
  rotl : W → UInt32 → W

def rotl32 (x n : UInt32) : UInt32 := (x <<< n) ||| (x >>> (32 - n))

def scalar : Words UInt32 where
  add := (· + ·)
  xor := (· ^^^ ·)
  rotl := rotl32

abbrev M128 := Fin 4 → UInt32

/-- The vector instructions work lane by lane. -/
def lanes : Words M128 where
  add a b := fun j => a j + b j
  xor a b := fun j => a j ^^^ b j
  rotl a n := fun j => (a j <<< n) ||| (a j >>> (32 - n))

section Rounds

variable {W : Type} [Inhabited W] (o : Words W)

/-- `QR` and `QR4`. -/
def quarter (a b c d : W) : W × W × W × W :=
  let a := o.add a b
  let d := o.rotl (o.xor d a) 16
  let c := o.add c d
  let b := o.rotl (o.xor b c) 12
  let a := o.add a b
  let d := o.rotl (o.xor d a) 8
  let c := o.add c d
  let b := o.rotl (o.xor b c) 7
  (a, b, c, d)

def quarterAt (x : List W) (i j k l : ℕ) : List W :=
  let q := quarter o (x.getD i default) (x.getD j default) (x.getD k default) (x.getD l default)
  (((x.set i q.1).set j q.2.1).set k q.2.2.1).set l q.2.2.2

def doubleRound (x : List W) : List W :=
  let x := quarterAt o x 0 4 8 12
  let x := quarterAt o x 1 5 9 13
  let x := quarterAt o x 2 6 10 14
  let x := quarterAt o x 3 7 11 15
  let x := quarterAt o x 0 5 10 15
  let x := quarterAt o x 1 6 11 12
  let x := quarterAt o x 2 7 8 13
  quarterAt o x 3 4 9 14

def rounds (x : List W) : List W := (doubleRound o)^[10] x

@[simp] lemma length_quarterAt (x : List W) (i j k l : ℕ) : (quarterAt o x i j k l).length = x.length := by
  simp [quarterAt]

@[simp] lemma length_doubleRound (x : List W) : (doubleRound o x).length = x.length := by
  simp [doubleRound]

@[simp] lemma length_rounds (x : List W) : (rounds o x).length = x.length := by
  have hiter (n : ℕ) : ((doubleRound o)^[n] x).length = x.length := by
    induction n with
    | zero => rfl
    | succ n ih => rw [Function.iterate_succ_apply', length_doubleRound, ih]
  exact hiter 10

end Rounds

/-- A map of words that keeps their operations. -/
structure Words.Hom {V W : Type} [Inhabited V] [Inhabited W] (o : Words V) (p : Words W) (f : V → W) :
    Prop where
  add : ∀ a b, f (o.add a b) = p.add (f a) (f b)
  xor : ∀ a b, f (o.xor a b) = p.xor (f a) (f b)
  rotl : ∀ a n, f (o.rotl a n) = p.rotl (f a) n
  keepsDefault : f default = default

namespace Words.Hom

variable {V W : Type} [Inhabited V] [Inhabited W] {o : Words V} {p : Words W} {f : V → W}

lemma quarterAt (h : o.Hom p f) (x : List V) (i j k l : ℕ) :
    (ChaCha20.quarterAt o x i j k l).map f = ChaCha20.quarterAt p (x.map f) i j k l := by
  have hget (n : ℕ) : (x.map f).getD n default = f (x.getD n default) := by
    simp only [getD_eq_getElem?_getD, getElem?_map, ← h.keepsDefault, Option.getD_map]
  simp only [ChaCha20.quarterAt, quarter, map_set, hget, h.add, h.xor, h.rotl]

lemma doubleRound (h : o.Hom p f) (x : List V) :
    (ChaCha20.doubleRound o x).map f = ChaCha20.doubleRound p (x.map f) := by
  simp only [ChaCha20.doubleRound, h.quarterAt]

lemma rounds (h : o.Hom p f) (x : List V) : (ChaCha20.rounds o x).map f = ChaCha20.rounds p (x.map f) := by
  have hiter (n : ℕ) : ((ChaCha20.doubleRound o)^[n] x).map f = (ChaCha20.doubleRound p)^[n] (x.map f) := by
    induction n with
    | zero => rfl
    | succ n ih =>
      rw [Function.iterate_succ_apply', Function.iterate_succ_apply', h.doubleRound, ih]
  exact hiter 10

end Words.Hom

/-- Every lane of the vector rounds runs the scalar rounds. -/
lemma lane_hom (j : Fin 4) : lanes.Hom scalar fun v => v j :=
  ⟨fun _ _ => rfl, fun _ _ => rfl, fun _ _ => rfl, rfl⟩

/-! ### Blocks -/

def loadLe32 (bytes : Bytes) (off : ℕ) : UInt32 := ofNat (leNat ((bytes.drop off).take 4))

def storeLe32 (w : UInt32) : Bytes := leBytes 4 w.toNat

def initState (key : Bytes) (counter : UInt32) (nonce : Bytes) : List UInt32 :=
  [0x61707865, 0x3320646e, 0x79622d32, 0x6b206574, loadLe32 key 0, loadLe32 key 4, loadLe32 key 8, loadLe32 key 12,
    loadLe32 key 16, loadLe32 key 20, loadLe32 key 24, loadLe32 key 28,
    counter, loadLe32 nonce 0, loadLe32 nonce 4, loadLe32 nonce 8]

/-- `chacha20_block` -/
def block (key : Bytes) (counter : UInt32) (nonce : Bytes) : Bytes :=
  let s := initState key counter nonce
  (zipWith (· + ·) (rounds scalar s) s).flatMap storeLe32

abbrev blockLen : ℕ := 64

lemma length_flatMap_storeLe32 (l : List UInt32) : (l.flatMap storeLe32).length = 4 * l.length := by
  induction l with
  | nil => rfl
  | cons w l ih =>
    rw [flatMap_cons, length_append, length_cons, storeLe32, length_leBytes]
    omega

lemma length_block (key : Bytes) (counter : UInt32) (nonce : Bytes) : (block key counter nonce).length = blockLen := by
  rw [block, length_flatMap_storeLe32, length_zipWith, length_rounds]
  rfl

/-! ### Four blocks at once -/

def unpackLo32 (a b : M128) : M128 := ![a 0, b 0, a 1, b 1]
def unpackHi32 (a b : M128) : M128 := ![a 2, b 2, a 3, b 3]
def unpackLo64 (a b : M128) : M128 := ![a 0, a 1, b 0, b 1]
def unpackHi64 (a b : M128) : M128 := ![a 2, a 3, b 2, b 3]

/-- Four rows become four columns. -/
def transpose (a b c d : M128) : Fin 4 → M128 :=
  ![unpackLo64 (unpackLo32 a b) (unpackLo32 c d), unpackHi64 (unpackLo32 a b) (unpackLo32 c d),
    unpackLo64 (unpackHi32 a b) (unpackHi32 c d), unpackHi64 (unpackHi32 a b) (unpackHi32 c d)]

def store128 (v : M128) : Bytes := storeLe32 (v 0) ++ storeLe32 (v 1) ++ storeLe32 (v 2) ++ storeLe32 (v 3)

/-- The part of block `j` that four registers hold. -/
def storeRow (x : List M128) (j : Fin 4) (row : ℕ) : Bytes :=
  store128 (transpose (x.getD (row * 4) default) (x.getD (row * 4 + 1) default)
    (x.getD (row * 4 + 2) default) (x.getD (row * 4 + 3) default) j)

/-- The registers before the rounds: lane `j` counts `j` further. -/
def initLanes (key : Bytes) (counter : UInt32) (nonce : Bytes) : List M128 :=
  ((initState key counter nonce).map fun w _ => w).set 12 ![counter + 0, counter + 1, counter + 2, counter + 3]

/-- `chacha20_4blocks` -/
def fourBlocks (key : Bytes) (counter : UInt32) (nonce : Bytes) : Bytes :=
  let v := initLanes key counter nonce
  let x := zipWith lanes.add (rounds lanes v) v
  (finRange 4).flatMap fun j =>
    storeRow x j 0 ++ storeRow x j 1 ++ storeRow x j 2 ++ storeRow x j 3

lemma store128_transpose (a b c d : M128) (j : Fin 4) : store128 (transpose a b c d j) =
      storeLe32 (a j) ++ storeLe32 (b j) ++ storeLe32 (c j) ++ storeLe32 (d j) := by
  fin_cases j <;> rfl

/-- The rows of lane `j` are the words of lane `j`. -/
lemma storeRows_eq {x : List M128} (hx : x.length = 16) (j : Fin 4) :
    storeRow x j 0 ++ storeRow x j 1 ++ storeRow x j 2 ++ storeRow x j 3 = (x.map fun v => v j).flatMap storeLe32 := by
  match x, hx with
  | [_, _, _, _, _, _, _, _, _, _, _, _, _, _, _, _], _ =>
    simp only [storeRow, store128_transpose]
    simp

lemma initLanes_lane (key : Bytes) (counter : UInt32) (nonce : Bytes) (j : Fin 4) :
    (initLanes key counter nonce).map (fun v => v j) = initState key (counter + ofNat j) nonce := by
  fin_cases j <;> rfl

lemma fourBlocks_eq (key : Bytes) (counter : UInt32) (nonce : Bytes) : fourBlocks key counter nonce =
      (finRange 4).flatMap fun j : Fin 4 => block key (counter + ofNat j) nonce := by
  have hblock (j : Fin 4) : ((zipWith lanes.add (rounds lanes (initLanes key counter nonce))
        (initLanes key counter nonce)).map fun v => v j).flatMap storeLe32 =
        block key (counter + ofNat j) nonce := by
    rw [block, ← initLanes_lane, ← (lane_hom j).rounds, map_zipWith, zipWith_map]
    rfl
  have hlen : (zipWith lanes.add (rounds lanes (initLanes key counter nonce))
      (initLanes key counter nonce)).length = 16 := by
    rw [length_zipWith, length_rounds]
    rfl
  simp only [fourBlocks, storeRows_eq hlen, hblock]

/-! ### Bulk -/

/-- `chacha20_xor_scalar`; `fuel` bounds its rounds. -/
def xorScalarLoop (key nonce : Bytes) : ℕ → UInt32 → Bytes → Bytes
  | 0, _, _ => []
  | fuel + 1, counter, data =>
    if data = [] then []
    else
      zipWith (· ^^^ ·) (data.take blockLen) (block key counter nonce) ++
        xorScalarLoop key nonce fuel (counter + 1) (data.drop blockLen)

def xorScalar (key : Bytes) (counter : UInt32) (nonce data : Bytes) : Bytes :=
  xorScalarLoop key nonce data.length counter data

/-- `chacha20_xor_sse2` -/
def xorSse2Loop (key nonce : Bytes) : ℕ → UInt32 → Bytes → Bytes
  | 0, _, _ => []
  | fuel + 1, counter, data =>
    if 256 ≤ data.length then
      zipWith (· ^^^ ·) (data.take 256) (fourBlocks key counter nonce) ++
        xorSse2Loop key nonce fuel (counter + 4) (data.drop 256)
    else xorScalar key counter nonce data

def xorSse2 (key : Bytes) (counter : UInt32) (nonce data : Bytes) : Bytes :=
  xorSse2Loop key nonce (data.length + 1) counter data

/-- What `chacha20_select_impl` chooses. -/
inductive Impl
  | scalar
  | sse2
  deriving DecidableEq, Repr

/-- `chacha20_xor_fn` -/
def Impl.xor (impl : Impl) (key : Bytes) (counter : UInt32) (nonce data : Bytes) : Bytes :=
  match impl with
  | .scalar => xorScalar key counter nonce data
  | .sse2 => xorSse2 key counter nonce data

/-! ### The keystream -/

def keystream (key : Bytes) (counter : UInt32) (nonce : Bytes) : ℕ → UInt8 :=
  stream blockLen fun n => block key (counter + ofNat n) nonce

variable {data : Bytes}

section Keystream

variable (key : Bytes) (start : UInt32) (nonce : Bytes)

lemma zipWith_block_eq {n : ℕ} (hdata : data.length ≤ blockLen) :
    zipWith (· ^^^ ·) data (block key (start + ofNat n) nonce) =
      xorFrom (keystream key start nonce) (blockLen * n) data := by
  have hlen (n : ℕ) : (block key (start + ofNat n) nonce).length = blockLen := length_block _ _ _
  exact zipWith_block hlen hdata

lemma ofNat_succ_counter (n : ℕ) : start + UInt32.ofNat n + 1 = start + UInt32.ofNat (n + 1) := by
  rw [UInt32.ofNat_add, UInt32.add_assoc]
  rfl

lemma xorScalarLoop_eq {fuel n : ℕ} (hfuel : data.length ≤ fuel) :
    xorScalarLoop key nonce fuel (start + ofNat n) data =
      xorFrom (keystream key start nonce) (blockLen * n) data := by
  induction fuel generalizing n data with
  | zero =>
    have hnil : data = [] := length_eq_zero_iff.1 (Nat.le_zero.1 hfuel)
    subst hnil
    rfl
  | succ fuel ih =>
    rw [xorScalarLoop]
    split
    · rename_i hnil
      subst hnil
      rfl
    · have hshort : (data.take blockLen).length ≤ blockLen := length_take_le _ _
      have hleft : (data.drop blockLen).length ≤ fuel := by
        rw [length_drop]
        simp only [blockLen]
        omega
      rw [zipWith_block_eq key start nonce hshort, ofNat_succ_counter, ih hleft]
      by_cases hlen : blockLen ≤ data.length
      · exact xorFrom_take_drop (keystream key start nonce) hlen (blockLen * n)
      · have hdrop : data.drop blockLen = [] := drop_eq_nil_of_le (by omega)
        have htake : data.take blockLen = data := take_of_length_le (by omega)
        rw [hdrop, htake]
        exact append_nil _

lemma xorScalar_eq (n : ℕ) (data : Bytes) : xorScalar key (start + ofNat n) nonce data =
      xorFrom (keystream key start nonce) (blockLen * n) data :=
  xorScalarLoop_eq key start nonce le_rfl

lemma zipWith_fourBlocks_eq {n : ℕ} (hdata : data.length = 256) :
    zipWith (· ^^^ ·) data (fourBlocks key (start + UInt32.ofNat n) nonce) =
      xorFrom (keystream key start nonce) (blockLen * n) data := by
  have hlen (k : ℕ) : (block key (start + UInt32.ofNat (n + k)) nonce).length = blockLen :=
    length_block _ _ _
  have hblocks : fourBlocks key (start + UInt32.ofNat n) nonce =
      (range 4).flatMap fun k => block key (start + UInt32.ofNat (n + k)) nonce := by
    rw [fourBlocks_eq]
    simp only [UInt32.ofNat_add, ← UInt32.add_assoc]
    rfl
  apply zipWith_eq_xorFrom
  · rw [hdata, hblocks, length_flatMap_range hlen]
    decide
  · intro i hi
    have hlt : i < blockLen * 4 := by
      rw [hdata] at hi
      exact hi
    rw [hblocks, getD_flatMap_range hlen hlt]
    exact (@stream_add_block blockLen (fun k => block key (start + UInt32.ofNat k) nonce) (by decide) n i).symm

lemma xorSse2Loop_eq {fuel n : ℕ} (hfuel : data.length < fuel) :
    xorSse2Loop key nonce fuel (start + UInt32.ofNat n) data =
      xorFrom (keystream key start nonce) (blockLen * n) data := by
  induction fuel generalizing n data with
  | zero => omega
  | succ fuel ih =>
    rw [xorSse2Loop]
    split
    · rename_i hlen
      have htake : (data.take 256).length = 256 := by
        rw [length_take, Nat.min_eq_left hlen]
      have hleft : (data.drop 256).length < fuel := by
        rw [length_drop]
        omega
      have hcounter : start + UInt32.ofNat n + 4 = start + UInt32.ofNat (n + 4) := by
        rw [UInt32.ofNat_add, UInt32.add_assoc]
        rfl
      rw [zipWith_fourBlocks_eq key start nonce htake, hcounter, ih hleft]
      exact xorFrom_take_drop (keystream key start nonce) hlen (blockLen * n)
    · exact xorScalar_eq key start nonce n data

/-- Whichever path is chosen, it adds the keystream. -/
lemma Impl.xor_eq (impl : Impl) (n : ℕ) (data : Bytes) : impl.xor key (start + UInt32.ofNat n) nonce data =
      xorFrom (keystream key start nonce) (blockLen * n) data := by
  cases impl with
  | scalar => exact xorScalar_eq key start nonce n data
  | sse2 => exact xorSse2Loop_eq key start nonce (Nat.lt_succ_self _)

end Keystream

/-! ### Streaming -/

/-- `chacha20_stream_t`; a `carryOff` of 64 says that nothing is carried. -/
structure Stream where
  key : Bytes
  nonce : Bytes
  counter : UInt32
  ksCarry : Bytes
  carryOff : ℕ
  deriving DecidableEq, Repr

def streamInit (key nonce : Bytes) (counter : UInt32) : Stream := ⟨key, nonce, counter, [], blockLen⟩

/-- What is left of the last block goes to the data first. -/
def Stream.drain (cs : Stream) (data : Bytes) : Stream × Bytes × Bytes :=
  if cs.carryOff < blockLen then
    let take := min data.length (blockLen - cs.carryOff)
    ({ cs with carryOff := cs.carryOff + take },
      zipWith (· ^^^ ·) (data.take take) (cs.ksCarry.drop cs.carryOff), data.drop take)
  else (cs, [], data)

/-- Then whole blocks, on the bulk path. -/
def Stream.bulk (cs : Stream) (impl : Impl) (data : Bytes) : Stream × Bytes × Bytes :=
  if data.length < blockLen then (cs, [], data)
  else
    let full := data.length / blockLen * blockLen
    ({ cs with counter := cs.counter + ofNat (full / blockLen) },
      impl.xor cs.key cs.counter cs.nonce (data.take full), data.drop full)

/-- And one more block for the rest. -/
def Stream.tail (cs : Stream) (data : Bytes) : Stream × Bytes :=
  if data = [] then (cs, [])
  else
    let ks := block cs.key cs.counter cs.nonce
    ({ cs with counter := cs.counter + 1, ksCarry := ks, carryOff := data.length }, zipWith (· ^^^ ·) data ks)

/-- `chacha20_stream_xor` -/
def streamXor (impl : Impl) (cs : Stream) (data : Bytes) : Stream × Bytes :=
  let (cs, first, data) := cs.drain data
  let (cs, middle, data) := cs.bulk impl data
  let (cs, last) := cs.tail data
  (cs, first ++ middle ++ last)

/-- The stream stands at a position of the keystream that starts at a counter. -/
structure Stream.At (key nonce : Bytes) (start : UInt32) (cs : Stream) (pos : ℕ) : Prop where
  key_eq : cs.key = key
  nonce_eq : cs.nonce = nonce
  counter : cs.counter = start + ofNat ((pos + (blockLen - 1)) / blockLen)
  carry : pos % blockLen = 0 ∧ cs.carryOff = blockLen ∨ pos % blockLen ≠ 0 ∧ cs.carryOff = pos % blockLen ∧
      cs.ksCarry = block key (start + ofNat (pos / blockLen)) nonce

namespace Stream.At

variable {key nonce : Bytes} {start : UInt32} {cs : Stream} {pos : ℕ}

lemma init (key nonce : Bytes) (start : UInt32) : (streamInit key nonce start).At key nonce start 0 :=
  ⟨rfl, rfl, (UInt32.add_zero _).symm, .inl ⟨rfl, rfl⟩⟩

/-- At the start of a block the counter is the number of blocks behind it. -/
lemma counter_of_start (h : cs.At key nonce start pos) (hpos : pos % blockLen = 0) :
    cs.counter = start + ofNat (pos / blockLen) := by
  have hceil : (pos + (blockLen - 1)) / blockLen = pos / blockLen := by
    simp only [blockLen] at hpos ⊢
    omega
  rw [h.counter, hceil]

/-- After the drain the data is used up or the stream stands at the start of a block. -/
lemma drain (h : cs.At key nonce start pos) (data : Bytes) :
    ∃ n, n ≤ data.length ∧ (cs.drain data).2.1 = xorFrom (keystream key start nonce) pos (data.take n) ∧
      (cs.drain data).2.2 = data.drop n ∧ (cs.drain data).1.At key nonce start (pos + n) ∧
      (data.drop n ≠ [] → (pos + n) % blockLen = 0) := by
  rcases h.carry with ⟨hstart, hcarry⟩ | ⟨hinside, hoff, hks⟩
  · have hdrain : cs.drain data = (cs, [], data) := by
      rw [Stream.drain, if_neg (by omega)]
    rw [hdrain]
    exact ⟨0, Nat.zero_le _, rfl, rfl, h, fun _ => hstart⟩
  · have hlt : cs.carryOff < blockLen := hoff ▸ Nat.mod_lt _ (by decide)
    have hlen (n : ℕ) : (block key (start + ofNat n) nonce).length = blockLen := length_block _ _ _
    have hpos : pos = blockLen * (pos / blockLen) + cs.carryOff := by
      rw [hoff, Nat.div_add_mod]
    rw [Stream.drain, if_pos hlt]
    refine ⟨min data.length (blockLen - cs.carryOff), Nat.min_le_left _ _, ?_, rfl, ?_, ?_⟩
    · have hpiece : cs.carryOff + (data.take (min data.length (blockLen - cs.carryOff))).length ≤ blockLen := by
        rw [length_take]
        omega
      have hxor := zipWith_drop_block (n := pos / blockLen) hlen hpiece
      rw [← hpos] at hxor
      rw [hks]
      exact hxor
    · refine ⟨h.key_eq, h.nonce_eq, h.counter.trans ?_, ?_⟩
      · congr 2
        simp only [blockLen] at *
        omega
      · by_cases hall : data.length < blockLen - cs.carryOff
        · refine .inr ⟨?_, ?_, hks.trans ?_⟩ <;> simp only [blockLen] at *
          · omega
          · omega
          · congr 3
            omega
        · refine .inl ⟨?_, ?_⟩ <;> simp only [blockLen] at *
          · omega
          · omega
    · intro hmore
      rw [Ne, drop_eq_nil_iff] at hmore
      simp only [blockLen] at *
      omega

/-- Whole blocks leave the stream at the start of a block. -/
lemma bulk (h : cs.At key nonce start pos) (impl : Impl) (hpos : data ≠ [] → pos % blockLen = 0) :
    ∃ n, n ≤ data.length ∧ (cs.bulk impl data).2.1 = xorFrom (keystream key start nonce) pos (data.take n) ∧
      (cs.bulk impl data).2.2 = data.drop n ∧ (cs.bulk impl data).1.At key nonce start (pos + n) ∧
      (data.drop n).length < blockLen ∧ (data.drop n ≠ [] → (pos + n) % blockLen = 0) := by
  rw [Stream.bulk]
  split
  · rename_i hshort
    exact ⟨0, Nat.zero_le _, rfl, rfl, h, hshort, hpos⟩
  · rename_i hlong
    specialize hpos fun hnil => hlong (by rw [hnil]; decide)
    have hcarry : cs.carryOff = blockLen := by
      rcases h.carry with ⟨-, hcarry⟩ | ⟨hinside, -⟩
      · exact hcarry
      · exact absurd hpos hinside
    have hblocks : pos = blockLen * (pos / blockLen) := by
      rw [Nat.mul_div_cancel' (Nat.dvd_of_mod_eq_zero hpos)]
    have hend : (pos + data.length / blockLen * blockLen) % blockLen = 0 := by
      rw [Nat.add_mul_mod_self_right, hpos]
    refine ⟨data.length / blockLen * blockLen, Nat.div_mul_le_self _ _, ?_, rfl,
      ⟨h.key_eq, h.nonce_eq, ?_, .inl ⟨hend, hcarry⟩⟩, ?_, fun _ => hend⟩
    · dsimp only
      rw [h.key_eq, h.nonce_eq, h.counter_of_start hpos, Impl.xor_eq, ← hblocks]
    · dsimp only
      rw [h.counter_of_start hpos, UInt32.add_assoc, ← UInt32.ofNat_add]
      congr 2
      simp only [blockLen] at *
      omega
    · rw [length_drop]
      simp only [blockLen]
      omega

lemma tail (h : cs.At key nonce start pos) (hpos : data ≠ [] → pos % blockLen = 0) (hdata : data.length < blockLen) :
    (cs.tail data).2 = xorFrom (keystream key start nonce) pos data ∧
      (cs.tail data).1.At key nonce start (pos + data.length) := by
  rw [Stream.tail]
  split
  · rename_i hnil
    subst hnil
    exact ⟨rfl, h⟩
  · rename_i hne
    have hlen (n : ℕ) : (block key (start + UInt32.ofNat n) nonce).length = blockLen := length_block _ _ _
    have hmore : 0 < data.length := length_pos_iff.2 hne
    specialize hpos hne
    have hblocks : blockLen * (pos / blockLen) = pos := Nat.mul_div_cancel' (Nat.dvd_of_mod_eq_zero hpos)
    constructor
    · have hxor := zipWith_block (n := pos / blockLen) hlen hdata.le
      rw [hblocks] at hxor
      rw [h.key_eq, h.nonce_eq, h.counter_of_start hpos]
      exact hxor
    · refine ⟨h.key_eq, h.nonce_eq, ?_, .inr ⟨?_, ?_, ?_⟩⟩
      · dsimp only
        rw [h.counter_of_start hpos, UInt32.add_assoc]
        congr 1
        rw [show (1 : UInt32) = UInt32.ofNat 1 from rfl, ← UInt32.ofNat_add]
        congr 1
        simp only [blockLen] at *
        omega
      · simp only [blockLen] at *
        omega
      · simp only [blockLen] at *
        omega
      · dsimp only
        rw [h.key_eq, h.nonce_eq, h.counter_of_start hpos]
        congr 3
        simp only [blockLen] at *
        omega

/-- A piece of any length is treated as its part of the whole. -/
theorem streamXor (h : cs.At key nonce start pos) (impl : Impl) (data : Bytes) :
    (streamXor impl cs data).2 = xorFrom (keystream key start nonce) pos data ∧
      (streamXor impl cs data).1.At key nonce start (pos + data.length) := by
  obtain ⟨n, hn, hfirst, hleft, hat, hmore⟩ := h.drain data
  obtain ⟨m, hm, hmiddle, hrest, hat', hshort, hend⟩ := hat.bulk impl hmore
  obtain ⟨hlast, hat''⟩ := hat'.tail hend hshort
  rw [ChaCha20.streamXor]
  dsimp only
  rw [hleft, hrest, hfirst, hmiddle, hlast]
  constructor
  · rw [append_assoc, xorFrom_take_drop _ hm, xorFrom_take_drop _ hn]
  · rw [length_drop, length_drop] at hat''
    rw [length_drop] at hm
    have hpos : pos + n + m + (data.length - n - m) = pos + data.length := by omega
    rw [← hpos]
    exact hat''

end Stream.At

/-- `chacha20_stream_xor` on the pieces of a message, one call after the other. -/
def streamXorAll (impl : Impl) : Stream → List Bytes → Bytes
  | _, [] => []
  | cs, piece :: pieces =>
    let (cs, out) := streamXor impl cs piece
    out ++ streamXorAll impl cs pieces

lemma Stream.At.streamXorAll {key nonce : Bytes} {start : UInt32} {cs : Stream} {pos : ℕ}
    (h : cs.At key nonce start pos) (impl : Impl) (pieces : List Bytes) :
    streamXorAll impl cs pieces = xorFrom (keystream key start nonce) pos pieces.flatten := by
  induction pieces generalizing cs pos with
  | nil => rfl
  | cons piece pieces ih =>
    obtain ⟨hout, hat⟩ := h.streamXor impl piece
    rw [ChaCha20.streamXorAll]
    dsimp only
    rw [hout, ih hat, flatten_cons, xorFrom_append]

/-- Four blocks at once, and pieces of any lengths, give the bytes of one scalar call. -/
theorem sse2_and_stream_eq_scalar (key nonce : Bytes) (counter : UInt32) (impl : Impl) (data : Bytes)
    (pieces : List Bytes) : xorSse2 key counter nonce data = xorScalar key counter nonce data ∧
      streamXorAll impl (streamInit key nonce counter) pieces = xorScalar key counter nonce pieces.flatten := by
  have hzero : counter + UInt32.ofNat 0 = counter := UInt32.add_zero counter
  have hscalar (data : Bytes) := xorScalar_eq key counter nonce 0 data
  have hsse2 := Impl.xor_eq key counter nonce .sse2 0 data
  simp only [hzero] at hscalar hsse2
  constructor
  · exact hsse2.trans (hscalar data).symm
  · rw [hscalar]
    exact (Stream.At.init key nonce counter).streamXorAll impl pieces

end ChaCha20
