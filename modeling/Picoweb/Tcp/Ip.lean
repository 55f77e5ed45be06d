import Picoweb.Lib.BoundedReader

/-!
# Frames of the userspace stack

`ip.c` and `udp.c` take a frame apart into its IPv4 header, its TCP or UDP header and a payload that stays
where it is. Lengths come from the frame and are subtracted from each other before they are compared, and the
checksums run over what the subtractions give.
-/

namespace Ip

open ByteFile Bounded

/-! ### Checksums -/

def rd16 (frame : Bytes) (pos : ℕ) : Parse UInt16 := do
  let hi ← fetch frame pos
  let lo ← fetch frame (pos + 1)
  pure ((hi.toUInt16 <<< 8) ||| lo.toUInt16)

def rd32 (frame : Bytes) (pos : ℕ) : Parse UInt32 := do
  let a ← fetch frame pos
  let b ← fetch frame (pos + 1)
  let c ← fetch frame (pos + 2)
  let d ← fetch frame (pos + 3)
  pure ((a.toUInt32 <<< 24) ||| (b.toUInt32 <<< 16) ||| (c.toUInt32 <<< 8) ||| d.toUInt32)

def low16 (x : UInt32) : UInt32 := x &&& 0xffff

def high16 (x : UInt32) : UInt32 := x >>> 16

/-- The loop over `n` words from index `i` on; the word at `skipped` is left out. -/
def sumWords (frame : Bytes) (base : ℕ) (skipped : Option ℕ) : ℕ → ℕ → UInt32 → Parse UInt32
  | 0, _, sum => pure sum
  | n + 1, i, sum =>
    if skipped = some i then sumWords frame base skipped n (i + 2) sum
    else do
      let hi ← fetch frame (base + i)
      let lo ← fetch frame (base + i + 1)
      sumWords frame base skipped n (i + 2) (sum + ((hi.toUInt32 <<< 8) ||| lo.toUInt32))

/-- The words of `len` bytes, the last one padded by zero. -/
def sumBytes (frame : Bytes) (base len : ℕ) (skipped : Option ℕ) (sum : UInt32) : Parse UInt32 := do
  let sum ← sumWords frame base skipped (len / 2) 0 sum
  if len % 2 = 1 then do
    let last ← fetch frame (base + (len - 1))
    pure (sum + (last.toUInt32 <<< 8))
  else pure sum

def foldCarries : ℕ → UInt32 → Parse UInt32
  | 0, _ => .error .stuck
  | fuel + 1, sum =>
    if high16 sum = 0 then pure sum else foldCarries fuel (low16 sum + high16 sum)

def complement (sum : UInt32) : UInt16 := (low16 (~~~sum)).toUInt16

def inetCsum (frame : Bytes) (len : ℕ) : Parse UInt16 := do
  let sum ← sumBytes frame 0 len none 0
  let sum ← foldCarries 4 sum
  pure (complement sum)

/-- The checksum over the pseudo-header and `len` bytes, with the checksum field at `field` taken as zero. -/
def transportChecksum (proto : UInt8) (field : ℕ) (srcIp dstIp : UInt32) (frame : Bytes) (base len : ℕ) :
    Parse UInt16 := do
  let pseudo := low16 (high16 srcIp) + low16 srcIp + low16 (high16 dstIp) + low16 dstIp + proto.toUInt32 +
    UInt32.ofNat len
  let sum ← sumBytes frame base len (some field) pseudo
  let sum ← foldCarries 4 sum
  pure (complement sum)

abbrev ipprotoTcp : UInt8 := 6

abbrev ipprotoUdp : UInt8 := 17

def tcpChecksum (srcIp dstIp : UInt32) (frame : Bytes) (tcp tcpLen : ℕ) : Parse UInt16 :=
  transportChecksum ipprotoTcp 16 srcIp dstIp frame tcp tcpLen

/-- A checksum of zero is sent as `0xffff`, since zero stands for no checksum. -/
def udpChecksum (srcIp dstIp : UInt32) (frame : Bytes) (udp udpLen : ℕ) : Parse UInt16 := do
  let cs ← transportChecksum ipprotoUdp 6 srcIp dstIp frame udp udpLen
  pure (if cs = 0 then 0xffff else cs)

/-! ### The parsers -/

abbrev ipv4HeaderLen : ℕ := 20

abbrev tcpHeaderLen : ℕ := 20

abbrev udpHeaderLen : ℕ := 8

structure Ipv4 where
  ihl : ℕ
  total : ℕ
  srcIp : UInt32
  dstIp : UInt32
  deriving DecidableEq, Repr

/-- The checks of the IPv4 header, with which both parsers begin. -/
def ipv4Header (proto : UInt8) (frame : Bytes) : Parse Ipv4 :=
  if frame.length < ipv4HeaderLen then reject
  else do
    let b ← fetch frame 0
    if b >>> 4 ≠ 4 then reject
    else
      let ihl := (b &&& 0x0f).toNat * 4
      if ihl < ipv4HeaderLen ∨ frame.length < ihl then reject
      else do
        let p ← fetch frame 9
        if p ≠ proto then reject
        else do
          let total ← rd16 frame 2
          if frame.length < total.toNat then reject
          else do
            let csum ← inetCsum frame ihl
            if csum ≠ 0 then reject
            else do
              let srcIp ← rd32 frame 12
              let dstIp ← rd32 frame 16
              pure ⟨ihl, total.toNat, srcIp, dstIp⟩

/-- `tcp_seg_t`; the payload is a range of the frame. -/
structure TcpSeg where
  srcIp : UInt32
  dstIp : UInt32
  srcPort : UInt16
  dstPort : UInt16
  seq : UInt32
  ack : UInt32
  window : UInt16
  flags : UInt8
  payload : ℕ
  payloadLen : ℕ
  deriving DecidableEq, Repr

def tcpFields (frame : Bytes) (ip : Ipv4) (tcpLen doff : ℕ) : Parse TcpSeg := do
  let srcPort ← rd16 frame ip.ihl
  let dstPort ← rd16 frame (ip.ihl + 2)
  let seq ← rd32 frame (ip.ihl + 4)
  let ack ← rd32 frame (ip.ihl + 8)
  let flags ← fetch frame (ip.ihl + 13)
  let window ← rd16 frame (ip.ihl + 14)
  pure { srcIp := ip.srcIp, dstIp := ip.dstIp, srcPort, dstPort, seq, ack, window, flags
         payload := ip.ihl + doff, payloadLen := tcpLen - doff }

/-- What `ip_tcp_parse_ex` does with the `tcpLen` bytes behind the IPv4 header. -/
def tcpSegment (frame : Bytes) (skipCsum : Bool) (ip : Ipv4) (tcpLen : ℕ) : Parse TcpSeg :=
  if tcpLen < tcpHeaderLen then reject
  else if frame.length < sizeAdd ip.ihl tcpLen then reject
  else do
    let b ← fetch frame (ip.ihl + 12)
    let doff := ((b >>> 4) &&& 0x0f).toNat * 4
    if doff < tcpHeaderLen ∨ tcpLen < doff then reject
    else if skipCsum then tcpFields frame ip tcpLen doff
    else do
      let csum ← tcpChecksum ip.srcIp ip.dstIp frame ip.ihl tcpLen
      let wire ← rd16 frame (ip.ihl + 16)
      if csum ≠ wire then reject else tcpFields frame ip tcpLen doff

def ipTcpParseEx (frame : Bytes) (skipCsum : Bool) : Parse TcpSeg := do
  let ip ← ipv4Header ipprotoTcp frame
  tcpSegment frame skipCsum ip (sizeSub ip.total ip.ihl)

/-- `udp_dgram_t`; the payload is a range of the frame. -/
structure UdpDgram where
  srcIp : UInt32
  dstIp : UInt32
  srcPort : UInt16
  dstPort : UInt16
  payload : ℕ
  payloadLen : ℕ
  deriving DecidableEq, Repr

def udpFields (frame : Bytes) (ip : Ipv4) (udpLen : ℕ) : Parse UdpDgram := do
  let srcPort ← rd16 frame ip.ihl
  let dstPort ← rd16 frame (ip.ihl + 2)
  pure { srcIp := ip.srcIp, dstIp := ip.dstIp, srcPort, dstPort
         payload := ip.ihl + udpHeaderLen, payloadLen := udpLen - udpHeaderLen }

def ipUdpParseEx (frame : Bytes) (skipCsum : Bool) : Parse UdpDgram := do
  let ip ← ipv4Header ipprotoUdp frame
  if ip.total < ip.ihl + udpHeaderLen then reject
  else
    let udpTotal := sizeSub ip.total ip.ihl
    if frame.length < sizeAdd ip.ihl udpTotal then reject
    else do
      let udpLen ← rd16 frame (ip.ihl + 4)
      if udpLen.toNat < udpHeaderLen then reject
      else if udpTotal < udpLen.toNat then reject
      else do
        let wire ← rd16 frame (ip.ihl + 6)
        if skipCsum ∨ wire = 0 then udpFields frame ip udpLen.toNat
        else do
          let csum ← udpChecksum ip.srcIp ip.dstIp frame ip.ihl udpLen.toNat
          if csum ≠ wire then reject else udpFields frame ip udpLen.toNat

/-! ### Reads inside the frame -/

section Reads

variable {frame : Bytes}

lemma rd16_ensures {pos : ℕ} (h : pos + 2 ≤ frame.length) : Ensures (rd16 frame pos) fun _ => True := by
  refine .fetch (by omega) fun _ _ => ?_
  exact .fetch (by omega) fun _ _ => trivial

lemma rd32_ensures {pos : ℕ} (h : pos + 4 ≤ frame.length) : Ensures (rd32 frame pos) fun _ => True := by
  refine .fetch (by omega) fun _ _ => ?_
  refine .fetch (by omega) fun _ _ => ?_
  refine .fetch (by omega) fun _ _ => ?_
  exact .fetch (by omega) fun _ _ => trivial

lemma sumWords_ensures {base n i : ℕ} {skipped : Option ℕ} {sum : UInt32} (h : base + i + 2 * n ≤ frame.length) :
    Ensures (sumWords frame base skipped n i sum) fun _ => True := by
  induction n generalizing i sum with
  | zero => trivial
  | succ n ih =>
    refine .ite (fun _ => ih (by omega)) fun _ => ?_
    refine .fetch (by omega) fun _ _ => ?_
    exact .fetch (by omega) fun _ _ => ih (by omega)

lemma sumBytes_ensures {base len : ℕ} {skipped : Option ℕ} {sum : UInt32} (h : base + len ≤ frame.length) :
    Ensures (sumBytes frame base len skipped sum) fun _ => True := by
  refine .bind (sumWords_ensures (by omega)) fun _ _ => ?_
  refine .ite (fun hodd => ?_) fun _ => trivial
  exact .fetch (by omega) fun _ _ => trivial

lemma toNat_low16 (x : UInt32) : (low16 x).toNat = x.toNat % 65536 := by
  exact Nat.and_two_pow_sub_one_eq_mod x.toNat 16

lemma toNat_high16 (x : UInt32) : (high16 x).toNat = x.toNat / 65536 := by
  exact Nat.shiftRight_eq_div_pow x.toNat 16

lemma toNat_low16_add_high16 (x : UInt32) : (low16 x + high16 x).toNat = x.toNat % 65536 + x.toNat / 65536 := by
  have hlt := x.toNat_lt
  rw [UInt32.toNat_add, toNat_low16, toNat_high16]
  omega

lemma foldCarries_of_lt {sum : UInt32} (fuel : ℕ) (h : sum.toNat < 65536) : foldCarries (fuel + 1) sum = .ok sum := by
  have hdone : high16 sum = 0 := by
    apply UInt32.toNat_inj.1
    rw [toNat_high16]
    exact Nat.div_eq_of_lt h
  rw [foldCarries, if_pos hdone]
  rfl

/-- After two turns at most one carry is left, and after three none. -/
lemma foldCarries_ensures (sum : UInt32) : Ensures (foldCarries 4 sum) fun _ => True := by
  have hlt := sum.toNat_lt
  refine .ite (fun _ => trivial) fun _ => ?_
  have h₁ := toNat_low16_add_high16 sum
  generalize low16 sum + high16 sum = s₁ at h₁ ⊢
  refine .ite (fun _ => trivial) fun _ => ?_
  have h₂ := toNat_low16_add_high16 s₁
  generalize low16 s₁ + high16 s₁ = s₂ at h₂ ⊢
  refine .ite (fun _ => trivial) fun _ => ?_
  have h₃ := toNat_low16_add_high16 s₂
  rw [foldCarries_of_lt 0 (by omega)]
  trivial

lemma inetCsum_ensures {len : ℕ} (h : len ≤ frame.length) : Ensures (inetCsum frame len) fun _ => True := by
  refine .bind (sumBytes_ensures (by omega)) fun sum _ => ?_
  exact .bind (foldCarries_ensures sum) fun _ _ => trivial

lemma transportChecksum_ensures {proto : UInt8} {field base len : ℕ} {srcIp dstIp : UInt32}
    (h : base + len ≤ frame.length) :
    Ensures (transportChecksum proto field srcIp dstIp frame base len) fun _ => True := by
  refine .bind (sumBytes_ensures h) fun sum _ => ?_
  exact .bind (foldCarries_ensures sum) fun _ _ => trivial

lemma ipv4Header_ensures (proto : UInt8) (frame : Bytes) : Ensures (ipv4Header proto frame) fun ip =>
      ip.total ≤ frame.length ∧ ipv4HeaderLen ≤ ip.ihl ∧ ip.ihl ≤ frame.length ∧ ip.ihl % 4 = 0 ∧ ip.ihl ≤ 60 := by
  refine .check fun hshort => ?_
  have hlen : 20 ≤ frame.length := Nat.not_lt.1 hshort
  refine .fetch (by omega) fun b _ => ?_
  refine .check fun _ => .check fun hihl => ?_
  obtain ⟨hmin, hmax⟩ := not_or.1 hihl
  refine .fetch (by omega) fun _ _ => ?_
  refine .check fun _ => ?_
  refine .bind (rd16_ensures (by omega)) fun total _ => ?_
  refine .check fun htotal => ?_
  refine .bind (inetCsum_ensures (by omega)) fun _ _ => ?_
  refine .check fun _ => ?_
  refine .bind (rd32_ensures (by omega)) fun _ _ => ?_
  refine .bind (rd32_ensures (by omega)) fun _ _ => ?_
  have hnibble : (b &&& 0x0f).toNat ≤ 15 := by
    exact Nat.and_le_right
  exact ⟨Nat.not_lt.1 htotal, Nat.not_lt.1 hmin, Nat.not_lt.1 hmax, Nat.mul_mod_left _ _, by dsimp only; omega⟩

variable {ip : Ipv4}

lemma tcpFields_ensures (tcpLen doff : ℕ) (h : ip.ihl + 16 ≤ frame.length) :
    Ensures (tcpFields frame ip tcpLen doff) fun seg =>
      seg.payload = ip.ihl + doff ∧ seg.payloadLen = tcpLen - doff := by
  refine .bind (rd16_ensures (by omega)) fun _ _ => ?_
  refine .bind (rd16_ensures (by omega)) fun _ _ => ?_
  refine .bind (rd32_ensures (by omega)) fun _ _ => ?_
  refine .bind (rd32_ensures (by omega)) fun _ _ => ?_
  refine .fetch (by omega) fun _ _ => ?_
  refine .bind (rd16_ensures (by omega)) fun _ _ => ?_
  exact ⟨rfl, rfl⟩

lemma udpFields_ensures (udpLen : ℕ) (h : ip.ihl + 4 ≤ frame.length) :
    Ensures (udpFields frame ip udpLen) fun dgram =>
      dgram.payload = ip.ihl + udpHeaderLen ∧ dgram.payloadLen = udpLen - udpHeaderLen := by
  refine .bind (rd16_ensures (by omega)) fun _ _ => ?_
  refine .bind (rd16_ensures (by omega)) fun _ _ => ?_
  exact ⟨rfl, rfl⟩

end Reads

/-! ### What stays inside -/

/-- The TCP parser reads inside the frame only, and the payload it returns lies inside. -/
def TcpInside (frame : Bytes) (skipCsum : Bool) : Prop :=
  Ensures (ipTcpParseEx frame skipCsum) fun seg => seg.payload + seg.payloadLen ≤ frame.length

/-- The UDP parser reads inside the frame only, and the payload it returns lies inside. -/
def UdpInside (frame : Bytes) (skipCsum : Bool) : Prop :=
  Ensures (ipUdpParseEx frame skipCsum) fun dgram => dgram.payload + dgram.payloadLen ≤ frame.length

/-- The header passes the checks of a TCP frame, but states a total length below its own. The data offset is
behind the end of the frame or passes its check. -/
def TotalShort (frame : Bytes) : Prop :=
  ∃ ip, ipv4Header ipprotoTcp frame = .ok ip ∧ ip.total < ip.ihl ∧
    ∀ b, frame[ip.ihl + 12]? = some b → tcpHeaderLen ≤ ((b >>> 4) &&& 0x0f).toNat * 4

section Inside

variable {frame : Bytes} {skipCsum : Bool}

/-- The UDP parser compares before it subtracts. -/
lemma udpInside (hlen : frame.length < 2 ^ 64) : UdpInside frame skipCsum := by
  refine .bind (ipv4Header_ensures ipprotoUdp frame) fun ip hip => ?_
  refine .check fun hroom => ?_
  have hsub : sizeSub ip.total ip.ihl = ip.total - ip.ihl := sizeSub_of_le (by omega) (by omega)
  have hfits : ip.ihl + udpHeaderLen ≤ frame.length := by omega
  simp only [udpHeaderLen] at hroom hfits
  refine .check fun _ => ?_
  refine .bind (rd16_ensures (by omega)) fun udpLen _ => ?_
  refine .check fun hshort => .check fun hlong => ?_
  have hports : ip.ihl + 4 ≤ frame.length := by omega
  have hfields := (udpFields_ensures udpLen.toNat hports).mono
    (Q := fun dgram => dgram.payload + dgram.payloadLen ≤ frame.length) fun dgram hd => by
      omega
  refine .bind (rd16_ensures (by omega)) fun wire _ => ?_
  refine .ite (fun _ => hfields) fun _ => ?_
  refine .bind (P := fun _ => True) ?_ fun _ _ => .check fun _ => hfields
  exact .bind (transportChecksum_ensures (by omega)) fun _ _ => trivial

variable {ip : Ipv4} {tcpLen : ℕ}

/-- A length that is right. -/
lemma tcpSegment_ensures (h : ip.ihl + tcpLen ≤ frame.length) :
    Ensures (tcpSegment frame skipCsum ip tcpLen) fun seg => seg.payload + seg.payloadLen ≤ frame.length := by
  refine .check fun hshort => .check fun _ => ?_
  have hlong : 20 ≤ tcpLen := Nat.not_lt.1 hshort
  refine .fetch (by omega) fun b _ => ?_
  refine .check fun hdoff => ?_
  have hheader : ip.ihl + 16 ≤ frame.length := by omega
  have hfields := (tcpFields_ensures tcpLen (((b >>> 4) &&& 0x0f).toNat * 4) hheader).mono
    (Q := fun seg => seg.payload + seg.payloadLen ≤ frame.length) fun seg hs => by
      omega
  refine .ite (fun _ => hfields) fun _ => ?_
  refine .bind (transportChecksum_ensures h) fun _ _ => ?_
  refine .bind (rd16_ensures (by omega)) fun _ _ => ?_
  exact .check fun _ => hfields

/-- A data offset that fails its check. -/
lemma tcpSegment_ensures_of_offset {b : UInt8} {P : TcpSeg → Prop} (tcpLen : ℕ)
    (hb : frame[ip.ihl + 12]? = some b) (hdoff : ((b >>> 4) &&& 0x0f).toNat * 4 < tcpHeaderLen) :
    Ensures (tcpSegment frame skipCsum ip tcpLen) P := by
  refine .check fun _ => .check fun _ => ?_
  rw [fetch, hb]
  exact .check fun hok => absurd (.inl hdoff) hok

lemma ipTcpParseEx_of_header (hip : ipv4Header ipprotoTcp frame = .ok ip) :
    ipTcpParseEx frame skipCsum = tcpSegment frame skipCsum ip (sizeSub ip.total ip.ihl) := by
  rw [ipTcpParseEx, hip, ok_bind]

/-- The TCP parser subtracts first, and the difference is right as long as the total length is not too short. -/
lemma tcpInside (hlen : frame.length < 2 ^ 64) (h : ¬ TotalShort frame) : TcpInside frame skipCsum := by
  have hheader := ipv4Header_ensures ipprotoTcp frame
  cases hip : ipv4Header ipprotoTcp frame with
  | error e =>
    rw [TcpInside, ipTcpParseEx, hip]
    rw [hip] at hheader
    exact hheader
  | ok ip =>
    rw [TcpInside, ipTcpParseEx_of_header hip]
    rw [hip] at hheader
    obtain ⟨htotal, hmin, hihl, -, -⟩ := hheader
    by_cases hle : ip.ihl ≤ ip.total
    · have hsub : sizeSub ip.total ip.ihl = ip.total - ip.ihl := sizeSub_of_le hle (by omega)
      apply tcpSegment_ensures
      omega
    · rw [TotalShort] at h
      push Not at h
      obtain ⟨b, hb, hdoff⟩ := h ip hip (Nat.not_le.1 hle)
      exact tcpSegment_ensures_of_offset _ hb hdoff

/-! ### What does not -/

/-- A word that is not left out and does not end inside the frame. -/
lemma sumWords_fault {base n i j : ℕ} {skipped : Option ℕ} {sum : UInt32} (hj : j < n)
    (hskip : skipped ≠ some (i + 2 * j)) (hout : frame.length ≤ base + (i + 2 * j) + 1) :
    sumWords frame base skipped n i sum = .error .fault := by
  induction n generalizing i j sum with
  | zero => omega
  | succ n ih =>
    have hrest (hpos : j ≠ 0) (sum : UInt32) : sumWords frame base skipped n (i + 2) sum = .error .fault := by
      have hshift : i + 2 + 2 * (j - 1) = i + 2 * j := by omega
      apply ih (j := j - 1) (by omega)
      · rwa [hshift]
      · rwa [hshift]
    rw [sumWords]
    split
    · rename_i hi
      apply hrest
      rintro rfl
      exact hskip hi
    · rcases fetch_cases frame (base + i) with ⟨hi, -, hfetch⟩ | hfault
      · rw [hfetch]
        rcases fetch_cases frame (base + i + 1) with ⟨lo, hlo, hfetch⟩ | hfault
        · rw [hfetch]
          apply hrest
          rintro rfl
          exact absurd hout (Nat.not_le.2 (List.getElem?_eq_some_iff.1 hlo).1)
        · rw [hfault]
          rfl
      · rw [hfault]
        rfl

lemma rd16_neverRejects (pos : ℕ) : NeverRejects (rd16 frame pos) :=
  .bind (fetch_neverRejects _ _) fun _ => .bind (fetch_neverRejects _ _) fun _ => nofun

lemma rd32_neverRejects (pos : ℕ) : NeverRejects (rd32 frame pos) :=
  .bind (fetch_neverRejects _ _) fun _ => .bind (fetch_neverRejects _ _) fun _ =>
    .bind (fetch_neverRejects _ _) fun _ => .bind (fetch_neverRejects _ _) fun _ => nofun

lemma tcpFields_neverRejects (ip : Ipv4) (tcpLen doff : ℕ) : NeverRejects (tcpFields frame ip tcpLen doff) :=
  .bind (rd16_neverRejects _) fun _ => .bind (rd16_neverRejects _) fun _ => .bind (rd32_neverRejects _) fun _ =>
    .bind (rd32_neverRejects _) fun _ => .bind (fetch_neverRejects _ _) fun _ => .bind (rd16_neverRejects _)
      fun _ => nofun

lemma tcpFields_eq_ok {doff : ℕ} {seg : TcpSeg} (h : tcpFields frame ip tcpLen doff = .ok seg) :
    seg.payload = ip.ihl + doff ∧ seg.payloadLen = tcpLen - doff := by
  obtain ⟨_, -, h⟩ := exists_of_bind_ok h
  obtain ⟨_, -, h⟩ := exists_of_bind_ok h
  obtain ⟨_, -, h⟩ := exists_of_bind_ok h
  obtain ⟨_, -, h⟩ := exists_of_bind_ok h
  obtain ⟨_, -, h⟩ := exists_of_bind_ok h
  obtain ⟨_, -, h⟩ := exists_of_bind_ok h
  cases h
  exact ⟨rfl, rfl⟩

/-- A length whose last word ends behind the frame. -/
lemma tcpChecksum_fault {srcIp dstIp : UInt32} {tcp : ℕ} (hlong : 20 ≤ tcpLen)
    (hout : frame.length < tcp + tcpLen ∧ (tcpLen % 2 = 1 → frame.length + 1 < tcp + tcpLen)) :
    tcpChecksum srcIp dstIp frame tcp tcpLen = .error .fault := by
  have hwords (sum : UInt32) : sumWords frame tcp (some 16) (tcpLen / 2) 0 sum = .error .fault := by
    apply sumWords_fault (j := tcpLen / 2 - 1) (by omega)
    · intro hskip
      have := Option.some.inj hskip
      omega
    · omega
  rw [tcpChecksum, transportChecksum, sumBytes, hwords]
  rfl

/-- A length behind the frame that wraps around to one inside: the checksum leaves the frame, and without it the
payload does. -/
lemma not_tcpSegment_ensures (hlong : 60 ≤ tcpLen) (hwrap : sizeAdd ip.ihl tcpLen ≤ frame.length)
    (hout : frame.length < ip.ihl + tcpLen ∧ (tcpLen % 2 = 1 → frame.length + 1 < ip.ihl + tcpLen))
    (hdoff : ∀ b, frame[ip.ihl + 12]? = some b → tcpHeaderLen ≤ ((b >>> 4) &&& 0x0f).toNat * 4) :
    ¬ Ensures (tcpSegment frame skipCsum ip tcpLen) fun seg => seg.payload + seg.payloadLen ≤ frame.length := by
  intro hinside
  rw [tcpSegment, if_neg (by simp only [tcpHeaderLen]; omega), if_neg (Nat.not_lt.2 hwrap)] at hinside
  rcases fetch_cases frame (ip.ihl + 12) with ⟨b, hb, hfetch⟩ | hfault
  · have hnibble : ((b >>> 4) &&& 0x0f).toNat ≤ 15 := by
      exact Nat.and_le_right
    have hok : ¬ (((b >>> 4) &&& 0x0f).toNat * 4 < tcpHeaderLen ∨ tcpLen < ((b >>> 4) &&& 0x0f).toNat * 4) := by
      have := hdoff b hb
      omega
    rw [hfetch] at hinside
    dsimp only [bind, Except.bind] at hinside
    rw [if_neg hok] at hinside
    split at hinside
    · obtain ⟨seg, hseg, hrange⟩ := (tcpFields_neverRejects _ _ _).ok_of_ensures hinside
      obtain ⟨hpayload, hpayloadLen⟩ := tcpFields_eq_ok hseg
      omega
    · rw [tcpChecksum_fault (by omega) hout] at hinside
      cases hinside
  · rw [hfault] at hinside
    cases hinside

lemma not_tcpInside (hlen : frame.length < 2 ^ 64) (h : TotalShort frame) : ¬ TcpInside frame skipCsum := by
  obtain ⟨ip, hip, hlt, hdoff⟩ := h
  have hheader := ipv4Header_ensures ipprotoTcp frame
  rw [hip] at hheader
  obtain ⟨htotal, -, -, hfour, hsixty⟩ := hheader
  have hsub : sizeSub ip.total ip.ihl = ip.total + 2 ^ 64 - ip.ihl := sizeSub_of_lt hlt
  have hadd : sizeAdd ip.ihl (sizeSub ip.total ip.ihl) = ip.total := by
    rw [sizeAdd]
    omega
  rw [TcpInside, ipTcpParseEx_of_header hip]
  apply not_tcpSegment_ensures
  · omega
  · rwa [hadd]
  · omega
  · exact hdoff

end Inside

/-- Both parsers stay inside the frame, except for the TCP parser on a total length that is too short. -/
theorem frames_inside_iff {frame : Bytes} (hlen : frame.length < 2 ^ 64) (skipCsum : Bool) :
    TcpInside frame skipCsum ∧ UdpInside frame skipCsum ↔ ¬ TotalShort frame := by
  constructor
  · intro h hshort
    exact not_tcpInside hlen hshort h.1
  · intro h
    exact ⟨tcpInside hlen h, udpInside hlen⟩

def oneByteFrame : Bytes :=
  [69, 0, 0, 41, 0, 0, 64, 0, 64, 6, 38, 205, 10, 0, 0, 1, 10, 0, 0, 2,
    0, 80, 31, 144, 0, 0, 0, 1, 0, 0, 0, 2, 80, 24, 16, 0, 10, 230, 0, 0, 97]

theorem frames_inside_iff_one_byte :
    (ipTcpParseEx oneByteFrame false).toOption.map (fun seg => (seg.payload, seg.payloadLen)) = some (40, 1) ∧
      TcpInside oneByteFrame false ∧ UdpInside oneByteFrame false := by
  refine ⟨by decide +kernel, (frames_inside_iff (by decide) false).2 ?_⟩
  rintro ⟨ip, hip, hlt, -⟩
  have hheader : ipv4Header ipprotoTcp oneByteFrame = .ok ⟨20, 41, 167772161, 167772162⟩ := by decide +kernel
  cases hheader.symm.trans hip
  exact absurd hlt (by decide)

/-- A header of 20 bytes that states a total length of zero. -/
def emptyFrame : Bytes := [69, 0, 0, 0, 0, 0, 0, 0, 64, 6, 122, 249, 0, 0, 0, 0, 0, 0, 0, 0]

/-- The data offset of the first frame is read behind its end. The second one has a TCP header, and is accepted with
a payload of nearly 2⁶⁴ bytes. -/
theorem total_length_wraps : ipTcpParseEx emptyFrame false = .error .fault ∧
      (ipTcpParseEx (emptyFrame ++ [0, 80, 31, 144, 0, 0, 0, 1, 0, 0, 0, 2, 80, 24, 16, 0, 0, 0, 0, 0]) true).toOption.map
        (fun seg => (seg.payload, seg.payloadLen)) = some (40, 2 ^ 64 - 40) := by
  constructor <;> decide +kernel

end Ip
