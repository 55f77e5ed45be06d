import Picoweb.Lib.ByteFile

/-!
# The write-fence client

`picowal_fence.c`: the frame a check accepts from the control plane, and `picowal_fence_check`, which
keeps the granted lease until it expires on the client's own clock.
-/

namespace Fence

open ByteFile

abbrev magic : ℕ := 0x434E4546
abbrev version : ℕ := 1
abbrev respSize : ℕ := 12
abbrev clientLeaseCapMs : ℕ := 500

/-- `struct picowal_fence`, of which only the lease changes after it was made. -/
structure Client where
  leaseExpiryMs : ℕ := 0
  deriving DecidableEq, Repr

/-- What `do_check` makes of the response frame: the status byte and the lease. No frame stands for a
connection that failed or timed out. -/
def doCheck (resp : Option Bytes) : Option (ℕ × ℕ) :=
  match resp with
  | none => none
  | some r =>
    if r.length < respSize then none
    else if leNat (r.take 4) ≠ magic ∨ leNat ((r.drop 4).take 1) ≠ version then none
    else some (leNat ((r.drop 5).take 1), leNat ((r.drop 8).take 4))

def response (status leaseMs : ℕ) : Bytes :=
  leBytes 4 magic ++ [UInt8.ofNat version, UInt8.ofNat status, 0, 0] ++ leBytes 4 leaseMs

/-- The first half of `picowal_fence_check`: whether the lease in hand covers the moment `now`. -/
def Client.leased (f : Client) (now : ℕ) : Bool := f.leaseExpiryMs ≠ 0 && now < f.leaseExpiryMs

/-- The second half, once the response is in: the answer, and the lease kept from the clock reading
`now` after the round trip. -/
def Client.settle (f : Client) (resp : Option Bytes) (now : ℕ) : Bool × Client :=
  match doCheck resp with
  | some (0, leaseMs) => (true, { f with leaseExpiryMs := now + min leaseMs clientLeaseCapMs })
  | _ => (false, { f with leaseExpiryMs := 0 })

/-- `picowal_fence_check`, with the clock read at `now`, and again at `now'` if a round trip was made
that brought `resp`. -/
def picowalFenceCheck (f : Client) (now : ℕ) (resp : Option Bytes) (now' : ℕ) : Bool × Client :=
  if f.leased now then (true, f) else f.settle resp now'

end Fence
