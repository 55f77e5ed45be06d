import Picoweb.Lib.ByteFile

/-!
# Non-blocking sockets

What the kernel tells a program that waits for readiness: the bits of an event, and the result of each
read. What the peer has sent and nobody has read is a byte list, from which a read takes some.
-/

namespace Sockets

open ByteFile

/-- The bits of an epoll event. -/
structure Ready where
  err : Bool := false
  rdhup : Bool := false
  hup : Bool := false
  input : Bool := false
  output : Bool := false
  deriving DecidableEq, Repr

/-- The result of one read; a read of `data n` takes what fits, and blocks where nothing is there. -/
inductive ReadResult
  | data (n : ℕ)
  | eintr
  | again
  | eof
  | error
  deriving DecidableEq, Repr

/-- What a series of reads delivers into `room` bytes. -/
def received : List ReadResult → ℕ → Bytes → Bytes
  | .data n :: reads, room, inbox =>
    let got := inbox.take (min n room)
    if got = [] then [] else got ++ received reads (room - got.length) (inbox.drop got.length)
  | .eintr :: reads, room, inbox => received reads room inbox
  | _, _, _ => []

lemma received_zero (reads : List ReadResult) (inbox : Bytes) : received reads 0 inbox = [] := by
  induction reads with
  | nil => rfl
  | cons read reads ih =>
    cases read with
    | data n => simp [received]
    | eintr => exact ih
    | again | eof | error => rfl

end Sockets
