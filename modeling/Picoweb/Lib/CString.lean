import Picoweb.Lib.ByteText

/-!
# C strings

What the C library's string functions do to a string in the C locale. A string is the list of its
bytes before the terminating zero.
-/

namespace CString

open ByteFile ByteText

/-- The string that starts at the first byte of a buffer. -/
def cstr (buf : Bytes) : Bytes := buf.takeWhile (· ≠ 0)

/-- `isspace`. -/
def isSpace (b : UInt8) : Bool := (9 ≤ b && b ≤ 13) || b = 32

def skipWs (s : Bytes) : Bytes := s.dropWhile isSpace

def trim (s : Bytes) : Bytes := (s.rdropWhile isSpace).dropWhile isSpace

/-- The tokens that `strtok_r` cuts at `sep`: it skips empty ones. -/
def tokens (sep : UInt8) (s : Bytes) : List Bytes := (s.splitOn sep).filter (· ≠ [])

/-- What `snprintf` with `%s` leaves of a string in a buffer of `cap` bytes. -/
def truncate (cap : ℕ) (s : Bytes) : Bytes := s.take (cap - 1)

/-- `strtoll` in base 10: the value, what follows the number, and whether it was out of range. Without
digits nothing is consumed. -/
def strtoll (s : Bytes) : ℤ × Bytes × Bool :=
  let t := skipWs s
  let negative := t.head? = some 45
  let u := if t.head? = some 45 ∨ t.head? = some 43 then t.tail else t
  let digits := u.takeWhile isDigit
  if digits = [] then (0, s, false)
  else
    let v : ℤ := if negative then -(decimal digits : ℤ) else decimal digits
    let rest := u.dropWhile isDigit
    if v < -2 ^ 63 then (-2 ^ 63, rest, true)
    else if 2 ^ 63 ≤ v then (2 ^ 63 - 1, rest, true)
    else (v, rest, false)

end CString
