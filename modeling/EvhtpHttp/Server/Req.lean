import EvhtpHttp.Support.MachineInt
import EvhtpHttp.Support.Numeral

/-!
# Server requests

`struct req` of `src/srv/http.c`, and the functions that work on one `struct
req` alone.  `size_t` and `off_t` have 64 bits; `malloc` leaves what the memory
held before in the fields that `req_create` does not set.
-/

namespace EvhtpHttp.Server

open EvhtpHttp.Support

/-- `req_type_t`. -/
inductive ReqType
  | none
  | line
  | size
deriving Repr, DecidableEq

/-- `evhtp_request_t *`: the number of the request. -/
abbrev EvhtpPtr := ℕ

/-- `struct req`. -/
structure Req where
  req : Option EvhtpPtr
  reqType : ReqType
  replySize : ℕ
  currentOfs : ℤ
  curCount : ℤ
  maxCount : ℤ
  buf : Option (List UInt8)
  bufSize : ℕ
  refcnt : ℤ
deriving Repr, DecidableEq

/-- A `struct req` in memory that held zeros. -/
def Req.zero : Req where
  req := none
  reqType := .none
  replySize := 0
  currentOfs := 0
  curCount := 0
  maxCount := 0
  buf := none
  bufSize := 0
  refcnt := 0

/-- `req_create`.  `ok` is the outcome of `malloc`, `junk` what its memory held. -/
def reqCreate (ok : Bool) (junk : Req) (req : EvhtpPtr) : Option Req :=
  if ok then some { junk with reqType := .none, req := some req, refcnt := 1, buf := none }
  else none

/-- `req_set_type_line`: the request and the return code. -/
def reqSetTypeLine (maxCount : ℤ) (r : Req) : Req × ℤ :=
  ({ r with reqType := .line, maxCount := maxCount, curCount := 0 }, 0)

/-- The size of the buffer that `req_set_type_buf` allocates. -/
def reqBufSize : ℕ := 65536

/-- `'\n'`. -/
def newline : UInt8 := 10

/-- The loop of `req_set_type_buf` that fills the buffer, with `n` bytes to go,
from the loop variables `i` and `j` on. -/
def reqFill : ℕ → ℕ → ℕ → List UInt8
  | 0, _, _ => []
  | n + 1, i, j =>
    if i % 41 = 0 then newline :: reqFill n (i + 1) j
    else UInt8.ofNat (65 + j % 26) :: reqFill n (i + 1) (j + 1)

/-- The buffer after the loop, whose last byte is a newline too. -/
def reqBuf : List UInt8 :=
  reqFill (reqBufSize - 1) 0 0 ++ [newline]

/-- `req_set_type_buf`: the request and the return code.  `ok` is the outcome of
`malloc`; without memory the type stays as it was. -/
def reqSetTypeBuf (ok : Bool) (replySize : ℕ) (r : Req) : Req × ℤ :=
  if ok then
    ({ r with
        buf := some reqBuf
        bufSize := reqBufSize
        reqType := .size
        replySize := replySize
        currentOfs := 0 }, 0)
  else ({ r with buf := none }, -1)

/-! ## The size parameter -/

def ullongMax : ℕ := 2 ^ 64 - 1

/-- `strtoull` with base 10: white space, a sign and as many digits as there
are; the value of no digits is 0, a value out of range becomes `ULLONG_MAX`,
and a value after a minus sign is negated in the unsigned type. -/
def strtoull (s : List Char) : ℕ :=
  let signed := numberSign (s.dropWhile isSpace)
  let n := digitsValue (signed.2.takeWhile Char.isDigit)
  if n > ullongMax then ullongMax
  else if signed.1 then uint64Sub 0 n
  else n

theorem strtoull_le (s : List Char) : strtoull s ≤ ullongMax := by
  simp only [strtoull]
  split
  · exact le_refl _
  · rename_i hle
    split
    · exact Nat.le_pred_of_lt (Nat.mod_lt _ (by decide))
    · exact not_lt.mp hle

end EvhtpHttp.Server
