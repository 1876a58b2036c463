/- readln(): a line read byte by byte from a descriptor, with the buffer that it
   is stored in and the count that is returned. -/

import Rmsgw.Lib.CStrings

set_option autoImplicit false
set_option relaxedAutoImplicit false

namespace Rmsgw.Readln.Model

open Rmsgw.Lib.CStrings

/-- What `read` reports once there are no more bytes. -/
inductive SourceEnd
  | eof
  | error
  deriving DecidableEq

/-- The bytes that a descriptor still gives, and what comes behind them. -/
structure Source where
  bytes : List UInt8
  ending : SourceEnd
  deriving DecidableEq

/-- `(*buf++ = c) == eol`, where `c` is a signed character. -/
def isEol (eol c : UInt8) : Bool := c < 128 && c == eol

/-- How the loop is left: with the counter at `n`, or by a return out of it. -/
inductive Exit
  | leave (n : Nat)
  | return_ (rc : Int)
  deriving DecidableEq

structure Scan where
  stored : Str
  rest : Source
  exit : Exit
  deriving DecidableEq

def Scan.push (c : UInt8) (s : Scan) : Scan := { s with stored := c :: s.stored }

/-- `for (n = 1; n < maxlen; n++)` with `room` rounds left. -/
def readLoop (eol : UInt8) : Nat → Nat → Source → Scan
  | 0, n, src => ⟨[], src, .leave n⟩
  | room + 1, n, ⟨c :: bytes, ending⟩ =>
      if isEol eol c then ⟨[c], ⟨bytes, ending⟩, .leave n⟩
      else (readLoop eol room (n + 1) ⟨bytes, ending⟩).push c
  | _ + 1, n, ⟨[], .eof⟩ => ⟨[], ⟨[], .eof⟩, if n = 1 then .return_ 0 else .leave n⟩
  | _ + 1, _, ⟨[], .error⟩ => ⟨[], ⟨[], .error⟩, .return_ (-1)⟩

/-- What a call returns and stores; `stored` are the bytes that it put into the buffer. -/
structure Result where
  rc : Int
  stored : Str
  buf : List UInt8
  rest : Source
  deriving DecidableEq

/-- Read a line into `buf`, which has `maxlen` bytes. -/
def readln (src : Source) (buf : List UInt8) (maxlen : Nat) (eol : UInt8) : Result :=
  let s := readLoop eol (maxlen - 1) 1 src
  match s.exit with
  | .leave n => ⟨n, s.stored, strcpy buf s.stored, s.rest⟩
  | .return_ rc => ⟨rc, s.stored, s.stored ++ buf.drop s.stored.length, s.rest⟩

/-- `readln` again and again until it returns 0: what each call stored. `none` is a
caller that has not seen the 0 within `fuel` calls, or has seen an error. -/
def readlns (maxlen : Nat) (eol : UInt8) : Nat → Source → List UInt8 → Option (List Result)
  | 0, _, _ => none
  | fuel + 1, src, buf =>
      let r := readln src buf maxlen eol
      if r.rc = 0 then some []
      else if r.rc < 0 then none
      else (readlns maxlen eol fuel r.rest r.buf).map (r :: ·)

end Rmsgw.Readln.Model
