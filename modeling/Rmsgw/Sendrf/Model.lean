/- sendrf(): the translated copy of a buffer, and the loop that sends the caller's. -/

import Rmsgw.Lib.Cursor
import Rmsgw.Lib.Process
import Rmsgw.Rms

set_option autoImplicit false
set_option relaxedAutoImplicit false

namespace Rmsgw.Sendrf.Model

open Rmsgw.Lib.Cursor Rmsgw.Lib.Process Rmsgw.Rms

/-- Translate UNIX newline. -/
def srfEolxlate : UInt32 := 1

/-- Add a final end of line on send. -/
def srfAddeol : UInt32 := 2

def newline : UInt8 := 10

def carriageReturn : UInt8 := 13

/-- The memory of the caller, by offsets from `buf`. -/
abbrev Memory := Int → UInt8

structure Call where
  len : Nat
  opts : UInt32

def Call.eolxlate (c : Call) : Bool := c.opts &&& srfEolxlate != 0

def Call.addeol (c : Call) : Bool := c.opts &&& srfAddeol != 0

/-- Length of the internal send buffer. -/
def Call.slen (c : Call) : Nat := if c.addeol then c.len + 1 else c.len

/-- The passed buffer. -/
def buf (mem : Memory) (c : Call) : List UInt8 := (List.range c.len).map (fun i : Nat => mem i)

/-- One turn of the copying loop. -/
def translateByte (c : Call) (b : UInt8) : UInt8 :=
  if b = newline then if c.eolxlate then carriageReturn else b
  else b

/-- The internal buffer; syslog() and free() are all that it goes to. -/
def sbuf (mem : Memory) (c : Call) : List UInt8 :=
  (buf mem c).map (translateByte c) ++ if c.addeol then [carriageReturn] else []

inductive Pc
  | malloc
  | write
  | returned (r : Int)
  deriving DecidableEq

inductive Answer
  | malloc (ok : Bool)
  | write (r : WriteResult)
  deriving DecidableEq

/-- `cursor` is where `buf` points, as an offset from its value at the call; `taken`
are the offsets that write() has taken, in order. -/
structure State where
  pc : Pc
  cursor : Int
  nleft : Int
  retryCount : Nat
  taken : List Int
  deriving DecidableEq

def start : State := ⟨.malloc, 0, 0, 0, []⟩

/-- The test of the send loop. -/
def loopTest (c : Call) (s : State) : State :=
  if 0 < s.nleft then { s with pc := .write }
  else { s with pc := .returned (c.slen - s.nleft) }

/-- `nleft -= nwritten, buf += nwritten`. -/
def advance (c : Call) (s : State) (nwritten : Int) : State :=
  loopTest c { s with nleft := s.nleft - nwritten, cursor := s.cursor + nwritten }

def onWrite (c : Call) (s : State) : WriteResult → Option State
  | .wrote m =>
      if (m : Int) ≤ s.nleft then
        some (advance c { s with retryCount := 0, taken := s.taken ++ span s.cursor m } m)
      else none
  | .eagain =>
      let s := { s with retryCount := s.retryCount + 1 }
      if 15 < s.retryCount then some { s with pc := .returned (-1) }
      -- both the `continue` and the end of the body get to the step expression
      else some (advance c s (-1))
  | .failed => some { s with pc := .returned (-1) }

def step (c : Call) (s : State) (a : Answer) : Option State :=
  match s.pc, a with
  | .malloc, .malloc true => some (loopTest c { s with nleft := c.slen })
  | .malloc, .malloc false => some { s with pc := .returned (-1) }
  | .write, .write r => onWrite c s r
  | _, _ => none

/-- A call that gets its internal buffer, over the outcomes of its writes. -/
def sendrf (c : Call) (rs : List WriteResult) : Option State :=
  run (step c) start (.malloc true :: rs.map Answer.write)

def State.returned (s : State) : Option Int :=
  match s.pc with
  | .returned r => some r
  | _ => none

/-- The bytes written to the descriptor. -/
def State.written (mem : Memory) (s : State) : List UInt8 := s.taken.map mem

end Rmsgw.Sendrf.Model
