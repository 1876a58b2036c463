/- The secure gateway login: sglProcess() as a machine that consumes what each
   readln() and each write() returns. -/

import Rmsgw.Lib.Process
import Rmsgw.Rms

set_option autoImplicit false
set_option relaxedAutoImplicit false

namespace Rmsgw.Login.Model

open Rmsgw.Lib.CStrings Rmsgw.Rms

def succeed : Int := 0

def fail : Int := -1

/-- What readln() brings: a line in `rbuf`, the end of the stream or an error. -/
inductive ReadResult
  | line (rbuf : Str)
  | eof
  | error
  deriving DecidableEq

/-- The secure gateway login states. -/
inductive SglState
  | callsign | callsignFail | challenge | challengeFail | responseSent | loginComplete | badState
  deriving DecidableEq

/-- The three lines that the machine sends. -/
inductive Line
  | callsigns | cr | response
  deriving DecidableEq

/-- The transcript of a login: lines read, and lines offered to `write`. -/
inductive Event
  | read (r : ReadResult)
  | send (line : Line) (text : Str) (r : WriteResult)
  deriving DecidableEq

inductive Answer
  | readln (r : ReadResult)
  | write (r : WriteResult)
  deriving DecidableEq

/-- Who logs in: the password and the two callsigns, and the MD5 of the library. -/
structure Credentials where
  passwd : Str
  usercall : Str
  gwcall : Str
  md5 : Str → Fin 16 → UInt8

def salt : Str :=
  [77, 197, 101, 206, 190, 249, 93, 200, 51, 243, 93, 237, 71, 94, 239, 138, 68, 108, 70, 185, 225,
    137, 217, 16, 51, 122, 193, 48, 194, 195, 198, 175, 172, 169, 70, 84, 61, 62, 104, 186, 114, 52,
    61, 168, 66, 129, 192, 208, 187, 249, 232, 193, 41, 113, 41, 45, 240, 16, 29, 228, 208, 228, 61,
    20]

/-- The first four digest bytes, least significant first, without the two top bits. -/
def challengedPassword (md5 : Str → Fin 16 → UInt8) (challengePhrase password : Str) : Nat :=
  let digest := md5 (challengePhrase ++ password ++ salt)
  (digest 0).toNat + 256 * (digest 1).toNat + 65536 * (digest 2).toNat +
    16777216 * ((digest 3) &&& 0x3f).toNat

/-- `%010d`. -/
def tenDigits (v : Nat) : Str :=
  [v / 1000000000, v / 100000000, v / 10000000, v / 1000000, v / 100000, v / 10000, v / 1000,
    v / 100, v / 10, v].map (fun d => UInt8.ofNat (48 + d % 10))

/-- The last eight characters of the computed response string. -/
def sglChallengeResponse (md5 : Str → Fin 16 → UInt8) (challenge pass : Str) : Str :=
  (tenDigits (challengedPassword md5 challenge pass)).drop 2

/-- `sscanf(rbuf, ";SQ: %8s\r", challenge)` on a cleared `challenge`. -/
def scanChallenge (rbuf : Str) : Str :=
  if rbuf.take 4 = lit ";SQ:" then
    (((rbuf.drop 4).dropWhile isspace).takeWhile (fun c => !isspace c)).take 8
  else []

/-- What `write` returns. -/
def writeReturn : WriteResult → Int
  | .wrote count => count
  | .eagain => -1
  | .failed => -1

/-- An `int` converted to `size_t`. -/
def toSizeT (v : Int) : Nat := (v % 18446744073709551616).toNat

/-- `expectsend(sd, "", sendStr, 15)`: with nothing to expect it only writes. The
count written is compared with `strlen`, a `size_t`. -/
def expectsend (sendStr : Str) (nwritten : Int) : Int :=
  if 0 < sendStr.length then
    if toSizeT nwritten < sendStr.length then fail else succeed
  else succeed

def loopLimit : Nat := 3

/-- The machine between two calls: `pending` is the line about to be written,
none when readln() is next. -/
structure State where
  sglState : SglState
  running : Bool
  pending : Option Line
  challenge : Str
  loopCnt : Nat
  log : List Event
  deriving DecidableEq

def initial : State := ⟨.callsign, true, none, [], 0, []⟩

def State.stop (s : State) (sgl : SglState) : State :=
  { s with sglState := sgl, running := false, pending := none }

/-- The text of a line, as formatted into `sbuf`. -/
def lineText (g : Credentials) (s : State) : Line → Str
  | .callsigns => (g.usercall ++ lit " " ++ g.gwcall ++ lit "\r").take 1023
  | .cr => lit "\r"
  | .response =>
      lit ";SR: " ++ sglChallengeResponse g.md5 s.challenge g.passwd ++ lit " 25000001 20\r"

def onCallsign (s : State) : ReadResult → State
  | .line rbuf =>
      if text rbuf = lit "\r" then s
      else if strcasestr (text rbuf) (lit "Callsign :") then { s with pending := some .callsigns }
      else if loopLimit < s.loopCnt then { s with loopCnt := s.loopCnt + 1 }.stop .callsignFail
      else { s with loopCnt := s.loopCnt + 1, pending := some .cr }
  | .eof => s.stop .callsignFail
  | .error => s.stop .callsignFail

def onChallenge (s : State) : ReadResult → State
  | .line rbuf =>
      if text rbuf = lit "\r" then s
      else if strcasestr (text rbuf) (lit ";SQ: ") then
        { s with challenge := scanChallenge (text rbuf), pending := some .response }
      else s.stop .challengeFail
  | .eof => s.stop .challengeFail
  | .error => s.stop .challengeFail

/-- Process what readln() returned according to the current state. -/
def onRead (s : State) (r : ReadResult) : State :=
  let s := { s with log := s.log ++ [Event.read r] }
  match s.sglState with
  | .callsign => onCallsign s r
  | .challenge => onChallenge s r
  | _ => s.stop .badState

def onSend (g : Credentials) (s : State) (line : Line) (r : WriteResult) : State :=
  let text := lineText g s line
  let rc := expectsend text (writeReturn r)
  let s := { s with log := s.log ++ [Event.send line text r], pending := none }
  match line with
  | .callsigns => if rc ≠ 0 then s.stop .callsignFail else { s with sglState := .challenge }
  | .cr => if rc < 0 then s.stop .callsignFail else s
  | .response => if rc < 0 then s.stop .loginComplete else s.stop .responseSent

/-- No `write` takes more bytes than it is offered. -/
def WriteResult.fits (text : Str) : WriteResult → Bool
  | .wrote count => count ≤ text.length
  | _ => true

/-- sglProcess(), from one call to the next. -/
def step (g : Credentials) (s : State) (a : Answer) : Option State :=
  if s.running then
    match s.pending, a with
    | none, .readln r => some (onRead s r)
    | some line, .write r =>
        if WriteResult.fits (lineText g s line) r then some (onSend g s line r) else none
    | _, _ => none
  else none

def returnCode (s : State) : Int :=
  match s.sglState with
  | .callsignFail => fail
  | .challengeFail => fail
  | .badState => fail
  | _ => succeed

end Rmsgw.Login.Model
