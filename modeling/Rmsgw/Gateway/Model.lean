/- The gateway conversation between the rf client and the CMS, one system call
   at a time: gateway() consumes what each call returns and logs what it does. -/

import Rmsgw.Lib.Process
import Rmsgw.Rms

set_option autoImplicit false
set_option relaxedAutoImplicit false

namespace Rmsgw.Gateway.Model

open Rmsgw.Lib.CStrings Rmsgw.Rms

/-- Size of the buffer that both directions share. -/
def bufLen : Nat := 8192

/-- The "keep alive" packet of the CMS. -/
def keepAlive : List UInt8 := lit ";;;;;;\r\n"

/-- What a successful read leaves in the buffer: 1..BUFLEN bytes. -/
structure Chunk where
  bytes : List UInt8
  nonempty : 0 < bytes.length
  fits : bytes.length ≤ bufLen
  deriving DecidableEq

/-- The sense bits FFUP, FQUP, FFDN and FQDN. -/
structure Sense where
  ffup : Bool
  fqup : Bool
  ffdn : Bool
  fqdn : Bool
  deriving DecidableEq

/-- The value of the sense flags: 0x01, 0x02, 0x10 and 0x20. -/
def Sense.mask (s : Sense) : Nat :=
  s.ffup.toNat + 2 * s.fqup.toNat + 16 * s.ffdn.toNat + 32 * s.fqdn.toNat

/-- The system call, or the exit, that gateway() has reached. -/
inductive Pc
  | login | fcntlSock | fcntlStdin | select | peek | recvCms | writeAx | readAx | writeCms | done
  deriving DecidableEq

/-- What gateway() did: status updates, bytes read and offered, the notice to
the client, the close of the socket. A chunk from the CMS is logged with the
verdict of the keep alive filter on it. -/
inductive Event
  | gwState (st : GwState)
  | cmsRecv (bytes : List UInt8) (eaten : Bool)
  | axRead (bytes : List UInt8)
  | axWrite (offered : List UInt8) (r : WriteResult)
  | cmsWrite (offered : List UInt8) (r : WriteResult)
  | axNotice (bytes : List UInt8)
  | closeSock
  deriving DecidableEq

inductive Answer
  | login (ok : Bool)
  | fcntl (ok : Bool)
  | select (cms ax : Bool)
  | peekClosed
  | peekByte (b : UInt8)
  | peekFailed
  | chunk (c : Chunk)
  | drained
  | write (r : WriteResult)
  deriving DecidableEq

/-- The packet length in force and the two bytes that lie in front of `buf`. -/
structure Env where
  paclen : Nat
  paclen_pos : 0 < paclen
  below : UInt8 × UInt8

structure State where
  pc : Pc
  axReady : Bool
  buf : CArray bufLen
  cp : Nat
  n : Nat
  loop : Nat
  rc : Ust
  sense : Sense
  retryCount : Nat
  log : List Event
  deriving DecidableEq

/-- The byte at offset `i` of `buf`, which may lie just in front of it. -/
def byteAt (e : Env) (buf : List UInt8) (i : Int) : UInt8 :=
  if i = -2 then e.below.1 else if i = -1 then e.below.2 else buf.getD i.toNat 0

/-- `*(cp+n-3) == 'F' && *(cp+n-2) == 'F'` with `cp` at the start of `buf`. -/
def sentFF (e : Env) (buf : List UInt8) (n : Nat) : Bool :=
  byteAt e buf ((n : Int) - 3) == 70 && byteAt e buf ((n : Int) - 2) == 70

/-- `*cp == 'F' && *(cp+1) == 'Q'`. -/
def sentFQ (buf : List UInt8) : Bool := buf.getD 0 0 == 70 && buf.getD 1 0 == 81

/-- `!strncmp(cp, ";;;;;;\r\n", 8)`. -/
def isKeepAlive (buf : List UInt8) : Bool := strnequal buf keepAlive 8

structure Verdict where
  sense : Sense
  loop : Nat
  errcode : Int
  deriving DecidableEq

def uplinkSense (e : Env) (buf : List UInt8) (n : Nat) (sense : Sense) (errcode : Int) : Verdict :=
  if sentFF e buf n then ⟨{ sense with ffup := true }, 0, errcode⟩
  else if n = 3 ∧ sense.ffdn = true then
    if sentFQ buf then ⟨{ sense with fqup := true }, convTimeout, 10⟩
    else ⟨{ sense with ffdn := false }, 0, errcode⟩
  else ⟨sense, 0, errcode⟩

def downlinkSense (e : Env) (buf : List UInt8) (n : Nat) (sense : Sense) (errcode : Int) :
    Verdict :=
  if sentFF e buf n then ⟨{ sense with ffdn := true }, 0, errcode⟩
  else if n = 3 ∧ sense.ffup = true then
    if sentFQ buf then ⟨{ sense with fqdn := true }, convTimeout, 10⟩
    else ⟨{ sense with ffup := false }, 0, errcode⟩
  else ⟨sense, 0, errcode⟩

def hex4 (v : Nat) : List UInt8 :=
  [v / 4096 % 16, v / 256 % 16, v / 16 % 16, v % 16].map
    (fun d => UInt8.ofNat (if d < 10 then 48 + d else 87 + d))

/-- The notice sent to the client when the CMS has closed the connection. -/
def closedNotice (sense : Sense) : List UInt8 :=
  lit "; INFO: Connection closed by CMS (sense = 0x" ++ hex4 sense.mask ++ lit ")\r\n"

def initial : State where
  pc := .login
  axReady := false
  buf := CArray.zero bufLen
  cp := 0
  n := 0
  loop := 0
  rc := ⟨0, 0, 0⟩
  sense := ⟨false, false, false, false⟩
  retryCount := 0
  log := [.gwState .gwLogin]

theorem byte_fits (b : UInt8) : [b].length ≤ bufLen := Nat.succ_le_of_lt (by decide)

/-- Record what is done on the way to the next call. -/
def State.goto (s : State) (pc : Pc) (es : List Event) : State :=
  { s with pc := pc, log := s.log ++ es }

/-- Return to the caller with `code`. -/
def State.finish (s : State) (code : Int) (es : List Event) : State :=
  { s with pc := .done, rc := { s.rc with errcode := code }, log := s.log ++ es }

def startRound (s : State) : State := s.goto .select [.gwState .gwCommWait]

/-- The bottom of the main loop: count the round, give up after CONV_TIMEOUT. -/
def endOfRound (s : State) : State :=
  let s := { s with loop := s.loop + 1, log := s.log ++ [.gwState .gwCommWait] }
  if convTimeout < s.loop then
    s.finish (if s.rc.errcode = 10 then 0 else 1) [.closeSock, .gwState .gwConnected]
  else startRound s

/-- Behind the CMS half of a round: the AX.25 half when it is ready. -/
def axHalf (s : State) : State :=
  if s.axReady then s.goto .readAx [.gwState .gwReceiving] else endOfRound s

/-- The bytes offered to the next write to AX.25: MIN(paclen, n) from `cp`. -/
def offerAx (e : Env) (s : State) : List UInt8 :=
  (s.buf.bytes.drop s.cp).take (min e.paclen s.n)

def offerCms (s : State) : List UInt8 := (s.buf.bytes.drop s.cp).take s.n

/-- A chunk received from the CMS: analysed, then eaten or sent on. -/
def onCmsChunk (e : Env) (s : State) (c : Chunk) : State :=
  let buf := s.buf.overwrite c.bytes c.fits
  let n := c.bytes.length
  let v := uplinkSense e buf.bytes n s.sense s.rc.errcode
  let s := { s with
    buf := buf, n := n, cp := 0, sense := v.sense, loop := v.loop,
    rc := { s.rc with errcode := v.errcode, bytesSent := s.rc.bytesSent + UInt64.ofNat n } }
  if isKeepAlive buf.bytes then s.goto .recvCms [.cmsRecv c.bytes true]
  else { s with retryCount := 0 }.goto .writeAx [.cmsRecv c.bytes false]

/-- A chunk read from the client: analysed and sent on. -/
def onAxChunk (e : Env) (s : State) (c : Chunk) : State :=
  let buf := s.buf.overwrite c.bytes c.fits
  let n := c.bytes.length
  let v := downlinkSense e buf.bytes n s.sense s.rc.errcode
  { s with
    buf := buf, n := n, cp := 0, sense := v.sense, loop := v.loop,
    rc := { s.rc with errcode := v.errcode, bytesRecv := s.rc.bytesRecv + UInt64.ofNat n } }.goto
    .writeCms [.axRead c.bytes]

def onAxWrite (e : Env) (s : State) (r : WriteResult) : Option State :=
  let log := [Event.axWrite (offerAx e s) r]
  match r with
  | .wrote m =>
      if m ≤ (offerAx e s).length then
        let s := { s with retryCount := 0, cp := s.cp + m, n := s.n - m }
        some (s.goto (if s.n = 0 then .recvCms else .writeAx) log)
      else none
  | .eagain =>
      let s := { s with retryCount := s.retryCount + 1 }
      if 15 < s.retryCount then some (s.finish errGwAx25Io (log ++ [.closeSock]))
      else some (s.goto .writeAx log)
  | .failed => some (s.finish errGwAx25Io (log ++ [.closeSock]))

def onCmsWrite (s : State) (r : WriteResult) : Option State :=
  let log := [Event.cmsWrite (offerCms s) r]
  match r with
  | .wrote m =>
      if m ≤ (offerCms s).length then
        let s := { s with cp := s.cp + m, n := s.n - m }
        some (s.goto (if s.n = 0 then .readAx else .writeCms) log)
      else none
  | .eagain => some (s.goto .writeCms log)
  | .failed => some (s.finish errGwSockIo (log ++ [.closeSock]))

/-- gateway(), from one system call to the next. -/
def step (e : Env) (s : State) (a : Answer) : Option State :=
  match s.pc, a with
  | .login, .login true => some (s.goto .fcntlSock [.gwState .gwLoggedIn])
  | .login, .login false => some (s.finish errGwLogin [])
  | .fcntlSock, .fcntl true => some (s.goto .fcntlStdin [])
  | .fcntlSock, .fcntl false => some (s.finish errGwSock [.closeSock])
  | .fcntlStdin, .fcntl true => some (startRound s)
  | .fcntlStdin, .fcntl false => some (s.finish errGwAx25 [.closeSock])
  | .select, .select cms ax =>
      let s := { s with axReady := ax }
      some (if cms then s.goto .peek [] else axHalf s)
  | .peek, .peekClosed =>
      some (s.finish 0 [.axNotice (closedNotice s.sense), .closeSock, .gwState .gwConnected])
  | .peek, .peekByte b =>
      some ({ s with buf := s.buf.overwrite [b] (byte_fits b) }.goto .recvCms [.gwState .gwSending])
  | .peek, .peekFailed => some (s.goto .recvCms [.gwState .gwSending])
  | .recvCms, .chunk c => some (onCmsChunk e s c)
  | .recvCms, .drained => some (axHalf s)
  | .writeAx, .write r => onAxWrite e s r
  | .readAx, .chunk c => some (onAxChunk e s c)
  | .readAx, .drained => some (endOfRound s)
  | .writeCms, .write r => onCmsWrite s r
  | _, _ => none

end Rmsgw.Gateway.Model
