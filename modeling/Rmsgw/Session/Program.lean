/- main() of the gateway program from the point where it announces itself in the
   status block: what it does to the block and to its sockets until it ends. -/

import Rmsgw.Session.Model
import Rmsgw.Statblock.Model

set_option autoImplicit false
set_option relaxedAutoImplicit false

namespace Rmsgw.Session.Program

open Rmsgw.Lib.CStrings Rmsgw.Rms Rmsgw.StatFile Rmsgw.Hosts.Model Rmsgw.Statblock.Model
open Rmsgw.Session.Model
open Rmsgw.Channels.Model (Reader XmlDoc)

/-- A call on the status block, or a socket created or closed in an attempt on a host. -/
inductive Effect
  | status (o : SbOp)
  | socket (attempt : Nat)
  | close (attempt : Nat)

/-- The string at the front of a buffer. -/
def cstring (s : Str) : CString := ⟨text s, nul_notMem_text s⟩

/-- cmsConnect(): its exits for an unknown host and for a socket error leave the
socket open. -/
def connectEffects (k : Nat) : ConnectResult → List Effect
  | .connected => [.socket k]
  | .socketFailed => []
  | .hostUnknown => [.socket k]
  | .connectFailed => [.socket k, .close k]
  | .selectTimedOut => [.socket k, .close k]
  | .getsockoptFailed => [.socket k, .close k]
  | .socketError => [.socket k]

def eventEffects (gwcall : CString) (k : Nat) : Gateway.Model.Event → List Effect
  | .gwState st => [.status (.gwState st gwcall)]
  | .closeSock => [.close k]
  | _ => []

/-- cmsSession() behind the return of gateway(). -/
def hangUp (gwcall : CString) (k : Nat) (rc : Ust) : List Effect :=
  (if 0 ≤ rc.errcode then
      [.status (.gwBytesOut gwcall rc.bytesSent.toNat), .status (.gwBytesIn gwcall rc.bytesRecv.toNat)]
    else []) ++
    [.status (.gwState .gwDisconnecting gwcall), .close k,
      .status (.gwState .gwDisconnected gwcall)]

/-- cmsSession(), as far as its outcome says that it came. -/
def sessionEffects (gwcall : CString) (k : Nat) (connect : ConnectResult) : Outcome → List Effect
  | .refused => []
  | .killed _ => []
  | .exited => .status (.gwState .gwConnecting gwcall) :: connectEffects k connect
  | .notConnected => .status (.gwState .gwConnecting gwcall) :: connectEffects k connect
  | .talked g =>
      .status (.gwState .gwConnecting gwcall) :: connectEffects k connect ++
        .status (.gwState .gwConnected gwcall) :: g.log.flatMap (eventEffects gwcall k) ++
        if g.pc = .done then hangUp gwcall k g.rc else []

/-- The attempts of the host loop from number `k` on. -/
def loopEffects {e : Gateway.Model.Env} (gwcall : CString) (attempt : Nat → Attempt e) :
    Nat → List Tried → List Effect
  | _, [] => []
  | k, t :: ts =>
      .status (.gwCms gwcall (some (cstring t.node.host))) ::
        sessionEffects gwcall k (attempt k).connect t.outcome ++ loopEffects gwcall attempt (k + 1) ts

/-- How the process ends, if it does. -/
inductive Exit
  | code (status : Nat)
  | killed (f : Fault)
  | running
  deriving DecidableEq

/-- err() sends and logs its message and ends the process. -/
def err : Exit := .code 1

/-- The user's callsign without a final "-0"; for want of storage, and for a
callsign that is too long, err() ends the process. -/
def fmtucall (strdup : Bool) (call : CString) : Option CString :=
  if strdup = false then none
  else if maxUserCall < call.bytes.length then none
  else if call.bytes.dropWhile (fun c => c != 45) = lit "-0" then
    some ⟨call.bytes.takeWhile (fun c => c != 45),
      fun h => call.noNul ((List.takeWhile_sublist _).mem h)⟩
  else some call

/-- What the program is started with, and what the outside does. `strdup` says
whether there is storage for the user's callsign. -/
structure Start (e : Gateway.Model.Env) where
  gwcall : CString
  pid : Int
  usercall : CString
  strdup : Bool
  ax25port : Option Str
  channelfile : Option (Option XmlDoc)
  reader : Reader
  cmsfile : Option Str
  files : Files
  alloc : Cms → Bool
  attempt : Nat → Attempt e

variable {e : Gateway.Model.Env}

def Start.setup (m : Start e) : Setup := ⟨m.ax25port, m.gwcall.bytes, m.channelfile⟩

/-- The initial condition in the status block. -/
def Start.announce (m : Start e) : List Effect :=
  [.status (.gwPid m.gwcall m.pid), .status (.gwState .gwRunning m.gwcall),
    .status (.gwConnects m.gwcall)]

def Start.idle (m : Start e) : Effect := .status (.gwState .gwIdle m.gwcall)

def Start.hosts (m : Start e) : Except Fault (List CmsNode) :=
  getcmslist m.cmsfile m.files m.alloc

def Start.loop (m : Start e) (cmslist : List CmsNode) : HostRun :=
  hostLoop m.setup m.attempt 0 m.files m.reader cmslist

/-- A host loop that the process does not come out of. -/
def stoppedBy (run : HostRun) : Exit :=
  match run.tried.getLast?.map Tried.outcome with
  | some .exited => err
  | some (.killed f) => .killed f
  | _ => .running

/-- What main() does, and how it ends. With no host left err() ends the process in
front of the last update of the status block. -/
def Start.main (m : Start e) : List Effect × Exit :=
  match fmtucall m.strdup m.usercall with
  | none => (m.announce, err)
  | some usercall =>
      let started := m.announce ++ [.status (.gwUsercall m.gwcall (some usercall))]
      match m.hosts with
      | .error f => (started, .killed f)
      | .ok cmslist =>
          let run := m.loop cmslist
          let effects := started ++ loopEffects m.gwcall m.attempt 0 run.tried
          match run.ending with
          | .served => (effects ++ [m.idle], .code 0)
          | .fatal => (effects ++ [m.idle], .code 99)
          | .badTable => (effects, err)
          | .exhausted _ => (effects, err)
          | .stopped => (effects, stoppedBy run)

/-- The calls on the status block among the effects. -/
def statusCalls (es : List Effect) : List SbOp :=
  es.filterMap (fun
    | .status o => some o
    | _ => none)

/-- The status block that the program leaves. -/
def Start.leaves (m : Start e) (p : RmsStatus) : RmsStatus :=
  (statusCalls m.main.1).foldl SbOp.apply p

end Rmsgw.Session.Program
