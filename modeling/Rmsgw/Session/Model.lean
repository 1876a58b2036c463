/- One run of the gateway program behind the client's connect: the loop over the
   CMS hosts, and the session with one of them. -/

import Rmsgw.Channels.Model
import Rmsgw.Gateway.Exit
import Rmsgw.Hosts.Model

set_option autoImplicit false
set_option relaxedAutoImplicit false

namespace Rmsgw.Session.Model

open Rmsgw.Lib.CStrings Rmsgw.Lib.Process Rmsgw.Rms Rmsgw.StatFile Rmsgw.Hosts.Model
open Rmsgw.Channels.Model (Reader XmlDoc getchannam)

/-- cmsSession() error returns. -/
def errSessConnect : Int := -1

def errSessGwskip : Int := -2

def errSessFatal : Int := -999

inductive ConnectResult
  | connected
  | socketFailed
  | hostUnknown
  | connectFailed
  | selectTimedOut
  | getsockoptFailed
  | socketError
  deriving DecidableEq

/-- A connected socket or -1; without a socket err() ends the process. -/
def cmsConnect : ConnectResult → Option Int
  | .connected => some 0
  | .socketFailed => none
  | _ => some (-1)

/-- A conversation of gateway(), finished or still going on. -/
structure Conversation (e : Gateway.Model.Env) where
  answers : List Gateway.Model.Answer
  final : Gateway.Model.State
  runs : run (Gateway.Model.step e) Gateway.Model.initial answers = some final

/-- What the outside does in one attempt on a host. -/
structure Attempt (e : Gateway.Model.Env) where
  now : Int
  touch : TouchResult
  connect : ConnectResult
  conversation : Conversation e

/-- The configuration and the client's port that a session depends on; `chanfile`
is what parsing the configured channel file gives, if one is configured. -/
structure Setup where
  ax25port : Option Str
  gwcall : Str
  channelfile : Option (Option XmlDoc)

/-- What came of a session: refused for want of a port, a channel or a password,
ended with the process, not connected, or a conversation. -/
inductive Outcome
  | refused
  | killed (f : Fault)
  | exited
  | notConnected
  | talked (g : Gateway.Model.State)
  deriving DecidableEq

/-- The session's return code for the error code of the conversation. -/
def gatewayCode (errcode : Int) : Int :=
  if 0 ≤ errcode then 0
  else if errcode ≤ errGwFatal then errSessFatal
  else errSessGwskip

/-- What cmsSession() returns; nothing while it goes on or after the process has ended. -/
def Outcome.returns : Outcome → Option Int
  | .refused => some errSessFatal
  | .killed _ => none
  | .exited => none
  | .notConnected => some errSessConnect
  | .talked g => if g.pc = .done then some (gatewayCode g.rc.errcode) else none

/-- The channel of the session's port, with the reader left behind. -/
def findChannel (setup : Setup) (r : Reader) (port : Str) :
    Except Fault (Option Channels.Model.Channel × Reader) :=
  getchannam
    (match setup.channelfile with
      | some file => { r with chanfile := file }
      | none => r) port setup.gwcall

def connectAndTalk {e : Gateway.Model.Env} (a : Attempt e) : Outcome :=
  match cmsConnect a.connect with
  | none => .exited
  | some sock => if sock < 0 then .notConnected else .talked a.conversation.final

/-- Start a session with a CMS. -/
def cmsSession {e : Gateway.Model.Env} (setup : Setup) (r : Reader) (a : Attempt e) :
    Outcome × Reader :=
  match setup.ax25port with
  | none => (.refused, r)
  | some port =>
      if port = [] then (.refused, r)
      else match findChannel setup r port with
        | .error f => (.killed f, r)
        | .ok (none, r) => (.refused, r)
        | .ok (some chnl, r) =>
            match chnl.child .password with
            | none => (.refused, r)
            | some password =>
                if password = [] then (.refused, r) else (connectAndTalk a, r)

/-- An attempt as it was made. -/
structure Tried where
  node : CmsNode
  now : Int
  touch : TouchResult
  outcome : Outcome

inductive Ending
  | served
  | fatal
  | stopped
  | exhausted (hostTries : Nat)
  | badTable
  deriving DecidableEq

structure HostRun where
  tried : List Tried
  files : Files
  ending : Ending

/-- Spin through the CMS host list and connect to the first "available". -/
def hostLoop {e : Gateway.Model.Env} (setup : Setup) (attempt : Nat → Attempt e) :
    Nat → Files → Reader → List CmsNode → HostRun
  | hostTries, fs, _, [] =>
      ⟨[], fs, if hostTries < 1 then .badTable else .exhausted hostTries⟩
  | hostTries, fs, r, cmsp :: rest =>
      let a := attempt hostTries
      let fs := (setcmsstat fs cmsp a.now a.touch).1
      let (outcome, r) := cmsSession setup r a
      let tried : Tried := ⟨cmsp, a.now, a.touch, outcome⟩
      match outcome.returns with
      | none => ⟨[tried], fs, .stopped⟩
      | some rc =>
          if rc < 0 then
            if rc = errSessFatal then ⟨[tried], fs, .fatal⟩
            else
              let more := hostLoop setup attempt (hostTries + 1) fs r rest
              ⟨tried :: more.tried, more.files, more.ending⟩
          else ⟨[tried], fs, .served⟩

end Rmsgw.Session.Model
