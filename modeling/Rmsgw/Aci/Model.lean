/- The automatic check-in program: the loop over the channels with its filters,
   the updater scripts it starts, the version report, and histories of its runs. -/

import Rmsgw.Channels.Model
import Rmsgw.Lib.Process
import Rmsgw.StatFile

set_option autoImplicit false
set_option relaxedAutoImplicit false

namespace Rmsgw.Aci.Model

open Rmsgw.Lib.CStrings Rmsgw.Rms Rmsgw.StatFile Rmsgw.Channels.Model

/-- The exit code in the result of `system()`. -/
def wexitstatus (rc : Int) : Int := rc / 256 % 256

def exited (code : Int) : Int := 256 * code

/-- The status checker reports the channel available; all other statuses, also
that of a checker that cannot be run, count as unavailable. -/
def channelAvailable (rc : Int) : Bool := wexitstatus rc == 0

/-- Run the supplied script with python: 0 on success. -/
def runPythonScript (rc : Int) : Int := if wexitstatus rc = 0 then 0 else 1

/-- Run an updater script: 0 on success, -1 on error. -/
def sendUpdate (rc : Int) : Int := if runPythonScript rc ≠ 0 then -1 else 0

/-- Update the channel info; the channel itself is not passed on to the script. -/
def sendChannel (rc : Int) : Int := sendUpdate rc

def sendVersion (rc : Int) : Int := sendUpdate rc

section Updater

/-- How the web service answers the post of one record, or how the script dies
at it: before or after the record has gone out, with the result of `system()`. -/
inductive Reply
  | accepted
  | refused
  | unreachable
  | died (posted : Bool) (rc : Int)
  deriving DecidableEq

def Reply.reached : Reply → Bool
  | .accepted => true
  | .refused => true
  | .unreachable => false
  | .died posted _ => posted

/-- The child elements that the script looks up; it dies of a missing one. -/
def recordFields : List ChildField :=
  [.callsign, .basecall, .baud, .direction, .frequency, .gain, .gridsquare, .height, .mode, .power,
    .hours, .servicecode]

def completeRecord (channel : RootNode) : Bool :=
  recordFields.all (fun f => channel.children.any (fun n => n.isElement && n.name == f.tag))

/-- The posting loop of updatechannel.py over the channels from position `i` on:
the positions of the records posted, and the result of `system()`. -/
def postChannels (replies : Nat → Reply) : Nat → List RootNode → List Nat × Int
  | _, [] => ([], exited 0)
  | i, channel :: rest =>
      if completeRecord channel then
        match replies i with
        | .accepted =>
            let (posted, rc) := postChannels replies (i + 1) rest
            (i :: posted, rc)
        | .refused => ([i], exited 1)
        | .unreachable => ([], exited 1)
        | .died posted rc => (if posted then [i] else [], rc)
      else ([], exited 1)

/-- One run of updatechannel.py: it ends ahead of its posting loop, or not. -/
inductive UpdaterRun
  | notReady (rc : Int)
  | ran (replies : Nat → Reply)

def updatechannel (channels : List RootNode) : UpdaterRun → List Nat × Int
  | .notReady rc => ([], rc)
  | .ran replies => postChannels replies 0 channels

end Updater

structure Config where
  gwcall : Str
  channelfile : Option Str
  channelupd : Option Str
  versionupd : Option Str
  deriving DecidableEq

def xmlChannelFile : Str := lit "/etc/rmsgw/channels.xml"

/-- The channel file in use: the configured one, else the built-in one. -/
def chanfile (cfg : Config) : Str := cfg.channelfile.getD xmlChannelFile

def channelUpdateInterval (cfg : Config) : Int :=
  match cfg.channelupd with
  | none => dfltChannelUpd
  | some text => if atol text ≤ 0 then dfltChannelUpd else atol text

def versionUpdateInterval (cfg : Config) : Int :=
  match cfg.versionupd with
  | none => dfltVersionUpd
  | some text => if atol text = 0 then dfltVersionUpd else atol text

def channelNodes (doc : Option XmlDoc) : List RootNode :=
  match doc with
  | none => []
  | some d => d.children.filter isChannel

/-- One run of the program: its configuration, the files and the time when it
takes the age of the channel file, and the channels in the file in use. -/
structure Job where
  cfg : Config
  files : Files
  started : Int
  channels : List RootNode

/-- Age of the configured channel file, zero without one. -/
def Job.channelsAge (job : Job) : Int :=
  match job.cfg.channelfile with
  | some file => fileage job.files file job.started
  | none => 0

/-- `sprintf(statfile, "%s/.channels.%s", CMSSTATDIR, ..)` and its like. -/
def aciStatFile (kind name : Str) : Except Fault Str :=
  let statfile := cmsStatDir ++ kind ++ name
  if statfile.length < pathMax then .ok statfile else .error .bufferOverflow

/-- An active and available channel when its turn comes: its position in the
file, its status file, the files and the time. -/
structure DueTest where
  job : Job
  channel : Nat
  statfile : Str
  files : Files
  now : Int

def DueTest.statusAge (d : DueTest) : Int := fileage d.files d.statfile d.now

/-- `status_age >= channel_update_interval || channels_age < status_age`. -/
def DueTest.due (d : DueTest) : Bool :=
  decide (channelUpdateInterval d.job.cfg ≤ d.statusAge) ||
    decide (d.job.channelsAge < d.statusAge)

/-- What the filters of the loop make of the next channel. -/
inductive Verdict
  | atEnd
  | killed (f : Fault)
  | inactive (channel : Nat)
  | down (channel : Nat)
  | notDue (d : DueTest)
  | due (d : DueTest)

/-- What the outside does while one channel is handled. -/
structure ChannelEnv where
  checker : Int
  now : Int
  updater : UpdaterRun
  touchedAt : Int
  touch : TouchResult

structure VersionEnv where
  now : Int
  updater : Int
  touchedAt : Int
  touch : TouchResult

/-- `!strcasecmp(chnl->ch_active, "yes")`. -/
def markedActive (chnl : Channel) : Except Fault Bool :=
  match chnl.chActive with
  | none => .error .nullDeref
  | some active => .ok (strcaseequal active (lit "yes"))

/-- The position in the file of the entry that the reader has just read. -/
def entryIndex (r : Reader) : Nat :=
  (channelNodes r.doc).length - (r.curNode.filter isChannel).length

/-- Read the next channel and put it through the filters. A missing name is
printed as glibc prints NULL. -/
def examine (job : Job) (fs : Files) (r : Reader) (e : ChannelEnv) : Verdict × Reader :=
  match getchanent r with
  | .error f => (.killed f, r)
  | .ok (none, r) => (.atEnd, endchanent r)
  | .ok (some chnl, r) =>
      match markedActive chnl with
      | .error f => (.killed f, r)
      | .ok false => (.inactive (entryIndex r), r)
      | .ok true =>
          let chnl := defaultServicecode chnl
          let r := { r with curent := chnl }
          if channelAvailable e.checker then
            match aciStatFile (lit "/.channels.") (chnl.chName.getD (lit "(null)")) with
            | .error f => (.killed f, r)
            | .ok statfile =>
                let d : DueTest := ⟨job, entryIndex r, statfile, fs, e.now⟩
                (if d.due then .due d else .notDue d, r)
          else (.down (entryIndex r), r)

/-- An update attempt: its status file, that file's modification time before it
and after the touch behind it, and what sendChannel() or sendVersion() returned. -/
structure Update where
  statfile : Str
  before : Int
  after : Int
  code : Int
  deriving DecidableEq

inductive Event
  | aciState (st : AciState)
  | passed (v : Verdict)
  | channelUpdate (d : DueTest) (run : UpdaterRun) (u : Update)
  | channelStats (updated errors : Nat)
  | versionUpdate (u : Update)

structure ChanStats where
  read : Nat
  active : Nat
  down : Nat
  updated : Nat
  errors : Nat
  deriving DecidableEq

inductive Pc
  | off
  | channels (job : Job) (r : Reader)
  | version (job : Job)

/-- `log` is what the last or current run did, `past` what the runs before it did. -/
structure State where
  pc : Pc
  files : Files
  stats : ChanStats
  past : List Event
  log : List Event

def initial (fs : Files) : State := ⟨.off, fs, ⟨0, 0, 0, 0, 0⟩, [], []⟩

def State.history (s : State) : List Event := s.past ++ s.log

def State.goto (s : State) (pc : Pc) (es : List Event) : State :=
  { s with pc := pc, log := s.log ++ es }

/-- Touch the status file behind an update attempt. -/
def touchStatus (fs : Files) (statfile : Str) (code now : Int) (touch : TouchResult) :
    Files × Update :=
  let after := (setstatfile fs statfile now touch).1
  (after, ⟨statfile, mtimeOf (fs statfile), mtimeOf (after statfile), code⟩)

/-- The totals once a channel has been read and handled; `code` is what an
update attempt returned. -/
def countChannel (st : ChanStats) (code : Int) : Verdict → ChanStats
  | .atEnd => st
  | .killed _ => st
  | .inactive _ => { st with read := st.read + 1 }
  | .down _ => { st with read := st.read + 1, active := st.active + 1, down := st.down + 1 }
  | .notDue _ => { st with read := st.read + 1, active := st.active + 1 }
  | .due _ =>
      if code = 0 then
        { st with read := st.read + 1, active := st.active + 1, updated := st.updated + 1 }
      else { st with read := st.read + 1, active := st.active + 1, errors := st.errors + 1 }

def State.count (s : State) (code : Int) (v : Verdict) : State :=
  { s with stats := countChannel s.stats code v }

/-- One round of the loop in wl2k_aci(). -/
def channelRound (job : Job) (r : Reader) (e : ChannelEnv) (s : State) : State :=
  let (v, r) := examine job s.files r e
  let code := sendChannel (updatechannel job.channels e.updater).2
  let s := s.count code v
  match v with
  | .killed _ => s.goto .off [.passed v]
  | .atEnd =>
      s.goto (.version job)
        [.passed v, .channelStats s.stats.updated s.stats.errors, .aciState .aciDisconnected]
  | .due d =>
      let (fs, u) := touchStatus s.files d.statfile code e.touchedAt e.touch
      { s with files := fs }.goto (.channels job r)
        [.aciState .aciChannelUpdate, .aciState .aciRunning, .channelUpdate d e.updater u]
  | _ => s.goto (.channels job r) [.passed v]

def versionRound (job : Job) (e : VersionEnv) (s : State) : State :=
  match aciStatFile (lit "/.version.") job.cfg.gwcall with
  | .error f => s.goto .off [.passed (.killed f)]
  | .ok statfile =>
      if versionUpdateInterval job.cfg ≤ fileage s.files statfile e.now then
        let (fs, u) := touchStatus s.files statfile (sendVersion e.updater) e.touchedAt e.touch
        { s with files := fs }.goto .off
          [.aciState .aciVersionUpdate, .aciState .aciRunning, .versionUpdate u, .aciState .aciIdle]
      else s.goto .off [.aciState .aciIdle]

/-- A new run of the program, up to its channel loop; an unconfigured gateway is refused. -/
def startUp (s : State) (cfg : Config) (doc : Option XmlDoc) (now : Int) : State :=
  let s := { s with stats := ⟨0, 0, 0, 0, 0⟩, past := s.history, log := [] }
  if cfg.gwcall = lit "N0CALL" then s
  else s.goto (.channels ⟨cfg, s.files, now, channelNodes doc⟩ (Reader.start doc))
    [.aciState .aciRunning]

/-- What happens next: between runs other programs change files, a run starts
with what parsing the channel file in use gives, or a run goes on. -/
inductive Answer
  | outside (path : Str) (st : FileStat)
  | start (cfg : Config) (doc : Option XmlDoc) (now : Int)
  | channel (e : ChannelEnv)
  | version (e : VersionEnv)

/-- rmsgw_aci over all its runs. -/
def step (s : State) (a : Answer) : Option State :=
  match s.pc, a with
  | .off, .outside path st => some { s with files := Function.update s.files path st }
  | .off, .start cfg doc now => some (startUp s cfg doc now)
  | .channels job r, .channel e => some (channelRound job r e s)
  | .version job, .version e => some (versionRound job e s)
  | _, _ => none

end Rmsgw.Aci.Model
