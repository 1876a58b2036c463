/- The status block in shared memory: the table of gateways, the table of ACI
   hosts, and the calls that keep them. -/

import Rmsgw.Lib.SlotTable
import Rmsgw.Rms

set_option autoImplicit false
set_option relaxedAutoImplicit false

namespace Rmsgw.Statblock.Model

open Rmsgw.Lib.CStrings Rmsgw.Lib.SlotTable Rmsgw.Rms

/-- Structure of each gateway "station" being tracked. -/
structure RmsgwStat where
  gwPid : Int
  gwState : GwState
  gwGwcall : CArray (maxGwCall + 1)
  gwClient : CArray (maxUserCall + 1)
  gwCms : CArray rmsMaxHostName
  gwConnects : UInt64
  gwBytesIn : UInt64
  gwBytesOut : UInt64
  deriving DecidableEq

/-- ACI host status structure. -/
structure AciHostStat where
  aciHost : CArray rmsMaxHostName
  aciHostLastCi : Int
  aciHostCiCount : UInt64
  aciHostLastFailure : Int
  aciHostTotFailCount : UInt64
  aciHostCurFailCount : UInt64
  aciHostCurChannelUpdates : UInt32
  aciHostCurChannelErrors : UInt32
  deriving DecidableEq

/-- The status block behind its header. -/
structure RmsStatus where
  aciPid : Int
  aciState : AciState
  aciHostidx : Int
  aciHost : List AciHostStat
  rmsgw : List RmsgwStat
  deriving DecidableEq

def emptyGw : RmsgwStat where
  gwPid := -1
  gwState := .gwUnused
  gwGwcall := CArray.zero _
  gwClient := CArray.zero _
  gwCms := CArray.zero _
  gwConnects := 0
  gwBytesIn := 0
  gwBytesOut := 0

def emptyHost : AciHostStat := ⟨CArray.zero _, 0, 0, 0, 0, 0, 0, 0⟩

/-- The block as statblock_attach() initializes it. -/
def freshBlock : RmsStatus where
  aciPid := -1
  aciState := .aciUnused
  aciHostidx := -1
  aciHost := List.replicate rmsCmsTableSize emptyHost
  rmsgw := List.replicate rmsGwTableSize emptyGw

/-- Callsigns in the gateway table: a search compares MIN(MAXGWCALL, strlen(gwcall)) bytes. -/
def gwLayout : Layout CString RmsgwStat where
  key := fun r => if r.gwGwcall.vacant then none else some r.gwGwcall.cstring
  hits := fun gwcall stored =>
    strnequal gwcall.bytes stored.bytes (min maxGwCall gwcall.bytes.length)
  claim := fun gwcall r =>
    { r with gwGwcall := r.gwGwcall.strncpy gwcall maxGwCall (by decide) }

/-- Host names in the ACI host table: a search compares
MIN(RMS_MAXHOSTNAME, strlen(cms_host)) bytes. -/
def aciLayout : Layout CString AciHostStat where
  key := fun r => if r.aciHost.vacant then none else some r.aciHost.cstring
  hits := fun cmsHost stored =>
    strnequal cmsHost.bytes stored.bytes (min rmsMaxHostName cmsHost.bytes.length)
  claim := fun cmsHost r =>
    { r with aciHost := r.aciHost.strncpy cmsHost rmsMaxHostName (Nat.le_refl _) }

/-- Search the gateway table for a match or assign a callsign to a slot. -/
def getGwSlot (p : RmsStatus) (gwcall : CString) : Option (Nat × RmsStatus) :=
  (getSlot gwLayout gwcall p.rmsgw).map (fun q => (q.1, { p with rmsgw := q.2 }))

/-- Search the ACI host table for a match or assign a new host to a slot, and
publish the host index. -/
def getCmsSlot (p : RmsStatus) (cmsHost : CString) : Option (Nat × RmsStatus) :=
  (getSlot aciLayout cmsHost p.aciHost).map
    (fun q => (q.1, { p with aciHost := q.2, aciHostidx := q.1 }))

/-- Update the record of a gateway, unless the table is full. -/
def onGwSlot (p : RmsStatus) (gwcall : CString) (f : RmsgwStat → RmsgwStat) : RmsStatus :=
  match getGwSlot p gwcall with
  | none => p
  | some (i, p) => { p with rmsgw := p.rmsgw.modify i f }

/-- Update the record of a host, unless the table is full. -/
def onCmsSlot (p : RmsStatus) (cmsHost : CString) (f : AciHostStat → AciHostStat) : RmsStatus :=
  match getCmsSlot p cmsHost with
  | none => p
  | some (i, p) => { p with aciHost := p.aciHost.modify i f }

def sbsetAciState (p : RmsStatus) (s : AciState) : RmsStatus := { p with aciState := s }

def sbsetAciPid (p : RmsStatus) (pid : Int) : RmsStatus := { p with aciPid := pid }

def setState (s : GwState) (r : RmsgwStat) : RmsgwStat := { r with gwState := s }

def setPid (pid : Int) (r : RmsgwStat) : RmsgwStat := { r with gwPid := pid }

def setClient (usercall : Option CString) (r : RmsgwStat) : RmsgwStat :=
  match usercall with
  | none => r
  | some usercall =>
      { r with gwClient := r.gwClient.strncpy usercall maxUserCall (by decide) }

def setCms (cmsHost : Option CString) (r : RmsgwStat) : RmsgwStat :=
  match cmsHost with
  | none => r
  | some cmsHost =>
      { r with gwCms := r.gwCms.strncpy cmsHost rmsMaxHostName (Nat.le_refl _) }

def incrConnects (r : RmsgwStat) : RmsgwStat := { r with gwConnects := r.gwConnects + 1 }

def addBytesIn (count : Int) (r : RmsgwStat) : RmsgwStat :=
  { r with gwBytesIn := r.gwBytesIn + UInt64.ofInt count }

def addBytesOut (count : Int) (r : RmsgwStat) : RmsgwStat :=
  { r with gwBytesOut := r.gwBytesOut + UInt64.ofInt count }

def countError (now : Int) (r : AciHostStat) : AciHostStat :=
  { r with
    aciHostLastFailure := now
    aciHostTotFailCount := r.aciHostTotFailCount + 1
    aciHostCurFailCount := r.aciHostCurFailCount + 1 }

def countCheckin (now : Int) (r : AciHostStat) : AciHostStat :=
  { r with
    aciHostLastCi := now
    aciHostCiCount := r.aciHostCiCount + 1
    aciHostCurFailCount := 0 }

def setChannelStats (updates errors : Int) (r : AciHostStat) : AciHostStat :=
  { r with
    aciHostCurChannelUpdates := UInt32.ofInt updates
    aciHostCurChannelErrors := UInt32.ofInt errors }

def sbsetGwState (p : RmsStatus) (s : GwState) (gwcall : CString) : RmsStatus :=
  onGwSlot p gwcall (setState s)

/-- `pid` is what getpid() returns. -/
def sbsetGwPid (p : RmsStatus) (gwcall : CString) (pid : Int) : RmsStatus :=
  onGwSlot p gwcall (setPid pid)

def sbsetGwUsercall (p : RmsStatus) (gwcall : CString) (usercall : Option CString) : RmsStatus :=
  onGwSlot p gwcall (setClient usercall)

def sbsetGwCms (p : RmsStatus) (gwcall : CString) (cmsHost : Option CString) : RmsStatus :=
  onGwSlot p gwcall (setCms cmsHost)

def sbIncrGwConnects (p : RmsStatus) (gwcall : CString) : RmsStatus :=
  onGwSlot p gwcall incrConnects

def sbAddGwBytesIn (p : RmsStatus) (gwcall : CString) (count : Int) : RmsStatus :=
  onGwSlot p gwcall (addBytesIn count)

def sbAddGwBytesOut (p : RmsStatus) (gwcall : CString) (count : Int) : RmsStatus :=
  onGwSlot p gwcall (addBytesOut count)

/-- `now` is what time() returns. -/
def sbIncrAciError (p : RmsStatus) (cmsHost : CString) (now : Int) : RmsStatus :=
  onCmsSlot p cmsHost (countError now)

def sbIncrAciCheckin (p : RmsStatus) (cmsHost : CString) (now : Int) : RmsStatus :=
  onCmsSlot p cmsHost (countCheckin now)

def sbsetChannelStats (p : RmsStatus) (cmsHost : CString) (updates errors : Int) : RmsStatus :=
  onCmsSlot p cmsHost (setChannelStats updates errors)

inductive SbOp
  | aciState (s : AciState)
  | aciPid (pid : Int)
  | gwState (s : GwState) (gwcall : CString)
  | gwPid (gwcall : CString) (pid : Int)
  | gwUsercall (gwcall : CString) (usercall : Option CString)
  | gwCms (gwcall : CString) (cmsHost : Option CString)
  | gwConnects (gwcall : CString)
  | gwBytesIn (gwcall : CString) (count : Int)
  | gwBytesOut (gwcall : CString) (count : Int)
  | aciError (cmsHost : CString) (now : Int)
  | aciCheckin (cmsHost : CString) (now : Int)
  | channelStats (cmsHost : CString) (updates errors : Int)

def SbOp.apply (p : RmsStatus) : SbOp → RmsStatus
  | .aciState s => sbsetAciState p s
  | .aciPid pid => sbsetAciPid p pid
  | .gwState s gwcall => sbsetGwState p s gwcall
  | .gwPid gwcall pid => sbsetGwPid p gwcall pid
  | .gwUsercall gwcall usercall => sbsetGwUsercall p gwcall usercall
  | .gwCms gwcall cmsHost => sbsetGwCms p gwcall cmsHost
  | .gwConnects gwcall => sbIncrGwConnects p gwcall
  | .gwBytesIn gwcall count => sbAddGwBytesIn p gwcall count
  | .gwBytesOut gwcall count => sbAddGwBytesOut p gwcall count
  | .aciError cmsHost now => sbIncrAciError p cmsHost now
  | .aciCheckin cmsHost now => sbIncrAciCheckin p cmsHost now
  | .channelStats cmsHost updates errors => sbsetChannelStats p cmsHost updates errors

end Rmsgw.Statblock.Model
