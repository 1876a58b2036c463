/- Attaching the status block: the shared memory segment from its creation by the
   first process, over any calls of later ones. -/

import Rmsgw.Lib.Process
import Rmsgw.Statblock.Model

set_option autoImplicit false
set_option relaxedAutoImplicit false

namespace Rmsgw.Statblock.Attach

open Rmsgw.Lib.CStrings Rmsgw.Lib.Process Rmsgw.Rms Rmsgw.Statblock.Model

def rmsShmMagicSize : Nat := 8

/-- The magic "number" of the segment. -/
def rmsShmMagic : CString := ⟨lit "!RMSGW00", by decide⟩

structure Segment where
  magic : CArray rmsShmMagicSize
  block : RmsStatus
  deriving DecidableEq

/-- A segment as shmget() creates it, and as memset() makes it. -/
def zeroFilled : Segment where
  magic := CArray.zero _
  block :=
    { aciPid := 0
      aciState := .aciUnused
      aciHostidx := 0
      aciHost := List.replicate rmsCmsTableSize emptyHost
      rmsgw := List.replicate rmsGwTableSize { emptyGw with gwPid := 0 } }

/-- `!strncmp(hdr.rms_hdr_magic, RMS_SHM_MAGIC, RMS_SHM_MAGICSIZE)`. -/
def hasMagic (seg : Segment) : Bool :=
  strnequal (text seg.magic.bytes) rmsShmMagic.bytes rmsShmMagicSize

def writeMagic (seg : Segment) : Segment :=
  { seg with magic := seg.magic.strncpy rmsShmMagic rmsShmMagicSize (Nat.le_refl _) }

def onBlock (f : RmsStatus → RmsStatus) (seg : Segment) : Segment :=
  { seg with block := f seg.block }

def onHost (i : Nat) (f : AciHostStat → AciHostStat) : Segment → Segment :=
  onBlock (fun p => { p with aciHost := p.aciHost.modify i f })

def onGateway (i : Nat) (f : RmsgwStat → RmsgwStat) : Segment → Segment :=
  onBlock (fun p => { p with rmsgw := p.rmsgw.modify i f })

def initializeAci : List (Segment → Segment) :=
  [onBlock (fun p => { p with aciPid := -1 }),
    onBlock (fun p => { p with aciState := .aciUnused }),
    onBlock (fun p => { p with aciHostidx := -1 })]

def initializeHost (i : Nat) : List (Segment → Segment) :=
  [onHost i (fun h => { h with aciHostLastCi := 0 }),
    onHost i (fun h => { h with aciHostLastFailure := 0 }),
    onHost i (fun h => { h with aciHostTotFailCount := 0 }),
    onHost i (fun h => { h with aciHostCurFailCount := 0 }),
    onHost i (fun h => { h with aciHostCurChannelUpdates := 0 }),
    onHost i (fun h => { h with aciHostCurChannelErrors := 0 })]

def initializeGateway (i : Nat) : List (Segment → Segment) :=
  [onGateway i (fun g => { g with gwPid := -1 }),
    onGateway i (fun g => { g with gwState := .gwUnused }),
    onGateway i (fun g => { g with gwConnects := 0 }),
    onGateway i (fun g => { g with gwBytesIn := 0 }),
    onGateway i (fun g => { g with gwBytesOut := 0 })]

/-- The stores of the initialization, in their order. -/
def initialization : List (Segment → Segment) :=
  [fun _ => zeroFilled, writeMagic] ++ initializeAci ++
    (List.range rmsCmsTableSize).flatMap initializeHost ++
    (List.range rmsGwTableSize).flatMap initializeGateway

/-- The first `stores` stores of the initialization, unless the magic string is present. -/
def initializeBlock (stores : Nat) (seg : Segment) : Segment :=
  if hasMagic seg then seg
  else (initialization.take stores).foldl (fun seg store => store seg) seg

/-- How far a call of statblock_attach() gets: it may fail, and the process may
stop behind shm_get(), or behind any of the stores of the initialization. -/
inductive AttachResult
  | keyFailed
  | getFailed
  | createFailed
  | stopped
  | shmatFailed
  | stoppedInitializing (stores : Nat)
  | done
  deriving DecidableEq

/-- shm_get() past its failures: the segment, and the flag that tells the process
that has created it to initialize it. -/
def shmGet (segment : Option Segment) : Segment × Bool :=
  match segment with
  | some seg => (seg, false)
  | none => (zeroFilled, true)

/-- The segment behind shm_attach(), with as much of the initialization as was done. -/
def attached (stores : Nat) (got : Segment × Bool) : Segment :=
  if got.2 then initializeBlock stores got.1 else got.1

/-- The segment that a call leaves, and what it returns if it does. -/
def statblockAttach (segment : Option Segment) :
    AttachResult → Option (Option Segment × Option Int)
  | .keyFailed => some (segment, some (-1))
  | .getFailed => some (segment, some (-1))
  | .createFailed => if segment.isSome then none else some (segment, some (-1))
  | .stopped => some (some (shmGet segment).1, none)
  | .shmatFailed => some (some (shmGet segment).1, some (-1))
  | .stoppedInitializing stores => some (some (attached stores (shmGet segment)), none)
  | .done => some (some (attached initialization.length (shmGet segment)), some 0)

/-- A call of statblock_attach(), or an update by a process that has the block. -/
inductive Event
  | attach (r : AttachResult)
  | update (o : SbOp)

/-- The segment, the updates so far, what each successful call handed over with the
updates before it, and whether a block with the magic string was changed by a call. -/
structure State where
  segment : Option Segment
  updates : List SbOp
  handed : List (Segment × List SbOp)
  wiped : Bool

def initial : State := ⟨none, [], [], false⟩

/-- A block that carried the magic string is not what it was. -/
def wipes (before after : Option Segment) : Bool :=
  match before with
  | none => false
  | some seg => hasMagic seg && decide (after ≠ some seg)

def onAttach (s : State) (segment : Option Segment) (returned : Option Int) : State :=
  { s with
    segment := segment
    handed :=
      if returned = some 0 then s.handed ++ segment.toList.map (fun seg => (seg, s.updates))
      else s.handed
    wiped := s.wiped || wipes s.segment segment }

def step (s : State) : Event → Option State
  | .attach r => (statblockAttach s.segment r).map (fun q => onAttach s q.1 q.2)
  | .update o =>
      if s.handed.isEmpty then none
      else s.segment.map (fun seg =>
        { s with
          segment := some { seg with block := o.apply seg.block }
          updates := s.updates ++ [o] })

/-- The values by which a reader tells what is in use. -/
def sentinels (p : RmsStatus) : Int × Int × List Int :=
  (p.aciPid, p.aciHostidx, p.rmsgw.map RmsgwStat.gwPid)

/-- The magic string is there, and the sentinels are the initialized ones with the
updates since. -/
def Initialized (h : Segment × List SbOp) : Prop :=
  hasMagic h.1 = true ∧ sentinels h.1.block = sentinels (h.2.foldl SbOp.apply freshBlock)

instance (h : Segment × List SbOp) : Decidable (Initialized h) := inferInstanceAs (Decidable (_ ∧ _))

/-- Every call that returned 0 handed over an initialized block, and no call has
wiped one. -/
def Sound (s : State) : Prop := (∀ h ∈ s.handed, Initialized h) ∧ s.wiped = false

/-- The call gets past shm_get(). -/
def obtains : Event → Bool
  | .attach .keyFailed => false
  | .attach .getFailed => false
  | .attach .createFailed => false
  | .attach _ => true
  | .update _ => false

/-- The stores of the initialization up to the last sentinel, the pid of the last gateway. -/
def sentinelStores : Nat := initialization.length - 4

/-- The call is not cut short before the last sentinel. -/
def completes : Event → Bool
  | .attach .done => true
  | .attach (.stoppedInitializing stores) => decide (sentinelStores ≤ stores)
  | _ => false

end Rmsgw.Statblock.Attach
