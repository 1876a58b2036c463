/- What one step of the secure gateway login can do, said once. -/

import Rmsgw.Login.Model

set_option autoImplicit false
set_option relaxedAutoImplicit false

namespace Rmsgw.Login.Steps

open Rmsgw.Lib.CStrings Rmsgw.Lib.Process Rmsgw.Rms Rmsgw.Login.Model

private theorem log_onCallsign (s : State) (r : ReadResult) : (onCallsign s r).log = s.log := by
  cases r with
  | line rbuf =>
      rw [onCallsign]
      split
      · rfl
      split
      · rfl
      split <;> rfl
  | eof => rfl
  | error => rfl

private theorem log_onChallenge (s : State) (r : ReadResult) : (onChallenge s r).log = s.log := by
  cases r with
  | line rbuf =>
      rw [onChallenge]
      split
      · rfl
      split <;> rfl
  | eof => rfl
  | error => rfl

theorem log_onRead (s : State) (r : ReadResult) : (onRead s r).log = s.log ++ [.read r] := by
  rw [onRead]
  split
  · exact log_onCallsign _ r
  · exact log_onChallenge _ r
  · rfl

theorem log_onSend (g : Credentials) (s : State) (line : Line) (r : WriteResult) :
    (onSend g s line r).log = s.log ++ [.send line (lineText g s line) r] := by
  cases line <;> simp only [onSend] <;> split <;> rfl

/-- The machine takes in a line that it waited for, or learns what came of a write. -/
inductive Trans (g : Credentials) (s : State) : Answer → State → Prop
  | read (run : s.running = true) (idle : s.pending = none) (r : ReadResult) :
      Trans g s (.readln r) (onRead s r)
  | send (run : s.running = true) (line : Line) (busy : s.pending = some line) (r : WriteResult)
      (fits : WriteResult.fits (lineText g s line) r = true) :
      Trans g s (.write r) (onSend g s line r)

theorem step_trans {g : Credentials} {s t : State} {a : Answer} (h : step g s a = some t) :
    Trans g s a t := by
  unfold step at h
  split at h
  case isFalse => cases h
  case isTrue hrun =>
    split at h
    case h_1 r hpend => exact Option.some.inj h ▸ .read hrun hpend r
    case h_2 line r hpend =>
      split at h
      case isTrue hfits => exact Option.some.inj h ▸ .send hrun line hpend r hfits
      case isFalse => cases h
    case h_3 => cases h

end Rmsgw.Login.Steps
