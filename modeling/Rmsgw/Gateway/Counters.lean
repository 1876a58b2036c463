/- The byte counters of a conversation: they are raised at every read, for the
   chunks that the keep alive filter eats as well. -/

import Rmsgw.Gateway.KeepAlive

set_option autoImplicit false
set_option relaxedAutoImplicit false

namespace Rmsgw.Gateway.Counters

open Rmsgw.Lib.CStrings Rmsgw.Lib.Process Rmsgw.Lib.PacketCuts Rmsgw.Rms
open Rmsgw.Gateway.Model Rmsgw.Gateway.Steps Rmsgw.Gateway.Relay Rmsgw.Gateway.KeepAlive

/-- The bytes that the keep alive filter eats on an answer. -/
def lost (s : State) : Answer → Nat
  | .chunk c =>
      if s.pc = .recvCms ∧ isKeepAlive (s.buf.overwrite c.bytes c.fits).bytes = true then
        c.bytes.length
      else 0
  | _ => 0

/-- The bytes received from the CMS that the keep alive filter ate. -/
def discarded (e : Env) (as : List Answer) : Nat := tally (step e) lost initial as

/-- The counters hold what was read, from the CMS and from AX.25. -/
def CountsReads (s : State) : Prop :=
  s.rc.bytesSent = UInt64.ofNat (stream Event.fromCms s).length ∧
    s.rc.bytesRecv = UInt64.ofNat (stream Event.fromAx s).length

def eatenBytes (s : State) : Nat := (marked s).countP (fun m => m.2)

private theorem trans_eatenBytes {e : Env} {s t : State} {a : Answer} (h : Trans e s a t) :
    eatenBytes t = eatenBytes s + lost s a := by
  rcases trans_marked h with ⟨c, rfl, at_, hm⟩ | ⟨hne, hm⟩
  · rw [eatenBytes, hm, List.countP_append, List.countP_map]
    by_cases hk : isKeepAlive (s.buf.overwrite c.bytes c.fits).bytes = true
    · simp [eatenBytes, lost, at_, hk, Function.comp_def]
    · simp [eatenBytes, lost, hk, Function.comp_def]
  · have hnone : lost s a = 0 := by
      cases a with
      | chunk c => exact if_neg fun h => hne c rfl h.1
      | _ => rfl
    rw [eatenBytes, hm, hnone]
    rfl

private theorem passed_add_discarded {e : Env} {as : List Answer} {s : State}
    (h : run (step e) initial as = some s) :
    (stream Event.passed s).length + discarded e as = (stream Event.fromCms s).length := by
  have heaten : eatenBytes s = discarded e as := by
    have htally := run_tally (fun _ _ _ hst => trans_eatenBytes (step_trans hst)) h
    exact htally.trans (Nat.zero_add _)
  rw [← heaten, ← kept_marked, ← map_fst_marked, kept, List.length_map, List.length_map,
    ← List.countP_eq_length_filter, eatenBytes, List.length_eq_countP_add_countP (fun m => m.2),
    Nat.add_comm]
  simp

private theorem countsReads_endOfRound {s : State} (h : CountsReads s) :
    CountsReads (endOfRound s) := by
  have hcms := stream_endOfRound Event.fromCms (fun _ => rfl) rfl s
  have hax := stream_endOfRound Event.fromAx (fun _ => rfl) rfl s
  have hrc : (endOfRound s).rc.bytesSent = s.rc.bytesSent ∧
      (endOfRound s).rc.bytesRecv = s.rc.bytesRecv := by
    rcases endOfRound_cases s with ⟨-, hs⟩ | ⟨-, hs⟩ <;> exact hs ▸ ⟨rfl, rfl⟩
  rwa [CountsReads, hcms, hax, hrc.1, hrc.2]

private theorem countsReads_axHalf {s : State} (h : CountsReads s) : CountsReads (axHalf s) := by
  rcases axHalf_cases s with hs | hs
  · rw [hs]
    simpa [CountsReads, stream, State.goto, Event.fromCms, Event.fromAx] using h
  · rw [hs]
    exact countsReads_endOfRound h

private theorem trans_countsReads {e : Env} {s t : State} {a : Answer} (h : Trans e s a t)
    (hs : CountsReads s) : CountsReads t := by
  cases h with
  | cmsChunk at_ c =>
      obtain ⟨hsent, hrecv⟩ := hs
      simp only [onCmsChunk]
      split <;>
        simp [CountsReads, stream, State.goto, Event.fromCms, Event.fromAx, hsent, hrecv,
          UInt64.ofNat_add]
  | axChunk at_ c =>
      obtain ⟨hsent, hrecv⟩ := hs
      simp [onAxChunk, CountsReads, stream, State.goto, Event.fromCms, Event.fromAx, hsent, hrecv,
        UInt64.ofNat_add]
  | selectAx at_ ax => exact countsReads_axHalf hs
  | cmsDrained at_ => exact countsReads_axHalf hs
  | axDrained at_ => exact countsReads_endOfRound hs
  | _ at_ =>
      simpa [CountsReads, stream, State.goto, State.finish, startRound, Event.fromCms,
        Event.fromAx] using hs

private theorem countsReads_run {e : Env} {as : List Answer} {s : State}
    (h : run (step e) initial as = some s) : CountsReads s :=
  run_preserves (fun _ _ _ hst => trans_countsReads (step_trans hst)) h ⟨rfl, rfl⟩

private theorem delivered_done {e : Env} {as : List Answer} {s : State}
    (h : run (step e) initial as = some s) (hdone : s.pc = .done) (hgood : 0 ≤ s.rc.errcode) :
    stream Event.toCms s = stream Event.fromAx s ∧
      stream Event.toAx s = stream Event.passed s := by
  obtain ⟨hup, hdown⟩ := links_exact h
  have hsock : s.rc.errcode ≠ errGwSockIo := fun h => absurd (h ▸ hgood) (by decide)
  have hax : s.rc.errcode ≠ errGwAx25Io := fun h => absurd (h ▸ hgood) (by decide)
  exact ⟨hup.delivered_all (by simp [upLink, heldForCms, hdone, hsock]),
    hdown.delivered_all (by simp [downLink, heldForAx, hdone, hax])⟩

theorem counters_done {e : Env} {as : List Answer} {s : State}
    (h : run (step e) initial as = some s) (hdone : s.pc = .done) (hgood : 0 ≤ s.rc.errcode) :
    s.rc.bytesSent = UInt64.ofNat ((stream Event.toAx s).length + discarded e as) ∧
      s.rc.bytesRecv = UInt64.ofNat (stream Event.toCms s).length := by
  obtain ⟨hsent, hrecv⟩ := countsReads_run h
  obtain ⟨hcms, hax⟩ := delivered_done h hdone hgood
  rw [hcms, hax, passed_add_discarded h]
  exact ⟨hsent, hrecv⟩

end Rmsgw.Gateway.Counters
