/- The two directions of the relay loop are byte links: chunk by chunk, whatever
   the partial writes, what leaves is what came in. -/

import Rmsgw.Lib.ByteLink
import Rmsgw.Gateway.Steps

set_option autoImplicit false
set_option relaxedAutoImplicit false

namespace Rmsgw.Gateway.Relay

open Rmsgw.Lib.CStrings Rmsgw.Lib.Process Rmsgw.Lib.ByteLink Rmsgw.Rms
open Rmsgw.Gateway.Model Rmsgw.Gateway.Steps

/-- Bytes an event adds to the stream read from AX.25. -/
def Event.fromAx : Event → List UInt8
  | .axRead bytes => bytes
  | _ => []

def Event.toCms : Event → List UInt8
  | .cmsWrite offered r => r.taken offered
  | _ => []

def Event.fromCms : Event → List UInt8
  | .cmsRecv bytes _ => bytes
  | _ => []

/-- Bytes an event hands over from the CMS for sending: a chunk that the keep
alive filter did not eat. -/
def Event.passed : Event → List UInt8
  | .cmsRecv bytes false => bytes
  | _ => []

def Event.toAx : Event → List UInt8
  | .axWrite offered r => r.taken offered
  | _ => []

def stream (f : Event → List UInt8) (s : State) : List UInt8 := s.log.flatMap f

/-- What is left of the chunk on its way to the CMS. -/
def heldForCms (s : State) : List UInt8 :=
  match s.pc with
  | .writeCms => offerCms s
  | .done => if s.rc.errcode = errGwSockIo then offerCms s else []
  | _ => []

/-- What is left of the chunk on its way to AX.25. -/
def heldForAx (s : State) : List UInt8 :=
  match s.pc with
  | .writeAx => (s.buf.bytes.drop s.cp).take s.n
  | .done => if s.rc.errcode = errGwAx25Io then (s.buf.bytes.drop s.cp).take s.n else []
  | _ => []

/-- The AX.25 -> CMS direction. -/
def upLink (s : State) : Link UInt8 :=
  ⟨stream Event.fromAx s, stream Event.toCms s, heldForCms s⟩

/-- The CMS -> AX.25 direction behind the keep alive filter. -/
def downLink (s : State) : Link UInt8 :=
  ⟨stream Event.passed s, stream Event.toAx s, heldForAx s⟩

@[simp] theorem stream_goto (f : Event → List UInt8) (s : State) (pc : Pc) (es : List Event) :
    stream f (s.goto pc es) = stream f s ++ es.flatMap f := by
  simp [stream, State.goto]

theorem stream_endOfRound (f : Event → List UInt8) (hstate : ∀ st, f (.gwState st) = [])
    (hclose : f .closeSock = []) (s : State) : stream f (endOfRound s) = stream f s := by
  rcases endOfRound_cases s with ⟨-, h⟩ | ⟨-, h⟩ <;>
    simp [h, stream, State.goto, State.finish, hstate, hclose]

private theorem stream_axHalf (f : Event → List UInt8) (hstate : ∀ st, f (.gwState st) = [])
    (hclose : f .closeSock = []) (s : State) : stream f (axHalf s) = stream f s := by
  rcases axHalf_cases s with h | h
  · simp [h, hstate]
  · rw [h, stream_endOfRound f hstate hclose]

private theorem heldForCms_endOfRound (s : State) : heldForCms (endOfRound s) = [] := by
  rcases endOfRound_cases s with ⟨-, h⟩ | ⟨-, h⟩
  · rw [h]; rfl
  · rw [h]; simp only [State.finish, heldForCms]; split <;> rfl

private theorem heldForCms_axHalf (s : State) : heldForCms (axHalf s) = [] := by
  rcases axHalf_cases s with h | h
  · rw [h]; rfl
  · rw [h, heldForCms_endOfRound]

private theorem heldForAx_endOfRound (s : State) : heldForAx (endOfRound s) = [] := by
  rcases endOfRound_cases s with ⟨-, h⟩ | ⟨-, h⟩
  · rw [h]; rfl
  · rw [h]; simp only [State.finish, heldForAx]; split <;> rfl

private theorem heldForAx_axHalf (s : State) : heldForAx (axHalf s) = [] := by
  rcases axHalf_cases s with h | h
  · rw [h]; rfl
  · rw [h, heldForAx_endOfRound]

private theorem upLink_endOfRound (s : State) :
    upLink (endOfRound s) = ⟨stream Event.fromAx s, stream Event.toCms s, []⟩ := by
  rw [upLink, heldForCms_endOfRound, stream_endOfRound Event.fromAx (fun _ => rfl) rfl,
    stream_endOfRound Event.toCms (fun _ => rfl) rfl]

private theorem upLink_axHalf (s : State) :
    upLink (axHalf s) = ⟨stream Event.fromAx s, stream Event.toCms s, []⟩ := by
  rw [upLink, heldForCms_axHalf, stream_axHalf Event.fromAx (fun _ => rfl) rfl,
    stream_axHalf Event.toCms (fun _ => rfl) rfl]

private theorem downLink_endOfRound (s : State) :
    downLink (endOfRound s) = ⟨stream Event.passed s, stream Event.toAx s, []⟩ := by
  rw [downLink, heldForAx_endOfRound, stream_endOfRound Event.passed (fun _ => rfl) rfl,
    stream_endOfRound Event.toAx (fun _ => rfl) rfl]

private theorem downLink_axHalf (s : State) :
    downLink (axHalf s) = ⟨stream Event.passed s, stream Event.toAx s, []⟩ := by
  rw [downLink, heldForAx_axHalf, stream_axHalf Event.passed (fun _ => rfl) rfl,
    stream_axHalf Event.toAx (fun _ => rfl) rfl]

private theorem stay_of_eq {l m : Link UInt8} (h : m = l) : l.Step m := h ▸ .stay l

private theorem upLink_wrote {s : State} {m : Nat} (at_ : s.pc = .writeCms) :
    upLink ({ s with cp := s.cp + m, n := s.n - m }.goto
        (if s.n - m = 0 then .readAx else .writeCms) [.cmsWrite (offerCms s) (.wrote m)]) =
      ⟨(upLink s).accepted, (upLink s).delivered ++ (upLink s).held.take m,
        (upLink s).held.drop m⟩ := by
  have held : heldForCms s = offerCms s := by simp [heldForCms, at_]
  have rest : (s.buf.bytes.drop (s.cp + m)).take (s.n - m) = (offerCms s).drop m := by
    rw [offerCms, List.drop_take, List.drop_drop]
  simp only [upLink, stream_goto, held]
  congr 1
  · simp [stream, Event.fromAx]
  · simp [stream, Event.toCms]
  · by_cases hz : s.n - m = 0
    · have hnil : (offerCms s).drop m = [] := by rw [← rest, hz, List.take_zero]
      simp [hz, hnil, State.goto, heldForCms]
    · simp [hz, State.goto, heldForCms, offerCms, List.drop_take]

/-- The AX.25 -> CMS half of the relay loop refines a byte link. -/
private theorem trans_upLink {e : Env} {s t : State} {a : Answer} (h : Trans e s a t) :
    (upLink s).Step (upLink t) := by
  cases h with
  | cmsWrote at_ m hm =>
      rw [upLink_wrote at_]
      exact .deliver _ m
  | axChunk at_ c =>
      have key : upLink (onAxChunk e s c) =
          ⟨(upLink s).accepted ++ c.bytes, (upLink s).delivered, c.bytes⟩ := by
        simp [upLink, onAxChunk, stream, State.goto, Event.fromAx, Event.toCms, heldForCms,
          offerCms, CArray.overwrite_bytes]
      rw [key]
      exact .accept _ c.bytes (by simp [upLink, heldForCms, at_])
  | cmsChunk at_ c =>
      apply stay_of_eq
      simp only [onCmsChunk]
      split <;> simp [upLink, heldForCms, at_, State.goto, stream, Event.fromAx, Event.toCms]
  | cmsDrained at_ =>
      apply stay_of_eq
      rw [upLink_axHalf]
      simp [upLink, heldForCms, at_]
  | selectAx at_ ax =>
      apply stay_of_eq
      rw [upLink_axHalf]
      simp [upLink, heldForCms, at_, stream]
  | axDrained at_ =>
      apply stay_of_eq
      rw [upLink_endOfRound]
      simp [upLink, heldForCms, at_]
  | axWrote at_ m hm =>
      apply stay_of_eq
      by_cases hz : s.n - m = 0 <;>
        simp [hz, upLink, heldForCms, at_, State.goto, stream, Event.fromAx, Event.toCms]
  | _ at_ =>
      apply stay_of_eq
      simp [upLink, heldForCms, at_, State.goto, State.finish, startRound, stream, Event.fromAx,
        Event.toCms, offerCms, errGwSockIo, errGwLogin, errGwSock, errGwAx25, errGwAx25Io]

private theorem downLink_wrote {e : Env} {s : State} {m : Nat} (at_ : s.pc = .writeAx)
    (hm : m ≤ (offerAx e s).length) :
    downLink ({ s with retryCount := 0, cp := s.cp + m, n := s.n - m }.goto
        (if s.n - m = 0 then .recvCms else .writeAx) [.axWrite (offerAx e s) (.wrote m)]) =
      ⟨(downLink s).accepted, (downLink s).delivered ++ (downLink s).held.take m,
        (downLink s).held.drop m⟩ := by
  have hle : m ≤ min e.paclen s.n := by
    simp only [offerAx, List.length_take] at hm
    omega
  have held : heldForAx s = (s.buf.bytes.drop s.cp).take s.n := by simp [heldForAx, at_]
  have front : (offerAx e s).take m = ((s.buf.bytes.drop s.cp).take s.n).take m := by
    rw [offerAx, List.take_take, List.take_take, min_eq_left hle, min_eq_left (by omega)]
  have rest : (s.buf.bytes.drop (s.cp + m)).take (s.n - m) =
      ((s.buf.bytes.drop s.cp).take s.n).drop m := by
    rw [List.drop_take, List.drop_drop]
  simp only [downLink, stream_goto, held]
  congr 1
  · simp [stream, Event.passed]
  · simp [stream, Event.toAx, front]
  · by_cases hz : s.n - m = 0
    · have hnil : ((s.buf.bytes.drop s.cp).take s.n).drop m = [] := by
        rw [← rest, hz, List.take_zero]
      simp [hz, hnil, State.goto, heldForAx]
    · simp [hz, State.goto, heldForAx, rest]

/-- The CMS -> AX.25 half of the relay loop, behind the keep alive filter,
refines a byte link. -/
private theorem trans_downLink {e : Env} {s t : State} {a : Answer} (h : Trans e s a t) :
    (downLink s).Step (downLink t) := by
  cases h with
  | axWrote at_ m hm =>
      rw [downLink_wrote at_ hm]
      exact .deliver _ m
  | cmsChunk at_ c =>
      by_cases hk : isKeepAlive (s.buf.overwrite c.bytes c.fits).bytes = true
      · obtain ⟨hpc, hlog⟩ := onCmsChunk_eaten (e := e) hk
        apply stay_of_eq
        simp [downLink, heldForAx, at_, hpc, stream, hlog, Event.passed, Event.toAx]
      · obtain ⟨hpc, hlog, hall⟩ := onCmsChunk_passed (e := e) hk
        have key : downLink (onCmsChunk e s c) =
            ⟨(downLink s).accepted ++ c.bytes, (downLink s).delivered, c.bytes⟩ := by
          simp [downLink, heldForAx, hpc, hall, stream, hlog, Event.passed, Event.toAx]
        rw [key]
        exact .accept _ c.bytes (by simp [downLink, heldForAx, at_])
  | axChunk at_ c =>
      apply stay_of_eq
      simp [onAxChunk, downLink, heldForAx, at_, State.goto, stream, Event.passed, Event.toAx]
  | cmsDrained at_ =>
      apply stay_of_eq
      rw [downLink_axHalf]
      simp [downLink, heldForAx, at_]
  | selectAx at_ ax =>
      apply stay_of_eq
      rw [downLink_axHalf]
      simp [downLink, heldForAx, at_, stream]
  | axDrained at_ =>
      apply stay_of_eq
      rw [downLink_endOfRound]
      simp [downLink, heldForAx, at_]
  | cmsWrote at_ m hm =>
      apply stay_of_eq
      by_cases hz : s.n - m = 0 <;>
        simp [hz, downLink, heldForAx, at_, State.goto, stream, Event.passed, Event.toAx]
  | _ at_ =>
      apply stay_of_eq
      simp [downLink, heldForAx, at_, State.goto, State.finish, startRound, stream, Event.passed,
        Event.toAx, errGwSockIo, errGwLogin, errGwSock, errGwAx25, errGwAx25Io]

/-- Both directions stay exact over every run. -/
theorem links_exact {e : Env} {as : List Answer} {s : State}
    (h : run (step e) initial as = some s) : (upLink s).Exact ∧ (downLink s).Exact := by
  refine run_preserves (P := fun s => (upLink s).Exact ∧ (downLink s).Exact) ?_ h ⟨rfl, rfl⟩
  intro s a t hst hs
  exact ⟨(trans_upLink (step_trans hst)).exact hs.1, (trans_downLink (step_trans hst)).exact hs.2⟩

/-- The radio-to-CMS relay is exact: at every moment what the relay loop has
written to the CMS is a prefix of what it has read from AX.25, and all of it
unless a chunk is still being written or a write has failed for good. -/
theorem radio_to_cms_exact (e : Env) (as : List Answer) (s : State)
    (h : run (step e) initial as = some s) :
    stream Event.toCms s <+: stream Event.fromAx s ∧
      (s.pc ≠ .writeCms → s.rc.errcode ≠ errGwSockIo →
        stream Event.toCms s = stream Event.fromAx s) := by
  have hx := (links_exact h).1
  refine ⟨hx.delivered_prefix, fun hpc hio => hx.delivered_all ?_⟩
  simp only [upLink, heldForCms]
  split
  · exact absurd ‹s.pc = .writeCms› hpc
  · exact if_neg hio
  · rfl

private def client : Env := ⟨128, by decide, (0, 0)⟩

private def partialWrite : List Answer :=
  [.login true, .fcntl true, .fcntl true, .select false true,
    .chunk ⟨lit "FF\r", by decide, by decide⟩, .write (.wrote 1), .write .eagain,
    .write (.wrote 2), .drained]

theorem radio_to_cms_exact_partial :
    ∃ s, run (step client) initial partialWrite = some s ∧
      stream Event.toCms s <+: stream Event.fromAx s ∧
      (s.pc ≠ .writeCms → s.rc.errcode ≠ errGwSockIo →
        stream Event.toCms s = stream Event.fromAx s) := by
  obtain ⟨s, hs⟩ : ∃ s, run (step client) initial partialWrite = some s :=
    Option.isSome_iff_exists.mp (by decide)
  exact ⟨s, hs, radio_to_cms_exact client partialWrite s hs⟩

end Rmsgw.Gateway.Relay
