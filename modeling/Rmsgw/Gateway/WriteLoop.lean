/- The inner loop that writes a chunk to AX.25: partial writes, retries on EAGAIN
   with a limit, and the bytes that have gone out when it is left. -/

import Rmsgw.Gateway.Relay
import Rmsgw.Sendrf.Loop

set_option autoImplicit false
set_option relaxedAutoImplicit false

namespace Rmsgw.Gateway.WriteLoop

open Rmsgw.Lib.CStrings Rmsgw.Lib.Process Rmsgw.Rms Rmsgw.Gateway.Model Rmsgw.Gateway.Steps
open Rmsgw.Gateway.Relay
open Rmsgw.Sendrf.Loop (size bytesTaken bytesTaken_append)

/-- One call of `write` after the other, as long as the loop is not left. -/
def writeLoop (e : Env) : Step State WriteResult := fun s r =>
  if s.pc = .writeAx then step e s (.write r) else none

/-- The EAGAIN outcomes in a row at the end. -/
def eagainRun (rs : List WriteResult) : Nat :=
  (rs.reverse.takeWhile (fun r => r == .eagain)).length

/-- The loop in front of a call, with the outcomes `rs` so far. -/
structure Writing (bytes : List UInt8) (rs : List WriteResult) (s : State) : Prop where
  at_ : s.pc = .writeAx
  left : bytesTaken rs + s.n = bytes.length
  more : 0 < s.n
  rest : (s.buf.bytes.drop s.cp).take s.n = bytes.drop (bytesTaken rs)
  retry : s.retryCount = eagainRun rs
  few : s.retryCount ≤ 15
  paced : rs.length ≤ 16 * bytesTaken rs + s.retryCount

/-- The loop left behind it: with all bytes written, or with an error for a failed
write or for EAGAIN in a row. -/
inductive Left (bytes : List UInt8) (rs : List WriteResult) (s : State) : Prop
  | relayed (at_ : s.pc = .recvCms) (all : bytesTaken rs = bytes.length) (row : eagainRun rs = 0)
      (last : rs.getLast? ≠ some .failed)
  | failed (at_ : s.pc = .done) (code : s.rc.errcode = errGwAx25Io)
      (part : bytesTaken rs < bytes.length) (row : eagainRun rs = 0)
      (last : rs.getLast? = some .failed)
  | gaveUp (at_ : s.pc = .done) (code : s.rc.errcode = errGwAx25Io)
      (part : bytesTaken rs < bytes.length) (row : eagainRun rs = 16)
      (last : rs.getLast? ≠ some .failed)

structure Progress (bytes before : List UInt8) (rs : List WriteResult) (s : State) : Prop where
  stands : Writing bytes rs s ∨ (Left bytes rs s ∧ rs.length ≤ 16 * bytes.length)
  out : stream Event.toAx s = before ++ bytes.take (bytesTaken rs)

private theorem eagainRun_eagain (rs : List WriteResult) :
    eagainRun (rs ++ [.eagain]) = eagainRun rs + 1 := by
  simp [eagainRun]

private theorem eagainRun_wrote (rs : List WriteResult) (m : Nat) :
    eagainRun (rs ++ [.wrote m]) = 0 := by
  simp [eagainRun]

private theorem eagainRun_failed (rs : List WriteResult) : eagainRun (rs ++ [.failed]) = 0 := by
  simp [eagainRun]

private theorem bytesTaken_snoc (rs : List WriteResult) (r : WriteResult) :
    bytesTaken (rs ++ [r]) = bytesTaken rs + size r := by
  rw [bytesTaken_append]
  rfl

private theorem Writing.offer {e : Env} {bytes : List UInt8} {rs : List WriteResult} {s : State}
    (h : Writing bytes rs s) :
    offerAx e s = (bytes.drop (bytesTaken rs)).take e.paclen ∧
      (offerAx e s).length = min e.paclen s.n := by
  have hoffer : offerAx e s = (bytes.drop (bytesTaken rs)).take e.paclen := by
    rw [offerAx, ← List.take_take, h.rest]
  refine ⟨hoffer, ?_⟩
  have hleft := h.left
  rw [hoffer, List.length_take, List.length_drop]
  omega

private theorem progress_wrote {e : Env} {bytes before : List UInt8} {rs : List WriteResult}
    {s : State} {m : Nat} (hs : Writing bytes rs s)
    (hout : stream Event.toAx s = before ++ bytes.take (bytesTaken rs)) (hm : m ≤ (offerAx e s).length)
    (hpos : 0 < m) :
    Progress bytes before (rs ++ [.wrote m])
      ({ s with retryCount := 0, cp := s.cp + m, n := s.n - m }.goto
        (if s.n - m = 0 then .recvCms else .writeAx) [.axWrite (offerAx e s) (.wrote m)]) := by
  obtain ⟨hoffer, hlen⟩ := hs.offer (e := e)
  have hleft := hs.left
  have hpaced := hs.paced
  have hfew := hs.few
  have htaken : bytesTaken (rs ++ [.wrote m]) = bytesTaken rs + m := bytesTaken_snoc rs _
  have hcalls : (rs ++ [WriteResult.wrote m]).length ≤ 16 * (bytesTaken rs + m) := by
    rw [List.length_append, List.length_singleton]
    omega
  constructor
  case out =>
    have hfront : (offerAx e s).take m = (bytes.drop (bytesTaken rs)).take m := by
      rw [hoffer, List.take_take, min_eq_left (by omega)]
    rw [stream_goto, htaken, List.take_add, ← hfront]
    simp [stream, Event.toAx] at hout ⊢
    rw [hout, List.append_assoc]
  case stands =>
    by_cases hz : s.n - m = 0
    · refine .inr ⟨.relayed ?_ (by omega) (eagainRun_wrote rs m) (by simp), by omega⟩
      rw [if_pos hz]
      rfl
    · have hrest : (s.buf.bytes.drop (s.cp + m)).take (s.n - m) = bytes.drop (bytesTaken rs + m) := by
        rw [← List.drop_drop, ← List.drop_take, hs.rest, List.drop_drop]
      rw [if_neg hz]
      refine .inl ⟨rfl, ?_, Nat.pos_of_ne_zero hz, ?_, (eagainRun_wrote rs m).symm, Nat.zero_le 15, ?_⟩
      · change bytesTaken (rs ++ [.wrote m]) + (s.n - m) = bytes.length
        omega
      · rw [htaken]
        exact hrest
      · rw [htaken]
        exact hcalls

private theorem progress_eagain {e : Env} {bytes before : List UInt8} {rs : List WriteResult}
    {s t : State}
    (hs : Writing bytes rs s) (hout : stream Event.toAx s = before ++ bytes.take (bytesTaken rs))
    (h : Trans e s (.write .eagain) t) : Progress bytes before (rs ++ [.eagain]) t := by
  have hleft := hs.left
  have hmore := hs.more
  have hpaced := hs.paced
  have hretry := hs.retry
  have hrow := eagainRun_eagain rs
  have htaken : bytesTaken (rs ++ [.eagain]) = bytesTaken rs := bytesTaken_snoc rs _
  cases h with
  | axRetry at_ again =>
      constructor
      case out => simpa [htaken, stream, State.goto, Event.toAx] using hout
      case stands =>
        refine .inl ⟨rfl, ?_, hs.more, ?_, ?_, again, ?_⟩
        · rw [htaken]
          exact hs.left
        · rw [htaken]
          exact hs.rest
        · rw [hrow, ← hretry]
          rfl
        · rw [htaken, List.length_append, List.length_singleton]
          exact Nat.succ_le_succ hpaced
  | axGiveUp at_ enough =>
      constructor
      case out => simpa [htaken, stream, State.finish, Event.toAx] using hout
      case stands =>
        have hfew := hs.few
        refine .inr ⟨.gaveUp rfl rfl (by omega) (by omega) (by simp), ?_⟩
        rw [List.length_append, List.length_singleton]
        omega
  | cmsRetry at_ => exact absurd (hs.at_.symm.trans at_) (by decide)

private theorem progress_failed {e : Env} {bytes before : List UInt8} {rs : List WriteResult}
    {s t : State}
    (hs : Writing bytes rs s) (hout : stream Event.toAx s = before ++ bytes.take (bytesTaken rs))
    (h : Trans e s (.write .failed) t) : Progress bytes before (rs ++ [.failed]) t := by
  have hleft := hs.left
  have hmore := hs.more
  have hpaced := hs.paced
  have hfew := hs.few
  have htaken : bytesTaken (rs ++ [.failed]) = bytesTaken rs := bytesTaken_snoc rs _
  cases h with
  | axFailed at_ =>
      constructor
      case out => simpa [htaken, stream, State.finish, Event.toAx] using hout
      case stands =>
        refine .inr ⟨.failed rfl rfl (by omega) (eagainRun_failed rs) (by simp), ?_⟩
        rw [List.length_append, List.length_singleton]
        omega
  | cmsFailed at_ => exact absurd (hs.at_.symm.trans at_) (by decide)

private theorem writing_start {e : Env} {s : State} {c : Chunk}
    (hpass : isKeepAlive (s.buf.overwrite c.bytes c.fits).bytes = false) :
    Writing c.bytes [] (onCmsChunk e s c) := by
  have hno : isKeepAlive (s.buf.overwrite c.bytes c.fits).bytes ≠ true := by simp [hpass]
  obtain ⟨hpc, -, hall⟩ := onCmsChunk_passed (e := e) hno
  have hn : (onCmsChunk e s c).n = c.bytes.length := by simp [onCmsChunk, hpass, State.goto]
  have hretry : (onCmsChunk e s c).retryCount = 0 := by simp [onCmsChunk, hpass, State.goto]
  constructor
  case at_ => exact hpc
  case left => rw [hn]; exact Nat.zero_add _
  case more => rw [hn]; exact c.nonempty
  case rest => rw [hall]; rfl
  case retry => rw [hretry]; rfl
  case few => rw [hretry]; exact Nat.zero_le 15
  case paced => exact Nat.zero_le _

private theorem progress_step {e : Env} {bytes before : List UInt8} {rs : List WriteResult}
    {s t : State} {r : WriteResult} (hs : Progress bytes before rs s) (hr : r ≠ .wrote 0)
    (h : writeLoop e s r = some t) : Progress bytes before (rs ++ [r]) t := by
  unfold writeLoop at h
  split at h
  case isFalse => cases h
  case isTrue at_ =>
    have hwriting : Writing bytes rs s := by
      refine hs.stands.resolve_right ?_
      rintro ⟨hleft, -⟩
      cases hleft with
      | relayed done_ _ _ _ => exact absurd (at_.symm.trans done_) (by decide)
      | failed done_ _ _ _ _ => exact absurd (at_.symm.trans done_) (by decide)
      | gaveUp done_ _ _ _ _ => exact absurd (at_.symm.trans done_) (by decide)
    have htrans := step_trans h
    cases r with
    | wrote m =>
        have hm : 0 < m := Nat.pos_of_ne_zero fun hz => hr (by rw [hz])
        cases htrans with
        | axWrote _ _ hle => exact progress_wrote hwriting hs.out hle hm
        | cmsWrote there _ _ => exact absurd (at_.symm.trans there) (by decide)
    | eagain => exact progress_eagain hwriting hs.out htrans
    | failed => exact progress_failed hwriting hs.out htrans

private theorem progress_run {e : Env} {s : State} {c : Chunk} {rs : List WriteResult} {t : State}
    (hpass : isKeepAlive (s.buf.overwrite c.bytes c.fits).bytes = false)
    (h : run (writeLoop e) (onCmsChunk e s c) rs = some t) (hpos : WriteResult.wrote 0 ∉ rs) :
    Progress c.bytes (stream Event.toAx s) rs t := by
  have hstart : Progress c.bytes (stream Event.toAx s) [] (onCmsChunk e s c) := by
    refine ⟨.inl (writing_start hpass), ?_⟩
    have hlog := (onCmsChunk_passed (e := e) (s := s) (c := c) (by simp [hpass])).2.1
    simp [stream, hlog, Event.toAx, bytesTaken]
  refine run_induction
    (P := fun rs t => WriteResult.wrote 0 ∉ rs → Progress c.bytes (stream Event.toAx s) rs t)
    (fun _ => hstart) ?_ h hpos
  intro rs u r t hstep ih hrs
  refine progress_step (ih fun hmem => hrs (List.mem_append_left _ hmem)) ?_ hstep
  rintro rfl
  exact hrs (by simp)

/-- The call that comes next: what is offered, and that every outcome of it is met. -/
structure NextCall (e : Env) (bytes : List UInt8) (rs : List WriteResult) (t : State) : Prop where
  offer : offerAx e t = (bytes.drop (bytesTaken rs)).take e.paclen
  some_ : 1 ≤ (offerAx e t).length
  most : (offerAx e t).length ≤ e.paclen
  meets : ∀ r, (∀ m, r = .wrote m → m ≤ (offerAx e t).length) → (writeLoop e t r).isSome = true

private theorem Writing.nextCall {e : Env} {bytes : List UInt8} {rs : List WriteResult} {s : State}
    (h : Writing bytes rs s) : NextCall e bytes rs s := by
  obtain ⟨hoffer, hlen⟩ := h.offer (e := e)
  have hmore := h.more
  have hpaclen := e.paclen_pos
  constructor
  case offer => exact hoffer
  case some_ => omega
  case most => omega
  case meets =>
    intro r hfits
    have hcall : writeLoop e s r = onAxWrite e s r := by
      unfold writeLoop
      rw [if_pos h.at_]
      unfold step
      rw [h.at_]
    rw [hcall]
    cases r with
    | wrote m =>
        have hle := hfits m rfl
        rw [onAxWrite]
        simp only [if_pos hle, Option.isSome_some]
    | eagain =>
        simp only [onAxWrite]
        split <;> rfl
    | failed => rfl

/-- The AX.25 write loop on a chunk that is not eaten: a bounded number of calls,
each offering at most a packet from the first unwritten byte on; the bytes taken
are the chunk up to there, all of it where the loop goes on to the next read, and
the loop gives up at the sixteenth EAGAIN in a row. -/
theorem ax_write_loop_bounded (e : Env) (s : State) (c : Chunk) (rs : List WriteResult) (t : State)
    (hpass : isKeepAlive (s.buf.overwrite c.bytes c.fits).bytes = false)
    (h : run (writeLoop e) (onCmsChunk e s c) rs = some t) (hpos : WriteResult.wrote 0 ∉ rs) :
    rs.length ≤ 16 * c.bytes.length ∧
      stream Event.toAx t = stream Event.toAx s ++ c.bytes.take (bytesTaken rs) ∧
      ((t.pc = .writeAx ∧ NextCall e c.bytes rs t ∧ rs.length < 16 * c.bytes.length) ∨
        (t.pc = .recvCms ∧ bytesTaken rs = c.bytes.length) ∨
        (t.pc = .done ∧ t.rc.errcode = errGwAx25Io ∧ bytesTaken rs < c.bytes.length)) ∧
      (t.pc = .done ∧ rs.getLast? ≠ some .failed ↔ eagainRun rs = 16) := by
  have hprogress := progress_run hpass h hpos
  rcases hprogress.stands with hw | ⟨hleft, hlen⟩
  · have hbalance := hw.left
    have hmore := hw.more
    have hpaced := hw.paced
    have hfew := hw.few
    have hretry := hw.retry
    have hshort : rs.length < 16 * c.bytes.length := by omega
    refine ⟨by omega, hprogress.out, .inl ⟨hw.at_, hw.nextCall, hshort⟩, ?_⟩
    rw [hw.at_]
    exact ⟨fun hdone => absurd hdone.1 (by decide), fun hrow => by omega⟩
  · refine ⟨hlen, hprogress.out, .inr ?_, ?_⟩
    · cases hleft with
      | relayed at_ all _ _ => exact .inl ⟨at_, all⟩
      | failed at_ code part _ _ => exact .inr ⟨at_, code, part⟩
      | gaveUp at_ code part _ _ => exact .inr ⟨at_, code, part⟩
    · cases hleft with
      | relayed at_ _ row _ =>
          rw [at_, row]
          exact ⟨fun hdone => absurd hdone.1 (by decide), fun hrow => absurd hrow (by decide)⟩
      | failed at_ _ _ row last =>
          rw [row]
          exact ⟨fun hdone => absurd last hdone.2, fun hrow => absurd hrow (by decide)⟩
      | gaveUp at_ _ _ row last => exact ⟨fun _ => row, fun _ => ⟨at_, last⟩⟩

private def packetRadio : Env := ⟨4, by decide, (0, 0)⟩

private def motd : Chunk := ⟨lit "HELLO\r", by decide, by decide⟩

private def motdWrites : List WriteResult := [.wrote 3, .eagain, .eagain, .wrote 3]

theorem ax_write_loop_bounded_motd :
    ∃ t, run (writeLoop packetRadio) (onCmsChunk packetRadio initial motd) motdWrites = some t ∧
      isKeepAlive (initial.buf.overwrite motd.bytes motd.fits).bytes = false ∧
      WriteResult.wrote 0 ∉ motdWrites ∧ motdWrites.length ≤ 16 * motd.bytes.length ∧
      stream Event.toAx t = stream Event.toAx initial ++ motd.bytes.take (bytesTaken motdWrites) := by
  have hpass : isKeepAlive (initial.buf.overwrite motd.bytes motd.fits).bytes = false := by decide
  have hpos : WriteResult.wrote 0 ∉ motdWrites := by decide
  obtain ⟨t, ht⟩ : ∃ t, run (writeLoop packetRadio) (onCmsChunk packetRadio initial motd)
      motdWrites = some t := Option.isSome_iff_exists.mp (by decide)
  obtain ⟨hlen, hout, -, -⟩ := ax_write_loop_bounded packetRadio initial motd motdWrites t hpass ht hpos
  exact ⟨t, ht, hpass, hpos, hlen, hout⟩

end Rmsgw.Gateway.WriteLoop
