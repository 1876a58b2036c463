/- The keep alive filter of the CMS-to-radio relay: which bytes it deletes from
   the CMS stream, and when these are keep alive packets and nothing else. -/

import Rmsgw.Lib.PacketCuts
import Rmsgw.Gateway.Relay

set_option autoImplicit false
set_option relaxedAutoImplicit false

namespace Rmsgw.Gateway.KeepAlive

open Rmsgw.Lib.CStrings Rmsgw.Lib.Process Rmsgw.Lib.PacketCuts Rmsgw.Rms
open Rmsgw.Gateway.Model Rmsgw.Gateway.Steps Rmsgw.Gateway.Relay

/-- The bytes an event receives from the CMS, each marked with whether the
filter ate it. -/
def Event.marks : Event → List (UInt8 × Bool)
  | .cmsRecv bytes eaten => bytes.map (·, eaten)
  | _ => []

def marked (s : State) : List (UInt8 × Bool) := s.log.flatMap Event.marks

/-- The relay loop writes the CMS byte stream to AX.25 with nothing deleted
except complete keep alive packets: the bytes that were eaten make up whole
packets, and every other byte is written once and in order, all of them when no
chunk is on its way. -/
def RelayLossless (s : State) : Prop :=
  CutsOnly keepAlive (marked s) ∧
    stream Event.toAx s <+: kept (marked s) ∧
    (s.pc ≠ .writeAx → stream Event.toAx s = kept (marked s))

/-- A chunk on which the filter fires consists of keep alive packets. The filter
looks at the first eight bytes of the buffer, behind a shorter chunk at what an
earlier read left there. -/
def EatsWholePackets (s : State) : Answer → Prop
  | .chunk c => s.pc = .recvCms → isKeepAlive (s.buf.overwrite c.bytes c.fits).bytes = true →
      ∃ k, c.bytes = (List.replicate k keepAlive).flatten
  | _ => True

private theorem keepAlive_unbordered : Unbordered keepAlive := by
  unfold Unbordered; decide

theorem map_fst_marked (s : State) : (marked s).map Prod.fst = stream Event.fromCms s := by
  simp only [marked, stream, List.map_flatMap]
  congr 1
  funext ev
  cases ev <;> simp [Event.marks, Event.fromCms, Function.comp_def]

theorem kept_marked (s : State) : kept (marked s) = stream Event.passed s := by
  have each : ∀ log : List Event,
      kept (log.flatMap Event.marks) = log.flatMap Event.passed := by
    intro log
    induction log with
    | nil => rfl
    | cons ev log ih =>
        rw [List.flatMap_cons, List.flatMap_cons, kept_append, ih]
        congr 1
        cases ev with
        | cmsRecv bytes eaten => cases eaten <;> simp [Event.marks, Event.passed]
        | _ => rfl
  exact each s.log

private theorem marked_endOfRound (s : State) : marked (endOfRound s) = marked s := by
  rcases endOfRound_cases s with ⟨-, h⟩ | ⟨-, h⟩ <;>
    simp [h, marked, State.goto, State.finish, Event.marks]

private theorem marked_axHalf (s : State) : marked (axHalf s) = marked s := by
  rcases axHalf_cases s with h | h
  · simp [h, marked, State.goto, Event.marks]
  · rw [h, marked_endOfRound]

theorem trans_marked {e : Env} {s t : State} {a : Answer} (h : Trans e s a t) :
    (∃ c, a = .chunk c ∧ s.pc = .recvCms ∧ marked t =
      marked s ++ c.bytes.map (·, isKeepAlive (s.buf.overwrite c.bytes c.fits).bytes)) ∨
    ((∀ c, a = .chunk c → s.pc ≠ .recvCms) ∧ marked t = marked s) := by
  cases h with
  | cmsChunk at_ c =>
      refine .inl ⟨c, rfl, at_, ?_⟩
      by_cases hk : isKeepAlive (s.buf.overwrite c.bytes c.fits).bytes = true
      · simp [marked, (onCmsChunk_eaten (e := e) hk).2, Event.marks, hk]
      · simp [marked, (onCmsChunk_passed (e := e) hk).2.1, Event.marks, hk]
  | selectAx at_ ax =>
      refine .inr ⟨by simp, ?_⟩
      rw [marked_axHalf]
      rfl
  | cmsDrained at_ => exact .inr ⟨by simp, marked_axHalf s⟩
  | axDrained at_ => exact .inr ⟨by simp, marked_endOfRound s⟩
  | _ at_ =>
      refine .inr ⟨fun c _ hpc => by simp [at_] at hpc, ?_⟩
      simp [marked, State.goto, State.finish, startRound, onAxChunk, Event.marks]

private theorem eaten_starts {buf : CArray bufLen} {c : Chunk}
    (h : isKeepAlive (buf.overwrite c.bytes c.fits).bytes = true) :
    c.bytes.take keepAlive.length <+: keepAlive := by
  have hbuf : (c.bytes ++ buf.bytes.drop c.bytes.length).take 8 = keepAlive := by
    rw [isKeepAlive, strnequal, beq_iff_eq, CArray.overwrite_bytes] at h
    exact h
  have hpre : c.bytes.take 8 <+: (c.bytes ++ buf.bytes.drop c.bytes.length).take 8 :=
    (List.prefix_append _ _).take 8
  rwa [hbuf] at hpre

/-- One step keeps the deletions to whole packets exactly when the filter does. -/
private theorem cutsOnly_step {e : Env} {s t : State} {a : Answer} (h : step e s a = some t) :
    CutsOnly keepAlive (marked t) ↔ CutsOnly keepAlive (marked s) ∧ EatsWholePackets s a := by
  rcases trans_marked (step_trans h) with ⟨c, rfl, at_, hm⟩ | ⟨hne, hm⟩
  · rw [hm]
    cases hk : isKeepAlive (s.buf.overwrite c.bytes c.fits).bytes with
    | true =>
        rw [cutsOnly_append_cut keepAlive_unbordered (eaten_starts hk)]
        simp [EatsWholePackets, at_, hk]
    | false =>
        rw [cutsOnly_append_kept]
        simp [EatsWholePackets, hk]
  · rw [hm]
    refine (and_iff_left ?_).symm
    cases a with
    | chunk c => exact fun at_ => absurd at_ (hne c rfl)
    | _ => trivial

private theorem relayLossless_iff_cutsOnly {e : Env} {as : List Answer} {s : State}
    (h : run (step e) initial as = some s) (hio : s.rc.errcode ≠ errGwAx25Io) :
    RelayLossless s ↔ CutsOnly keepAlive (marked s) := by
  have hx := (links_exact h).2
  refine and_iff_left ?_
  rw [kept_marked]
  refine ⟨hx.delivered_prefix, fun hpc => hx.delivered_all ?_⟩
  simp only [downLink, heldForAx]
  split
  · exact absurd ‹s.pc = .writeAx› hpc
  · exact if_neg hio
  · rfl

/-- As long as the writes to AX.25 do not fail, the CMS-to-radio relay loses
nothing but keep alive packets exactly when every chunk on which the filter
fired consisted of such packets. -/
theorem cms_to_radio_lossless_iff (e : Env) (as : List Answer) (s : State)
    (h : run (step e) initial as = some s) (hio : s.rc.errcode ≠ errGwAx25Io) :
    RelayLossless s ↔ Meets (step e) EatsWholePackets initial as := by
  rw [relayLossless_iff_cutsOnly h hio,
    run_iff_meets (Q := fun s => CutsOnly keepAlive (marked s)) (fun _ _ _ => cutsOnly_step) h]
  exact and_iff_right .nil

/-- What a lossless relay has written, between two chunks, is the byte stream of
the CMS with whole keep alive packets cut out of it. -/
theorem RelayLossless.stream_cut {s : State} (h : RelayLossless s) (hpc : s.pc ≠ .writeAx) :
    ∃ ms, ms.map Prod.fst = stream Event.fromCms s ∧ CutsOnly keepAlive ms ∧
      stream Event.toAx s = kept ms :=
  ⟨marked s, map_fst_marked s, h.1, h.2.2 hpc⟩

private def station : Env := ⟨255, by decide, (0, 0)⟩

private def greeting : Chunk := ⟨lit "HELLO\r\n", by decide, by decide⟩

private def twoPackets : Chunk := ⟨keepAlive ++ keepAlive, by decide, by decide⟩

private def packetAndGreeting : Chunk :=
  ⟨keepAlive ++ greeting.bytes, by decide, by decide⟩

private def cleanSession : List Answer :=
  [.login true, .fcntl true, .fcntl true, .select true false, .peekByte 59, .chunk twoPackets,
    .chunk greeting, .write (.wrote 7), .drained]

theorem cms_to_radio_lossless_iff_clean :
    ∃ s, run (step station) initial cleanSession = some s ∧ s.rc.errcode ≠ errGwAx25Io ∧
      (RelayLossless s ↔ Meets (step station) EatsWholePackets initial cleanSession) := by
  obtain ⟨s, hs, hio⟩ : ∃ s, run (step station) initial cleanSession = some s ∧
      s.rc.errcode ≠ errGwAx25Io := by
    have hcode : (run (step station) initial cleanSession).map (·.rc.errcode) = some 0 := by decide
    obtain ⟨s, hs, herr⟩ := Option.map_eq_some_iff.mp hcode
    exact ⟨s, hs, by rw [herr]; decide⟩
  exact ⟨s, hs, hio, cms_to_radio_lossless_iff station cleanSession s hs hio⟩

/-- TCP delivers a keep alive packet and the greeting behind it in one chunk. -/
private def sharedChunk : List Answer :=
  [.login true, .fcntl true, .fcntl true, .select true false, .peekByte 59,
    .chunk packetAndGreeting, .drained]

/-- The greeting is eaten together with the packet it shares a chunk with. -/
theorem relay_loses_shared_chunk :
    ∃ s, run (step station) initial sharedChunk = some s ∧ s.rc.errcode ≠ errGwAx25Io ∧
      stream Event.toAx s = [] ∧ ¬ RelayLossless s := by
  have hend : (run (step station) initial sharedChunk).map
      (fun s => (s.rc.errcode, stream Event.toAx s, marked s)) =
        some (0, [], packetAndGreeting.bytes.map (·, true)) := by decide
  obtain ⟨s, hs, heq⟩ := Option.map_eq_some_iff.mp hend
  simp only [Prod.mk.injEq] at heq
  obtain ⟨hcode, hax, hmarks⟩ := heq
  refine ⟨s, hs, by rw [hcode]; decide, hax, ?_⟩
  intro hloss
  have hcut := hloss.1
  rw [hmarks] at hcut
  -- the fifteen bytes eaten are no multiple of eight
  exact absurd hcut.length_dvd (by decide)

end Rmsgw.Gateway.KeepAlive
