/- The bytes that the secure gateway login writes to the CMS, over all its runs. -/

import Rmsgw.Login.Safety

set_option autoImplicit false
set_option relaxedAutoImplicit false

namespace Rmsgw.Login.Spoken

open Rmsgw.Lib.CStrings Rmsgw.Lib.Process Rmsgw.Rms Rmsgw.Login.Model Rmsgw.Login.Steps
open Rmsgw.Login.Safety (expectsend_eq_zero_iff callsigns_length)

/-- What write() has taken of the line of an event. -/
def Event.sent : Event → List UInt8
  | .send _ line r => r.taken line
  | .read _ => []

def spoken (s : State) : List UInt8 := s.log.flatMap Event.sent

/-- Bare CRs, one at most for each time that a line was no prompt. -/
def Crs (s : State) (bytes : List UInt8) : Prop :=
  ∃ n, n ≤ s.loopCnt ∧ bytes = List.replicate n 13

/-- CRs, and behind them the callsign line, as a whole or not at all. -/
def CallsignsSpoken (g : Credentials) (s : State) (bytes : List UInt8) : Prop :=
  ∃ crs line, bytes = crs ++ line ∧ Crs s crs ∧ (line = lineText g s .callsigns ∨ line = [])

/-- Behind all that the response line, as far as it was taken. -/
def ResponseSpoken (g : Credentials) (s : State) (bytes : List UInt8) : Prop :=
  ∃ front line, bytes = front ++ line ∧ CallsignsSpoken g s front ∧
    line <+: lineText g s .response

/-- What has been said, by the state of the machine; a CR about to be sent is counted. -/
def Said (g : Credentials) (s : State) : Prop :=
  match s.sglState, s.running with
  | .callsign, true =>
      s.pending ≠ some .response ∧ s.loopCnt ≤ loopLimit + 1 ∧
        ∃ n, n + (if s.pending = some .cr then 1 else 0) ≤ s.loopCnt ∧
          spoken s = List.replicate n 13
  | .challenge, true =>
      (s.pending = none ∨ s.pending = some .response) ∧ s.loopCnt ≤ loopLimit + 1 ∧
        CallsignsSpoken g s (spoken s)
  | .responseSent, false => s.loopCnt ≤ loopLimit + 1 ∧ ResponseSpoken g s (spoken s)
  | .loginComplete, false => s.loopCnt ≤ loopLimit + 1 ∧ ResponseSpoken g s (spoken s)
  | .callsignFail, false => True
  | .challengeFail, false => True
  | _, _ => False

section Steps

variable {g : Credentials} {s t : State}

private theorem spoken_snoc {e : Event} (h : t.log = s.log ++ [e]) :
    spoken t = spoken s ++ Event.sent e := by
  rw [spoken, h, List.flatMap_append, List.flatMap_singleton]
  rfl

private theorem said_read (hs : Said g s) (hrun : s.running = true) (idle : s.pending = none)
    (r : ReadResult) : Said g (onRead s r) := by
  have silent : ∀ t : State, t.log = s.log ++ [.read r] → spoken t = spoken s := by
    intro t ht
    rw [spoken_snoc ht]
    exact List.append_nil _
  cases hst : s.sglState with
  | callsign =>
      simp only [Said, hst, hrun, idle] at hs
      obtain ⟨-, hcnt, n, hn, hsaid⟩ := hs
      cases r with
      | line rbuf =>
          simp only [onRead, hst, onCallsign]
          split
          · simp only [Said, hrun, idle]
            exact ⟨by simp, hcnt, n, hn, (silent _ rfl).trans hsaid⟩
          split
          · simp only [Said, hrun]
            exact ⟨by simp, hcnt, n, hn, (silent _ rfl).trans hsaid⟩
          split
          · simp only [State.stop, Said]
          · simp only [Said, hrun]
            refine ⟨by simp, by omega, n, ?_, (silent _ rfl).trans hsaid⟩
            simp only [reduceCtorEq, if_false, if_true] at hn ⊢
            omega
      | eof => simp only [onRead, hst, onCallsign, State.stop, Said]
      | error => simp only [onRead, hst, onCallsign, State.stop, Said]
  | challenge =>
      simp only [Said, hst, hrun] at hs
      obtain ⟨-, hcnt, crs, text, hbytes, ⟨n, hn, hcrs⟩, htext⟩ := hs
      have kept : ∀ t : State, t.log = s.log ++ [.read r] → t.loopCnt = s.loopCnt →
          CallsignsSpoken g t (spoken t) := fun t hlog hloop =>
        ⟨crs, text, (silent t hlog).trans hbytes, ⟨n, hloop ▸ hn, hcrs⟩, htext⟩
      cases r with
      | line rbuf =>
          simp only [onRead, hst, onChallenge]
          split
          · simp only [Said, hrun]
            exact ⟨.inl idle, hcnt, kept _ rfl rfl⟩
          split
          · simp only [Said, hrun]
            exact ⟨.inr trivial, hcnt, kept _ rfl rfl⟩
          · simp only [State.stop, Said]
      | eof => simp only [onRead, hst, onChallenge, State.stop, Said]
      | error => simp only [onRead, hst, onChallenge, State.stop, Said]
  | _ => simp only [Said, hst, hrun] at hs

private theorem cr_taken {r : WriteResult} (fits : WriteResult.fits (lit "\r") r = true)
    (h : ¬ expectsend (lit "\r") (writeReturn r) < 0) :
    r.taken (lit "\r") = List.replicate 0 13 ∨ r.taken (lit "\r") = List.replicate 1 13 := by
  have hzero : expectsend (lit "\r") (writeReturn r) = 0 := by
    revert h
    rw [expectsend]
    split <;> [split; skip] <;> simp [fail, succeed]
  rcases (expectsend_eq_zero_iff fits (by decide) (by decide)).mp hzero with hneg | rfl
  · cases r with
    | wrote m => simp only [writeReturn] at hneg; omega
    | eagain => exact .inl rfl
    | failed => exact .inl rfl
  · exact .inr rfl

private theorem said_send (hs : Said g s) (hrun : s.running = true) {line : Line}
    (busy : s.pending = some line) {r : WriteResult}
    (fits : WriteResult.fits (lineText g s line) r = true) : Said g (onSend g s line r) := by
  have heard : ∀ t : State, t.log = s.log ++ [.send line (lineText g s line) r] →
      spoken t = spoken s ++ r.taken (lineText g s line) := fun t ht => spoken_snoc ht
  cases hst : s.sglState with
  | callsign =>
      simp only [Said, hst, hrun, busy] at hs
      obtain ⟨hpend, hcnt, n, hn, hsaid⟩ := hs
      cases line with
      | response => exact absurd rfl hpend
      | callsigns =>
          simp only [onSend]
          split
          · simp only [State.stop, Said]
          · rename_i hrc
            obtain ⟨hpos, hsmall⟩ := callsigns_length g s
            have hzero := (expectsend_eq_zero_iff fits hpos hsmall).mp (not_not.mp hrc)
            simp only [Said, hrun]
            refine ⟨.inl trivial, hcnt, spoken s, r.taken (lineText g s .callsigns), heard _ rfl,
              ⟨n, ?_, hsaid⟩, ?_⟩
            · simpa using hn
            · rcases hzero with hneg | rfl
              · cases r with
                | wrote m => simp only [writeReturn] at hneg; omega
                | eagain => exact .inr rfl
                | failed => exact .inr rfl
              · exact .inl (List.take_length)
      | cr =>
          simp only [onSend]
          split
          · simp only [State.stop, Said]
          · rename_i hrc
            simp only [Said, hst, hrun]
            simp only [if_true] at hn
            refine ⟨by simp, hcnt, ?_⟩
            rcases cr_taken fits hrc with htaken | htaken
            · refine ⟨n, by simp; omega, (heard _ rfl).trans ?_⟩
              rw [hsaid, lineText, htaken]
              exact List.append_nil _
            · refine ⟨n + 1, by simpa using hn, (heard _ rfl).trans ?_⟩
              rw [hsaid, lineText, htaken, List.replicate_append_replicate]
  | challenge =>
      simp only [Said, hst, hrun, busy] at hs
      obtain ⟨hpend, hcnt, hsaid⟩ := hs
      obtain rfl : line = .response := by simpa using hpend
      have hresponse : ∀ t : State, t.log = s.log ++ [.send .response (lineText g s .response) r] →
          t.loopCnt = s.loopCnt → t.challenge = s.challenge → ResponseSpoken g t (spoken t) := by
        intro t hlog hloop hchallenge
        refine ⟨spoken s, r.taken (lineText g s .response), heard t hlog, ?_, ?_⟩
        · obtain ⟨crs, text, hbytes, ⟨n, hn, hcrs⟩, htext⟩ := hsaid
          exact ⟨crs, text, hbytes, ⟨n, hloop ▸ hn, hcrs⟩, htext⟩
        · rw [lineText, lineText, hchallenge]
          cases r with
          | wrote m => exact List.take_prefix _ _
          | eagain => exact List.nil_prefix
          | failed => exact List.nil_prefix
      simp only [onSend]
      split <;> simp only [State.stop, Said] <;> exact ⟨hcnt, hresponse _ rfl rfl rfl⟩
  | _ => simp only [Said, hst, hrun] at hs

theorem said_step {a : Answer} (h : step g s a = some t) (hs : Said g s) : Said g t := by
  cases step_trans h with
  | read run idle r => exact said_read hs run idle r
  | send run line busy r fits => exact said_send hs run busy fits

theorem Said.succeeded (hs : Said g s) (hstop : s.running = false) (h : returnCode s = succeed) :
    ResponseSpoken g s (spoken s) ∧ s.loopCnt ≤ loopLimit + 1 := by
  rw [Said, hstop] at hs
  cases hst : s.sglState with
  | responseSent => rw [hst] at hs; exact hs.symm
  | loginComplete => rw [hst] at hs; exact hs.symm
  | callsignFail => rw [returnCode, hst] at h; cases h
  | challengeFail => rw [returnCode, hst] at h; cases h
  | callsign => rw [hst] at hs; exact hs.elim
  | challenge => rw [hst] at hs; exact hs.elim
  | badState => rw [hst] at hs; exact hs.elim

end Steps

end Rmsgw.Login.Spoken
