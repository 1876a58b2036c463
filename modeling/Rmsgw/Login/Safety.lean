/- The conversation rules of the secure gateway login: who may send what, when,
   and what a password can influence. -/

import Rmsgw.Lib.Transcript
import Rmsgw.Login.Steps

set_option autoImplicit false
set_option relaxedAutoImplicit false

namespace Rmsgw.Login.Safety

open Rmsgw.Lib.CStrings Rmsgw.Lib.Process Rmsgw.Lib.Transcript Rmsgw.Rms
open Rmsgw.Login.Model Rmsgw.Login.Steps

def reads (needle : Str) : Event → Bool
  | .read (.line rbuf) => strcasestr (text rbuf) needle
  | _ => false

/-- An attempt to send one of the lines. -/
def attempts (line : Line) : Event → Bool
  | .send l _ _ => l == line
  | _ => false

/-- The callsign line, taken by `write` as a whole. -/
def callsignsSent : Event → Bool
  | .send .callsigns text (.wrote count) => count == text.length
  | _ => false

/-- What must stand in front of an event: the prompt before the callsign line,
the callsign line and then the challenge before the response. -/
def Needs (before : List Event) (e : Event) : Prop :=
  (callsignsSent e = true → ∃ r ∈ before, reads (lit "Callsign :") r = true) ∧
    (attempts .response e = true → ∃ front c rest, before = front ++ c :: rest ∧
      callsignsSent c = true ∧ ∃ r ∈ rest, reads (lit ";SQ: ") r = true)

/-- What may stand behind an event: no second callsign line and no bare CR
behind the callsign line, nothing at all behind the response. -/
def Permits (e later : Event) : Prop :=
  (callsignsSent e = true → callsignsSent later = false ∧ attempts .cr later = false) ∧
    attempts .response e = false

def Orderly (log : List Event) : Prop := Ordered Needs Permits log

/-- The result is FAIL exactly when no response was attempted, and the
impossible state is never met. -/
def Reports (s : State) : Prop :=
  s.sglState ≠ .badState ∧
    (s.running = false →
      (returnCode s = fail ↔ ∀ e ∈ s.log, attempts .response e = false))

/-- The transcript in front of the response. -/
def beforeResponse (log : List Event) : List Event :=
  log.takeWhile (fun e => !attempts .response e)

/-- A write of the callsign line does not end in an error. -/
def CallsignWriteReturns (s : State) (a : Answer) : Prop :=
  s.pending = some .callsigns → ∀ r, a = .write r → 0 ≤ writeReturn r

/-- The callsign line has been sent, and what was read behind it satisfies `P`. -/
def SentThen (P : List Event → Prop) (log : List Event) : Prop :=
  ∃ front c rest, log = front ++ c :: rest ∧ callsignsSent c = true ∧ P rest

/-- What the state of the machine says about the transcript so far. -/
def Tracks (s : State) : Prop :=
  match s.sglState, s.running with
  | .callsign, true =>
      (∀ e ∈ s.log, callsignsSent e = false ∧ attempts .response e = false) ∧
        s.pending ≠ some .response ∧
        (s.pending = some .callsigns → ∃ r ∈ s.log, reads (lit "Callsign :") r = true)
  | .challenge, true =>
      (∀ e ∈ s.log, attempts .response e = false) ∧
        (s.pending = none ∧ SentThen (fun _ => True) s.log ∨
          s.pending = some .response ∧
            SentThen (fun rest => ∃ r ∈ rest, reads (lit ";SQ: ") r = true) s.log)
  | .callsignFail, false => ∀ e ∈ s.log, attempts .response e = false
  | .challengeFail, false => ∀ e ∈ s.log, attempts .response e = false
  | .responseSent, false => ∃ e ∈ s.log, attempts .response e = true
  | .loginComplete, false => ∃ e ∈ s.log, attempts .response e = true
  | _, _ => False

def Inv (s : State) : Prop := Orderly s.log ∧ Tracks s

private theorem SentThen.snoc {P Q : List Event → Prop} {log : List Event} {x : Event}
    (h : SentThen P log) (hPQ : ∀ rest, P rest → Q (rest ++ [x])) : SentThen Q (log ++ [x]) := by
  obtain ⟨front, c, rest, rfl, hc, hP⟩ := h
  exact ⟨front, c, rest ++ [x], by simp, hc, hPQ rest hP⟩

private theorem orderly_read {log : List Event} (h : Orderly log)
    (hopen : ∀ e ∈ log, attempts .response e = false) (r : ReadResult) :
    Orderly (log ++ [.read r]) := by
  refine ordered_snoc h ⟨by simp [callsignsSent], by simp [attempts]⟩ ?_
  intro e he
  exact ⟨fun _ => ⟨rfl, rfl⟩, hopen e he⟩

private theorem forall_snoc {P : Event → Prop} {log : List Event} {x : Event}
    (h : ∀ e ∈ log, P e) (hx : P x) : ∀ e ∈ log ++ [x], P e := by
  intro e he
  rcases List.mem_append.mp he with he | he
  · exact h e he
  · exact List.mem_singleton.mp he ▸ hx

private theorem inv_onRead_callsign {s : State} (hs : Inv s) (hst : s.sglState = .callsign)
    (hrun : s.running = true) (hpend : s.pending = none) (r : ReadResult) : Inv (onRead s r) := by
  obtain ⟨hord, htr⟩ := hs
  simp only [Tracks, hst, hrun] at htr
  obtain ⟨hnone, -, -⟩ := htr
  have hresp : ∀ e ∈ s.log ++ [Event.read r], attempts .response e = false :=
    forall_snoc (fun e he => (hnone e he).2) rfl
  have hboth : ∀ e ∈ s.log ++ [Event.read r],
      callsignsSent e = false ∧ attempts .response e = false := forall_snoc hnone ⟨rfl, rfl⟩
  have hord' := orderly_read hord (fun e he => (hnone e he).2) r
  cases r with
  | line rbuf =>
      simp only [onRead, hst, onCallsign]
      split
      · exact ⟨hord', by simpa [Tracks, hst, hrun, hpend] using hboth⟩
      split
      · rename_i hprompt
        refine ⟨hord', ?_⟩
        simp only [Tracks, hrun]
        exact ⟨hboth, by simp, fun _ => ⟨.read (.line rbuf), by simp, hprompt⟩⟩
      split
      · exact ⟨hord', hresp⟩
      · refine ⟨hord', ?_⟩
        simp only [Tracks, hrun]
        exact ⟨hboth, by simp, by simp⟩
  | eof => simp only [onRead, hst, onCallsign]; exact ⟨hord', hresp⟩
  | error => simp only [onRead, hst, onCallsign]; exact ⟨hord', hresp⟩

private theorem inv_onRead_challenge {s : State} (hs : Inv s) (hst : s.sglState = .challenge)
    (hrun : s.running = true) (hpend : s.pending = none) (r : ReadResult) : Inv (onRead s r) := by
  obtain ⟨hord, htr⟩ := hs
  simp only [Tracks, hst, hrun, hpend] at htr
  obtain ⟨hnone, hsent⟩ := htr
  have hsent : SentThen (fun _ => True) s.log := by simpa using hsent
  have hresp : ∀ e ∈ s.log ++ [Event.read r], attempts .response e = false :=
    forall_snoc hnone rfl
  have hord' := orderly_read hord hnone r
  cases r with
  | line rbuf =>
      simp only [onRead, hst, onChallenge]
      split
      · refine ⟨hord', ?_⟩
        simp only [Tracks, hrun]
        exact ⟨hresp, .inl ⟨hpend, hsent.snoc fun _ _ => trivial⟩⟩
      split
      · rename_i hsq
        refine ⟨hord', ?_⟩
        simp only [Tracks, hrun]
        exact ⟨hresp, .inr ⟨trivial,
          hsent.snoc fun rest _ => ⟨.read (.line rbuf), by simp, hsq⟩⟩⟩
      · exact ⟨hord', hresp⟩
  | eof => simp only [onRead, hst, onChallenge]; exact ⟨hord', hresp⟩
  | error => simp only [onRead, hst, onChallenge]; exact ⟨hord', hresp⟩

theorem expectsend_eq_zero_iff {sendStr : Str} {r : WriteResult}
    (hfits : WriteResult.fits sendStr r = true) (hlen : 0 < sendStr.length)
    (hsmall : sendStr.length < 9223372036854775808) :
    expectsend sendStr (writeReturn r) = 0 ↔ writeReturn r < 0 ∨ r = .wrote sendStr.length := by
  have hneg : ¬ toSizeT (-1) < sendStr.length := by
    have : toSizeT (-1) = 18446744073709551615 := by decide
    omega
  cases r with
  | wrote count =>
      have hle : count ≤ sendStr.length := of_decide_eq_true hfits
      have hsize : toSizeT (count : Int) = count := by
        simp only [toSizeT]
        omega
      simp only [expectsend, writeReturn, hlen, if_true, hsize, WriteResult.wrote.injEq]
      split <;> simp [fail, succeed] <;> omega
  | eagain => simp [expectsend, writeReturn, hlen, hneg, succeed]
  | failed => simp [expectsend, writeReturn, hlen, hneg, succeed]

theorem callsigns_length (g : Credentials) (s : State) :
    0 < (lineText g s .callsigns).length ∧ (lineText g s .callsigns).length < 9223372036854775808 := by
  simp only [lineText, List.length_take, List.length_append]
  have : (lit " ").length = 1 := by decide
  omega

private theorem Tracks.sending {s : State} (h : Tracks s) (hrun : s.running = true) {l : Line}
    (hpend : s.pending = some l) (hline : l ≠ .response) : s.sglState = .callsign := by
  cases hst : s.sglState <;> simp [Tracks, hst, hrun, hpend, hline] at h ⊢

private theorem inv_onSend_callsigns {g : Credentials} {s : State} {r : WriteResult} (hs : Inv s)
    (hrun : s.running = true) (hpend : s.pending = some .callsigns)
    (hfits : WriteResult.fits (lineText g s .callsigns) r = true) (hret : 0 ≤ writeReturn r) :
    Inv (onSend g s .callsigns r) := by
  obtain ⟨hord, htr⟩ := hs
  have hst := htr.sending hrun hpend (by decide)
  simp only [Tracks, hst, hrun] at htr
  obtain ⟨hnone, -, hprompt⟩ := htr
  obtain ⟨hpos, hsmall⟩ := callsigns_length g s
  have hord' : Orderly (s.log ++ [.send .callsigns (lineText g s .callsigns) r]) := by
    refine ordered_snoc hord ⟨fun _ => hprompt hpend, by simp [attempts]⟩ ?_
    intro e he
    exact ⟨fun hc => absurd hc (by simp [(hnone e he).1]), (hnone e he).2⟩
  have hresp : ∀ e ∈ s.log ++ [.send .callsigns (lineText g s .callsigns) r],
      attempts .response e = false := forall_snoc (fun e he => (hnone e he).2) rfl
  simp only [onSend]
  split
  · exact ⟨hord', hresp⟩
  · rename_i hzero
    rw [not_not, expectsend_eq_zero_iff hfits hpos hsmall] at hzero
    obtain rfl : r = .wrote (lineText g s .callsigns).length := by
      rcases hzero with hneg | hfull
      · omega
      · exact hfull
    refine ⟨hord', ?_⟩
    simp only [Tracks, hrun]
    exact ⟨hresp, .inl ⟨trivial, s.log, _, [], rfl, by simp [callsignsSent], trivial⟩⟩

private theorem inv_onSend_cr {g : Credentials} {s : State} {r : WriteResult} (hs : Inv s)
    (hrun : s.running = true) (hpend : s.pending = some .cr) : Inv (onSend g s .cr r) := by
  obtain ⟨hord, htr⟩ := hs
  have hst := htr.sending hrun hpend (by decide)
  simp only [Tracks, hst, hrun] at htr
  obtain ⟨hnone, -, -⟩ := htr
  have hord' : Orderly (s.log ++ [.send .cr (lineText g s .cr) r]) := by
    refine ordered_snoc hord ⟨by simp [callsignsSent], by simp [attempts]⟩ ?_
    intro e he
    exact ⟨fun hc => absurd hc (by simp [(hnone e he).1]), (hnone e he).2⟩
  have hboth : ∀ e ∈ s.log ++ [.send .cr (lineText g s .cr) r],
      callsignsSent e = false ∧ attempts .response e = false := forall_snoc hnone ⟨rfl, rfl⟩
  simp only [onSend]
  split
  · exact ⟨hord', fun e he => (hboth e he).2⟩
  · refine ⟨hord', ?_⟩
    simp only [Tracks, hst, hrun]
    exact ⟨hboth, by simp, by simp⟩

private theorem inv_onSend_response {g : Credentials} {s : State} {r : WriteResult} (hs : Inv s)
    (hrun : s.running = true) (hpend : s.pending = some .response) :
    Inv (onSend g s .response r) := by
  obtain ⟨hord, htr⟩ := hs
  have hst : s.sglState = .challenge := by
    cases hst : s.sglState <;> simp [Tracks, hst, hrun, hpend] at htr ⊢
  simp only [Tracks, hst, hrun] at htr
  obtain ⟨hnone, hsent⟩ := htr
  have hsent : SentThen (fun rest => ∃ r ∈ rest, reads (lit ";SQ: ") r = true) s.log := by
    simpa [hpend] using hsent
  have hord' : Orderly (s.log ++ [.send .response (lineText g s .response) r]) := by
    refine ordered_snoc hord ⟨by simp [callsignsSent], fun _ => hsent⟩ ?_
    intro e he
    exact ⟨fun _ => ⟨by simp [callsignsSent], by simp [attempts]⟩, hnone e he⟩
  have hdone : ∃ e ∈ s.log ++ [.send .response (lineText g s .response) r],
      attempts .response e = true :=
    ⟨.send .response (lineText g s .response) r, by simp, rfl⟩
  simp only [onSend]
  split
  · exact ⟨hord', hdone⟩
  · exact ⟨hord', hdone⟩

private theorem Tracks.working {s : State} (h : Tracks s) (hrun : s.running = true) :
    s.sglState = .callsign ∨ s.sglState = .challenge := by
  cases hst : s.sglState <;> simp [Tracks, hst, hrun] at h ⊢

private theorem inv_step {g : Credentials} {s t : State} {a : Answer}
    (hok : CallsignWriteReturns s a) (h : step g s a = some t) (hs : Inv s) : Inv t := by
  cases step_trans h with
  | read hrun hpend r =>
      rcases hs.2.working hrun with hst | hst
      · exact inv_onRead_callsign hs hst hrun hpend r
      · exact inv_onRead_challenge hs hst hrun hpend r
  | send hrun line hpend r hfits =>
      cases line with
      | callsigns => exact inv_onSend_callsigns hs hrun hpend hfits (hok hpend r rfl)
      | cr => exact inv_onSend_cr hs hrun hpend
      | response => exact inv_onSend_response hs hrun hpend

private theorem Tracks.reports {s : State} (h : Tracks s) : Reports s := by
  cases hst : s.sglState <;> cases hrun : s.running <;>
    simp_all [Tracks, Reports, returnCode, fail, succeed]

private theorem response_length (g : Credentials) (s : State) :
    (lineText g s .response).length = 26 := by
  have h1 : (lit ";SR: ").length = 5 := by decide
  have h2 : (lit " 25000001 20\r").length = 13 := by decide
  simp [lineText, sglChallengeResponse, tenDigits, h1, h2]

private theorem fits_congr {t₁ t₂ : Str} (h : t₁.length = t₂.length) (r : WriteResult) :
    WriteResult.fits t₁ r = WriteResult.fits t₂ r := by
  cases r <;> simp [WriteResult.fits, h]

private theorem beforeResponse_snoc (log : List Event) (text : Str) (r : WriteResult) :
    beforeResponse (log ++ [.send .response text r]) = beforeResponse log := by
  induction log with
  | nil => rfl
  | cons e log ih =>
      simp only [beforeResponse, List.cons_append, List.takeWhile_cons]
      split
      · exact congrArg (e :: ·) ih
      · rfl

/-- Two machines run on the same answers: equal, or both finished with the same
transcript in front of the response. -/
def Alike (s t : State) : Prop :=
  s = t ∨ (s.running = false ∧ t.running = false ∧ beforeResponse s.log = beforeResponse t.log)

private theorem rel_of_eq {x y : Option State} (h : x = y) : Option.Rel Alike x y := by
  subst h
  cases x with
  | none => exact .none
  | some s => exact .some (.inl rfl)

private theorem alike_step (g : Credentials) (passwd : Str) (s t : State) (a : Answer)
    (h : Alike s t) : Option.Rel Alike (step g s a) (step { g with passwd := passwd } t a) := by
  rcases h with rfl | ⟨hs, ht, -⟩
  · cases hrun : s.running with
    | false => exact rel_of_eq (by simp [step, hrun])
    | true =>
        cases hpend : s.pending with
        | none => exact rel_of_eq (by cases a <;> simp [step, hrun, hpend])
        | some line =>
            cases a with
            | readln r => exact rel_of_eq (by simp [step, hrun, hpend])
            | write r =>
                cases line with
                | callsigns => exact rel_of_eq (by simp [step, hrun, hpend, lineText, onSend])
                | cr => exact rel_of_eq (by simp [step, hrun, hpend, lineText, onSend])
                | response =>
                    have hlen : (lineText g s .response).length =
                        (lineText { g with passwd := passwd } s .response).length := by
                      rw [response_length, response_length]
                    simp only [step, hrun, hpend, if_true, fits_congr hlen r]
                    split
                    · refine .some (.inr ⟨?_, ?_, ?_⟩)
                      · simp only [onSend]; split <;> rfl
                      · simp only [onSend]; split <;> rfl
                      · have key : ∀ g : Credentials,
                            beforeResponse (onSend g s .response r).log =
                              beforeResponse s.log := by
                          intro g
                          simp only [onSend]
                          split <;> exact beforeResponse_snoc _ _ _
                        rw [key, key]
                    · exact .none
  · simp only [step, hs, ht, Bool.false_eq_true, if_false]
    exact .none

/-- As long as the write of the callsign line does not end in an error, the
conversation keeps its rules, reports its outcome truthfully, and shows nothing
of the password in front of the response. -/
theorem login_conversation_safe (g : Credentials) (as : List Answer) (s : State)
    (hok : Meets (step g) CallsignWriteReturns initial as)
    (h : run (step g) initial as = some s) :
    Orderly s.log ∧ Reports s ∧
      ∀ passwd, ∃ t, run (step { g with passwd := passwd }) initial as = some t ∧
        beforeResponse t.log = beforeResponse s.log := by
  have hinit : Inv initial := ⟨ordered_nil, by simp [Tracks, initial]⟩
  have hinv : Inv s := Meets.preserves (fun _ _ _ => inv_step) hok h hinit
  refine ⟨hinv.1, hinv.2.reports, ?_⟩
  intro passwd
  have hrel := run_related (alike_step g passwd) as (.inl rfl : Alike initial initial)
  rw [h] at hrel
  cases ht : run (step { g with passwd := passwd }) initial as with
  | none => rw [ht] at hrel; cases hrel
  | some t =>
      rw [ht] at hrel
      cases hrel with
      | some halike =>
          refine ⟨t, rfl, ?_⟩
          rcases halike with rfl | ⟨-, -, hlog⟩
          · rfl
          · exact hlog.symm

private def gateway : Credentials where
  passwd := lit "SECRET"
  usercall := lit "N0USR"
  gwcall := lit "N0GWY-10"
  md5 := fun _ i => UInt8.ofNat i.val

private def prompt : Answer := .readln (.line (lit "Callsign :\r"))

private def challengeLine : Answer := .readln (.line (lit ";SQ: 12345678\r"))

theorem login_conversation_safe_complete :
    ∃ s, run (step gateway) initial
        [prompt, .write (.wrote 15), challengeLine, .write (.wrote 26)] = some s ∧
      Orderly s.log ∧ Reports s ∧
        ∀ passwd, ∃ t, run (step { gateway with passwd := passwd }) initial
            [prompt, .write (.wrote 15), challengeLine, .write (.wrote 26)] = some t ∧
          beforeResponse t.log = beforeResponse s.log := by
  obtain ⟨s, hs⟩ : ∃ s, run (step gateway) initial
      [prompt, .write (.wrote 15), challengeLine, .write (.wrote 26)] = some s :=
    Option.isSome_iff_exists.mp (by decide)
  refine ⟨s, hs, login_conversation_safe gateway _ s ?_ hs⟩
  refine ⟨by simp [CallsignWriteReturns, prompt], fun t₁ _ => ⟨?_, fun t₂ _ => ⟨?_, fun t₃ _ =>
    ⟨?_, fun _ _ => trivial⟩⟩⟩⟩
  all_goals simp [CallsignWriteReturns, challengeLine, writeReturn]

/-- The write of the callsign line fails, and the response goes out all the same. -/
theorem response_without_callsigns :
    ∃ s, run (step gateway) initial [prompt, .write .failed, challengeLine, .write (.wrote 26)] =
        some s ∧
      (∀ e ∈ s.log, callsignsSent e = false) ∧ ¬ Orderly s.log := by
  have hend : (run (step gateway) initial
      [prompt, .write .failed, challengeLine, .write (.wrote 26)]).map
        (fun s => (s.log.map callsignsSent, s.log.map (attempts .response))) =
      some ([false, false, false, false], [false, false, false, true]) := by decide
  obtain ⟨s, hs, heq⟩ := Option.map_eq_some_iff.mp hend
  simp only [Prod.mk.injEq] at heq
  obtain ⟨hsent, hresp⟩ := heq
  have hnone : ∀ e ∈ s.log, callsignsSent e = false := by
    intro e he
    have hmem := List.mem_map_of_mem (f := callsignsSent) he
    rw [hsent] at hmem
    simpa using hmem
  refine ⟨s, hs, hnone, ?_⟩
  intro hord
  have hex : true ∈ s.log.map (attempts .response) := by rw [hresp]; decide
  obtain ⟨e, he, hattempt⟩ := List.mem_map.mp hex
  obtain ⟨before, after, hlog⟩ := List.append_of_mem he
  obtain ⟨front, c, rest, hbefore, hc, -⟩ := (hord before e after hlog).1.2 hattempt
  have hcmem : c ∈ s.log := by rw [hlog, hbefore]; simp
  exact absurd hc (by simp [hnone c hcmem])

end Rmsgw.Login.Safety
