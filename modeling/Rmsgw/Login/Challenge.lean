/- Which challenge the secure gateway login answers: the scan that cuts it out of
   a line against the marker that made the machine take the line for one. -/

import Rmsgw.Login.Steps

set_option autoImplicit false
set_option relaxedAutoImplicit false

namespace Rmsgw.Login.Challenge

open Rmsgw.Lib.CStrings Rmsgw.Lib.Process Rmsgw.Rms Rmsgw.Login.Model Rmsgw.Login.Steps

/-- What stands behind the first place where the needle is found in any case. -/
def afterFirst (needle : Str) : Str → Option Str
  | [] => if needle = [] then some [] else none
  | c :: rest =>
      if needle.map tolower <+: (c :: rest).map tolower then
        some ((c :: rest).drop needle.length)
      else afterFirst needle rest

/-- The first run of up to eight non-blank characters. -/
def firstRun (rest : Str) : Str :=
  ((rest.dropWhile isspace).takeWhile (fun c => !isspace c)).take 8

/-- The challenge that the CMS sent: the first run behind the marker. -/
def challengeSent (line : Str) : Str := firstRun ((afterFirst (lit ";SQ: ") line).getD [])

/-- The scan looks at the right place: the marker starts the line, in capitals; or
the line starts like it without the blank, and the run there is the one behind the
marker further on; or nothing but blanks follows a marker that the scan does not see. -/
def Anchored (line : Str) : Prop :=
  lit ";SQ: " <+: line ∨
    (lit ";SQ:" <+: line ∧ firstRun (line.drop 4) = challengeSent line) ∨
    (¬ lit ";SQ:" <+: line ∧
      ∀ c ∈ (afterFirst (lit ";SQ: ") line).getD [], isspace c = true)

private theorem afterFirst_isSome_iff (needle hay : Str) :
    (afterFirst needle hay).isSome ↔ needle.map tolower <:+: hay.map tolower := by
  induction hay with
  | nil => by_cases h : needle = [] <;> simp [afterFirst, h]
  | cons c rest ih =>
      rw [List.map_cons, List.infix_cons_iff, ← ih]
      by_cases h : needle.map tolower <+: (c :: rest).map tolower
      · rw [List.map_cons] at h
        simp [afterFirst, h]
      · rw [List.map_cons] at h
        simp [afterFirst, h]

private theorem afterFirst_front {needle line : Str} (h : needle <+: line) :
    afterFirst needle line = some (line.drop needle.length) := by
  cases line with
  | nil =>
      obtain rfl := List.prefix_nil.mp h
      rfl
  | cons c rest => rw [afterFirst, if_pos (h.map tolower)]

private theorem firstRun_eq_nil_iff (rest : Str) :
    firstRun rest = [] ↔ ∀ c ∈ rest, isspace c = true := by
  induction rest with
  | nil => simp [firstRun]
  | cons c rest ih =>
      by_cases hc : isspace c = true
      · have hskip : firstRun (c :: rest) = firstRun rest := by
          simp [firstRun, hc]
        rw [hskip, ih]
        simp [hc]
      · simp [firstRun, hc]

private theorem scanChallenge_eq (line : Str) :
    scanChallenge line = if lit ";SQ:" <+: line then firstRun (line.drop 4) else [] := by
  have hlen : (lit ";SQ:").length = 4 := by decide
  have hpre : line.take 4 = lit ";SQ:" ↔ lit ";SQ:" <+: line := by
    rw [List.prefix_iff_eq_take, hlen]
    exact eq_comm
  simp only [scanChallenge, hpre, firstRun]

private theorem firstRun_front {line : Str} (h : lit ";SQ: " <+: line) :
    firstRun (line.drop 4) = challengeSent line := by
  rw [challengeSent, afterFirst_front h]
  obtain ⟨rest, rfl⟩ := h
  have hfour : (lit ";SQ: " ++ rest).drop 4 = 32 :: rest := by simp [lit]
  have hfive : (lit ";SQ: " ++ rest).drop (lit ";SQ: ").length = rest := List.drop_left
  rw [hfour, hfive, Option.getD_some]
  have hblank : isspace 32 = true := by decide
  simp [firstRun, hblank]

private theorem scanChallenge_iff (line : Str) :
    scanChallenge line = challengeSent line ↔ Anchored line := by
  rw [scanChallenge_eq, Anchored]
  by_cases hfront : lit ";SQ: " <+: line
  · have hshort : lit ";SQ:" <+: line := by
      refine List.IsPrefix.trans ?_ hfront
      exact ⟨[32], by decide⟩
    rw [if_pos hshort]
    exact iff_of_true (firstRun_front hfront) (.inl hfront)
  by_cases hshort : lit ";SQ:" <+: line
  · simp [hfront, hshort]
  · rw [if_neg hshort]
    simp only [hfront, hshort, false_and, not_false_eq_true, true_and, false_or]
    rw [← firstRun_eq_nil_iff]
    exact eq_comm

private theorem accepted_challenge {g : Credentials} {s t : State} {rbuf : Str}
    (hst : s.sglState = .challenge) (h : step g s (.readln (.line rbuf)) = some t)
    (accepted : t.pending = some .response) :
    (afterFirst (lit ";SQ: ") (text rbuf)).isSome ∧ t.challenge = scanChallenge (text rbuf) := by
  cases step_trans h with
  | read hrun hpend r =>
      simp only [onRead, hst, onChallenge] at accepted ⊢
      split at accepted
      · rw [hpend] at accepted
        cases accepted
      · rename_i hcr
        split at accepted
        · rename_i hsq
          rw [if_neg hcr, if_pos hsq]
          exact ⟨(afterFirst_isSome_iff _ _).mpr (of_decide_eq_true hsq), rfl⟩
        · cases accepted

/-- For every line that the machine takes for a challenge, the string that the
response is computed from is the challenge sent exactly when the scan looks at
the right place. -/
theorem challenge_answered_iff (g : Credentials) (s t : State) (rbuf : Str)
    (hst : s.sglState = .challenge) (h : step g s (.readln (.line rbuf)) = some t)
    (accepted : t.pending = some .response) :
    t.challenge = challengeSent (text rbuf) ↔ Anchored (text rbuf) := by
  rw [(accepted_challenge hst h accepted).2]
  exact scanChallenge_iff (text rbuf)

private def noDigest : Credentials := ⟨lit "SECRET", lit "N0USR", lit "N0GWY-10", fun _ _ => 0⟩

/-- The callsign line has been sent, and the next line is to be read. -/
private def awaiting : State where
  sglState := .challenge
  running := true
  pending := none
  challenge := []
  loopCnt := 0
  log := [.read (.line (lit "Callsign :\r")),
    .send .callsigns (lit "N0USR N0GWY-10\r") (.wrote 15)]

private def answering (line : Str) : State := onRead awaiting (.line line)

theorem challenge_answered_iff_plain :
    (answering (lit ";SQ: 12345678\r")).challenge = challengeSent (text (lit ";SQ: 12345678\r")) ↔
      Anchored (text (lit ";SQ: 12345678\r")) :=
  challenge_answered_iff noDigest awaiting (answering (lit ";SQ: 12345678\r")) _ rfl rfl (by decide)

/-- Behind a line feed left over from a CR/LF line end the challenge is taken for empty. -/
theorem challenge_lost_behind_line_feed :
    ∃ t, run (step noDigest) initial [.readln (.line (lit "Callsign :\r")), .write (.wrote 15),
        .readln (.line (lit "\n;SQ: 12345678\r"))] = some t ∧
      t.pending = some .response ∧ t.challenge = [] ∧
      challengeSent (text (lit "\n;SQ: 12345678\r")) = lit "12345678" ∧
      t.challenge ≠ challengeSent (text (lit "\n;SQ: 12345678\r")) := by
  have hchallenge : (answering (lit "\n;SQ: 12345678\r")).challenge = [] := by decide
  have hsent : challengeSent (text (lit "\n;SQ: 12345678\r")) = lit "12345678" := by decide
  refine ⟨answering (lit "\n;SQ: 12345678\r"), ?_, by decide, hchallenge, hsent, ?_⟩
  · rw [run_cons_eq_some]
    exact ⟨_, rfl, run_cons_eq_some.mpr ⟨awaiting, by decide, rfl⟩⟩
  · rw [hchallenge, hsent]
    decide

end Rmsgw.Login.Challenge
