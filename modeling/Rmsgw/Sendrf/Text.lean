/- The text that sendrf() sends when every write succeeds, against the text that it
   translates. -/

import Rmsgw.Sendrf.Loop

set_option autoImplicit false
set_option relaxedAutoImplicit false

namespace Rmsgw.Sendrf.Text

open Rmsgw.Lib.Cursor Rmsgw.Rms Rmsgw.Sendrf.Model Rmsgw.Sendrf.Loop

/-- The bytes of the buffer in order, newlines and the end of line as the options say. -/
def translated (mem : Memory) (c : Call) : List UInt8 :=
  (buf mem c).map (fun b => if c.eolxlate = true ∧ b = newline then carriageReturn else b) ++
    List.replicate (if c.addeol then 1 else 0) carriageReturn

/-- A call that returned `r` has sent the translated text, from the buffer alone. -/
structure SendsText (mem : Memory) (c : Call) (s : State) (r : Int) : Prop where
  text : s.written mem = translated mem c
  inside : ∀ p ∈ s.taken, 0 ≤ p ∧ p < c.len
  count : r = s.taken.length

theorem sbuf_eq_translated (mem : Memory) (c : Call) : sbuf mem c = translated mem c := by
  have hmap : (buf mem c).map (translateByte c) = (buf mem c).map
      (fun b => if c.eolxlate = true ∧ b = newline then carriageReturn else b) := by
    apply List.map_congr_left
    intro b _
    by_cases hb : b = newline
    · simp only [translateByte, hb, if_true, and_true]
    · simp only [translateByte, hb, if_false, and_false]
  rw [sbuf, translated, hmap]
  cases c.addeol with
  | false => rfl
  | true => rfl

private theorem not_givesUp_wrote (ns : List Nat) : ¬ GivesUp (ns.map WriteResult.wrote) := by
  intro h
  have hmem : WriteResult.eagain ∈ ns.map WriteResult.wrote :=
    h.subset (List.mem_replicate.mpr ⟨by decide, rfl⟩)
  obtain ⟨n, _, hn⟩ := List.mem_map.mp hmem
  cases hn

private theorem sendrf_wrote {c : Call} {ns : List Nat} {s : State}
    (h : sendrf c (ns.map WriteResult.wrote) = some s) :
    s.taken = span 0 (bytesTaken (ns.map WriteResult.wrote)) ∧
      ((s.returned = none ∧ bytesTaken (ns.map WriteResult.wrote) < c.slen) ∨
        (s.returned = some (c.slen : Int) ∧ bytesTaken (ns.map WriteResult.wrote) = c.slen)) := by
  have hs := sendrf_follows (not_givesUp_wrote ns) h
  have hnoback : Move.back ∉ moves (ns.map WriteResult.wrote) := by
    rw [back_mem_moves]
    simp
  have hcursor : s.cursor = bytesTaken (ns.map WriteResult.wrote) := by
    rw [hs.cursor, cursor_eq, total_moves, List.count_eq_zero_of_not_mem hnoback]
    omega
  have hnleft := hs.nleft
  constructor
  · rw [hs.taken, positions_of_no_slip hnoback, total_moves]
  · cases hs.phase with
    | sending hpc hleft _ _ => exact Or.inl ⟨by rw [State.returned, hpc], by omega⟩
    | sent hpc hleft _ => exact Or.inr ⟨by rw [State.returned, hpc], by omega⟩
    | broken _ _ hone =>
        have hnone : WriteResult.failed ∉ ns.map WriteResult.wrote := by simp
        rw [List.count_eq_zero_of_not_mem hnone] at hone
        cases hone

private theorem written_eq_buf {mem : Memory} {c : Call} {s : State} (h : s.taken = span 0 c.len) :
    s.written mem = buf mem c := by
  rw [State.written, h, span, buf, List.map_map]
  apply List.map_congr_left
  intro i _
  simp only [Function.comp_apply, Int.zero_add]

private theorem not_sendsText_of_addeol {mem : Memory} {c : Call} {s : State} {r : Int}
    (h : s.taken = span 0 c.slen) (hadd : c.addeol = true) : ¬ SendsText mem c s r := by
  intro hsends
  have hslen : c.slen = c.len + 1 := by rw [Call.slen, hadd, if_pos rfl]
  have hlast : (c.len : Int) ∈ s.taken := by
    rw [h, mem_span]
    omega
  have hin := hsends.inside _ hlast
  omega

private theorem translated_of_no_addeol {mem : Memory} {c : Call} (hadd : c.addeol = false) :
    translated mem c = (buf mem c).map
      (fun b => if c.eolxlate = true ∧ b = newline then carriageReturn else b) := by
  rw [translated, hadd]
  exact List.append_nil _

private theorem buf_eq_translated_iff {mem : Memory} {c : Call} (hadd : c.addeol = false) :
    buf mem c = translated mem c ↔ (c.eolxlate = true → newline ∉ buf mem c) := by
  have hmap : buf mem c = translated mem c ↔ ∀ b ∈ buf mem c,
      b = if c.eolxlate = true ∧ b = newline then carriageReturn else b := by
    rw [translated_of_no_addeol hadd, ← List.map_inj_left, List.map_id']
  rw [hmap]
  constructor
  · intro hsame hxlate hmem
    have hkept := hsame newline hmem
    rw [hxlate] at hkept
    exact absurd hkept (by decide)
  · intro hnone b hb
    have hkept : ¬ (c.eolxlate = true ∧ b = newline) := by
      rintro ⟨hxlate, rfl⟩
      exact hnone hxlate hb
    rw [if_neg hkept]

private theorem sendsText_iff {mem : Memory} {c : Call} {s : State} (h : s.taken = span 0 c.slen) :
    SendsText mem c s c.slen ↔
      c.addeol = false ∧ (c.eolxlate = true → newline ∉ buf mem c) := by
  cases hadd : c.addeol with
  | true =>
      apply iff_of_false
      · exact not_sendsText_of_addeol h hadd
      · intro hcond
        cases hcond.1
  | false =>
      have hslen : c.slen = c.len := by rw [Call.slen, hadd]; rfl
      rw [hslen] at h
      rw [← buf_eq_translated_iff hadd, ← written_eq_buf h]
      constructor
      · intro hsends
        exact ⟨rfl, hsends.text⟩
      · rintro ⟨_, htext⟩
        refine ⟨htext, ?_, ?_⟩
        · intro p hp
          rw [h, mem_span] at hp
          omega
        · rw [h, length_span, hslen]

/-- A call whose writes succeed returns when they have taken the send length; what it
has sent is the translated text exactly when the options leave the buffer as it is. -/
theorem sends_translated_text_iff {mem : Memory} {c : Call} {ns : List Nat} {s : State}
    (h : sendrf c (ns.map WriteResult.wrote) = some s) :
    (s.returned = none ↔ bytesTaken (ns.map WriteResult.wrote) < c.slen) ∧
      ∀ r, s.returned = some r →
        (SendsText mem c s r ↔
          c.addeol = false ∧ (c.eolxlate = true → newline ∉ buf mem c)) := by
  obtain ⟨htaken, ⟨hnone, hless⟩ | ⟨hsome, hsum⟩⟩ := sendrf_wrote h
  · refine ⟨iff_of_true hnone hless, ?_⟩
    intro r hr
    rw [hnone] at hr
    cases hr
  · constructor
    · apply iff_of_false
      · rw [hsome]
        simp
      · omega
    · intro r hr
      obtain rfl := Option.some.inj (hsome.symm.trans hr)
      rw [hsum] at htaken
      exact sendsText_iff htaken

/-- Memory that holds a text from `buf` on, and another byte around it. -/
def holding (text : List UInt8) (around : UInt8) : Memory :=
  fun i => if i < 0 then around else text.getD i.toNat around

theorem sends_translated_text_iff_plain :
    ∃ s, sendrf ⟨2, srfEolxlate⟩ ([1, 1].map WriteResult.wrote) = some s ∧
      SendsText (holding [72, 105] 0) ⟨2, srfEolxlate⟩ s 2 := by
  have hrun : sendrf ⟨2, srfEolxlate⟩ ([1, 1].map WriteResult.wrote) =
      some ⟨.returned 2, 2, 0, 0, [0, 1]⟩ := rfl
  exact ⟨_, hrun, ((sends_translated_text_iff hrun).2 2 rfl).mpr (by decide)⟩

/-- A line sent as err() sends it: the newline stays, and the byte behind the buffer
goes out in the place of the end of line. -/
theorem newline_sent_as_it_is :
    ∃ s, sendrf ⟨3, srfEolxlate ||| srfAddeol⟩ ([4].map WriteResult.wrote) = some s ∧
      s.returned = some 4 ∧ s.written (holding [72, 105, 10] 0) = [72, 105, 10, 0] ∧
      translated (holding [72, 105, 10] 0) ⟨3, srfEolxlate ||| srfAddeol⟩ = [72, 105, 13, 13] ∧
      ¬ SendsText (holding [72, 105, 10] 0) ⟨3, srfEolxlate ||| srfAddeol⟩ s 4 := by
  refine ⟨_, rfl, rfl, by decide, by decide, ?_⟩
  intro hsends
  exact absurd hsends.text (by decide)

end Rmsgw.Sendrf.Text
