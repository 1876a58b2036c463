/- What readln() reports about a line against what it read, and how it cuts a
   stream into lines. -/

import Rmsgw.Readln.Model

set_option autoImplicit false
set_option relaxedAutoImplicit false

namespace Rmsgw.Readln.Lines

open Rmsgw.Lib.CStrings Rmsgw.Readln.Model

variable {eol : UInt8}

private theorem isEol_iff (heol : eol < 128) (c : UInt8) : isEol eol c = true ↔ c = eol := by
  simp only [isEol, Bool.and_eq_true, decide_eq_true_eq, beq_iff_eq]
  constructor
  · exact And.right
  · rintro rfl
    exact ⟨heol, rfl⟩

/-- The four ways out of the loop, with the counter that each of them leaves. -/
inductive Leaves (eol : UInt8) (room n : Nat) (src : Source) (s : Scan) : Prop
  | eol (front : Str) (c : UInt8) (stored : s.stored = front ++ [c]) (last : isEol eol c = true)
      (before : ∀ b ∈ front, isEol eol b = false) (short : front.length < room)
      (exit : s.exit = .leave (n + front.length))
  | full (stored : s.stored.length = room) (none : ∀ b ∈ s.stored, isEol eol b = false)
      (exit : s.exit = .leave (n + room))
  | eof (short : s.stored.length < room) (none : ∀ b ∈ s.stored, isEol eol b = false)
      (all : s.rest.bytes = []) (ending : src.ending = .eof)
      (exit : s.exit = if n + s.stored.length = 1 then .return_ 0 else .leave (n + s.stored.length))
  | error (short : s.stored.length < room) (none : ∀ b ∈ s.stored, isEol eol b = false)
      (all : s.rest.bytes = []) (ending : src.ending = .error) (exit : s.exit = .return_ (-1))

private theorem Leaves.push {room n : Nat} {c : UInt8} {bytes : List UInt8} {ending : SourceEnd}
    {s : Scan}
    (hc : isEol eol c = false) (pos : 1 ≤ n) (h : Leaves eol room (n + 1) ⟨bytes, ending⟩ s) :
    Leaves eol (room + 1) n ⟨c :: bytes, ending⟩ (s.push c) := by
  have hnone : (∀ b ∈ s.stored, isEol eol b = false) →
      ∀ b ∈ (s.push c).stored, isEol eol b = false := by
    intro hs b hb
    rcases List.mem_cons.mp hb with rfl | hb
    · exact hc
    · exact hs b hb
  have hcount : n + (s.push c).stored.length = n + 1 + s.stored.length := by
    simp only [Scan.push, List.length_cons]
    omega
  have hlen : (s.push c).stored.length = s.stored.length + 1 := rfl
  cases h with
  | eol front d stored last before short exit =>
      refine .eol (c :: front) d (congrArg (c :: ·) stored) last ?_ (Nat.succ_lt_succ short) ?_
      · intro b hb
        rcases List.mem_cons.mp hb with rfl | hb
        · exact hc
        · exact before b hb
      · rw [List.length_cons, Nat.add_comm front.length 1, ← Nat.add_assoc]
        exact exit
  | full stored none exit =>
      refine .full (hlen.trans (congrArg Nat.succ stored)) (hnone none) ?_
      rw [Nat.add_comm room 1, ← Nat.add_assoc]
      exact exit
  | eof short none all ending exit =>
      refine .eof (hlen ▸ Nat.succ_lt_succ short) (hnone none) all ending ?_
      have hmore : ¬ n + 1 + s.stored.length = 1 := by omega
      rw [hcount, if_neg hmore]
      rw [if_neg hmore] at exit
      exact exit
  | error short none all ending exit =>
      exact .error (hlen ▸ Nat.succ_lt_succ short) (hnone none) all ending exit

private theorem readLoop_takes (eol : UInt8) (room n : Nat) (src : Source) :
    src.bytes = (readLoop eol room n src).stored ++ (readLoop eol room n src).rest.bytes ∧
      (readLoop eol room n src).rest.ending = src.ending := by
  obtain ⟨bytes, ending⟩ := src
  induction room generalizing n bytes with
  | zero => exact ⟨rfl, rfl⟩
  | succ room ih =>
      cases bytes with
      | nil => cases ending <;> exact ⟨rfl, rfl⟩
      | cons c bytes =>
          simp only [readLoop]
          split
          · exact ⟨rfl, rfl⟩
          · obtain ⟨htakes, hend⟩ := ih (n + 1) bytes
            exact ⟨congrArg (c :: ·) htakes, hend⟩

private theorem readLoop_leaves (eol : UInt8) (room : Nat) {n : Nat} (pos : 1 ≤ n) (src : Source) :
    Leaves eol room n src (readLoop eol room n src) := by
  obtain ⟨bytes, ending⟩ := src
  induction room generalizing n bytes with
  | zero => exact .full rfl (fun b hb => by cases hb) rfl
  | succ room ih =>
      cases bytes with
      | nil =>
          cases ending with
          | eof => exact .eof (Nat.succ_pos room) (fun b hb => by cases hb) rfl rfl rfl
          | error => exact .error (Nat.succ_pos room) (fun b hb => by cases hb) rfl rfl rfl
      | cons c bytes =>
          simp only [readLoop]
          split
          case isTrue hc =>
            exact .eol [] c rfl hc (fun b hb => by cases hb) (Nat.succ_pos room) rfl
          case isFalse hc =>
            exact (ih (Nat.le_add_left 1 n) bytes).push (Bool.eq_false_iff.mpr hc) pos

/-- What a call can return, and what it leaves in the buffer. -/
inductive Returns (src : Source) (buf : List UInt8) (maxlen : Nat) (eol : UInt8) (r : Result) : Prop
  | line (front : Str) (stored : r.stored = front ++ [eol]) (before : eol ∉ front)
      (short : front.length < maxlen - 1) (rc : r.rc = r.stored.length)
      (kept : r.buf = strcpy buf r.stored)
  | full (stored : r.stored.length = maxlen - 1) (none : eol ∉ r.stored)
      (rc : r.rc = r.stored.length + 1) (kept : r.buf = strcpy buf r.stored)
  | cut (some : r.stored ≠ []) (short : r.stored.length < maxlen - 1) (none : eol ∉ r.stored)
      (all : r.rest.bytes = []) (ending : src.ending = .eof) (rc : r.rc = r.stored.length + 1)
      (kept : r.buf = strcpy buf r.stored)
  | nothing (all : r.stored = [] ∧ r.rest.bytes = []) (ending : src.ending = .eof) (rc : r.rc = 0)
  | failed (short : r.stored.length < maxlen - 1) (none : eol ∉ r.stored) (all : r.rest.bytes = [])
      (ending : src.ending = .error) (rc : r.rc = -1)

private theorem notMem_of_isEol {s : Str} (heol : eol < 128)
    (h : ∀ b ∈ s, isEol eol b = false) : eol ∉ s := by
  intro hmem
  have hself := (isEol_iff heol eol).mpr rfl
  rw [h eol hmem] at hself
  cases hself

theorem readln_takes (src : Source) (buf : List UInt8) (maxlen : Nat) (eol : UInt8) :
    src.bytes = (readln src buf maxlen eol).stored ++ (readln src buf maxlen eol).rest.bytes ∧
      (readln src buf maxlen eol).rest.ending = src.ending := by
  have htakes := readLoop_takes eol (maxlen - 1) 1 src
  simp only [readln]
  split <;> exact htakes

theorem readln_returns (src : Source) (buf : List UInt8) (maxlen : Nat) (heol : eol < 128) :
    Returns src buf maxlen eol (readln src buf maxlen eol) := by
  simp only [readln]
  cases readLoop_leaves eol (maxlen - 1) (Nat.le_refl 1) src with
  | eol front c stored last before short exit =>
      rw [exit]
      obtain rfl := (isEol_iff heol c).mp last
      refine .line front stored (notMem_of_isEol heol before) short ?_ rfl
      simp only [stored, List.length_append, List.length_singleton]
      omega
  | full stored none exit =>
      rw [exit]
      refine .full stored (notMem_of_isEol heol none) ?_ rfl
      simp only [stored]
      omega
  | eof short none all ending exit =>
      cases hs : (readLoop eol (maxlen - 1) 1 src).stored with
      | nil =>
          simp only [hs, List.length_nil, Nat.add_zero, if_true] at exit
          simp only [exit]
          exact .nothing ⟨rfl, all⟩ ending rfl
      | cons c line =>
          have hmore : ¬ 1 + (c :: line).length = 1 := by simp
          rw [hs, if_neg hmore] at exit
          rw [hs] at short none
          simp only [exit]
          refine .cut (List.cons_ne_nil c line) short (notMem_of_isEol heol none) all ending ?_ rfl
          simp only [List.length_cons]
          omega
  | error short none all ending exit =>
      rw [exit]
      exact .failed short (notMem_of_isEol heol none) all ending rfl

/-- A read error comes before the line is complete: in front of it there is
neither the eol character nor what fills the buffer. -/
def ErrorFirst (src : Source) (maxlen : Nat) (eol : UInt8) : Prop :=
  src.ending = .error ∧ src.bytes.length < maxlen - 1 ∧ eol ∉ src.bytes

/-- The return value says what was read: a count of the bytes consumed, which the
buffer holds with a NUL behind them, 0 at the end of the file, or an error. -/
def Reports (src : Source) (maxlen : Nat) (eol : UInt8) (r : Result) : Prop :=
  (0 < r.rc → ∃ line, src.bytes = line ++ r.rest.bytes ∧ (line.length : Int) = r.rc ∧
      line ++ [0] <+: r.buf ∧ r.rc ≤ (maxlen : Int) - 1) ∧
    (r.rc = 0 → src = ⟨[], .eof⟩) ∧
    (r.rc < 0 ↔ ErrorFirst src maxlen eol)

/-- The line ends with its eol character, or there is no line at all. -/
def LineEnds (src : Source) (maxlen : Nat) (eol : UInt8) : Prop :=
  eol ∈ src.bytes.take (maxlen - 1) ∨ src.bytes = [] ∨ ErrorFirst src maxlen eol

private theorem strcpy_holds (buf : List UInt8) (line : Str) : line ++ [0] <+: strcpy buf line :=
  ⟨buf.drop (line.length + 1), by simp [strcpy]⟩

private theorem not_errorFirst_of_eof {src : Source} {maxlen : Nat} (h : src.ending = .eof) :
    ¬ ErrorFirst src maxlen eol := by
  rintro ⟨herror, -⟩
  rw [h] at herror
  cases herror

private theorem not_reports_of_excess {src : Source} {maxlen : Nat} {r : Result}
    (htakes : src.bytes = r.stored ++ r.rest.bytes) (rc : r.rc = r.stored.length + 1) :
    ¬ Reports src maxlen eol r := by
  rintro ⟨hcount, -⟩
  obtain ⟨line, hline, hlen, -⟩ := hcount (by omega)
  obtain rfl := List.append_cancel_right (htakes.symm.trans hline)
  omega

/-- readln() reports what it read exactly when the line ends with its eol character,
or there is none: a full buffer and the end of the file in mid-line are counted as
one more byte. -/
theorem readln_reports_iff (src : Source) (buf : List UInt8) {maxlen : Nat} (hmax : 2 ≤ maxlen)
    (heol : eol < 128) :
    Reports src maxlen eol (readln src buf maxlen eol) ↔ LineEnds src maxlen eol := by
  obtain ⟨htakes, -⟩ := readln_takes src buf maxlen eol
  have hreturns := readln_returns src buf maxlen heol
  generalize readln src buf maxlen eol = r at htakes hreturns ⊢
  cases hreturns with
  | line front stored before short rc kept =>
      have hlen : r.stored.length = front.length + 1 := by simp [stored]
      have hmem : eol ∈ src.bytes.take (maxlen - 1) := by
        rw [htakes, stored, List.append_assoc, List.take_append, List.mem_append]
        obtain ⟨more, hmore⟩ : ∃ m, maxlen - 1 - front.length = m + 1 :=
          ⟨maxlen - 1 - front.length - 1, by omega⟩
        exact .inr (by simp [hmore])
      refine iff_of_true ⟨fun _ => ?_, fun hzero => ?_, iff_of_false ?_ ?_⟩ (.inl hmem)
      · exact ⟨r.stored, htakes, rc.symm, kept ▸ strcpy_holds buf r.stored, by omega⟩
      · omega
      · omega
      · exact fun herror => herror.2.2 (List.mem_of_mem_take hmem)
  | full stored none rc kept =>
      refine iff_of_false (not_reports_of_excess htakes rc) ?_
      rintro (hmem | hnil | ⟨-, hshort, -⟩)
      · rw [htakes, ← stored, List.take_left] at hmem
        exact none hmem
      · rw [hnil] at htakes
        rw [(List.append_eq_nil_iff.mp htakes.symm).1, List.length_nil] at stored
        omega
      · rw [htakes, List.length_append] at hshort
        omega
  | cut some short none all ending rc kept =>
      rw [all, List.append_nil] at htakes
      refine iff_of_false (not_reports_of_excess (by rw [all, List.append_nil, htakes]) rc) ?_
      rintro (hmem | hnil | herror)
      · exact none (htakes ▸ List.mem_of_mem_take hmem)
      · exact some (htakes.symm.trans hnil)
      · exact not_errorFirst_of_eof ending herror
  | nothing all ending rc =>
      rw [all.1, all.2] at htakes
      refine iff_of_true ⟨fun hpos => ?_, fun _ => ?_, iff_of_false ?_ ?_⟩ (.inr (.inl htakes))
      · omega
      · obtain ⟨bytes, fin⟩ := src
        cases ending
        exact congrArg (Source.mk · .eof) htakes
      · omega
      · exact not_errorFirst_of_eof ending
  | failed short none all ending rc =>
      rw [all, List.append_nil] at htakes
      have herror : ErrorFirst src maxlen eol := ⟨ending, htakes ▸ short, htakes ▸ none⟩
      refine iff_of_true ⟨fun hpos => ?_, fun hzero => ?_, iff_of_true ?_ herror⟩ (.inr (.inr herror))
      · omega
      · omega
      · omega

private def lineBuf : List UInt8 := List.replicate 80 0

theorem readln_reports_iff_ok :
    Reports ⟨lit "OK\r\n", .eof⟩ 80 13 (readln ⟨lit "OK\r\n", .eof⟩ lineBuf 80 13) ↔
      LineEnds ⟨lit "OK\r\n", .eof⟩ 80 13 :=
  readln_reports_iff _ lineBuf (by decide) (by decide)

/-- Two bytes and the end of the file are reported as three bytes. -/
theorem last_line_counted_too_long :
    (readln ⟨lit "OK", .eof⟩ lineBuf 80 13).rc = 3 ∧
      (readln ⟨lit "OK", .eof⟩ lineBuf 80 13).stored = lit "OK" ∧
      ¬ Reports ⟨lit "OK", .eof⟩ 80 13 (readln ⟨lit "OK", .eof⟩ lineBuf 80 13) :=
  ⟨by decide, by decide, not_reports_of_excess (by decide) (by decide)⟩

/-- One piece of a stream, as a call stored it. -/
structure Piece (maxlen : Nat) (eol : UInt8) (r : Result) : Prop where
  some : 1 ≤ r.stored.length
  fits : r.stored.length ≤ maxlen - 1
  eol_last : eol ∉ r.stored.dropLast
  held : r.stored ++ [0] <+: r.buf

def Whole (maxlen : Nat) (eol : UInt8) (r : Result) : Prop :=
  r.stored.getLast? = some eol ∨ r.stored.length = maxlen - 1

/-- A stream is cut without loss. -/
structure Framed (stream : List UInt8) (maxlen : Nat) (eol : UInt8) (rs : List Result) : Prop where
  all : (rs.map Result.stored).flatten = stream
  pieces : ∀ r ∈ rs, Piece maxlen eol r
  whole : ∀ r ∈ rs.dropLast, Whole maxlen eol r

private theorem piece_or_nothing (stream buf : List UInt8) {maxlen : Nat} (hmax : 2 ≤ maxlen)
    (heol : eol < 128) :
    (stream = [] ∧ (readln ⟨stream, .eof⟩ buf maxlen eol).rc = 0) ∨
      (0 < (readln ⟨stream, .eof⟩ buf maxlen eol).rc ∧
        Piece maxlen eol (readln ⟨stream, .eof⟩ buf maxlen eol) ∧
        ((readln ⟨stream, .eof⟩ buf maxlen eol).rest.bytes ≠ [] →
          Whole maxlen eol (readln ⟨stream, .eof⟩ buf maxlen eol))) := by
  obtain ⟨htakes, -⟩ := readln_takes ⟨stream, .eof⟩ buf maxlen eol
  have hreturns := readln_returns ⟨stream, .eof⟩ buf maxlen heol
  generalize readln ⟨stream, .eof⟩ buf maxlen eol = r at htakes hreturns ⊢
  cases hreturns with
  | line front stored before short rc kept =>
      have hlen : r.stored.length = front.length + 1 := by simp [stored]
      refine .inr ⟨by omega, ⟨by omega, by omega, ?_, kept ▸ strcpy_holds buf r.stored⟩, fun _ => ?_⟩
      · rw [stored, List.dropLast_concat]
        exact before
      · exact .inl (by rw [stored, List.getLast?_concat])
  | full stored none rc kept =>
      refine .inr ⟨by omega, ⟨by omega, by omega, ?_, kept ▸ strcpy_holds buf r.stored⟩, fun _ => ?_⟩
      · exact fun hmem => none (List.mem_of_mem_dropLast hmem)
      · exact .inr stored
  | cut some short none all ending rc kept =>
      have hpos := List.length_pos_iff.mpr some
      refine .inr ⟨by omega, ⟨hpos, Nat.le_of_lt short, ?_, kept ▸ strcpy_holds buf r.stored⟩, ?_⟩
      · exact fun hmem => none (List.mem_of_mem_dropLast hmem)
      · exact fun hmore => absurd all hmore
  | nothing all ending rc =>
      rw [all.1, all.2] at htakes
      exact .inl ⟨htakes, rc⟩
  | failed short none all ending rc => cases ending

private theorem Framed.cons {stream : List UInt8} {maxlen : Nat} {r : Result} {rs : List Result}
    (piece : Piece maxlen eol r) (whole : stream ≠ [] → Whole maxlen eol r)
    (h : Framed stream maxlen eol rs) : Framed (r.stored ++ stream) maxlen eol (r :: rs) where
  all := by rw [List.map_cons, List.flatten_cons, h.all]
  pieces := by
    intro q hq
    rcases List.mem_cons.mp hq with rfl | hq
    · exact piece
    · exact h.pieces q hq
  whole := by
    intro q hq
    cases rs with
    | nil => cases hq
    | cons p ps =>
        rcases List.mem_cons.mp hq with rfl | hq
        · refine whole fun hnil => ?_
          have hpos := (h.pieces p List.mem_cons_self).some
          have hall := congrArg List.length (h.all.trans hnil)
          simp only [List.map_cons, List.flatten_cons, List.length_append, List.length_nil] at hall
          omega
        · exact h.whole q hq

/-- Calling readln() until it returns 0 cuts any stream into its lines without loss. -/
theorem readlns_lossless (stream buf : List UInt8) {maxlen : Nat} (hmax : 2 ≤ maxlen)
    (heol : eol < 128) {calls : Nat} (enough : stream.length < calls) :
    ∃ rs, readlns maxlen eol calls ⟨stream, .eof⟩ buf = some rs ∧ Framed stream maxlen eol rs := by
  induction calls generalizing stream buf with
  | zero => exact absurd enough (Nat.not_lt_zero _)
  | succ calls ih =>
      obtain ⟨htakes, hending⟩ := readln_takes ⟨stream, .eof⟩ buf maxlen eol
      rcases piece_or_nothing stream buf hmax heol with ⟨rfl, hzero⟩ | ⟨hpos, hpiece, hwhole⟩
      · refine ⟨[], by rw [readlns, if_pos hzero], rfl, ?_, ?_⟩ <;> exact fun r hr => by cases hr
      · have hrc : ¬ (readln ⟨stream, .eof⟩ buf maxlen eol).rc = 0 := by omega
        have hneg : ¬ (readln ⟨stream, .eof⟩ buf maxlen eol).rc < 0 := by omega
        rw [readlns, if_neg hrc, if_neg hneg]
        generalize readln ⟨stream, .eof⟩ buf maxlen eol = r at *
        obtain ⟨rc, stored, kept, ⟨rest, ending⟩⟩ := r
        cases hending
        have hlen := congrArg List.length htakes
        have hsome := hpiece.some
        simp only [List.length_append] at hlen hsome
        obtain ⟨rs, hrs, hframed⟩ := ih rest kept (by omega)
        exact ⟨_, by rw [hrs]; rfl, htakes ▸ hframed.cons hpiece hwhole⟩

theorem readlns_lossless_short_buffer :
    ∃ rs, readlns 5 13 17 ⟨lit "HELLO CMS\rN0CALL", .eof⟩ (List.replicate 5 0) = some rs ∧
      Framed (lit "HELLO CMS\rN0CALL") 5 13 rs :=
  readlns_lossless _ _ (by decide) (by decide) (by decide)

example : (readlns 5 13 16 ⟨lit "HELLO CMS\rN0", .eof⟩ (List.replicate 5 0)).map
    (fun rs => rs.map Result.stored) = some [lit "HELL", lit "O CM", lit "S\r", lit "N0"] := by
  decide

end Rmsgw.Readln.Lines
