/- What varsubst() makes of a text: one scan from left to right, and when a text
   put together from pieces is read as its pieces. -/

import Rmsgw.Channels.Model
import Rmsgw.Lib.Templates
import Mathlib.Data.List.Chain

set_option autoImplicit false
set_option relaxedAutoImplicit false

namespace Rmsgw.Channels.Subst

open Rmsgw.Lib.CStrings Rmsgw.Lib.Templates Rmsgw.Rms Rmsgw.Channels.Model

/-- The characters that a variable name is collected from: letters, digits, '_' and '$'. -/
def isNameChar (c : UInt8) : Bool := isalnum c || c == 95 || c == 36

/-- The literals and references of a text. A backslash makes the next character
literal; '$' starts a name, which runs as far as it can, and the character that
ends the name is literal. -/
def scan : Str → List (Token UInt8 Str)
  | [] => []
  | c :: rest =>
      if c = 92 then literals (rest.take 1) ++ scan (rest.drop 1)
      else if c = 36 then
        .ref (rest.takeWhile isNameChar) ::
          (literals ((rest.dropWhile isNameChar).take 1) ++
            scan ((rest.dropWhile isNameChar).drop 1))
      else .lit c :: scan rest
termination_by s => s.length
decreasing_by
  all_goals
    have hdrop := (List.dropWhile_suffix (p := isNameChar) (l := rest)).length_le
    simp only [List.length_drop, List.length_cons]
    omega

theorem scan_nil : scan [] = [] := by rw [scan]

private theorem scan_backslash (rest : Str) :
    scan (92 :: rest) = literals (rest.take 1) ++ scan (rest.drop 1) := by rw [scan, if_pos rfl]

theorem scan_dollar (rest : Str) :
    scan (36 :: rest) = .ref (rest.takeWhile isNameChar) ::
      (literals ((rest.dropWhile isNameChar).take 1) ++
        scan ((rest.dropWhile isNameChar).drop 1)) := by
  rw [scan, if_neg (by decide), if_pos rfl]

theorem scan_plain {c : UInt8} (hesc : c ≠ 92) (hvar : c ≠ 36) (rest : Str) :
    scan (c :: rest) = .lit c :: scan rest := by rw [scan, if_neg hesc, if_neg hvar]

/-- A text with the values of its names in their places. -/
def substituted (symtab : SymTab) (s : Str) : Str := expand (valueIn symtab) (scan s)

/-- Every name fits the buffer that it is collected in. -/
def NamesFit (s : Str) : Prop := ∀ n ∈ names (scan s), n.length < vbufSize

instance (s : Str) : Decidable (NamesFit s) := inferInstanceAs (Decidable (∀ n ∈ _, _))

/-- What a buffered step comes to: the whole text, or an overflow of one of the buffers. -/
def buffered (fit : Prop) [Decidable fit] (out more : Str) : Except Fault Str :=
  if fit ∧ out.length + more.length < bigBuf then .ok (out ++ more) else .error .bufferOverflow

private theorem buffered_congr {fit fit' : Prop} [Decidable fit] [Decidable fit'] (h : fit ↔ fit')
    (out more : Str) : buffered fit out more = buffered fit' out more := by
  simp only [buffered, h]

private theorem put_eq (out more : Str) : put out more = buffered True out more := by
  simp [put, buffered]

private theorem putVariable_eq (symtab : SymTab) (out name : Str) :
    putVariable symtab out name = buffered (name.length < vbufSize) out (valueIn symtab name) := by
  by_cases h : name.length < vbufSize
  · rw [putVariable, if_pos h, put_eq]
    exact buffered_congr (iff_of_true trivial h) _ _
  · simp [putVariable, buffered, h]

private theorem buffered_bind {fit fit' : Prop} [Decidable fit] [Decidable fit']
    (out more rest : Str) : (buffered fit out more).bind (fun out => buffered fit' out rest) =
      buffered (fit ∧ fit') out (more ++ rest) := by
  by_cases h : fit ∧ out.length + more.length < bigBuf
  · rw [buffered, if_pos h]
    simp only [Except.bind, buffered, h.1, true_and, List.length_append, List.append_assoc,
      Nat.add_assoc]
  · have hmore : ¬ ((fit ∧ fit') ∧ out.length + (more ++ rest).length < bigBuf) := by
      rintro ⟨⟨hfit, -⟩, hlen⟩
      rw [List.length_append] at hlen
      exact h ⟨hfit, by omega⟩
    rw [buffered, if_neg h, buffered, if_neg hmore]
    rfl

private theorem substLoop_variable (symtab : SymTab) (out s : Str) {name : Str}
    (fits : name.length < vbufSize) :
    substLoop symtab (.variable name) out s =
      (putVariable symtab out (name ++ s.takeWhile isNameChar)).bind (fun out =>
        match s.dropWhile isNameChar with
        | [] => .ok out
        | d :: rest => (put out [d]).bind (fun out => substLoop symtab .copy out rest)) := by
  induction s generalizing name with
  | nil =>
      simp only [substLoop, List.takeWhile_nil, List.dropWhile_nil, List.append_nil]
      cases putVariable symtab out name <;> rfl
  | cons c rest ih =>
      by_cases hc : isNameChar c = true
      · have hc' : (isalnum c || c == 95 || c == 36) = true := hc
        rw [substLoop, if_pos hc', List.takeWhile_cons_of_pos hc, List.dropWhile_cons_of_pos hc]
        by_cases hmore : name.length + 1 < vbufSize
        · rw [if_pos hmore, ih (by simpa using hmore), List.append_assoc, List.singleton_append]
        · have hlong : ¬ (name ++ c :: rest.takeWhile isNameChar).length < vbufSize := by
            simp only [List.length_append, List.length_cons]
            omega
          rw [if_neg hmore, putVariable, if_neg hlong]
          rfl
      · have hc' : ¬ (isalnum c || c == 95 || c == 36) = true := hc
        rw [substLoop, if_neg hc', List.takeWhile_cons_of_neg hc, List.dropWhile_cons_of_neg hc,
          List.append_nil]

private theorem substLoop_nil (symtab : SymTab) (out : Str) :
    put out [] = buffered (NamesFit []) out (substituted symtab []) := by
  rw [put_eq, substituted, scan_nil]
  exact buffered_congr (iff_of_true trivial fun n hn => by rw [scan_nil] at hn; cases hn) out []

private theorem put_literal (symtab : SymTab) (out : Str) {c : UInt8} {s rest : Str}
    (hscan : scan s = .lit c :: scan rest)
    (hrest : ∀ out, substLoop symtab .copy out rest =
      buffered (NamesFit rest) out (substituted symtab rest)) :
    (put out [c]).bind (fun out => substLoop symtab .copy out rest) =
      buffered (NamesFit s) out (substituted symtab s) := by
  have hfit : True ∧ NamesFit rest ↔ NamesFit s := by simp [NamesFit, hscan, names]
  simp only [hrest, put_eq, buffered_bind]
  rw [buffered_congr hfit, substituted, substituted, hscan]
  rfl

private theorem substLoop_copy (symtab : SymTab) (out s : Str) :
    substLoop symtab .copy out s = buffered (NamesFit s) out (substituted symtab s) := by
  fun_induction scan s generalizing out with
  | case1 => exact substLoop_nil symtab out
  | case2 rest ih =>
      simp only [substLoop, if_true]
      cases rest with
      | nil =>
          have hscan : scan [92] = scan [] := by rw [scan_backslash]; rfl
          rw [substLoop, substLoop_nil symtab, substituted, substituted, hscan]
          exact buffered_congr (by simp only [NamesFit, hscan]) out _
      | cons d rest =>
          rw [substLoop]
          exact put_literal symtab out (scan_backslash (d :: rest)) ih
  | case3 rest hesc ih =>
      have hname : ([] : Str).length < vbufSize := by decide
      simp only [substLoop, hesc, if_false, if_true]
      rw [substLoop_variable symtab out rest hname, List.nil_append, putVariable_eq]
      have hscan := scan_dollar rest
      cases hrest : rest.dropWhile isNameChar with
      | nil =>
          rw [hrest, List.take_nil, List.drop_nil, scan_nil] at hscan
          have hfit : (rest.takeWhile isNameChar).length < vbufSize ↔ NamesFit (36 :: rest) := by
            simp [NamesFit, hscan, names, literals]
          have hbind : ∀ x : Except Fault Str, x.bind (fun out => .ok out) = x := by
            intro x
            cases x <;> rfl
          rw [hbind, buffered_congr hfit, substituted, hscan]
          simp [expand, literals]
      | cons d rest' =>
          rw [hrest] at hscan ih
          have hfit : (rest.takeWhile isNameChar).length < vbufSize ∧ True ∧ NamesFit rest' ↔
              NamesFit (36 :: rest) := by simp [NamesFit, hscan, names, literals]
          have hvalue : substituted symtab (36 :: rest) =
              valueIn symtab (rest.takeWhile isNameChar) ++ ([d] ++ substituted symtab rest') := by
            rw [substituted, hscan]
            rfl
          have hih : ∀ out, substLoop symtab .copy out rest' =
              buffered (NamesFit rest') out (substituted symtab rest') := ih
          simp only [hih, put_eq, buffered_bind]
          rw [buffered_congr hfit, hvalue]
  | case4 c rest hesc hvar ih =>
      simp only [substLoop, hesc, hvar, if_false]
      exact put_literal symtab out (scan_plain hesc hvar rest) ih

theorem varsubst_eq (symtab : SymTab) (rbuf : Str) :
    varsubst symtab rbuf = buffered (NamesFit rbuf) [] (substituted symtab rbuf) :=
  substLoop_copy symtab [] rbuf

private theorem varsubst_eq_ok_iff {symtab : SymTab} {rbuf text : Str} :
    varsubst symtab rbuf = .ok text ↔
      NamesFit rbuf ∧ (substituted symtab rbuf).length < bigBuf ∧ substituted symtab rbuf = text := by
  rw [varsubst_eq, buffered, List.length_nil, Nat.zero_add, List.nil_append]
  split
  case isTrue h => simp [h.1, h.2]
  case isFalse h =>
    refine iff_of_false (fun he => by cases he) ?_
    rintro ⟨hnames, hlen, -⟩
    exact h ⟨hnames, hlen⟩

/-- A letter, a digit or '_'. -/
def isWordChar (c : UInt8) : Bool := isalnum c || c == 95

structure VarName where
  bytes : Str
  some : bytes ≠ []
  short : bytes.length < vbufSize
  word : ∀ c ∈ bytes, isWordChar c = true

/-- Text without '$' and backslash. -/
structure PlainText where
  bytes : Str
  some : bytes ≠ []
  plain : ∀ c ∈ bytes, c ≠ 0 ∧ c ≠ 36 ∧ c ≠ 92

/-- A piece of a template: plain text, a backslash and a character, or '$' and a name. -/
inductive Piece
  | plain (p : PlainText)
  | escape (c : UInt8) (nonzero : c ≠ 0)
  | ref (n : VarName)

namespace Piece

def render : Piece → Str
  | plain p => p.bytes
  | escape c _ => [92, c]
  | ref n => 36 :: n.bytes

/-- What the piece stands for. -/
def tokens : Piece → List (Token UInt8 Str)
  | plain p => literals p.bytes
  | escape c _ => [.lit c]
  | ref n => [.ref n.bytes]

/-- The second piece would extend the name in the first. -/
def Extends : Piece → Piece → Prop
  | ref _, plain p => ∃ c ∈ p.bytes.head?, isWordChar c = true
  | _, _ => False

end Piece

def render (ps : List Piece) : Str := ps.flatMap Piece.render

def tokens (ps : List Piece) : List (Token UInt8 Str) := ps.flatMap Piece.tokens

/-- Pieces in a row, no name directly followed by plain text that would extend it. -/
structure Template where
  pieces : List Piece
  apart : pieces.IsChain (fun p q => ¬ p.Extends q)

/-- The plain texts, the escaped characters and the values of the names, in a row. -/
def Template.value (t : Template) (symtab : SymTab) : Str := expand (valueIn symtab) (tokens t.pieces)

/-- Whatever the values are, the template expands piece by piece. -/
def Template.Independent (t : Template) : Prop :=
  ∀ symtab, (t.value symtab).length < bigBuf → varsubst symtab (render t.pieces) = .ok (t.value symtab)

/-- Behind a reference nothing but escaped backslashes come before the next plain
text or the end. -/
def Separated (behindRef : Bool) : List Piece → Prop
  | [] => True
  | .plain _ :: ps => Separated false ps
  | .escape c _ :: ps => (behindRef = true → c = 92) ∧ Separated behindRef ps
  | .ref _ :: ps => behindRef = false ∧ Separated true ps

theorem scan_plainText {s : Str} (plain : ∀ c ∈ s, c ≠ 0 ∧ c ≠ 36 ∧ c ≠ 92) (rest : Str) :
    scan (s ++ rest) = literals s ++ scan rest := by
  induction s with
  | nil => rfl
  | cons c s ih =>
      obtain ⟨-, hvar, hesc⟩ := plain c List.mem_cons_self
      rw [List.cons_append, scan_plain hesc hvar,
        ih fun d hd => plain d (List.mem_cons_of_mem c hd)]
      rfl

private theorem isNameChar_of_word {c : UInt8} (h : isWordChar c = true) : isNameChar c = true := by
  rw [isNameChar]
  exact Bool.or_eq_true_iff.mpr (.inl h)

private theorem scan_ref (n : VarName) {rest : Str}
    (stops : ∀ c ∈ rest.head?, isNameChar c = false) : scan (36 :: (n.bytes ++ rest)) =
      .ref n.bytes :: (literals (rest.take 1) ++ scan (rest.drop 1)) := by
  have hword : ∀ c ∈ n.bytes, isNameChar c = true := fun c hc => isNameChar_of_word (n.word c hc)
  have htake : rest.takeWhile isNameChar = [] := by
    cases rest with
    | nil => rfl
    | cons c rest => exact List.takeWhile_cons_of_neg (by simp [stops c rfl])
  have hdrop : rest.dropWhile isNameChar = rest := by
    cases rest with
    | nil => rfl
    | cons c rest => exact List.dropWhile_cons_of_neg (by simp [stops c rfl])
  rw [scan_dollar, List.takeWhile_append_of_pos hword, List.dropWhile_append_of_pos hword, htake,
    hdrop, List.append_nil]

/-- The pieces are read as what they stand for: at a boundary that the scan reaches
copying, behind a backslash of its own, and behind a name. -/
structure ReadAsBuilt (ps : List Piece) : Prop where
  copying : scan (render ps) = tokens ps ↔ Separated false ps
  escaping : scan (92 :: render ps) = tokens ps ↔ Separated true ps
  naming : ∀ n : VarName, (∀ p ∈ ps.head?, ¬ (Piece.ref n).Extends p) →
    (scan (36 :: (n.bytes ++ render ps)) = .ref n.bytes :: tokens ps ↔ Separated true ps)

private theorem readAsBuilt_nil : ReadAsBuilt [] where
  copying := iff_of_true scan_nil trivial
  escaping := by
    refine iff_of_true ?_ trivial
    rw [scan_backslash]
    exact scan_nil
  naming := by
    intro n _
    refine iff_of_true ?_ trivial
    rw [scan_ref n (fun c hc => by cases hc)]
    exact congrArg _ scan_nil

private theorem ReadAsBuilt.plain {ps : List Piece} (h : ReadAsBuilt ps) (p : PlainText) :
    ReadAsBuilt (.plain p :: ps) := by
  obtain ⟨c, s, hp⟩ := List.exists_cons_of_ne_nil p.some
  have hplain := p.plain
  rw [hp, List.forall_mem_cons] at hplain
  obtain ⟨⟨-, hvar, hesc⟩, hplain⟩ := hplain
  have hrender : render (.plain p :: ps) = c :: (s ++ render ps) := by
    simp [render, Piece.render, hp]
  have htokens : tokens (.plain p :: ps) = .lit c :: (literals s ++ tokens ps) := by
    simp [tokens, Piece.tokens, hp, literals]
  have hread : .lit c :: scan (s ++ render ps) = tokens (.plain p :: ps) ↔ Separated false ps := by
    rw [htokens, scan_plainText hplain, List.cons_inj_right, List.append_right_inj]
    exact h.copying
  constructor
  case copying =>
    rw [hrender, scan_plain hesc hvar]
    exact hread
  case escaping =>
    rw [hrender, scan_backslash]
    exact hread
  case naming =>
    intro n hnext
    have hstop : isNameChar c = false := by
      have hword : ¬ isWordChar c = true := fun hc =>
        hnext (.plain p) rfl ⟨c, by simp [hp], hc⟩
      simp only [isNameChar, Bool.or_eq_false_iff, beq_eq_false_iff_ne]
      simp only [isWordChar, Bool.not_eq_true, Bool.or_eq_false_iff, beq_eq_false_iff_ne] at hword
      exact ⟨hword, hvar⟩
    rw [hrender, scan_ref n (by simpa using hstop), List.cons_inj_right]
    exact hread

private theorem ReadAsBuilt.escape_read {ps : List Piece} (h : ReadAsBuilt ps) (c : UInt8)
    (hc : c ≠ 0) : .lit 92 :: scan (c :: render ps) = tokens (.escape c hc :: ps) ↔
      Separated true (.escape c hc :: ps) := by
  have htokens : tokens (.escape c hc :: ps) = .lit c :: tokens ps := rfl
  rw [htokens, List.cons.injEq, Token.lit.injEq, Separated, ← h.escaping]
  constructor
  · rintro ⟨rfl, hread⟩
    exact ⟨fun _ => rfl, hread⟩
  · rintro ⟨hc92, hread⟩
    obtain rfl := hc92 rfl
    exact ⟨rfl, hread⟩

private theorem ReadAsBuilt.escape {ps : List Piece} (h : ReadAsBuilt ps) (c : UInt8) (hc : c ≠ 0) :
    ReadAsBuilt (.escape c hc :: ps) := by
  have hrender : render (.escape c hc :: ps) = 92 :: c :: render ps := rfl
  constructor
  case copying =>
    have htokens : tokens (.escape c hc :: ps) = .lit c :: tokens ps := rfl
    rw [hrender, scan_backslash, htokens, Separated, ← h.copying]
    simp [literals]
  case escaping =>
    rw [hrender, scan_backslash]
    exact h.escape_read c hc
  case naming =>
    intro n _
    have hstop : isNameChar 92 = false := by decide
    rw [hrender, scan_ref n (by simpa using hstop), List.cons_inj_right]
    exact h.escape_read c hc

private theorem ReadAsBuilt.ref {ps : List Piece} (h : ReadAsBuilt ps) (m : VarName)
    (hnext : ∀ p ∈ ps.head?, ¬ (Piece.ref m).Extends p) : ReadAsBuilt (.ref m :: ps) := by
  have hrender : render (.ref m :: ps) = 36 :: (m.bytes ++ render ps) := rfl
  have htokens : tokens (.ref m :: ps) = .ref m.bytes :: tokens ps := rfl
  constructor
  case copying =>
    rw [hrender, htokens, h.naming m hnext, Separated]
    exact (and_iff_right rfl).symm
  case escaping =>
    rw [hrender, htokens, scan_backslash, Separated]
    refine iff_of_false (fun hread => ?_) fun hsep => by cases hsep.1
    cases (List.cons.inj hread).1
  case naming =>
    intro n _
    rw [Separated]
    refine iff_of_false (fun hread => ?_) fun hsep => by cases hsep.1
    rw [hrender, scan_dollar] at hread
    have hname := Token.ref.inj (List.cons.inj hread).1
    have hword : ∀ c ∈ n.bytes, isNameChar c = true := fun c hc => isNameChar_of_word (n.word c hc)
    have hdollar : isNameChar 36 = true := by decide
    rw [List.takeWhile_append_of_pos hword, List.takeWhile_cons_of_pos hdollar] at hname
    have hlen := congrArg List.length hname
    simp only [List.length_append, List.length_cons] at hlen
    omega

private theorem readAsBuilt (ps : List Piece) (apart : ps.IsChain (fun p q => ¬ p.Extends q)) :
    ReadAsBuilt ps := by
  induction ps with
  | nil => exact readAsBuilt_nil
  | cons p ps ih =>
      obtain ⟨hnext, hapart⟩ := List.isChain_cons.mp apart
      cases p with
      | plain p => exact (ih hapart).plain p
      | escape c hc => exact (ih hapart).escape c hc
      | ref n => exact (ih hapart).ref n hnext

private theorem names_tokens_short (ps : List Piece) :
    ∀ n ∈ names (tokens ps), n.length < vbufSize := by
  induction ps with
  | nil => exact fun n hn => by cases hn
  | cons p ps ih =>
      have hnames : names (tokens (p :: ps)) = names p.tokens ++ names (tokens ps) := by
        simp [tokens]
      rw [hnames, List.forall_mem_append]
      refine ⟨?_, ih⟩
      cases p with
      | plain p => simp [Piece.tokens]
      | escape c hc => simp [Piece.tokens, names]
      | ref n => simpa [Piece.tokens, names] using n.short

/-- A template whose references are kept apart from references and escapes expands
piece by piece whatever the values are; if it leaves room for a character for
each piece of it, it does so only then. -/
theorem varsubst_independent_iff (t : Template) :
    (Separated false t.pieces → t.Independent) ∧
      ((tokens t.pieces).length < bigBuf → t.Independent → Separated false t.pieces) := by
  have hbuilt := (readAsBuilt t.pieces t.apart).copying
  constructor
  · intro hsep symtab hroom
    have hread := hbuilt.mpr hsep
    rw [varsubst_eq_ok_iff, NamesFit, substituted, hread]
    exact ⟨names_tokens_short t.pieces, hroom, rfl⟩
  · intro hroom hindep
    refine hbuilt.mp ?_
    by_contra hne
    have : Nontrivial UInt8 := ⟨⟨0, 1, by decide⟩⟩
    obtain ⟨symtab, hshort, hdiffer⟩ := exists_separates hne
    have hvalue := hindep symtab
      (Nat.lt_of_le_of_lt (expand_length_le (valueIn_length_le hshort) _) hroom)
    exact hdiffer (varsubst_eq_ok_iff.mp hvalue).2.2

private theorem type_word : ∀ c ∈ lit "type", isWordChar c = true :=
  List.all_eq_true.mp (by decide)

private theorem name_word : ∀ c ∈ lit "name", isWordChar c = true :=
  List.all_eq_true.mp (by decide)

private def typeName : VarName := ⟨lit "type", by decide, by decide, type_word⟩

private def nameName : VarName := ⟨lit "name", by decide, by decide, name_word⟩

/-- `$type$name` -/
private def twoRefs : Template := ⟨[.ref typeName, .ref nameName], by simp [Piece.Extends]⟩

private def radioSymbols : SymTab := [(lit "name", lit "radio"), (lit "type", lit "ax25")]

/-- Two references in a row are read as one to a name that nothing has. -/
theorem adjacent_references_merge :
    render twoRefs.pieces = lit "$type$name" ∧
      varsubst radioSymbols (render twoRefs.pieces) = .ok [] ∧
      twoRefs.value radioSymbols = lit "ax25radio" ∧ ¬ twoRefs.Independent := by
  have hread : varsubst radioSymbols (render twoRefs.pieces) = .ok [] := by decide
  refine ⟨by decide, hread, by decide, fun h => ?_⟩
  have hvalue := h radioSymbols (by decide)
  rw [hread] at hvalue
  exact absurd hvalue (by decide)

end Rmsgw.Channels.Subst
