/- When the entry of a line depends on that line alone: which bytes of the buffer
   the parser looks at, and where it looks behind the line. -/

import Rmsgw.Lib.Numeral
import Rmsgw.Hosts.Fields

set_option autoImplicit false
set_option relaxedAutoImplicit false

namespace Rmsgw.Hosts.OwnLine

open Rmsgw.Lib.CStrings Rmsgw.Lib.Footprint Rmsgw.Lib.Numeral Rmsgw.Rms
open Rmsgw.Hosts.Model Rmsgw.Hosts.Fields

/-- The offsets that the split of a line looks at. The terminators that it stores lie
in front of what it looks at next. -/
def fieldReads (buf : List UInt8) (start : Nat) : List Nat :=
  let colon := scanTo buf start atColon
  let colon' := scanTo buf (colon + 1) atColon
  scanReads buf start atColon ++ (numeralReads buf (colon + 1) ++
    (scanReads buf (colon + 1) atColon ++ scanReads buf (colon' + 1) atColonOrEol))

/-- The offsets of the buffer that nextent() looks at in the line that it has read. -/
def nextentReads (buf : CArray cbufSize) : List Nat :=
  let start := scanTo buf.bytes 0 (fun c => !isspace c)
  0 :: if buf.bytes.head? = some 35 then []
    else scanReads buf.bytes 0 (fun c => !isspace c) ++ start ::
      if cbufSize ≤ start ∨ buf.bytes[start]? = some 0 ∨ buf.bytes[start]? = some 10 then []
      else fieldReads buf.bytes start

private theorem scan_isspace (a : List UInt8) :
    (a.drop 0).takeWhile (fun c => !!isspace c) = a.takeWhile isspace ∧
      scanTo a 0 (fun c => !isspace c) = (a.takeWhile isspace).length := by
  simp [scanTo]

private theorem scanTo_eq (a : List UInt8) (p : Nat) :
    scanTo a p atColon = p + (field (a.drop p)).length := rfl

private theorem behind_drop (a : List UInt8) (p : Nat) :
    behind (a.drop p) = a.drop (scanTo a p atColon + 1) := by
  rw [behind, List.drop_drop, scanTo_eq, Nat.add_assoc]

private theorem fields_congr {a b : List UInt8} {start : Nat} (h : Agree (fieldReads a start) a b) :
    field (a.drop start) = field (b.drop start) ∧
      atoi (text (behind (a.drop start))) = atoi (text (behind (b.drop start))) ∧
      field (behind (a.drop start)) = field (behind (b.drop start)) ∧
      lastField (behind (behind (a.drop start))) = lastField (behind (behind (b.drop start))) := by
  have hname : field (a.drop start) = field (b.drop start) := scan_congr h.append_left
  have hcolon : scanTo b start atColon = scanTo a start atColon := by
    rw [scanTo_eq, scanTo_eq, hname]
  rw [behind_drop a, behind_drop b, hcolon]
  set colon := scanTo a start atColon
  have hport : Agree (numeralReads a (colon + 1)) a b := h.append_right.append_left
  have hsecond : field (a.drop (colon + 1)) = field (b.drop (colon + 1)) :=
    scan_congr h.append_right.append_right.append_left
  have hcolon' : scanTo b (colon + 1) atColon = scanTo a (colon + 1) atColon := by
    rw [scanTo_eq, scanTo_eq, hsecond]
  rw [behind_drop a, behind_drop b, hcolon']
  refine ⟨hname, atoi_congr ?_, hsecond, scan_congr h.append_right.append_right.append_right⟩
  rw [numeral_text, numeral_text]
  refine numeral_congr fun i hi => ?_
  rw [List.getElem?_drop, List.getElem?_drop]
  exact hport _ (List.mem_range'_1.mpr ⟨Nat.le_add_right _ i, by omega⟩)

private theorem entry_congr {a b : CArray cbufSize} (h : Agree (nextentReads a) a.bytes b.bytes) :
    entry a = entry b := by
  have hfirst : a.bytes.head? = b.bytes.head? := by
    rw [List.head?_eq_getElem?, List.head?_eq_getElem?]
    exact h 0 List.mem_cons_self
  rw [entry_split a, entry_split b, ← hfirst]
  by_cases hcomment : a.bytes.head? = some 35
  · rw [if_pos hcomment, if_pos hcomment]
  obtain ⟨hspace, hstart⟩ := scan_isspace a.bytes
  simp only [nextentReads, if_neg hcomment, hstart] at h
  have hafter : Agree _ a.bytes b.bytes := fun i hi => h i (List.mem_cons_of_mem 0 hi)
  have hblanks : a.bytes.takeWhile isspace = b.bytes.takeWhile isspace := by
    have hscan := scan_congr hafter.append_left
    rwa [hspace, (scan_isspace b.bytes).1] at hscan
  rw [← hblanks]
  set start := (a.bytes.takeWhile isspace).length
  have hhead : (a.bytes.drop start).head? = (b.bytes.drop start).head? := by
    rw [List.head?_drop, List.head?_drop]
    exact hafter.append_right start List.mem_cons_self
  rw [if_neg hcomment, if_neg hcomment, ← hhead]
  by_cases hempty : cbufSize ≤ start ∨ (a.bytes.drop start).head? = some 0 ∨
      (a.bytes.drop start).head? = some 10
  · rw [if_pos hempty, if_pos hempty]
  rw [if_neg hempty, if_neg hempty]
  rw [List.head?_drop] at hempty
  have hsplit : Agree (fieldReads a.bytes start) a.bytes b.bytes := fun i hi =>
    hafter.append_right i (List.mem_cons_of_mem _ (by rwa [if_neg hempty]))
  obtain ⟨hname, hport, hsecond, hpasswd⟩ := fields_congr hsplit
  simp only [endOfFields, hname, hport, hsecond, hpasswd]
  rfl

section Line

variable {l t : List UInt8} {p k : Nat}

private theorem scanTo_line (hp : p ≤ l.length) :
    scanTo (l ++ 0 :: t) p atColon = p + (field (l.drop p)).length ∧
      scanTo (l ++ 0 :: t) p atColon ≤ l.length := by
  have hscan : scanTo (l ++ 0 :: t) p atColon = p + (field (l.drop p)).length := by
    rw [scanTo_eq, List.drop_append_of_le_length hp, field_terminated]
  refine ⟨hscan, ?_⟩
  have hle : (field (l.drop p)).length ≤ (l.drop p).length := (List.takeWhile_prefix _).length_le
  rw [List.length_drop] at hle
  omega

private theorem scanTo_lt_iff (hp : p ≤ l.length) :
    scanTo (l ++ 0 :: t) p atColon < l.length ↔ 0 < (l.drop p).countP atColon := by
  rw [(scanTo_line hp).1]
  have hlen : (l.drop p).length = l.length - p := List.length_drop
  constructor
  · intro hlt
    by_contra hnone
    have hall : field (l.drop p) = l.drop p := List.takeWhile_eq_self_iff.mpr fun c hc => by
      simpa using List.countP_eq_zero.mp (Nat.eq_zero_of_not_pos hnone) c hc
    rw [hall] at hlt
    omega
  · intro hsome
    have hlength := length_field_add hsome
    omega

private theorem fieldReads_inside_iff (hp : p ≤ l.length) :
    (∀ k ∈ fieldReads (l ++ 0 :: t) p, k ≤ l.length) ↔ 2 ≤ (l.drop p).countP atColon := by
  obtain ⟨hcolon, hcolonle⟩ := scanTo_line (t := t) hp
  have hfirst := scanTo_lt_iff (t := t) hp
  set colon := scanTo (l ++ 0 :: t) p atColon with hc
  have hbehind : l.drop (colon + 1) = behind (l.drop p) := by
    rw [behind, List.drop_drop, hcolon, Nat.add_assoc]
  constructor
  · intro hinside
    have hport : colon + 1 ≤ l.length := hinside _ (by
      simp only [fieldReads, List.mem_append, ← hc]
      exact .inr (.inl (List.mem_range'_1.mpr ⟨Nat.le_refl _, by omega⟩)))
    have hpos := hfirst.mp hport
    have hpasswd : scanTo (l ++ 0 :: t) (colon + 1) atColon + 1 ≤ l.length := hinside _ (by
      simp only [fieldReads, List.mem_append, ← hc]
      exact .inr (.inr (.inr (List.mem_range'_1.mpr ⟨Nat.le_refl _, by omega⟩))))
    have hpos' := (scanTo_lt_iff (t := t) hport).mp hpasswd
    rw [hbehind] at hpos'
    have hcount := countP_behind hpos
    omega
  · intro htwo k hk
    have hlt : colon < l.length := hfirst.mpr (by omega)
    have hcount := countP_behind (s := l.drop p) (by omega)
    have hlt' : scanTo (l ++ 0 :: t) (colon + 1) atColon < l.length :=
      (scanTo_lt_iff hlt).mpr (by rw [hbehind]; omega)
    simp only [fieldReads, List.mem_append, ← hc] at hk
    rcases hk with hk | hk | hk | hk
    · exact scanReads_inside (by decide) hp hk
    · exact numeralReads_inside hlt hk
    · exact scanReads_inside (by decide) hlt hk
    · exact scanReads_inside (by decide) hlt' hk

end Line

private theorem reads_inside_iff (buf : CArray cbufSize) (piece : Piece) :
    (∀ k ∈ nextentReads (store buf piece), k ≤ piece.bytes.length) ↔
      SelfContained piece.bytes := by
  obtain ⟨l, hfits⟩ := piece
  simp only
  set t := buf.bytes.drop (l.length + 1) with ht
  have hbytes : (store buf ⟨l, hfits⟩).bytes = l ++ 0 :: t := store_bytes buf ⟨l, hfits⟩
  have hstart : scanTo (l ++ 0 :: t) 0 (fun c => !isspace c) = (l.takeWhile isspace).length := by
    rw [(scan_isspace _).2, takeWhile_terminated (by decide)]
  have hle : (l.takeWhile isspace).length ≤ l.length := (List.takeWhile_prefix _).length_le
  have hhead : (l ++ 0 :: t)[(l.takeWhile isspace).length]? =
      (l.dropWhile isspace ++ 0 :: t).head? := by
    rw [← List.head?_drop, List.drop_append_of_le_length hle, drop_length_takeWhile]
  have hblanks : ∀ k ∈ scanReads (l ++ 0 :: t) 0 (fun c => !isspace c), k ≤ l.length :=
    fun k hk => scanReads_inside (by decide) (Nat.zero_le _) hk
  simp only [nextentReads, hbytes, hstart, hhead, comment_iff, empty_iff hfits]
  rw [SelfContained, skipped_iff]
  by_cases hcomment : l.head? = some 35
  · simp [hcomment]
  by_cases hempty : (l.dropWhile isspace).head?.getD 0 = 0
  · refine iff_of_true ?_ (.inl (.inr hempty))
    intro k hk
    rw [if_neg hcomment, if_pos hempty, List.mem_cons, List.mem_append, List.mem_singleton] at hk
    rcases hk with rfl | hk | rfl
    · exact Nat.zero_le _
    · exact hblanks k hk
    · exact hle
  · have hsplit := fieldReads_inside_iff (t := t) hle
    rw [drop_length_takeWhile, countP_dropWhile_isspace] at hsplit
    rw [if_neg hcomment, if_neg hempty, or_iff_right (by simp [hcomment, hempty]), ← hsplit]
    constructor
    · exact fun h k hk => h k (List.mem_cons_of_mem _ (List.mem_append_right _
        (List.mem_cons_of_mem _ hk)))
    · intro h k hk
      rw [List.mem_cons, List.mem_append, List.mem_cons] at hk
      rcases hk with rfl | hk | rfl | hk
      · exact Nat.zero_le _
      · exact hblanks k hk
      · exact hle
      · exact h k hk

/-- The number of characters of a line, its newline apart. -/
def characters (bytes : Str) : Nat := bytes.countP (fun b => b != 10)

/-- A line of a host file: a newline ends it if there is one, and it is shorter than
BUFSIZE-1 characters. -/
structure Line where
  bytes : Str
  nonempty : bytes ≠ []
  oneLine : (10 : UInt8) ∉ bytes.dropLast
  short : characters bytes + 1 < cbufSize

private theorem characters_eq {bytes : Str} (h : (10 : UInt8) ∉ bytes) :
    characters bytes = bytes.length :=
  List.countP_eq_length.mpr fun _ hb => bne_iff_ne.mpr fun heq => h (heq ▸ hb)

private theorem Line.fits (l : Line) : l.bytes.length < cbufSize := by
  have hlast := List.dropLast_append_getLast l.nonempty
  have hbody := characters_eq l.oneLine
  have hle : characters l.bytes.dropLast ≤ characters l.bytes :=
    (List.dropLast_sublist l.bytes).countP_le
  have hshort := l.short
  have hlen := congrArg List.length hlast
  rw [List.length_append, List.length_singleton] at hlen
  omega

def Line.piece (l : Line) : Piece := ⟨l.bytes, l.fits⟩

private theorem nothing_fits : ([] : Str).length + 1 < cbufSize := by decide

/-- The lines of a host file as they are read. -/
def linesOf (file : Str) : List Piece := fgetsAll ⟨[], nothing_fits⟩ file

/-- All lines are shorter than BUFSIZE-1 characters. -/
def ShortLines (file : Str) : Prop := ∀ piece ∈ linesOf file, characters piece.bytes + 1 < cbufSize

/-- The buffer behind the reading of some lines. -/
def cbufAfter (buf : CArray cbufSize) : List Piece → Except Fault (CArray cbufSize)
  | [] => .ok buf
  | piece :: rest =>
      (parseLine (store buf piece)).bind fun parsed =>
      match parsed with
      | none => cbufAfter (store buf piece) rest
      | some (_, buf) => cbufAfter buf rest

/-- getcmsent() comes to line `i` of a file with `buf` left in the buffer. -/
def Reaches (file : Str) (i : Nat) (l : Line) (buf : CArray cbufSize) : Prop :=
  ShortLines file ∧ (linesOf file)[i]? = some l.piece ∧
    cbufAfter (CArray.zero cbufSize) ((linesOf file).take i) = .ok buf

/-- A line gives the same entry in every host file, and reading it looks at nothing
behind its terminator. -/
structure Independent (l : Line) : Prop where
  same : ∀ file₁ file₂ i j buf₁ buf₂, Reaches file₁ i l buf₁ → Reaches file₂ j l buf₂ →
    entry (store buf₁ l.piece) = entry (store buf₂ l.piece)
  inside : ∀ file i buf, Reaches file i l buf →
    ∀ k ∈ nextentReads (store buf l.piece), k ≤ l.bytes.length

private theorem getcmsents_append (buf : CArray cbufSize) (before rest : List Piece) :
    getcmsents buf (before ++ rest) = (cbufAfter buf before).bind fun buf' =>
      (getcmsents buf before).bind fun cs => (getcmsents buf' rest).map (cs ++ ·) := by
  induction before generalizing buf with
  | nil =>
      simp only [List.nil_append, cbufAfter, getcmsents, Except.bind]
      cases getcmsents buf rest <;> rfl
  | cons piece before ih =>
      simp only [List.cons_append, getcmsents, cbufAfter]
      cases hparse : parseLine (store buf piece) with
      | error f => rfl
      | ok parsed =>
          cases parsed with
          | none => simp only [Except.bind, ih]
          | some q =>
              obtain ⟨c, buf'⟩ := q
              simp only [Except.bind, ih]
              cases cbufAfter buf' before with
              | error f => rfl
              | ok buf'' =>
                  cases getcmsents buf' before with
                  | error f => rfl
                  | ok cs =>
                      simp only [Except.map]
                      cases getcmsents buf'' rest <;> rfl

/-- The entries of a file from a line on are those that getcmsent() returns with the
buffer that the line finds. -/
theorem Reaches.entries {file : Str} {i : Nat} {l : Line} {buf : CArray cbufSize}
    (h : Reaches file i l buf) :
    ∃ rest, (linesOf file).drop i = l.piece :: rest ∧
      hostEntries (some file) =
        (getcmsents (CArray.zero cbufSize) ((linesOf file).take i)).bind fun cs =>
          (getcmsents buf (l.piece :: rest)).map (cs ++ ·) := by
  obtain ⟨-, hline, hbuf⟩ := h
  obtain ⟨hlt, hget⟩ := List.getElem?_eq_some_iff.mp hline
  have hdrop : (linesOf file).drop i = l.piece :: (linesOf file).drop (i + 1) := by
    rw [← hget, List.getElem_cons_drop]
  refine ⟨_, hdrop, ?_⟩
  have happend := getcmsents_append (CArray.zero cbufSize) ((linesOf file).take i)
    ((linesOf file).drop i)
  rw [List.take_append_drop, hbuf, hdrop] at happend
  exact happend

private theorem linesOf_line (l : Line) : linesOf l.bytes = [l.piece] := by
  have hlast := List.dropLast_append_getLast l.nonempty
  by_cases hnewline : l.bytes.getLast l.nonempty = 10
  · rw [hnewline] at hlast
    have hread := fgetsAll_line ⟨[], by decide⟩ l.oneLine []
      (by rw [hlast]; exact l.fits)
    simp only [List.nil_append, List.append_nil, hlast] at hread
    exact hread
  · have hnone : (10 : UInt8) ∉ l.bytes := by
      rw [← hlast, List.mem_append, List.mem_singleton]
      exact fun h => h.elim l.oneLine fun h => hnewline h.symm
    have hread := fgetsAll_skip ⟨[], nothing_fits⟩ hnone [] (characters_eq hnone ▸ l.short)
    rw [List.append_nil] at hread
    rw [linesOf, hread, fgetsAll, if_neg (by simpa using l.nonempty)]
    rfl

private theorem reaches_alone (l : Line) : Reaches l.bytes 0 l (CArray.zero cbufSize) := by
  refine ⟨?_, ?_, rfl⟩
  · intro piece hpiece
    rw [linesOf_line, List.mem_singleton] at hpiece
    exact hpiece ▸ l.short
  · rw [linesOf_line]
    rfl

/-- The entry of a line depends on that line alone, and reading it looks at nothing
behind its terminator, exactly if the line is skipped or has its two separators. -/
theorem own_line_iff (l : Line) : Independent l ↔ SelfContained l.bytes := by
  constructor
  · intro h
    exact (reads_inside_iff _ _).mp (h.inside l.bytes 0 (CArray.zero cbufSize) (reaches_alone l))
  · intro h
    have hinside := fun buf => (reads_inside_iff buf l.piece).mpr h
    refine ⟨fun file₁ file₂ i j buf₁ buf₂ _ _ => entry_congr ?_, fun _ _ buf _ => hinside buf⟩
    rw [store_bytes, store_bytes, List.append_cons _ _ (buf₁.bytes.drop _),
      List.append_cons _ _ (buf₂.bytes.drop _)]
    refine agree_of_front fun k hk => ?_
    rw [List.length_append]
    exact Nat.lt_succ_of_le (hinside buf₁ k hk)

private theorem b_nonempty : lit "b\n" ≠ [] := by decide

private theorem b_oneLine : (10 : UInt8) ∉ (lit "b\n").dropLast := by decide

private theorem b_short : characters (lit "b\n") + 1 < cbufSize := by decide

/-- A line without a colon. -/
private def loneHost : Line := ⟨lit "b\n", b_nonempty, b_oneLine, b_short⟩

/-- Behind a longer line the line without a colon has that line's port, but for its
first digit, and password. -/
theorem lone_host_takes_port_and_password :
    hostEntries (some loneHost.bytes) = .ok [⟨lit "b\n", 0, []⟩] ∧
      hostEntries (some (lit "a:18772:secret\n" ++ loneHost.bytes)) =
        .ok [⟨lit "a", 18772, lit "secret"⟩, ⟨lit "b\n", 8772, lit "secret"⟩] ∧
      ¬ Independent loneHost := by
  refine ⟨by decide +kernel, by decide +kernel, fun h => ?_⟩
  have hinside := h.inside loneHost.bytes 0 (CArray.zero cbufSize) (reaches_alone loneHost)
  rcases (reads_inside_iff _ _).mp hinside with hskip | htwo
  · exact absurd hskip (by decide)
  · exact absurd htwo (by decide)

end Rmsgw.Hosts.OwnLine
