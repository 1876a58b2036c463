/- What parsing a line gives, read off the line itself, and what blanks in front of
   a line change. -/

import Rmsgw.Lib.Footprint
import Rmsgw.Hosts.Model

set_option autoImplicit false
set_option relaxedAutoImplicit false

namespace Rmsgw.Hosts.Fields

open Rmsgw.Lib.CStrings Rmsgw.Lib.Footprint Rmsgw.Rms Rmsgw.Hosts.Model

/-- The bytes in front of the first separator. -/
def field (s : Str) : Str := s.takeWhile (fun c => !atColon c)

/-- The bytes behind the first separator. -/
def behind (s : Str) : Str := s.drop ((field s).length + 1)

def lastField (s : Str) : Str := s.takeWhile (fun c => !atColonOrEol c)

/-- The offset at which the split of a line that starts at `start` ends. -/
def endOfFields (start : Nat) (s : Str) : Nat :=
  start + (field s).length + 1 + (field (behind s)).length + 1 +
    (lastField (behind (behind s))).length

/-- What parsing the line in the buffer gives, without the buffer. -/
def entry (buf : CArray cbufSize) : Except Fault (Option Cms) :=
  (parseLine buf).map (Option.map Prod.fst)

private theorem text_of_terminated {a : List UInt8} {k : Nat} (hk : a[k]? = some 0)
    (h : (0 : UInt8) ∉ a.take k) : text a = a.take k := by
  obtain ⟨hlt, hget⟩ := List.getElem?_eq_some_iff.mp hk
  have hsplit : a = a.take k ++ 0 :: a.drop (k + 1) := by
    rw [← hget, List.getElem_cons_drop, List.take_append_drop]
  calc text a = text (a.take k ++ 0 :: a.drop (k + 1)) := congrArg text hsplit
    _ = a.take k := text_append_nul h

private theorem text_set_nul {a : List UInt8} {k : Nat} (hk : k < a.length)
    (h : (0 : UInt8) ∉ a.take k) : text (a.set k 0) = a.take k := by
  have htake : (a.set k 0).take k = a.take k := List.take_set_of_le (Nat.le_refl k)
  rw [text_of_terminated (List.getElem?_set_self hk) (by rwa [htake]), htake]

private theorem take_length_takeWhile (q : UInt8 → Bool) (s : Str) :
    s.take (s.takeWhile q).length = s.takeWhile q :=
  (List.prefix_iff_eq_take.mp (List.takeWhile_prefix q)).symm

private theorem nul_notMem_field (s : Str) : (0 : UInt8) ∉ field s := fun h =>
  absurd (List.mem_takeWhile_imp h) (by decide)

private theorem nul_notMem_lastField (s : Str) : (0 : UInt8) ∉ lastField s := fun h =>
  absurd (List.mem_takeWhile_imp h) (by decide)

private theorem inBuffer_bind {β : Type} (i : Nat) (f : Unit → Except Fault β) :
    (inBuffer i).bind f = if i < cbufSize then f () else .error .bufferOverflow := by
  unfold inBuffer
  split <;> rfl

private theorem parseFields_split (buf : CArray cbufSize) (start : Nat)
    (hblank : (0 : UInt8) ∉ buf.bytes.take start) :
    (parseFields buf start).map Prod.fst =
      if endOfFields start (buf.bytes.drop start) < cbufSize then
        .ok ⟨buf.bytes.take start ++ field (buf.bytes.drop start),
          atoi (text (behind (buf.bytes.drop start))),
          lastField (behind (behind (buf.bytes.drop start)))⟩
      else .error .bufferOverflow := by
  have hsize := buf.length_bytes
  set a := buf.bytes with ha
  set s := a.drop start with hs
  set colon := start + (field s).length with hc
  set colon' := colon + 1 + (field (behind s)).length with hc'
  set eol := colon' + 1 + (lastField (behind (behind s))).length with he
  have hscan : scanTo a start atColon = colon := rfl
  have hbehind : a.drop (colon + 1) = behind s := by
    rw [behind, hs, List.drop_drop, hc, Nat.add_assoc]
  have hbehind' : a.drop (colon' + 1) = behind (behind s) := by
    rw [behind, ← hbehind, List.drop_drop, hc', hbehind, Nat.add_assoc (colon + 1)]
  have hport : (a.set colon 0).drop (colon + 1) = behind s := by
    rw [List.drop_set_of_lt (Nat.lt_succ_self _), hbehind]
  have hscan' : scanTo (a.set colon 0) (colon + 1) atColon = colon' := by
    rw [scanTo, hport]
    rfl
  have hpasswd : ((a.set colon 0).set colon' 0).drop (colon' + 1) = behind (behind s) := by
    rw [List.drop_set_of_lt (Nat.lt_succ_self _), List.drop_set_of_lt (by omega), hbehind']
  have hscan'' : scanTo ((a.set colon 0).set colon' 0) (colon' + 1) atColonOrEol = eol := by
    rw [scanTo, hpasswd]
    rfl
  have hend : endOfFields start s = eol := rfl
  simp only [parseFields, ← ha, hscan, hscan', hscan'', hport, inBuffer_bind, hend]
  by_cases hfits : eol < cbufSize
  · have hhost : text (((a.set colon 0).set colon' 0).set eol 0) = a.take start ++ field s := by
      have hfront : ((a.set colon' 0).set eol 0).take colon = a.take start ++ field s := by
        rw [List.take_set_of_le (by omega), List.take_set_of_le (by omega), hc, List.take_add, ← hs,
          field, take_length_takeWhile]
      rw [List.set_comm _ _ (by omega : colon ≠ colon'), List.set_comm _ _ (by omega : colon ≠ eol),
        text_set_nul (by simp only [List.length_set]; omega) ?_, hfront]
      rw [hfront, List.mem_append]
      exact fun h => h.elim hblank (nul_notMem_field s)
    have hlast : text ((((a.set colon 0).set colon' 0).set eol 0).drop (colon' + 1)) =
        lastField (behind (behind s)) := by
      have hlen : (behind (behind s)).length = cbufSize - (colon' + 1) := by
        rw [← hbehind', List.length_drop, hsize]
      have hfront : (behind (behind s)).take (lastField (behind (behind s))).length =
          lastField (behind (behind s)) := take_length_takeWhile _ _
      rw [List.drop_set, if_neg (by omega), hpasswd, he, Nat.add_sub_cancel_left,
        text_set_nul (by omega) ?_, hfront]
      rw [hfront]
      exact nul_notMem_lastField _
    rw [if_pos (by omega), if_pos (by omega), if_pos (by omega), if_pos (by omega), if_pos (by omega),
      if_pos hfits, hhost, hlast]
    rfl
  · rw [if_neg hfits]
    split_ifs <;> rfl

theorem entry_split (buf : CArray cbufSize) :
    let blanks := buf.bytes.takeWhile isspace
    let line := buf.bytes.drop blanks.length
    entry buf =
      if buf.bytes.head? = some 35 then .ok none
      else if cbufSize ≤ blanks.length ∨ line.head? = some 0 ∨ line.head? = some 10 then .ok none
      else if endOfFields blanks.length line < cbufSize then
        .ok (some ⟨blanks ++ field line, atoi (text (behind line)),
          lastField (behind (behind line))⟩)
      else .error .bufferOverflow := by
  intro blanks line
  have hstart : scanTo buf.bytes 0 (fun c => !isspace c) = blanks.length := by
    simp [scanTo, blanks]
  have htake : buf.bytes.take blanks.length = blanks := take_length_takeWhile _ _
  have hblank : (0 : UInt8) ∉ buf.bytes.take blanks.length := by
    rw [htake]
    exact fun h => absurd (List.mem_takeWhile_imp h) (by decide)
  have hhead : buf.bytes[blanks.length]? = line.head? := by
    rw [List.head?_drop]
  have hfields := parseFields_split buf blanks.length hblank
  rw [htake] at hfields
  simp only [entry, parseLine, hstart, hhead]
  split
  · rfl
  split
  · rfl
  · cases hparse : parseFields buf blanks.length with
    | error f =>
        rw [hparse] at hfields
        split at hfields
        · cases hfields
        · rename_i hnot
          rw [if_neg hnot]
          exact congrArg Except.error (Except.error.inj hfields)
    | ok q =>
        rw [hparse] at hfields
        split at hfields
        · rename_i hfits
          rw [if_pos hfits]
          exact congrArg (fun c => Except.ok (some c)) (Except.ok.inj hfields)
        · cases hfields

theorem entry_host_length {buf : CArray cbufSize} {c : Cms} (h : entry buf = .ok (some c)) :
    c.host.length < cbufSize := by
  rw [entry_split] at h
  split at h
  · cases h
  split at h
  · cases h
  split at h
  · rename_i hfits
    obtain rfl := Option.some.inj (Except.ok.inj h)
    rw [List.length_append]
    exact Nat.lt_of_le_of_lt (by rw [endOfFields]; omega) hfits
  · cases h

section Line

variable {l s : Str}

/-- A comment, or a line with nothing behind its blanks. -/
def skipped (l : Str) : Bool := l.head? == some 35 || (l.dropWhile isspace).head?.getD 0 == 0

/-- A line that is skipped, or that has its two separators. -/
def SelfContained (l : Str) : Prop := skipped l = true ∨ 2 ≤ l.countP atColon

/-- The entry of a line that has its two separators. -/
def lineEntry (l : Str) : Cms where
  host := l.takeWhile isspace ++ field (l.dropWhile isspace)
  port := atoi (text (behind (l.dropWhile isspace)))
  passwd := lastField (behind (behind (l.dropWhile isspace)))

private theorem field_split (h : 0 < s.countP atColon) :
    ∃ c, atColon c = true ∧ s = field s ++ c :: behind s := by
  induction s with
  | nil => simp at h
  | cons b s ih =>
      by_cases hb : atColon b = true
      · exact ⟨b, hb, by simp [field, behind, hb]⟩
      · rw [List.countP_cons_of_neg hb] at h
        obtain ⟨c, hc, hs⟩ := ih h
        have hfield : field (b :: s) = b :: field s := by simp [field, hb]
        refine ⟨c, hc, ?_⟩
        rw [behind, hfield, List.length_cons, List.drop_succ_cons, List.cons_append]
        exact congrArg (b :: ·) hs

theorem length_field_add (h : 0 < s.countP atColon) :
    (field s).length + 1 + (behind s).length = s.length := by
  obtain ⟨c, -, hs⟩ := field_split h
  have hlen := congrArg List.length hs
  simp only [List.length_append, List.length_cons] at hlen
  omega

theorem countP_behind (h : 0 < s.countP atColon) :
    (behind s).countP atColon + 1 = s.countP atColon := by
  obtain ⟨c, hc, hs⟩ := field_split h
  have hfield : (field s).countP atColon = 0 :=
    List.countP_eq_zero.mpr fun b hb => by simpa using List.mem_takeWhile_imp hb
  have hcount := congrArg (List.countP atColon) hs
  rw [List.countP_append, List.countP_cons_of_pos hc, hfield, Nat.zero_add] at hcount
  exact hcount.symm

theorem field_terminated (s rest : Str) : field (s ++ 0 :: rest) = field s :=
  takeWhile_terminated (by decide) s rest

private theorem behind_terminated (h : 0 < s.countP atColon) (rest : Str) :
    behind (s ++ 0 :: rest) = behind s ++ 0 :: rest := by
  have hlen := length_field_add h
  rw [behind, field_terminated, List.drop_append_of_le_length (by omega), behind]

theorem countP_dropWhile_isspace (l : Str) :
    (l.dropWhile isspace).countP atColon = l.countP atColon := by
  have hblanks : (l.takeWhile isspace).countP atColon = 0 := by
    refine List.countP_eq_zero.mpr fun b hb hcolon => ?_
    have hspace := List.mem_takeWhile_imp hb
    simp only [atColon, Bool.or_eq_true, beq_iff_eq] at hcolon
    rcases hcolon with rfl | rfl <;> exact absurd hspace (by decide)
  calc (l.dropWhile isspace).countP atColon
      = (l.takeWhile isspace ++ l.dropWhile isspace).countP atColon := by
        rw [List.countP_append, hblanks, Nat.zero_add]
    _ = l.countP atColon := by rw [List.takeWhile_append_dropWhile]

theorem skipped_iff (l : Str) :
    skipped l = true ↔ l.head? = some 35 ∨ (l.dropWhile isspace).head?.getD 0 = 0 := by
  simp [skipped]

theorem comment_iff (l rest : Str) : (l ++ 0 :: rest).head? = some 35 ↔ l.head? = some 35 := by
  cases l <;> simp

theorem empty_iff (fits : l.length < cbufSize) (rest : Str) :
    (cbufSize ≤ (l.takeWhile isspace).length ∨ (l.dropWhile isspace ++ 0 :: rest).head? = some 0 ∨
      (l.dropWhile isspace ++ 0 :: rest).head? = some 10) ↔
      (l.dropWhile isspace).head?.getD 0 = 0 := by
  have hlong : ¬ cbufSize ≤ (l.takeWhile isspace).length := by
    have hle : (l.takeWhile isspace).length ≤ l.length := (List.takeWhile_prefix _).length_le
    omega
  cases hx : l.dropWhile isspace with
  | nil => simp
  | cons c x =>
      have hc : isspace c = false := by
        have hhead := List.head_dropWhile_not isspace (l := l) (by simp [hx])
        simpa [hx] using hhead
      have hne : c ≠ 10 := fun h => absurd (h ▸ hc) (by decide)
      simp [hlong, hne]

end Line

theorem store_bytes (buf : CArray cbufSize) (l : Piece) :
    (store buf l).bytes = l.bytes ++ 0 :: buf.bytes.drop (l.bytes.length + 1) := by
  simp [store, CArray.overwrite_bytes]

theorem entry_store (buf : CArray cbufSize) (l : Piece) (h : SelfContained l.bytes) :
    entry (store buf l) = .ok (if skipped l.bytes then none else some (lineEntry l.bytes)) := by
  obtain ⟨l, hfits⟩ := l
  simp only at h ⊢
  set t := buf.bytes.drop (l.length + 1) with ht
  have hbytes : (store buf ⟨l, hfits⟩).bytes = l ++ 0 :: t := store_bytes buf ⟨l, hfits⟩
  have hblanks : (l ++ 0 :: t).takeWhile isspace = l.takeWhile isspace :=
    takeWhile_terminated (by decide) l t
  have hlength : (l.takeWhile isspace).length + (l.dropWhile isspace).length = l.length := by
    rw [← List.length_append, List.takeWhile_append_dropWhile]
  have hline : (l ++ 0 :: t).drop (l.takeWhile isspace).length = l.dropWhile isspace ++ 0 :: t := by
    rw [List.drop_append_of_le_length (by omega), drop_length_takeWhile]
  have hsplit := entry_split (store buf ⟨l, hfits⟩)
  simp only [hbytes, hblanks, hline] at hsplit
  rw [hsplit]
  rw [if_congr (comment_iff l t) rfl (if_congr (empty_iff hfits t) rfl rfl)]
  by_cases hc : l.head? = some 35
  · simp [hc, skipped]
  by_cases he : (l.dropWhile isspace).head?.getD 0 = 0
  · simp [he, skipped]
  have hskip : skipped l = false := by simp [skipped, hc, he]
  have htwo : 2 ≤ (l.dropWhile isspace).countP atColon := by
    rw [countP_dropWhile_isspace]
    exact h.resolve_left (by simp [hskip])
  set x := l.dropWhile isspace with hx
  have hcount := countP_behind (s := x) (by omega)
  have hfirst := length_field_add (s := x) (by omega)
  have hsecond := length_field_add (s := behind x) (by omega)
  have hlast : (lastField (behind (behind x))).length ≤ (behind (behind x)).length :=
    (List.takeWhile_prefix _).length_le
  have hport : text (behind x ++ 0 :: t) = text (behind x) :=
    takeWhile_terminated (by decide) (behind x) t
  have hpasswd : lastField (behind (behind x) ++ 0 :: t) = lastField (behind (behind x)) :=
    takeWhile_terminated (by decide) _ t
  have hend : endOfFields (l.takeWhile isspace).length (x ++ 0 :: t) < cbufSize := by
    rw [endOfFields, field_terminated, behind_terminated (by omega), field_terminated,
      behind_terminated (by omega), hpasswd]
    omega
  rw [if_neg hc, if_neg he, if_pos hend, field_terminated, behind_terminated (by omega),
    behind_terminated (by omega), hport, hpasswd, hskip]
  rfl

section Indented

variable {w l : Str}

private theorem blanks_indented (blank : ∀ c ∈ w, isspace c = true)
    (start : ∀ c ∈ l.head?, isspace c = false) :
    (w ++ l).takeWhile isspace = w ∧ (w ++ l).dropWhile isspace = l := by
  have hl : l.takeWhile isspace = [] ∧ l.dropWhile isspace = l := by
    cases l with
    | nil => exact ⟨rfl, rfl⟩
    | cons c l => simp [start c rfl]
  rw [List.takeWhile_append_of_pos blank, List.dropWhile_append_of_pos blank, hl.1, hl.2]
  exact ⟨List.append_nil w, rfl⟩

private theorem lineEntry_indented (blank : ∀ c ∈ w, isspace c = true)
    (start : ∀ c ∈ l.head?, isspace c = false) :
    lineEntry (w ++ l) = { lineEntry l with host := w ++ (lineEntry l).host } := by
  obtain ⟨htake, hrest⟩ := blanks_indented blank start
  obtain ⟨htake', hrest'⟩ := @blanks_indented [] l (by simp) start
  rw [List.nil_append] at htake' hrest'
  rw [lineEntry, lineEntry, htake, hrest, htake', hrest', List.nil_append]

private theorem skipped_indented (blank : ∀ c ∈ w, isspace c = true)
    (start : ∀ c ∈ l.head?, isspace c = false) (noComment : l.head? ≠ some 35) :
    skipped (w ++ l) = (l.head?.getD 0 == 0) := by
  rw [skipped, (blanks_indented blank start).2]
  cases w with
  | nil => simp [noComment]
  | cons c w =>
      have hc : c ≠ 35 := fun h => absurd (h ▸ blank c List.mem_cons_self) (by decide)
      simp [hc]

end Indented

/-- Blanks in front of a line with two colons do not matter exactly if there are none
or the line is skipped all the same: they become part of the host name. -/
theorem leading_blanks_iff (w l : Str) (blank : ∀ c ∈ w, isspace c = true ∧ c ≠ 10)
    (noComment : l.head? ≠ some 35) (start : ∀ c ∈ l.head?, isspace c = false)
    (colons : 2 ≤ l.count 58) (fits : (w ++ l).length < cbufSize) (fits' : l.length < cbufSize) :
    (∀ buf buf', entry (store buf ⟨w ++ l, fits⟩) = entry (store buf' ⟨l, fits'⟩)) ↔
      w = [] ∨ l.head? = some 0 := by
  have hspace : ∀ c ∈ w, isspace c = true := fun c hc => (blank c hc).1
  have hseps : 2 ≤ l.countP atColon :=
    Nat.le_trans colons (List.countP_mono_left fun c _ hc => by simp [atColon, eq_of_beq hc])
  have hown : SelfContained l := .inr hseps
  have hown' : SelfContained (w ++ l) := .inr (by rw [List.countP_append]; omega)
  have hskip := skipped_indented hspace start noComment
  have hskip' := @skipped_indented [] l (by simp) start noComment
  rw [List.nil_append] at hskip'
  have hentry : ∀ buf, entry (store buf ⟨l, fits'⟩) =
      .ok (if l.head?.getD 0 == 0 then none else some (lineEntry l)) := fun buf => by
    rw [entry_store buf _ hown, hskip']
  have hentry' : ∀ buf, entry (store buf ⟨w ++ l, fits⟩) =
      .ok (if l.head?.getD 0 == 0 then none
        else some { lineEntry l with host := w ++ (lineEntry l).host }) := fun buf => by
    rw [entry_store buf _ hown', hskip, lineEntry_indented hspace start]
  have someBuf : Nonempty (CArray cbufSize) := ⟨CArray.zero cbufSize⟩
  simp only [hentry, hentry', Except.ok.injEq, forall_const]
  cases l with
  | nil => simp at colons
  | cons d l =>
      by_cases hd : d = 0
      · simp [hd]
      · have hsame : { lineEntry (d :: l) with host := w ++ (lineEntry (d :: l)).host } =
            lineEntry (d :: l) ↔ w = [] := by
          constructor
          · exact fun h => List.append_left_eq_self.mp (congrArg Cms.host h)
          · rintro rfl
            rfl
        simpa [hd] using hsame

private def hostLine : Str := lit "cms.winlink.org:8772:CMSTelnet\n"

private theorem hostLine_start : ∀ c ∈ hostLine.head?, isspace c = false := by
  intro c hc
  obtain rfl := Option.some.inj hc
  decide

private theorem twoBlanks : ∀ c ∈ lit " \t", isspace c = true ∧ c ≠ 10 := by
  have hall : (lit " \t").all (fun c => isspace c && c != 10) = true := by decide
  intro c hc
  simpa using List.all_eq_true.mp hall c hc

theorem leading_blanks_iff_two :
    (∀ buf buf', entry (store buf ⟨lit " \t" ++ hostLine, by decide⟩) =
        entry (store buf' ⟨hostLine, by decide⟩)) ↔
      lit " \t" = [] ∨ hostLine.head? = some 0 :=
  leading_blanks_iff (lit " \t") hostLine twoBlanks (by decide) hostLine_start (by decide)
    (by decide) (by decide)

/-- The host of an indented line is looked up with its blanks. -/
theorem indented_host_keeps_blanks :
    entry (store (CArray.zero cbufSize) ⟨lit " \t" ++ hostLine, by decide⟩) =
        .ok (some ⟨lit " \tcms.winlink.org", 8772, lit "CMSTelnet"⟩) ∧
      entry (store (CArray.zero cbufSize) ⟨hostLine, by decide⟩) =
        .ok (some ⟨lit "cms.winlink.org", 8772, lit "CMSTelnet"⟩) ∧
      ¬ ∀ buf buf', entry (store buf ⟨lit " \t" ++ hostLine, by decide⟩) =
        entry (store buf' ⟨hostLine, by decide⟩) := by
  have hindented : entry (store (CArray.zero cbufSize) ⟨lit " \t" ++ hostLine, by decide⟩) =
      .ok (some ⟨lit " \tcms.winlink.org", 8772, lit "CMSTelnet"⟩) :=
    (entry_store _ _ (.inr (by decide))).trans
      (congrArg Except.ok ((if_neg (by decide)).trans (congrArg some (by decide))))
  have hplain : entry (store (CArray.zero cbufSize) ⟨hostLine, by decide⟩) =
      .ok (some ⟨lit "cms.winlink.org", 8772, lit "CMSTelnet"⟩) :=
    (entry_store _ _ (.inr (by decide))).trans
      (congrArg Except.ok ((if_neg (by decide)).trans (congrArg some (by decide))))
  refine ⟨hindented, hplain, fun h => ?_⟩
  have heq := h (CArray.zero cbufSize) (CArray.zero cbufSize)
  rw [hindented, hplain] at heq
  exact absurd heq (by decide)

end Rmsgw.Hosts.Fields
