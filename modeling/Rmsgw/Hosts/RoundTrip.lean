/- Writing a CMS host table and reading it back. -/

import Rmsgw.Hosts.Fields
import Rmsgw.Lib.Decimal

set_option autoImplicit false
set_option relaxedAutoImplicit false

namespace Rmsgw.Hosts.RoundTrip

open Rmsgw.Lib.CStrings Rmsgw.Lib.Decimal Rmsgw.Hosts.Model Rmsgw.Hosts.Fields

/-- What putcmsent() adds to the output file. -/
def putcmsent (c : Cms) : Str := c.host ++ 58 :: (printInt c.port ++ 58 :: (c.passwd ++ [10]))

/-- Entries whose fields cannot be taken for separators, comments or blank lines,
and whose line fits in one read. -/
structure Writable (c : Cms) : Prop where
  host : ∀ b ∈ c.host, b ≠ 58 ∧ b ≠ 10 ∧ b ≠ 0
  start : ∀ b ∈ c.host.head?, b ≠ 35 ∧ isspace b = false
  port : InInt32 c.port
  passwd : ∀ b ∈ c.passwd, b ≠ 58 ∧ b ≠ 10 ∧ b ≠ 0
  fits : (putcmsent c).length ≤ cbufSize - 1

private theorem isdigit_or_minus {v : Int} {b : UInt8} (h : b ∈ printInt v) :
    isdigit b = true ∨ b = 45 := by
  rw [printInt] at h
  split at h
  · rcases List.mem_cons.mp h with rfl | h
    · exact .inr rfl
    · exact .inl (isdigit_of_mem_printNat h)
  · exact .inl (isdigit_of_mem_printNat h)

private theorem printInt_plain {v : Int} {b : UInt8} (h : b ∈ printInt v) :
    b ≠ 58 ∧ b ≠ 10 ∧ b ≠ 0 := by
  refine ⟨?_, ?_, ?_⟩ <;>
  · rintro rfl
    have hb := isdigit_or_minus h
    revert hb
    decide

private theorem atColon_plain {b : UInt8} (h : b ≠ 58 ∧ b ≠ 10 ∧ b ≠ 0) : atColon b = false := by
  obtain ⟨hcolon, -, hnul⟩ := h
  simp [atColon, hcolon, hnul]

private theorem atColonOrEol_plain {b : UInt8} (h : b ≠ 58 ∧ b ≠ 10 ∧ b ≠ 0) :
    atColonOrEol b = false := by
  obtain ⟨hcolon, hnewline, hnul⟩ := h
  simp [atColonOrEol, hcolon, hnewline, hnul]

private theorem field_separated {mid rest : Str} {c : UInt8} (hmid : ∀ b ∈ mid, atColon b = false)
    (hc : atColon c = true) : field (mid ++ c :: rest) = mid ∧ behind (mid ++ c :: rest) = rest := by
  have hfield : field (mid ++ c :: rest) = mid := by
    rw [field, List.takeWhile_append_of_pos (by simpa using hmid),
      List.takeWhile_cons_of_neg (by simp [hc]), List.append_nil]
  refine ⟨hfield, ?_⟩
  rw [behind, hfield, ← List.drop_drop, List.drop_left, List.drop_succ_cons, List.drop_zero]

private theorem putcmsent_start {c : Cms} (h : Writable c) :
    skipped (putcmsent c) = false ∧ (putcmsent c).takeWhile isspace = [] ∧
      (putcmsent c).dropWhile isspace = putcmsent c := by
  obtain ⟨b, rest, hfirst, hcomment, hblank, hnul⟩ : ∃ b rest, putcmsent c = b :: rest ∧
      b ≠ 35 ∧ isspace b = false ∧ b ≠ 0 := by
    cases hhost : c.host with
    | nil =>
        refine ⟨58, _, by rw [putcmsent, hhost]; rfl, ?_⟩
        decide
    | cons b host =>
        have hstart := h.start b (by rw [hhost]; rfl)
        obtain ⟨-, -, hnul⟩ := h.host b (by rw [hhost]; exact List.mem_cons_self)
        exact ⟨b, _, by rw [putcmsent, hhost]; rfl, hstart.1, hstart.2, hnul⟩
  rw [hfirst]
  simp [skipped, hcomment, hblank, hnul]

private theorem lineEntry_putcmsent {c : Cms} (h : Writable c) : lineEntry (putcmsent c) = c := by
  obtain ⟨-, hblanks, hline⟩ := putcmsent_start h
  obtain ⟨hhost, hrest⟩ := @field_separated c.host (printInt c.port ++ 58 :: (c.passwd ++ [10])) 58
    (fun b hb => atColon_plain (h.host b hb)) (by decide)
  obtain ⟨-, hrest'⟩ := @field_separated (printInt c.port) (c.passwd ++ [10]) 58
    (fun b hb => atColon_plain (printInt_plain hb)) (by decide)
  have hport : atoi (text (printInt c.port ++ 58 :: (c.passwd ++ [10]))) = c.port := by
    rw [text_append fun hb => (printInt_plain hb).2.2 rfl]
    refine atoi_printInt h.port fun b hb => ?_
    obtain rfl : (58 : UInt8) = b := by simpa [text] using hb
    decide
  have hpasswd : lastField (c.passwd ++ [10]) = c.passwd := by
    have hplain : ∀ b ∈ c.passwd, (!atColonOrEol b) = true := fun b hb => by
      simp [atColonOrEol_plain (h.passwd b hb)]
    rw [lastField, List.takeWhile_append_of_pos hplain, List.takeWhile_cons_of_neg (by decide),
      List.append_nil]
  rw [lineEntry, hblanks, hline, putcmsent, hhost, hrest, hrest', hport, hpasswd, List.nil_append]

private theorem getcmsents_line (buf : CArray cbufSize) {c : Cms} (h : Writable c)
    (hfits : (putcmsent c).length < cbufSize) (rest : List Piece) :
    ∃ buf', getcmsents buf (⟨putcmsent c, hfits⟩ :: rest) =
      (getcmsents buf' rest).map (fun cs => c :: cs) := by
  have hown : SelfContained (putcmsent c) := by
    refine .inr ?_
    rw [putcmsent, List.countP_append, List.countP_cons_of_pos (by decide), List.countP_append,
      List.countP_cons_of_pos (by decide)]
    omega
  have hentry := entry_store buf ⟨putcmsent c, hfits⟩ hown
  simp only [(putcmsent_start h).1, lineEntry_putcmsent h, entry] at hentry
  cases hparse : parseLine (store buf ⟨putcmsent c, hfits⟩) with
  | error f => rw [hparse] at hentry; cases hentry
  | ok parsed =>
      rw [hparse] at hentry
      obtain ⟨⟨c', buf'⟩, rfl, rfl⟩ := Option.map_eq_some_iff.mp (Except.ok.inj hentry)
      exact ⟨buf', by simp [getcmsents, hparse, Except.bind]⟩

/-- Entries written with putcmsent() and read back with getcmsent() until it
returns NULL, whatever the buffer held before, are the same in the same order. -/
theorem host_table_round_trip (cs : List Cms) (writable : ∀ c ∈ cs, Writable c)
    (buf : CArray cbufSize) :
    getcmsents buf (fgetsAll ⟨[], by decide⟩ (cs.flatMap putcmsent)) = .ok cs := by
  induction cs generalizing buf with
  | nil => rfl
  | cons c cs ih =>
      have hc := writable c List.mem_cons_self
      have hfits : (putcmsent c).length < cbufSize :=
        Nat.lt_of_le_of_lt hc.fits (by decide)
      have hbody : (10 : UInt8) ∉ c.host ++ 58 :: (printInt c.port ++ 58 :: c.passwd) := by
        intro hmem
        simp only [List.mem_append, List.mem_cons] at hmem
        rcases hmem with hmem | hmem | hmem | hmem | hmem
        · exact (hc.host _ hmem).2.1 rfl
        · cases hmem
        · exact (printInt_plain hmem).2.1 rfl
        · cases hmem
        · exact (hc.passwd _ hmem).2.1 rfl
      have hline : putcmsent c = (c.host ++ 58 :: (printInt c.port ++ 58 :: c.passwd)) ++ [10] := by
        simp [putcmsent]
      have hread := fgetsAll_line ⟨[], by decide⟩ hbody (cs.flatMap putcmsent)
        (by simpa [← hline] using hfits)
      simp only [List.nil_append, ← hline] at hread
      obtain ⟨buf', hstep⟩ := getcmsents_line buf hc hfits
        (fgetsAll ⟨[], by decide⟩ (cs.flatMap putcmsent))
      rw [List.flatMap_cons, hread, hstep, ih (fun d hd => writable d (List.mem_cons_of_mem c hd))]
      rfl

private def firstEntry : Cms := ⟨lit "cms.winlink.org", 8772, lit "CMSTelnet"⟩

/-- An entry with empty fields and the least port. -/
private def oddEntry : Cms := ⟨[], -2147483648, []⟩

private theorem field_plain {field : Str}
    (h : field.all (fun b => b != 58 && b != 10 && b != 0) = true) :
    ∀ b ∈ field, b ≠ 58 ∧ b ≠ 10 ∧ b ≠ 0 := by
  intro b hb
  have hplain := List.all_eq_true.mp h b hb
  simpa [and_assoc] using hplain

private theorem firstEntry_writable : Writable firstEntry where
  host := field_plain (by decide)
  start := by
    intro b hb
    obtain rfl := Option.some.inj hb
    decide
  port := by decide
  passwd := field_plain (by decide)
  fits := by decide

private theorem oddEntry_writable : Writable oddEntry where
  host := field_plain rfl
  start := by
    intro b hb
    cases hb
  port := by decide
  passwd := field_plain rfl
  fits := by decide

theorem host_table_round_trip_odd :
    getcmsents (CArray.zero cbufSize)
      (fgetsAll ⟨[], by decide⟩ ([firstEntry, oddEntry].flatMap putcmsent)) =
        .ok [firstEntry, oddEntry] := by
  refine host_table_round_trip [firstEntry, oddEntry] ?_ (CArray.zero cbufSize)
  intro c hc
  rcases List.mem_cons.mp hc with rfl | hc
  · exact firstEntry_writable
  · obtain rfl := List.mem_singleton.mp hc
    exact oddEntry_writable

end Rmsgw.Hosts.RoundTrip
