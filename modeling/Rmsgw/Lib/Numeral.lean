/- The part of a string that atoi() takes for the number: what it looks at, and that
   it looks at nothing behind. -/

import Rmsgw.Lib.Footprint

set_option autoImplicit false
set_option relaxedAutoImplicit false

namespace Rmsgw.Lib.Numeral

open Rmsgw.Lib.CStrings Rmsgw.Lib.Footprint

/-- An optional sign and digits. -/
def signed : List UInt8 → List UInt8
  | [] => []
  | c :: s => if c = 45 ∨ c = 43 then c :: s.takeWhile isdigit else (c :: s).takeWhile isdigit

/-- The part of a string that `strtol(s, NULL, 10)` takes for the number, with the
blanks in front of it. -/
def numeral (s : List UInt8) : List UInt8 := s.takeWhile isspace ++ signed (s.dropWhile isspace)

/-- The offsets that `atoi(buf + p)` looks at. -/
def numeralReads (buf : List UInt8) (p : Nat) : List Nat :=
  List.range' p ((numeral (buf.drop p)).length + 1)

private theorem signed_congr {s t : List UInt8} (h : ∀ i ≤ (signed s).length, s[i]? = t[i]?) :
    signed s = signed t := by
  have hfirst := h 0 (Nat.zero_le _)
  cases s with
  | nil =>
      cases t with
      | nil => rfl
      | cons c t => simp at hfirst
  | cons b s =>
      cases t with
      | nil => simp at hfirst
      | cons c t =>
          obtain rfl : b = c := by simpa using hfirst
          by_cases hb : b = 45 ∨ b = 43
          · simp only [signed, if_pos hb] at h ⊢
            rw [@takeWhile_congr isdigit s t]
            intro i hi
            simpa using h (i + 1) (Nat.succ_le_succ hi)
          · simp only [signed, if_neg hb] at h ⊢
            exact takeWhile_congr h

theorem numeral_congr {s t : List UInt8} (h : ∀ i ≤ (numeral s).length, s[i]? = t[i]?) :
    numeral s = numeral t := by
  rw [numeral, List.length_append] at h
  have hblanks : s.takeWhile isspace = t.takeWhile isspace :=
    takeWhile_congr fun i hi => h i (Nat.le_trans hi (Nat.le_add_right _ _))
  have hrest : signed (s.dropWhile isspace) = signed (t.dropWhile isspace) := by
    refine signed_congr fun i hi => ?_
    rw [← drop_length_takeWhile, ← drop_length_takeWhile, ← hblanks, List.getElem?_drop,
      List.getElem?_drop]
    exact h _ (Nat.add_le_add_left hi _)
  rw [numeral, numeral, hblanks, hrest]

private theorem signed_isPrefix (s : List UInt8) : signed s <+: s := by
  cases s with
  | nil => exact List.nil_prefix
  | cons c s =>
      rw [signed]
      split
      · exact List.cons_prefix_cons.mpr ⟨rfl, List.takeWhile_prefix _⟩
      · exact List.takeWhile_prefix _

private theorem numeral_isPrefix (s : List UInt8) : numeral s <+: s := by
  calc numeral s <+: s.takeWhile isspace ++ s.dropWhile isspace :=
        (List.prefix_append_right_inj _).mpr (signed_isPrefix _)
    _ = s := List.takeWhile_append_dropWhile

private theorem nul_notMem_signed (s : List UInt8) : (0 : UInt8) ∉ signed s := by
  cases s with
  | nil => exact List.not_mem_nil
  | cons c s =>
      rw [signed]
      split
      · rename_i hc
        rw [List.mem_cons]
        rintro (rfl | h)
        · exact absurd hc (by decide)
        · exact absurd (List.mem_takeWhile_imp h) (by decide)
      · exact fun h => absurd (List.mem_takeWhile_imp h) (by decide)

private theorem length_numeral_le (s : List UInt8) : (numeral s).length ≤ (text s).length := by
  have hnul : (0 : UInt8) ∉ numeral s := by
    rw [numeral, List.mem_append]
    rintro (h | h)
    · exact absurd (List.mem_takeWhile_imp h) (by decide)
    · exact nul_notMem_signed _ h
  obtain ⟨rest, hrest⟩ := numeral_isPrefix s
  rw [← hrest, text_append hnul, hrest, List.length_append]
  exact Nat.le_add_right _ _

private theorem takeWhile_text {q : UInt8 → Bool} (hq : q 0 = false) (s : List UInt8) :
    (text s).takeWhile q = s.takeWhile q := by
  induction s with
  | nil => rfl
  | cons b s ih =>
      by_cases hb : b = 0
      · simp [text, hb, hq]
      · rw [text_cons_of_ne hb, List.takeWhile_cons, List.takeWhile_cons, ih]

private theorem dropWhile_text {q : UInt8 → Bool} (hq : q 0 = false) (s : List UInt8) :
    (text s).dropWhile q = text (s.dropWhile q) := by
  induction s with
  | nil => rfl
  | cons b s ih =>
      by_cases hb : b = 0
      · simp [text, hb, hq]
      · rw [text_cons_of_ne hb]
        by_cases hqb : q b = true
        · rw [List.dropWhile_cons_of_pos hqb, List.dropWhile_cons_of_pos hqb, ih]
        · rw [List.dropWhile_cons_of_neg hqb, List.dropWhile_cons_of_neg hqb, text_cons_of_ne hb]

private theorem signed_text (s : List UInt8) : signed (text s) = signed s := by
  cases s with
  | nil => rfl
  | cons b s =>
      by_cases hb : b = 0
      · simp [text, signed, hb, isdigit]
      · have hdigits := @takeWhile_text isdigit (by decide) (b :: s)
        rw [text_cons_of_ne hb] at hdigits ⊢
        rw [signed, signed, hdigits, takeWhile_text (by decide)]

theorem numeral_text (s : List UInt8) : numeral (text s) = numeral s := by
  rw [numeral, takeWhile_text (by decide), dropWhile_text (by decide), signed_text, numeral]

private theorem takeWhile_idem (q : UInt8 → Bool) (s : List UInt8) :
    (s.takeWhile q).takeWhile q = s.takeWhile q :=
  List.takeWhile_eq_self_iff.mpr fun _ hb => List.mem_takeWhile_imp hb

private theorem dropWhile_signed (s : List UInt8) : (signed s).dropWhile isspace = signed s := by
  cases s with
  | nil => rfl
  | cons c s =>
      rw [signed]
      split
      · rename_i hc
        have hsign : isspace c = false := by rcases hc with rfl | rfl <;> decide
        exact List.dropWhile_cons_of_neg (by simp [hsign])
      · by_cases hdigit : isdigit c = true
        · rw [List.takeWhile_cons_of_pos hdigit,
            List.dropWhile_cons_of_neg (by simp [isspace_of_isdigit hdigit])]
        · rw [List.takeWhile_cons_of_neg hdigit, List.dropWhile_nil]

private theorem atol_numeral (s : List UInt8) : atol (numeral s) = atol s := by
  have hsigned : (numeral s).dropWhile isspace = signed (s.dropWhile isspace) := by
    have hblanks : ∀ b ∈ s.takeWhile isspace, isspace b = true := fun _ => List.mem_takeWhile_imp
    rw [numeral, List.dropWhile_append_of_pos hblanks, dropWhile_signed]
  rw [atol, atol, hsigned]
  cases hrest : s.dropWhile isspace with
  | nil => rfl
  | cons c t =>
      simp only [signed]
      by_cases hneg : c = 45
      · simp [hneg, takeWhile_idem]
      by_cases hpos : c = 43
      · simp [hpos, takeWhile_idem]
      by_cases hdigit : isdigit c = true
      · simp [hneg, hpos, hdigit, takeWhile_idem]
      · simp [hneg, hpos, hdigit, decimal]
        decide

theorem atoi_congr {s t : List UInt8} (h : numeral s = numeral t) : atoi s = atoi t := by
  rw [atoi, atoi, ← atol_numeral s, h, atol_numeral]

theorem numeralReads_inside {s rest : List UInt8} {p i : Nat} (hp : p ≤ s.length)
    (h : i ∈ numeralReads (s ++ 0 :: rest) p) : i ≤ s.length := by
  have hle := (List.mem_range'_1.mp h).2
  have hnum := length_numeral_le ((s ++ 0 :: rest).drop p)
  rw [List.drop_append_of_le_length hp] at hle hnum
  have htext : text (s.drop p ++ 0 :: rest) = text (s.drop p) :=
    takeWhile_terminated (by decide) _ _
  have hrest : (text (s.drop p)).length ≤ (s.drop p).length := (List.takeWhile_prefix _).length_le
  rw [List.length_drop] at hrest
  rw [htext] at hnum
  omega

end Rmsgw.Lib.Numeral
