/- Decimal numerals: what printf writes for an int, and that atoi reads it back. -/

import Rmsgw.Lib.CStrings
import Mathlib.Data.Nat.Digits.Lemmas

set_option autoImplicit false
set_option relaxedAutoImplicit false

namespace Rmsgw.Lib.Decimal

open Rmsgw.Lib.CStrings

def digit (d : Nat) : UInt8 := 48 + UInt8.ofNat d

/-- The decimal digits of a number, the most significant first. -/
def printNat (n : Nat) : Str :=
  if n = 0 then [48] else (Nat.digits 10 n).reverse.map digit

/-- `%d`. -/
def printInt (v : Int) : Str :=
  if v < 0 then 45 :: printNat v.natAbs else printNat v.natAbs

/-- The values of a 32-bit `int`. -/
def InInt32 (v : Int) : Prop := -2147483648 ≤ v ∧ v ≤ 2147483647

instance (v : Int) : Decidable (InInt32 v) := inferInstanceAs (Decidable (_ ∧ _))

private theorem digit_toNat {d : Nat} (h : d < 10) : (digit d).toNat = 48 + d := by
  simp only [digit, UInt8.toNat_add, UInt8.toNat_ofNat, UInt8.toNat_ofNat']
  omega

private theorem isdigit_digit {d : Nat} (h : d < 10) : isdigit (digit d) = true := by
  have hval := digit_toNat h
  simp only [isdigit, Bool.and_eq_true, decide_eq_true_eq, UInt8.le_iff_toNat_le, hval,
    UInt8.reduceToNat]
  omega

theorem isdigit_of_mem_printNat {n : Nat} {c : UInt8} (h : c ∈ printNat n) : isdigit c = true := by
  rw [printNat] at h
  split at h
  · obtain rfl := List.mem_singleton.mp h
    decide
  · obtain ⟨d, hd, rfl⟩ := List.mem_map.mp h
    exact isdigit_digit (Nat.digits_lt_base (by decide) (List.mem_reverse.mp hd))

theorem printNat_ne_nil (n : Nat) : printNat n ≠ [] := by
  rw [printNat]
  split
  · exact List.cons_ne_nil _ _
  · rename_i hn
    simpa [Nat.digits_eq_nil_iff_eq_zero] using hn

/-- The first digit read is the most significant one, so the digits are met from
the end of Mathlib's list. -/
private theorem decimal_digits {l : List Nat} (h : ∀ d ∈ l, d < 10) :
    decimal (l.reverse.map digit) = Nat.ofDigits 10 l := by
  induction l with
  | nil => rfl
  | cons d l ih =>
      have hd := digit_toNat (h d List.mem_cons_self)
      have hl := ih fun e he => h e (List.mem_cons_of_mem d he)
      rw [decimal] at hl ⊢
      rw [List.reverse_cons, List.map_append, List.foldl_append, hl, Nat.ofDigits_cons]
      simp only [List.map_cons, List.map_nil, List.foldl_cons, List.foldl_nil, hd]
      omega

private theorem decimal_printNat (n : Nat) : decimal (printNat n) = n := by
  rw [printNat]
  split
  · rename_i hn
    rw [hn]
    decide
  · rw [decimal_digits fun d hd => Nat.digits_lt_base (by decide) hd, Nat.ofDigits_digits]

private theorem takeWhile_printNat (n : Nat) {rest : Str}
    (hrest : ∀ c ∈ rest.head?, isdigit c = false) :
    (printNat n ++ rest).takeWhile isdigit = printNat n := by
  rw [List.takeWhile_append_of_pos fun c hc => isdigit_of_mem_printNat hc]
  have hstop : rest.takeWhile isdigit = [] := by
    cases rest with
    | nil => rfl
    | cons c rest => exact List.takeWhile_cons_of_neg (by simp [hrest c rfl])
  rw [hstop, List.append_nil]

theorem toInt32_of_inInt32 {v : Int} (h : InInt32 v) : toInt32 v = v := by
  obtain ⟨hlow, hhigh⟩ := h
  rw [toInt32]
  omega

/-- A printed int is read back, whatever stands behind it but a digit. -/
theorem atoi_printInt {v : Int} (h : InInt32 v) {rest : Str}
    (hrest : ∀ c ∈ rest.head?, isdigit c = false) : atoi (printInt v ++ rest) = v := by
  have hvalue : atol (printInt v ++ rest) = v := by
    obtain ⟨hlow, hhigh⟩ := h
    rw [printInt]
    split
    case isTrue hneg =>
      have hblank : isspace 45 = false := by decide
      rw [List.cons_append, atol, List.dropWhile_cons_of_neg (by simp [hblank])]
      simp only [if_pos, takeWhile_printNat _ hrest, decimal_printNat, longMax]
      omega
    case isFalse hpos =>
      obtain ⟨c, ds, hds⟩ := List.exists_cons_of_ne_nil (printNat_ne_nil v.natAbs)
      have hdigit : isdigit c = true :=
        isdigit_of_mem_printNat (n := v.natAbs) (hds ▸ List.mem_cons_self)
      have hblank : isspace c = false := isspace_of_isdigit hdigit
      have hminus : c ≠ 45 := by rintro rfl; exact absurd hdigit (by decide)
      have hplus : c ≠ 43 := by rintro rfl; exact absurd hdigit (by decide)
      have htake := takeWhile_printNat v.natAbs hrest
      have hvalue := decimal_printNat v.natAbs
      rw [hds] at htake hvalue ⊢
      rw [List.cons_append] at htake ⊢
      rw [atol, List.dropWhile_cons_of_neg (by simp [hblank])]
      simp only [if_neg hminus, if_neg hplus, htake, hvalue, longMax]
      omega
  rw [atoi, hvalue, toInt32_of_inInt32 h]

/-- `%0<width>d`: zeros fill the field behind the sign. -/
def printPadded (width : Nat) (v : Int) : Str :=
  let digits := printNat v.natAbs
  if v < 0 then 45 :: (List.replicate (width - 1 - digits.length) 48 ++ digits)
  else List.replicate (width - digits.length) 48 ++ digits

theorem decimal_append (ds es : Str) :
    decimal (ds ++ es) = 10 ^ es.length * decimal ds + decimal es := by
  induction es using List.reverseRecOn with
  | nil => simp [decimal]
  | append_singleton es e ih =>
      rw [← List.append_assoc]
      have hlast : ∀ l : Str, decimal (l ++ [e]) = 10 * decimal l + (e.toNat - 48) :=
        fun l => by simp [decimal, List.foldl_append]
      rw [hlast, hlast, ih, List.length_append, List.length_singleton, pow_succ]
      ring

private theorem decimal_lt {ds : Str} (h : ∀ d ∈ ds, isdigit d = true) :
    decimal ds < 10 ^ ds.length := by
  induction ds with
  | nil => decide
  | cons d ds ih =>
      have htail := ih fun e he => h e (List.mem_cons_of_mem d he)
      have hhead := h d List.mem_cons_self
      simp only [isdigit, Bool.and_eq_true, decide_eq_true_eq, UInt8.le_iff_toNat_le,
        UInt8.reduceToNat] at hhead
      have hone : decimal [d] ≤ 9 := by
        simp only [decimal, List.foldl_cons, List.foldl_nil]
        omega
      have happ := decimal_append [d] ds
      rw [List.singleton_append] at happ
      rw [happ, List.length_cons, pow_succ]
      calc 10 ^ ds.length * decimal [d] + decimal ds
          < 10 ^ ds.length * decimal [d] + 10 ^ ds.length := Nat.add_lt_add_left htail _
        _ = 10 ^ ds.length * (decimal [d] + 1) := by ring
        _ ≤ 10 ^ ds.length * 10 := Nat.mul_le_mul_left _ (by omega)

theorem decimal_drop {ds : Str} (h : ∀ d ∈ ds, isdigit d = true) (k : Nat) :
    decimal (ds.drop k) = decimal ds % 10 ^ (ds.length - k) := by
  have hsplit := decimal_append (ds.take k) (ds.drop k)
  rw [List.take_append_drop, List.length_drop] at hsplit
  have hlt := @decimal_lt (ds.drop k) fun d hd => h d (List.mem_of_mem_drop hd)
  rw [List.length_drop] at hlt
  rw [hsplit, Nat.mul_add_mod, Nat.mod_eq_of_lt hlt]

theorem decimal_inj {ds es : Str} (hds : ∀ d ∈ ds, isdigit d = true)
    (hes : ∀ e ∈ es, isdigit e = true) (hlen : ds.length = es.length)
    (h : decimal ds = decimal es) : ds = es := by
  induction ds generalizing es with
  | nil => exact (List.length_eq_zero_iff.mp hlen.symm).symm
  | cons d ds ih =>
      cases es with
      | nil => cases hlen
      | cons e es =>
          have hds' : ∀ x ∈ ds, isdigit x = true := fun x hx => hds x (List.mem_cons_of_mem d hx)
          have hes' : ∀ x ∈ es, isdigit x = true := fun x hx => hes x (List.mem_cons_of_mem e hx)
          have hlen' : ds.length = es.length := Nat.succ.inj hlen
          have hdrop := congrArg (fun v => v % 10 ^ ds.length) h
          have hd := decimal_drop hds 1
          have he := decimal_drop hes 1
          simp only [List.drop_one, List.tail_cons, List.length_cons, Nat.add_sub_cancel] at hd he
          rw [← hlen'] at he
          have htail : ds = es := ih hds' hes' hlen' (hd.trans (hdrop.trans he.symm))
          subst htail
          have hd' := decimal_append [d] ds
          have he' := decimal_append [e] ds
          rw [List.singleton_append] at hd' he'
          rw [hd', he'] at h
          have hvalue : decimal [d] = decimal [e] :=
            Nat.eq_of_mul_eq_mul_left (Nat.pow_pos (by decide)) (Nat.add_right_cancel h)
          have hfirst := hds d List.mem_cons_self
          have hsecond := hes e List.mem_cons_self
          simp only [isdigit, Bool.and_eq_true, decide_eq_true_eq, UInt8.le_iff_toNat_le,
            UInt8.reduceToNat] at hfirst hsecond
          simp only [decimal, List.foldl_cons, List.foldl_nil] at hvalue
          have hbyte : d = e := UInt8.toNat_inj.mp (by omega)
          rw [hbyte]

private theorem decimal_replicate_zero (k : Nat) : decimal (List.replicate k 48) = 0 := by
  induction k with
  | zero => rfl
  | succ k ih =>
      rw [List.replicate_succ', decimal_append, ih]
      rfl

private theorem printNat_length_le {n width : Nat} (hpos : 0 < width) (h : n < 10 ^ width) :
    (printNat n).length ≤ width := by
  rw [printNat]
  split
  · exact hpos
  · rw [List.length_map, List.length_reverse]
    exact (Nat.digits_length_le_iff (by decide) n).mpr h

theorem printPadded_ofNat {n width : Nat} (hpos : 0 < width) (h : n < 10 ^ width) :
    (printPadded width n).length = width ∧ (∀ d ∈ printPadded width n, isdigit d = true) ∧
      decimal (printPadded width n) = n := by
  have hlen := printNat_length_le hpos h
  have hform : printPadded width n = List.replicate (width - (printNat n).length) 48 ++ printNat n := by
    rw [printPadded, if_neg (Int.not_lt.mpr (Int.natCast_nonneg n)), Int.natAbs_natCast]
  rw [hform]
  refine ⟨?_, ?_, ?_⟩
  · rw [List.length_append, List.length_replicate]
    omega
  · intro d hd
    rcases List.mem_append.mp hd with hz | hd
    · rw [List.eq_of_mem_replicate hz]
      decide
    · exact isdigit_of_mem_printNat hd
  · rw [decimal_append, decimal_replicate_zero, decimal_printNat, Nat.mul_zero, Nat.zero_add]

example : printInt (-2147483648) = lit "-2147483648" := by decide

end Rmsgw.Lib.Decimal
