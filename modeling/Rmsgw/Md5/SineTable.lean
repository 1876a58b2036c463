/- The table of constants against the sine, from which RFC 1321 derives it. -/

import Mathlib.Analysis.Complex.Trigonometric
import Rmsgw.Lib.UnitCircle
import Rmsgw.Md5.Rounds

set_option autoImplicit false
set_option relaxedAutoImplicit false

namespace Rmsgw.Md5.SineTable

open Rmsgw.Lib.ByteOrder Rmsgw.Lib.UnitCircle Rmsgw.Md5.Model Rmsgw.Md5.Rounds

/-- The integer part of 4294967296 times |sin(i + 1)|, the angle in radians. -/
noncomputable def sineConstant (i : ℕ) : UInt32 :=
  UInt32.ofNat ⌊4294967296 * |Real.sin ((i + 1 : ℕ) : ℝ)|⌋₊

def scale : ℕ := 72057594037927936

/-- The cosine and the sine of 1 in units of `scale`. -/
def first : ℤ × ℤ := (38932884214002781, 60634374617982832)

/-- The numbers that round down to `T (i + 1)` hold the sine of `i + 1`, given the
error of the fixed point. -/
def Holds (i : ℕ) : Prop :=
  (T (i + 1)).toNat * scale + 4294967296 * (5 * (i + 1)) ≤
      4294967296 * (point scale first (i + 1)).2.natAbs ∧
    4294967296 * ((point scale first (i + 1)).2.natAbs + 5 * (i + 1)) <
      ((T (i + 1)).toNat + 1) * scale

instance (i : ℕ) : Decidable (Holds i) := inferInstanceAs (Decidable (_ ∧ _))

private theorem sum_exp_I (n : ℕ) :
    ∑ m ∈ Finset.range (2 * n), Complex.I ^ m / (m.factorial : ℂ) =
      ((∑ k ∈ Finset.range n, (-1 : ℝ) ^ k / ((2 * k).factorial : ℝ) : ℝ) : ℂ) +
        ((∑ k ∈ Finset.range n, (-1 : ℝ) ^ k / ((2 * k + 1).factorial : ℝ) : ℝ) : ℂ) *
          Complex.I := by
  induction n with
  | zero => simp
  | succ n ih =>
      rw [Nat.mul_succ, Finset.sum_range_succ, Finset.sum_range_succ, ih, Finset.sum_range_succ,
        Finset.sum_range_succ, pow_succ, pow_mul, Complex.I_sq]
      push_cast
      ring

private theorem cosine_close :
    |scale * (∑ k ∈ Finset.range 10, (-1 : ℝ) ^ k / ((2 * k).factorial : ℝ)) - first.1| ≤ 1 / 2 := by
  simp only [scale, first, Finset.sum_range_succ, Finset.sum_range_zero, Nat.factorial]
  norm_num [abs_le]

private theorem sine_close :
    |scale * (∑ k ∈ Finset.range 10, (-1 : ℝ) ^ k / ((2 * k + 1).factorial : ℝ)) - first.2| ≤
      1 / 4 := by
  simp only [scale, first, Finset.sum_range_succ, Finset.sum_range_zero, Nat.factorial]
  norm_num [abs_le]

private theorem first_close : ‖scale * Complex.exp Complex.I - toComplex first‖ ≤ 1 := by
  have hseries := Complex.exp_bound (x := Complex.I) (by simp) (n := 20) (by decide)
  rw [show 20 = 2 * 10 from rfl, sum_exp_I] at hseries
  have hsmall : (72057594037927936 : ℝ) * ‖Complex.exp Complex.I -
      (((∑ k ∈ Finset.range 10, (-1 : ℝ) ^ k / ((2 * k).factorial : ℝ) : ℝ) : ℂ) +
        ((∑ k ∈ Finset.range 10, (-1 : ℝ) ^ k / ((2 * k + 1).factorial : ℝ) : ℝ) : ℂ) *
          Complex.I)‖ ≤ 1 / 4 := by
    refine (mul_le_mul_of_nonneg_left hseries (by norm_num)).trans ?_
    rw [Complex.norm_I]
    norm_num [Nat.factorial]
  have hcosine := cosine_close
  have hsine := sine_close
  generalize (∑ k ∈ Finset.range 10, (-1 : ℝ) ^ k / ((2 * k).factorial : ℝ)) = c at *
  generalize (∑ k ∈ Finset.range 10, (-1 : ℝ) ^ k / ((2 * k + 1).factorial : ℝ)) = s at *
  have hsplit : scale * Complex.exp Complex.I - toComplex first =
      (scale : ℂ) * (Complex.exp Complex.I - ((c : ℂ) + (s : ℂ) * Complex.I)) +
        (⟨scale * c - first.1, scale * s - first.2⟩ : ℂ) := by
    have hpoint : (⟨scale * c - first.1, scale * s - first.2⟩ : ℂ) =
        scale * ((c : ℂ) + (s : ℂ) * Complex.I) - toComplex first := by
      apply Complex.ext <;> simp [toComplex]
    rw [hpoint]
    ring
  rw [hsplit]
  have hpoint := Complex.norm_le_abs_re_add_abs_im
    (⟨scale * c - first.1, scale * s - first.2⟩ : ℂ)
  have hscaled : ‖(scale : ℂ) * (Complex.exp Complex.I - ((c : ℂ) + (s : ℂ) * Complex.I))‖ ≤
      1 / 4 := by
    rw [norm_mul, Complex.norm_natCast]
    exact_mod_cast hsmall
  calc _ ≤ 1 / 4 + (1 / 2 + 1 / 4) := (norm_add_le _ _).trans (by linarith)
    _ = 1 := by norm_num

private theorem sine_point {n : ℕ} (hn : 5 * n ≤ scale) :
    |scale * Real.sin n - ((point scale first n).2 : ℝ)| ≤ 5 * n := by
  have hunit : ‖Complex.exp Complex.I‖ = 1 := by
    have h := Complex.norm_exp_ofReal_mul_I 1
    rwa [Complex.ofReal_one, one_mul] at h
  have hpower := norm_power_sub_le hunit first_close hn
  have him : (scale * Complex.exp Complex.I ^ n - toComplex (point scale first n)).im =
      scale * Real.sin n - ((point scale first n).2 : ℝ) := by
    have hexp : Complex.exp Complex.I ^ n = Complex.exp ((n : ℝ) * Complex.I) := by
      rw [← Complex.exp_nat_mul, Complex.ofReal_natCast]
    rw [hexp, Complex.sub_im, Complex.mul_im, Complex.natCast_re, Complex.natCast_im,
      Complex.exp_ofReal_mul_I_im, zero_mul, add_zero]
    rfl
  rw [← him]
  exact (Complex.abs_im_le_norm _).trans hpower

private theorem table_holds : ∀ i < 64, Holds i := by decide +kernel

private theorem T_eq_sineConstant {i : ℕ} (hi : i < 64) : T (i + 1) = sineConstant i := by
  obtain ⟨hlow, hhigh⟩ := table_holds i hi
  have hpos : (0 : ℝ) < scale := by norm_num [scale]
  have hsine := sine_point (n := i + 1) (by rw [scale]; omega)
  have habs : |scale * |Real.sin ((i + 1 : ℕ) : ℝ)| - ((point scale first (i + 1)).2.natAbs : ℝ)| ≤
      5 * ((i + 1 : ℕ) : ℝ) := by
    refine le_trans ?_ hsine
    rw [Nat.cast_natAbs, Int.cast_abs, ← abs_of_pos hpos, ← abs_mul]
    rw [abs_of_pos hpos]
    exact abs_abs_sub_abs_le _ _
  rw [abs_le] at habs
  have hlow' : ((T (i + 1)).toNat : ℝ) * scale + 4294967296 * (5 * ((i + 1 : ℕ) : ℝ)) ≤
      4294967296 * ((point scale first (i + 1)).2.natAbs : ℝ) := by exact_mod_cast hlow
  have hhigh' : 4294967296 * (((point scale first (i + 1)).2.natAbs : ℝ) + 5 * ((i + 1 : ℕ) : ℝ)) <
      (((T (i + 1)).toNat : ℝ) + 1) * scale := by exact_mod_cast hhigh
  have hfloor : ⌊4294967296 * |Real.sin ((i + 1 : ℕ) : ℝ)|⌋₊ = (T (i + 1)).toNat := by
    rw [Nat.floor_eq_iff (by positivity)]
    constructor
    · refine le_of_mul_le_mul_right ?_ hpos
      linarith
    · refine lt_of_mul_lt_mul_right ?_ hpos.le
      linarith
  rw [sineConstant, hfloor, UInt32.ofNat_toNat]

/-- On either host md5_process() runs the 64 steps of RFC 1321 with its own constants, and
leaves the counter and the buffer. -/
theorem md5_process_rfc (host : Host) (pms : Md5State) (data : List UInt8) :
    md5Process host pms data =
      { pms with abcd := compressWith sineConstant pms.abcd (word .littleEndian data) } := by
  have htable : compressWith (fun i => T (i + 1)) pms.abcd (word .littleEndian data) =
      compressWith sineConstant pms.abcd (word .littleEndian data) :=
    compressWith_congr (fun i hi => T_eq_sineConstant hi) _ _
  rw [md5Process, compress_eq, htable]

end Rmsgw.Md5.SineTable
