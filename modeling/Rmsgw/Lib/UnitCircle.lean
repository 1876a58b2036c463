/- Points of the unit circle in fixed point: the powers of a rotation as pairs of
   integers, with an error that grows by a constant from one power to the next. -/

import Mathlib.Analysis.Complex.Basic

set_option autoImplicit false
set_option relaxedAutoImplicit false

namespace Rmsgw.Lib.UnitCircle

variable {scale : ℕ} {z : ℂ} {w : ℤ × ℤ}

def toComplex (p : ℤ × ℤ) : ℂ := ⟨p.1, p.2⟩

/-- The product with a fixed point, both in units of `scale`, rounded down. -/
def turn (scale : ℕ) (w p : ℤ × ℤ) : ℤ × ℤ :=
  ((p.1 * w.1 - p.2 * w.2) / scale, (p.1 * w.2 + p.2 * w.1) / scale)

/-- The point after a number of turns. -/
def point (scale : ℕ) (w : ℤ × ℤ) : ℕ → ℤ × ℤ
  | 0 => (scale, 0)
  | n + 1 => turn scale w (point scale w n)

private theorem abs_ediv_sub_le (a : ℤ) (hscale : 0 < scale) :
    |((a / scale : ℤ) : ℝ) - (a : ℝ) / scale| ≤ 1 := by
  have hpos : (0 : ℝ) < scale := by exact_mod_cast hscale
  have hlow : (((a / scale : ℤ) * (scale : ℤ) : ℤ) : ℝ) ≤ (a : ℝ) := by
    exact_mod_cast Int.ediv_mul_le a (by omega)
  have hhigh : (a : ℝ) < (((a / scale + 1) * (scale : ℤ) : ℤ) : ℝ) := by
    exact_mod_cast Int.lt_ediv_add_one_mul_self a (by omega)
  push_cast at hlow hhigh
  have hle : ((a / scale : ℤ) : ℝ) ≤ (a : ℝ) / scale := (le_div_iff₀ hpos).mpr hlow
  have hlt : (a : ℝ) / scale < ((a / scale : ℤ) : ℝ) + 1 := (div_lt_iff₀ hpos).mpr hhigh
  rw [abs_le]
  constructor <;> linarith

private theorem norm_turn_sub_le (hscale : 0 < scale) (w p : ℤ × ℤ) :
    ‖toComplex p * toComplex w / scale - toComplex (turn scale w p)‖ ≤ 2 := by
  have hre : (toComplex p * toComplex w / scale - toComplex (turn scale w p)).re =
      ((p.1 * w.1 - p.2 * w.2 : ℤ) : ℝ) / scale - (((p.1 * w.1 - p.2 * w.2) / scale : ℤ) : ℝ) := by
    simp [toComplex, turn, Complex.div_natCast_re]
  have him : (toComplex p * toComplex w / scale - toComplex (turn scale w p)).im =
      ((p.1 * w.2 + p.2 * w.1 : ℤ) : ℝ) / scale - (((p.1 * w.2 + p.2 * w.1) / scale : ℤ) : ℝ) := by
    simp [toComplex, turn, Complex.div_natCast_im]
  have hnorm := Complex.norm_le_abs_re_add_abs_im
    (toComplex p * toComplex w / scale - toComplex (turn scale w p))
  rw [hre, him, abs_sub_comm, abs_sub_comm ((p.1 * w.2 + p.2 * w.1 : ℤ) / scale : ℝ)] at hnorm
  have h1 := abs_ediv_sub_le (p.1 * w.1 - p.2 * w.2) hscale
  have h2 := abs_ediv_sub_le (p.1 * w.2 + p.2 * w.1) hscale
  linarith

theorem norm_power_sub_le (hz : ‖z‖ = 1) (hw : ‖scale * z - toComplex w‖ ≤ 1) {n : ℕ}
    (hn : 5 * n ≤ scale) : ‖scale * z ^ n - toComplex (point scale w n)‖ ≤ 5 * n := by
  induction n with
  | zero =>
      have hstart : toComplex (point scale w 0) = scale := by
        simp [toComplex, point, Complex.ext_iff]
      rw [hstart]
      simp
  | succ n ih =>
      have hscale : 0 < scale := by omega
      have hpos : (0 : ℝ) < scale := by exact_mod_cast hscale
      have hne : (scale : ℂ) ≠ 0 := by exact_mod_cast hscale.ne'
      have herror := ih (by omega)
      have hbound : (5 : ℝ) * n ≤ scale := by
        have hle : 5 * n ≤ scale := by omega
        exact_mod_cast hle
      -- the point itself is no longer than twice the scale
      have hpoint : ‖toComplex (point scale w n)‖ ≤ 2 * scale := by
        have htriangle := norm_sub_norm_le (toComplex (point scale w n)) (scale * z ^ n)
        rw [norm_sub_rev] at htriangle
        have hunit : ‖(scale : ℂ) * z ^ n‖ = scale := by
          rw [norm_mul, norm_pow, hz, one_pow, mul_one, Complex.norm_natCast]
        linarith
      have hsplit : scale * z ^ (n + 1) - toComplex (point scale w (n + 1)) =
          z * (scale * z ^ n - toComplex (point scale w n)) +
            toComplex (point scale w n) * (scale * z - toComplex w) / scale +
            (toComplex (point scale w n) * toComplex w / scale -
              toComplex (turn scale w (point scale w n))) := by
        rw [point]
        field_simp
        ring
      have hfirst : ‖z * (scale * z ^ n - toComplex (point scale w n))‖ ≤ 5 * n := by
        rw [norm_mul, hz, one_mul]
        exact herror
      have hsecond :
          ‖toComplex (point scale w n) * (scale * z - toComplex w) / scale‖ ≤ 2 := by
        rw [norm_div, norm_mul, Complex.norm_natCast, div_le_iff₀ hpos]
        calc ‖toComplex (point scale w n)‖ * ‖scale * z - toComplex w‖
            ≤ 2 * scale * 1 := mul_le_mul hpoint hw (norm_nonneg _) (by positivity)
          _ = 2 * scale := mul_one _
      have hthird := norm_turn_sub_le hscale w (point scale w n)
      rw [hsplit]
      calc _ ≤ 5 * (n : ℝ) + 2 + 2 := norm_add₃_le.trans (by linarith)
        _ ≤ 5 * ((n + 1 : ℕ) : ℝ) := by push_cast; linarith

end Rmsgw.Lib.UnitCircle
