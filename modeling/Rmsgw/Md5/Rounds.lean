/- The 64 operations of md5_process() against the rounds of RFC 1321: which word,
   which rotation and which constant each of them takes, and on which registers. -/

import Mathlib.Data.List.Basic
import Rmsgw.Md5.Model

set_option autoImplicit false
set_option relaxedAutoImplicit false

namespace Rmsgw.Md5.Rounds

open Rmsgw.Lib.ByteOrder Rmsgw.Md5.Model

/-- The function of each round. -/
def mix : Fin 4 → UInt32 → UInt32 → UInt32 → UInt32
  | 0 => F
  | 1 => G
  | 2 => H
  | 3 => I

/-- The word that step `j` of a round takes. -/
def wordOf : Fin 4 → Nat → Nat
  | 0, j => j
  | 1, j => (5 * j + 1) % 16
  | 2, j => (3 * j + 5) % 16
  | 3, j => 7 * j % 16

/-- The rotation of step `j` of a round. -/
def shiftOf (q : Fin 4) (j : Nat) : UInt32 :=
  let shifts : Fin 4 → List UInt32
    | 0 => [7, 12, 17, 22]
    | 1 => [5, 9, 14, 20]
    | 2 => [4, 11, 16, 23]
    | 3 => [6, 10, 15, 21]
  (shifts q).getD (j % 4) 0

/-- One step: the first register is replaced, and the registers change places. -/
def turn (f : UInt32 → UInt32 → UInt32 → UInt32) (x s t : UInt32) (r : Abcd) : Abcd :=
  ⟨r.d, rotateLeft (r.a + f r.b r.c r.d + x + t) s + r.b, r.b, r.c⟩

/-- A round of 16 steps on a block of words `X`, with its constants. -/
def round (X K : Nat → UInt32) (r : Abcd) (q : Fin 4) : Abcd :=
  (List.range 16).foldl
    (fun r j => turn (mix q) (X (wordOf q j)) (shiftOf q j) (K (16 * q.val + j)) r) r

/-- The compression function with the constants `K 0 .. K 63`. -/
def compressWith (K : Nat → UInt32) (abcd : Abcd) (X : Nat → UInt32) : Abcd :=
  abcd.add ((List.finRange 4).foldl (round X K) abcd)

/-- Four operations, each on the registers one place further. -/
def quad (k : Nat → Nat) (s t : Nat → UInt32) (i : Nat) : List SetOp :=
  [⟨.a, .b, .c, .d, k (4 * i), s (4 * i), t (4 * i)⟩,
    ⟨.d, .a, .b, .c, k (4 * i + 1), s (4 * i + 1), t (4 * i + 1)⟩,
    ⟨.c, .d, .a, .b, k (4 * i + 2), s (4 * i + 2), t (4 * i + 2)⟩,
    ⟨.b, .c, .d, .a, k (4 * i + 3), s (4 * i + 3), t (4 * i + 3)⟩]

section Schedule

variable (f : UInt32 → UInt32 → UInt32 → UInt32) (X : Nat → UInt32) (k : Nat → Nat)
  (s t : Nat → UInt32)

private theorem quad_foldl (i : Nat) (r : Abcd) :
    (quad k s t i).foldl (set f X) r =
      [4 * i, 4 * i + 1, 4 * i + 2, 4 * i + 3].foldl
        (fun r j => turn f (X (k j)) (s j) (t j) r) r := rfl

private theorem quads_foldl (n : Nat) (r : Abcd) :
    ((List.range n).flatMap (quad k s t)).foldl (set f X) r =
      (List.range (4 * n)).foldl (fun r j => turn f (X (k j)) (s j) (t j) r) r := by
  induction n with
  | zero => rfl
  | succ n ih =>
      have hfour : List.range (4 * (n + 1)) =
          List.range (4 * n) ++ [4 * n, 4 * n + 1, 4 * n + 2, 4 * n + 3] := by
        rw [show 4 * (n + 1) = 4 * n + 1 + 1 + 1 + 1 from rfl]
        simp only [List.range_succ, List.append_assoc, List.cons_append, List.nil_append]
      rw [List.range_succ, List.flatMap_append, List.foldl_append, ih, hfour, List.foldl_append,
        List.flatMap_singleton]
      exact quad_foldl f X k s t n _

end Schedule

/-- The operations of a round as the rules of RFC 1321 make them. -/
def roundOps (q : Fin 4) : List SetOp :=
  (List.range 4).flatMap (quad (wordOf q) (shiftOf q) (fun j => T (16 * q.val + j + 1)))

private theorem roundOps_foldl (q : Fin 4) (X : Nat → UInt32) (r : Abcd) :
    (roundOps q).foldl (set (mix q) X) r = round X (fun i => T (i + 1)) r q :=
  quads_foldl (mix q) X (wordOf q) (shiftOf q) (fun j => T (16 * q.val + j + 1)) 4 r

private theorem round1_eq : round1 = roundOps 0 := rfl

private theorem round2_eq : round2 = roundOps 1 := rfl

private theorem round3_eq : round3 = roundOps 2 := rfl

private theorem round4_eq : round4 = roundOps 3 := rfl

private theorem word_host (host : Host) (data : List UInt8) (i : Nat) :
    word host data i = word .littleEndian data i := by
  cases host with
  | littleEndian => rfl
  | bigEndian =>
      apply UInt32.toNat_inj.mp
      have h0 := (data.getD (4 * i + 0) 0).toNat_lt
      have h1 := (data.getD (4 * i + 1) 0).toNat_lt
      have h2 := (data.getD (4 * i + 2) 0).toNat_lt
      have h3 := (data.getD (4 * i + 3) 0).toNat_lt
      simp only [word, readWord, List.map_cons, List.map_nil, Nat.ofDigits_cons, Nat.ofDigits_nil,
        UInt32.toNat_add, UInt32.toNat_shiftLeft, UInt8.toNat_toUInt32, UInt32.toNat_ofNat',
        UInt32.reduceToNat, Nat.shiftLeft_eq, Nat.reduceMod, Nat.reducePow]
      omega

theorem compress_eq (host : Host) (abcd : Abcd) (data : List UInt8) :
    compress host abcd data =
      compressWith (fun i => T (i + 1)) abcd (word .littleEndian data) := by
  have hX : word host data = word .littleEndian data := funext (word_host host data)
  rw [compress, hX, round1_eq, round2_eq, round3_eq, round4_eq]
  simp only [compressWith, List.finRange_succ, List.finRange_zero, List.map_cons, List.map_nil,
    List.foldl_cons, List.foldl_nil]
  rw [← roundOps_foldl, ← roundOps_foldl, ← roundOps_foldl, ← roundOps_foldl]
  rfl

theorem compressWith_congr {K K' : Nat → UInt32} (same : ∀ i < 64, K i = K' i) (abcd : Abcd)
    (X : Nat → UInt32) : compressWith K abcd X = compressWith K' abcd X := by
  have hround : round X K = round X K' := by
    funext r q
    refine List.foldl_ext _ _ r fun r j hj => ?_
    have hlt : 16 * q.val + j < 64 := by
      have := q.isLt
      have := List.mem_range.mp hj
      omega
    rw [same _ hlt]
  rw [compressWith, compressWith, hround]

theorem compress_host (host : Host) (abcd : Abcd) (data : List UInt8) :
    compress host abcd data = compress .littleEndian abcd data := by
  rw [compress_eq, compress_eq]

end Rmsgw.Md5.Rounds
