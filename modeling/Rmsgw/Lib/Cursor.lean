/- The positions that a cursor takes from a buffer: takes move it on, slips set it
   back by one. -/

import Mathlib.Data.List.Basic

set_option autoImplicit false
set_option relaxedAutoImplicit false

namespace Rmsgw.Lib.Cursor

inductive Move
  | take (count : Nat)
  | back
  | stay
  deriving DecidableEq

def Move.count : Move → Nat
  | .take count => count
  | .back => 0
  | .stay => 0

def Move.apply (c : Int) : Move → Int
  | .take count => c + count
  | .back => c - 1
  | .stay => c

/-- `count` positions from `c` on. -/
def span (c : Int) (count : Nat) : List Int := (List.range count).map (fun i : Nat => c + i)

def Move.positions (c : Int) (m : Move) : List Int := span c m.count

def cursor (c : Int) (ms : List Move) : Int := ms.foldl Move.apply c

def positions : Int → List Move → List Int
  | _, [] => []
  | c, m :: ms => m.positions c ++ positions (m.apply c) ms

def total : List Move → Nat
  | [] => 0
  | m :: ms => m.count + total ms

/-- Nothing is taken behind a slip. -/
def Settled (ms : List Move) : Prop := ms.Pairwise (fun m n => m = .back → n.count = 0)

instance (ms : List Move) : Decidable (Settled ms) := inferInstanceAs (Decidable (List.Pairwise _ _))

@[simp] theorem span_zero (c : Int) : span c 0 = [] := rfl

@[simp] theorem length_span (c : Int) (count : Nat) : (span c count).length = count := by
  simp [span]

theorem mem_span {c p : Int} {count : Nat} : p ∈ span c count ↔ c ≤ p ∧ p < c + count := by
  simp only [span, List.mem_map, List.mem_range]
  constructor
  · rintro ⟨i, hi, rfl⟩
    omega
  · intro h
    exact ⟨(p - c).toNat, by omega, by omega⟩

theorem span_add (c : Int) (m n : Nat) : span c (m + n) = span c m ++ span (c + m) n := by
  simp only [span, List.range_add, List.map_append, List.map_map, List.append_cancel_left_eq]
  apply List.map_congr_left
  intro i _
  simp only [Function.comp_apply]
  omega

theorem head_span (c : Int) (count : Nat) (h : 0 < count) : (span c count).head? = some c := by
  obtain ⟨n, rfl⟩ := Nat.exists_eq_succ_of_ne_zero (Nat.ne_of_gt h)
  simp [span, List.range_succ_eq_map]

@[simp] theorem total_cons (m : Move) (ms : List Move) : total (m :: ms) = m.count + total ms := rfl

theorem total_append (ms ns : List Move) : total (ms ++ ns) = total ms + total ns := by
  induction ms with
  | nil => exact (Nat.zero_add _).symm
  | cons m ms ih => rw [List.cons_append, total_cons, total_cons, ih, Nat.add_assoc]

theorem cursor_append (c : Int) (ms ns : List Move) :
    cursor c (ms ++ ns) = cursor (cursor c ms) ns := List.foldl_append

theorem positions_append (c : Int) (ms ns : List Move) :
    positions c (ms ++ ns) = positions c ms ++ positions (cursor c ms) ns := by
  induction ms generalizing c with
  | nil => rfl
  | cons m ms ih =>
      simp only [List.cons_append, positions, ih, List.append_assoc, cursor, List.foldl_cons]

theorem cursor_snoc (c : Int) (ms : List Move) (m : Move) :
    cursor c (ms ++ [m]) = m.apply (cursor c ms) := cursor_append c ms [m]

theorem positions_snoc (c : Int) (ms : List Move) (m : Move) :
    positions c (ms ++ [m]) = positions c ms ++ m.positions (cursor c ms) := by
  rw [positions_append]
  simp only [positions, List.append_nil]

/-- Each slip costs one position. -/
theorem cursor_eq (c : Int) (ms : List Move) :
    cursor c ms = c + total ms - ms.count .back := by
  induction ms generalizing c with
  | nil => simp [cursor, total]
  | cons m ms ih =>
      have hcons : cursor c (m :: ms) = cursor (m.apply c) ms := rfl
      rw [hcons, ih, total_cons]
      cases m with
      | take count => simp [Move.apply, Move.count]; omega
      | back => simp [Move.apply, Move.count]; omega
      | stay => simp [Move.apply, Move.count]

theorem length_positions (c : Int) (ms : List Move) : (positions c ms).length = total ms := by
  induction ms generalizing c with
  | nil => rfl
  | cons m ms ih =>
      simp only [positions, List.length_append, Move.positions, length_span, ih, total_cons]

theorem head_positions_le {c p : Int} {ms : List Move} (h : (positions c ms).head? = some p) :
    p ≤ c := by
  induction ms generalizing c with
  | nil => simp [positions] at h
  | cons m ms ih =>
      cases m with
      | stay => exact ih h
      | back =>
          have hp : p ≤ c - 1 := ih h
          omega
      | take count =>
          rcases Nat.eq_zero_or_pos count with rfl | hpos
          · have hp : p ≤ c + (0 : Nat) := ih h
            omega
          · simp only [positions, Move.positions, Move.count, List.head?_append,
              head_span c count hpos, Option.some_or, Option.some.injEq] at h
            omega

theorem positions_of_no_slip {c : Int} {ms : List Move} (h : Move.back ∉ ms) :
    positions c ms = span c (total ms) := by
  induction ms generalizing c with
  | nil => rfl
  | cons m ms ih =>
      have hrest := @ih (m.apply c) (fun hmem => h (List.mem_cons_of_mem _ hmem))
      rw [positions, hrest, total_cons, span_add]
      cases m with
      | back => exact absurd List.mem_cons_self h
      | take count => rfl
      | stay => simp [Move.positions, Move.count, Move.apply]

theorem total_eq_zero_iff {ms : List Move} : total ms = 0 ↔ ∀ m ∈ ms, m.count = 0 := by
  induction ms with
  | nil => simp [total]
  | cons m ms ih =>
      rw [total_cons, Nat.add_eq_zero_iff, ih, List.forall_mem_cons]

theorem positions_of_total_zero {c : Int} {ms : List Move} (h : total ms = 0) :
    positions c ms = [] := by
  rw [← List.length_eq_zero_iff, length_positions, h]

theorem positions_eq_span_iff {c : Int} {ms : List Move} :
    positions c ms = span c (total ms) ↔ Settled ms := by
  induction ms generalizing c with
  | nil => simp [positions, total, Settled]
  | cons m ms ih =>
      rw [Settled, List.pairwise_cons, ← Settled, positions, total_cons, span_add]
      cases m with
      | take count =>
          rw [Move.positions, Move.count, List.append_cancel_left_eq]
          simpa [Move.apply] using ih
      | stay => simpa [Move.positions, Move.count, Move.apply] using ih
      | back =>
          have hspan : Move.back.positions c ++ positions (Move.back.apply c) ms =
              span c Move.back.count ++ span (c + Move.back.count) (total ms) ↔
                positions (c - 1) ms = span c (total ms) := by
            simp [Move.positions, Move.count, Move.apply]
          have hquiet : (∀ n ∈ ms, Move.back = Move.back → n.count = 0) ↔ total ms = 0 := by
            simp only [total_eq_zero_iff, true_implies]
          rw [hspan, hquiet]
          constructor
          · intro h
            have hzero : total ms = 0 := by
              by_contra hne
              have hhead : (positions (c - 1) ms).head? = some c := by
                rw [h, head_span c _ (Nat.pos_of_ne_zero hne)]
              have hle := head_positions_le hhead
              omega
            have hrest : positions (c - 1) ms = span (c - 1) (total ms) := by
              rw [positions_of_total_zero hzero, hzero, span_zero]
            exact ⟨hzero, ih.mp hrest⟩
          · rintro ⟨hzero, _⟩
            rw [positions_of_total_zero hzero, hzero, span_zero]

end Rmsgw.Lib.Cursor
