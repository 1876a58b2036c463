/- A byte memory, what it holds at an address, and which stores leave that as it is. -/

import Mathlib.Data.List.Basic
import Mathlib.Logic.Function.Basic

set_option autoImplicit false
set_option relaxedAutoImplicit false

namespace Rmsgw.Lib.Memory

abbrev Mem := Nat → UInt8

/-- Store a byte. -/
def write (m : Mem) (a : Nat) (b : UInt8) : Mem := Function.update m a b

@[simp] theorem write_self (m : Mem) (a : Nat) (b : UInt8) : write m a b a = b := by
  rw [write, Function.update_self]

theorem write_of_ne (m : Mem) {a i : Nat} (b : UInt8) (h : i ≠ a) : write m a b i = m i := by
  rw [write, Function.update_of_ne h]

/-- The bytes stand in memory from an address on. -/
def Holds (m : Mem) : Nat → List UInt8 → Prop
  | _, [] => True
  | a, b :: bs => m a = b ∧ Holds m (a + 1) bs

/-- A string with its terminator stands at an address. -/
def StringAt (m : Mem) (a : Nat) (s : List UInt8) : Prop := Holds m a (s ++ [0])

variable {m m' : Mem} {a : Nat} {bs cs : List UInt8}

theorem holds_append : Holds m a (bs ++ cs) ↔ Holds m a bs ∧ Holds m (a + bs.length) cs := by
  induction bs generalizing a with
  | nil => simp [Holds]
  | cons b bs ih =>
      rw [List.cons_append, Holds, Holds, ih, and_assoc, List.length_cons, Nat.add_assoc,
        Nat.add_comm 1 bs.length]

theorem holds_congr (h : ∀ i, a ≤ i → i < a + bs.length → m' i = m i) :
    Holds m' a bs ↔ Holds m a bs := by
  induction bs generalizing a with
  | nil => exact Iff.rfl
  | cons b bs ih =>
      rw [List.length_cons] at h
      rw [Holds, Holds, h a (Nat.le_refl a) (by omega), ih]
      exact fun i hle hlt => h i (by omega) (by omega)

theorem holds_write {d : Nat} (b : UInt8) (h : d < a ∨ a + bs.length ≤ d) :
    Holds (write m d b) a bs ↔ Holds m a bs :=
  holds_congr fun _ hle hlt => write_of_ne m b (by omega)

theorem holds_snoc (b : UInt8) (h : Holds m a bs) :
    Holds (write m (a + bs.length) b) a (bs ++ [b]) :=
  holds_append.mpr ⟨(holds_write b (.inr (Nat.le_refl _))).mpr h, write_self m _ b, trivial⟩

theorem stringAt_cut (h : Holds m a (bs ++ cs)) : StringAt (write m (a + bs.length) 0) a bs :=
  holds_snoc 0 (holds_append.mp h).1

end Rmsgw.Lib.Memory
