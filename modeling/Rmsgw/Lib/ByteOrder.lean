/- Unsigned integers laid over bytes in memory: the value that a host reads there
   depends on its byte order. -/

import Mathlib.Data.Nat.Digits.Lemmas

set_option autoImplicit false
set_option relaxedAutoImplicit false

namespace Rmsgw.Lib.ByteOrder

/-- The byte order of a host. -/
inductive Host
  | littleEndian | bigEndian
  deriving DecidableEq

/-- The unsigned integer that a host reads from bytes in memory. -/
def readWord : Host → List UInt8 → Nat
  | .littleEndian, bytes => Nat.ofDigits 256 (bytes.map UInt8.toNat)
  | .bigEndian, bytes => Nat.ofDigits 256 (bytes.reverse.map UInt8.toNat)

theorem toNat_lt_of_mem {bytes : List UInt8} {d : Nat} (h : d ∈ bytes.map UInt8.toNat) :
    d < 256 := by
  obtain ⟨b, -, rfl⟩ := List.mem_map.mp h
  exact b.toNat_lt

theorem readWord_eq_iff (bytes : List UInt8) :
    readWord .bigEndian bytes = readWord .littleEndian bytes ↔ bytes.reverse = bytes := by
  constructor
  · intro h
    have hdigits : bytes.reverse.map UInt8.toNat = bytes.map UInt8.toNat :=
      Nat.ofDigits_inj_of_len_eq (b := 256) (by decide) (by simp)
        (fun _ => toNat_lt_of_mem) (fun _ => toNat_lt_of_mem) h
    exact List.map_injective_iff.mpr (fun _ _ => UInt8.toNat_inj.mp) hdigits
  · intro h
    rw [readWord, readWord, h]

end Rmsgw.Lib.ByteOrder
