/- C strings and fixed character arrays: the library calls on them that a
   program's data structures rest on, with their contents as byte lists. -/

import Mathlib.Data.List.Basic
import Mathlib.Data.List.Infix
import Mathlib.Data.List.TakeWhile

set_option autoImplicit false
set_option relaxedAutoImplicit false

namespace Rmsgw.Lib.CStrings

/-- The bytes of an ASCII literal. -/
def lit (s : String) : List UInt8 := s.toList.map (fun c => UInt8.ofNat c.toNat)

/-- The bytes of a string in front of its terminator. -/
abbrev Str := List UInt8

/-- A string value: the bytes in front of its terminator. -/
structure CString where
  bytes : List UInt8
  noNul : (0 : UInt8) ∉ bytes
  deriving DecidableEq

theorem CString.ext {s t : CString} (h : s.bytes = t.bytes) : s = t := by
  cases s; cases t; cases h; rfl

/-- The string stored at the front of an array. -/
def text (a : List UInt8) : List UInt8 := a.takeWhile (fun b => b != 0)

theorem text_cons_of_ne {b : UInt8} (hb : b ≠ 0) (s : List UInt8) : text (b :: s) = b :: text s :=
  List.takeWhile_cons_of_pos (bne_iff_ne.mpr hb)

theorem text_append_nul {s rest : List UInt8} (hs : (0 : UInt8) ∉ s) :
    text (s ++ 0 :: rest) = s := by
  induction s with
  | nil => simp [text]
  | cons b s ih =>
      simp only [List.mem_cons, not_or] at hs
      have hb : (b != 0) = true := bne_iff_ne.mpr (Ne.symm hs.1)
      simp only [text, List.cons_append, List.takeWhile_cons, hb, if_true]
      exact congrArg (b :: ·) (ih hs.2)

theorem text_append {s rest : List UInt8} (hs : (0 : UInt8) ∉ s) :
    text (s ++ rest) = s ++ text rest := by
  refine List.takeWhile_append_of_pos ?_
  intro b hb
  exact bne_iff_ne.mpr (fun h => hs (h ▸ hb))

theorem nul_notMem_text (a : List UInt8) : (0 : UInt8) ∉ text a := by
  intro h
  exact absurd (List.mem_takeWhile_imp h) (by simp)

/-- A character array of `size` bytes. -/
structure CArray (size : Nat) where
  bytes : List UInt8
  length_bytes : bytes.length = size
  deriving DecidableEq

namespace CArray

variable {size : Nat}

def zero (size : Nat) : CArray size := ⟨List.replicate size 0, List.length_replicate⟩

/-- The string that an array holds. -/
def cstring (a : CArray size) : CString := ⟨text a.bytes, nul_notMem_text a.bytes⟩

/-- `strlen(a) <= 0`. -/
def vacant (a : CArray size) : Bool := (text a.bytes).isEmpty

/-- Store `bs` at the front of the array, leaving the bytes behind it. -/
def overwrite (a : CArray size) (bs : List UInt8) (fits : bs.length ≤ size) : CArray size where
  bytes := bs ++ a.bytes.drop bs.length
  length_bytes := by
    have := a.length_bytes
    simp only [List.length_append, List.length_drop]
    omega

/-- `strncpy(a, src, k)`: at most `k` bytes, padded with NULs up to `k`. -/
def strncpy (a : CArray size) (src : CString) (k : Nat) (fits : k ≤ size) : CArray size :=
  a.overwrite (src.bytes.take k ++ List.replicate (k - src.bytes.length) 0) (by
    simp only [List.length_append, List.length_take, List.length_replicate]
    omega)

/-- `a[i] = b`. -/
def set (a : CArray size) (i : Nat) (b : UInt8) : CArray size :=
  ⟨a.bytes.set i b, by rw [List.length_set, a.length_bytes]⟩

theorem ext {a b : CArray size} (h : a.bytes = b.bytes) : a = b := by
  cases a; cases b; cases h; rfl

theorem overwrite_bytes (a : CArray size) (bs : List UInt8) (fits : bs.length ≤ size) :
    (a.overwrite bs fits).bytes = bs ++ a.bytes.drop bs.length := rfl

theorem text_strncpy_of_lt (a : CArray size) (src : CString) (k : Nat) (fits : k ≤ size)
    (h : src.bytes.length < k) : text (a.strncpy src k fits).bytes = src.bytes := by
  have htake : src.bytes.take k = src.bytes := List.take_of_length_le (by omega)
  obtain ⟨d, hd⟩ : ∃ d, k - src.bytes.length = d + 1 := ⟨k - src.bytes.length - 1, by omega⟩
  simp only [strncpy, overwrite_bytes, htake, hd, List.replicate_succ, List.append_assoc,
    List.cons_append]
  exact text_append_nul src.noNul

theorem text_strncpy_of_eq (a : CArray size) (src : CString) (k : Nat) (fits : k ≤ size)
    (h : src.bytes.length = k) (behind : (a.bytes.drop k).head? = some 0) :
    text (a.strncpy src k fits).bytes = src.bytes := by
  have htake : src.bytes.take k = src.bytes := List.take_of_length_le (by omega)
  obtain ⟨rest, hrest⟩ : ∃ rest, a.bytes.drop k = 0 :: rest := by
    cases hd : a.bytes.drop k with
    | nil => rw [hd] at behind; cases behind
    | cons b rest => rw [hd] at behind; exact ⟨rest, by simpa using behind⟩
  have hlen : (src.bytes.take k ++ List.replicate (k - src.bytes.length) 0).length = k := by
    simp only [List.length_append, List.length_take, List.length_replicate]
    omega
  rw [strncpy, overwrite_bytes, hlen, hrest, htake, h, Nat.sub_self, List.replicate_zero,
    List.append_nil]
  exact text_append_nul src.noNul

theorem take_text_strncpy (a : CArray size) (src : CString) (k : Nat) (fits : k ≤ size) :
    (text (a.strncpy src k fits).bytes).take (min k src.bytes.length) =
      src.bytes.take (min k src.bytes.length) := by
  have hnul : (0 : UInt8) ∉ src.bytes.take k := fun h => src.noNul (List.mem_of_mem_take h)
  rw [strncpy, overwrite_bytes, List.append_assoc, text_append hnul,
    List.take_append_of_le_length (by simp), List.take_take]
  congr 1
  omega

/-- `strncpy()` byte by byte, with NULs from the end of the source on. -/
theorem strncpy_eq_sets (a : CArray size) (src : CString) (k : Nat) (fits : k ≤ size) :
    (List.range k).foldl (fun a i => a.set i (src.bytes[i]?.getD 0)) a = a.strncpy src k fits := by
  have hlen : ∀ n, (src.bytes.take n ++ List.replicate (n - src.bytes.length) (0 : UInt8)).length =
      n := by
    intro n
    rw [List.length_append, List.length_take, List.length_replicate]
    omega
  apply ext
  rw [strncpy, overwrite_bytes, hlen]
  induction k with
  | zero => simp
  | succ k ih =>
      have hlt : k < a.bytes.length := by rw [a.length_bytes]; omega
      have hpad : src.bytes.take (k + 1) ++ List.replicate (k + 1 - src.bytes.length) (0 : UInt8) =
          src.bytes.take k ++ List.replicate (k - src.bytes.length) 0 ++
            [src.bytes[k]?.getD 0] := by
        rcases Nat.lt_or_ge k src.bytes.length with hk | hk
        · rw [List.take_add_one, Nat.sub_eq_zero_of_le hk, Nat.sub_eq_zero_of_le (Nat.le_of_lt hk),
            List.getElem?_eq_getElem hk]
          simp
        · rw [List.take_of_length_le (by omega), List.take_of_length_le hk, Nat.succ_sub hk,
            List.replicate_succ', List.getElem?_eq_none hk, List.append_assoc]
          rfl
      rw [List.range_succ, List.foldl_append, List.foldl_cons, List.foldl_nil]
      show ((List.range k).foldl _ a).bytes.set k _ = _
      rw [ih (by omega), List.set_append_right _ _ (Nat.le_of_eq (hlen k)), hlen, Nat.sub_self,
        List.drop_eq_getElem_cons hlt, List.set_cons_zero, hpad]
      simp

end CArray

/-- `strcpy(mem, src)`: the bytes of the array with the string and its terminator
stored. A copy that leaves the array shows as a longer list. -/
def strcpy (mem : List UInt8) (src : Str) : List UInt8 := src ++ 0 :: mem.drop (src.length + 1)

/-- `strcat(mem, src)`. -/
def strcat (mem : List UInt8) (src : Str) : List UInt8 := strcpy mem (text mem ++ src)

/-- `strncat(mem, src, n)`: `src` is an array and need not be terminated within `n` bytes. -/
def strncat (mem src : List UInt8) (n : Nat) : List UInt8 := strcat mem (text (src.take n))

theorem text_of_noNul {s : Str} (hs : (0 : UInt8) ∉ s) : text s = s := by
  have happ := @text_append s [] hs
  rwa [List.append_nil, show text [] = [] from rfl, List.append_nil] at happ

@[simp] theorem text_strcpy (mem : List UInt8) {src : Str} (h : (0 : UInt8) ∉ src) :
    text (strcpy mem src) = src := text_append_nul h

theorem length_strcpy (mem : List UInt8) (src : Str) :
    (strcpy mem src).length = max mem.length (src.length + 1) := by
  simp only [strcpy, List.length_append, List.length_cons, List.length_drop]
  omega

theorem text_strcat {mem : List UInt8} {src : Str} (h : (0 : UInt8) ∉ src) :
    text (strcat mem src) = text mem ++ src := by
  refine text_strcpy mem fun hmem => ?_
  rcases List.mem_append.mp hmem with hfront | hback
  · exact nul_notMem_text mem hfront
  · exact h hback

theorem length_strcat (mem : List UInt8) (src : Str) :
    (strcat mem src).length = max mem.length ((text mem).length + src.length + 1) := by
  rw [strcat, length_strcpy, List.length_append]

/-- `!strncmp(a, b, n)` on two string values. -/
def strnequal (a b : List UInt8) (n : Nat) : Bool := a.take n == b.take n

theorem strnequal_length (key name : List UInt8) :
    strnequal key name key.length = true ↔ key <+: name := by
  simp only [strnequal, List.take_length, beq_iff_eq]
  exact List.prefix_iff_eq_take.symm

/-- `tolower` in the C locale. -/
def tolower (c : UInt8) : UInt8 := if 65 ≤ c ∧ c ≤ 90 then c + 32 else c

/-- `toupper` in the C locale. -/
def toupper (c : UInt8) : UInt8 := if 97 ≤ c ∧ c ≤ 122 then c - 32 else c

/-- `!strcasecmp(a, b)`. -/
def strcaseequal (a b : List UInt8) : Bool := a.map tolower == b.map tolower

/-- `strcasestr(hay, needle) != NULL`. -/
def strcasestr (hay needle : List UInt8) : Bool :=
  decide (needle.map tolower <:+: hay.map tolower)

/-- `isspace` in the C locale. -/
def isspace (c : UInt8) : Bool := c == 32 || (9 ≤ c && c ≤ 13)

/-- `isdigit` in the C locale. -/
def isdigit (c : UInt8) : Bool := 48 ≤ c && c ≤ 57

theorem isspace_of_isdigit {c : UInt8} (h : isdigit c = true) : isspace c = false := by
  simp only [isdigit, Bool.and_eq_true, decide_eq_true_eq, UInt8.le_iff_toNat_le,
    UInt8.reduceToNat] at h
  simp only [isspace, Bool.or_eq_false_iff, beq_eq_false_iff_ne, ne_eq, Bool.and_eq_false_iff,
    decide_eq_false_iff_not, UInt8.le_iff_toNat_le, ← UInt8.toNat_inj, UInt8.reduceToNat]
  omega

/-- `isalnum` in the C locale. -/
def isalnum (c : UInt8) : Bool := isdigit c || (65 ≤ c && c ≤ 90) || (97 ≤ c && c ≤ 122)

/-- The value of a run of decimal digits. -/
def decimal (ds : List UInt8) : Nat := ds.foldl (fun v d => 10 * v + (d.toNat - 48)) 0

/-- `LONG_MAX` of a 64-bit `long`. -/
def longMax : Int := 9223372036854775807

/-- `strtol(s, NULL, 10)` on a 64-bit `long`: leading blanks, an optional sign,
digits, saturation at the ends of the range. -/
def atol (s : List UInt8) : Int :=
  match s.dropWhile isspace with
  | [] => 0
  | c :: t =>
      if c = 45 then max (-(decimal (t.takeWhile isdigit) : Int)) (-longMax - 1)
      else if c = 43 then min (decimal (t.takeWhile isdigit) : Int) longMax
      else min (decimal ((c :: t).takeWhile isdigit) : Int) longMax

/-- Keep the low 32 bits of a value as a signed integer. -/
def toInt32 (v : Int) : Int := (v + 2147483648) % 4294967296 - 2147483648

/-- `atoi`: the `long` that `strtol` returns, narrowed to an `int`. -/
def atoi (s : List UInt8) : Int := toInt32 (atol s)

example : atol (lit " 7140s") = 7140 := by decide

end Rmsgw.Lib.CStrings
