/- Text in UTF-8: what a program that looks for ASCII characters in the bytes sees
   of the text. -/

import Rmsgw.Lib.CStrings
import Mathlib.Data.List.DropRight

set_option autoImplicit false
set_option relaxedAutoImplicit false

namespace Rmsgw.Lib.Utf8

open Rmsgw.Lib.CStrings

def Ascii (c : Char) : Prop := c.toNat < 128

instance (c : Char) : Decidable (Ascii c) := inferInstanceAs (Decidable (_ < _))

def byte (c : Char) : UInt8 := UInt8.ofNat c.toNat

def encode (t : List Char) : Str := t.flatMap String.utf8EncodeChar

@[simp] theorem encode_nil : encode [] = [] := rfl

@[simp] theorem encode_cons (c : Char) (t : List Char) :
    encode (c :: t) = String.utf8EncodeChar c ++ encode t := List.flatMap_cons

@[simp] theorem encode_append (s t : List Char) : encode (s ++ t) = encode s ++ encode t :=
  List.flatMap_append

private theorem byte_toNat {c : Char} (h : Ascii c) : (byte c).toNat = c.toNat := by
  have hlt : c.toNat < 256 := Nat.lt_trans h (by decide)
  simp [byte, Nat.mod_eq_of_lt hlt]

private theorem byte_inj {c d : Char} (hc : Ascii c) (hd : Ascii d) (h : byte c = byte d) :
    c = d := by
  have hnat := congrArg UInt8.toNat h
  rw [byte_toNat hc, byte_toNat hd] at hnat
  exact Char.ext (UInt32.toNat_inj.mp hnat)

private theorem utf8EncodeChar_ascii {c : Char} (h : Ascii c) :
    String.utf8EncodeChar c = [byte c] := by
  have hle : c.toNat ≤ 127 := Nat.le_of_lt_succ h
  simp [String.utf8EncodeChar, hle, byte]

private theorem utf8EncodeChar_other {c : Char} (h : ¬ Ascii c) :
    ∀ b ∈ String.utf8EncodeChar c, 128 ≤ b.toNat := by
  have hgt : ¬ c.toNat ≤ 127 := fun hle => h (Nat.lt_succ_of_le hle)
  intro b hb
  simp only [String.utf8EncodeChar, Char.toNat_val, hgt, if_false] at hb
  split at hb
  · simp only [List.mem_cons, List.not_mem_nil, or_false] at hb
    rcases hb with rfl | rfl <;> simp only [UInt8.toNat_ofNat'] <;> omega
  · split at hb
    · simp only [List.mem_cons, List.not_mem_nil, or_false] at hb
      rcases hb with rfl | rfl | rfl <;> simp only [UInt8.toNat_ofNat'] <;> omega
    · simp only [List.mem_cons, List.not_mem_nil, or_false] at hb
      rcases hb with rfl | rfl | rfl | rfl <;> simp only [UInt8.toNat_ofNat'] <;> omega

theorem byte_mem_utf8EncodeChar {c d : Char} (hc : Ascii c) (h : byte c ∈ String.utf8EncodeChar d) :
    c = d := by
  by_cases hd : Ascii d
  · rw [utf8EncodeChar_ascii hd] at h
    exact byte_inj hc hd (List.mem_singleton.mp h)
  · have hge := utf8EncodeChar_other hd _ h
    rw [byte_toNat hc] at hge
    exact absurd hc (Nat.not_lt.mpr hge)

theorem byte_mem_encode {c : Char} (hc : Ascii c) {t : List Char} :
    byte c ∈ encode t ↔ c ∈ t := by
  constructor
  · intro h
    obtain ⟨d, hd, hcd⟩ := List.mem_flatMap.mp h
    exact byte_mem_utf8EncodeChar hc hcd ▸ hd
  · intro h
    exact List.mem_flatMap.mpr ⟨c, h, by rw [utf8EncodeChar_ascii hc]; exact List.mem_singleton.mpr rfl⟩

/-- An ASCII string begins the bytes exactly when it begins the text. -/
theorem ascii_prefix_encode {s : List Char} (hs : ∀ c ∈ s, Ascii c) {t : List Char} :
    s.map byte <+: encode t ↔ s <+: t := by
  induction s generalizing t with
  | nil => simp
  | cons c s ih =>
      have hc := hs c List.mem_cons_self
      have hrest := fun d hd => hs d (List.mem_cons_of_mem c hd)
      cases t with
      | nil => simp
      | cons d t =>
          rw [List.map_cons, encode_cons, List.cons_prefix_cons]
          by_cases hcd : c = d
          · subst hcd
            rw [utf8EncodeChar_ascii hc, List.singleton_append, List.cons_prefix_cons, ih hrest]
            simp
          · constructor
            · intro h
              obtain ⟨b, bs, hbs⟩ := List.exists_cons_of_ne_nil (String.utf8EncodeChar_ne_nil (c := d))
              rw [hbs, List.cons_append, List.cons_prefix_cons] at h
              have hmem : byte c ∈ String.utf8EncodeChar d := by
                rw [hbs, h.1]
                exact List.mem_cons_self
              exact absurd (byte_mem_utf8EncodeChar hc hmem) hcd
            · intro h
              exact absurd h.1 hcd

private theorem encode_ascii {s : List Char} (hs : ∀ c ∈ s, Ascii c) : encode s = s.map byte := by
  induction s with
  | nil => rfl
  | cons c s ih =>
      rw [encode_cons, utf8EncodeChar_ascii (hs c List.mem_cons_self),
        ih fun d hd => hs d (List.mem_cons_of_mem c hd)]
      rfl

theorem drop_encode {s : List Char} (hs : ∀ c ∈ s, Ascii c) (t : List Char) :
    (encode (s ++ t)).drop s.length = encode t := by
  rw [encode_append, encode_ascii hs]
  exact List.drop_left' (by simp)

private theorem last_byte (c : Char) : ∃ bs b, String.utf8EncodeChar c = bs ++ [b] := by
  have hne := String.utf8EncodeChar_ne_nil (c := c)
  exact ⟨_, _, (List.dropLast_append_getLast hne).symm⟩

theorem rdropWhile_encode {s : List Char} (hs : ∀ c ∈ s, Ascii c) (t : List Char) :
    (encode t).rdropWhile (fun b => decide (b ∈ s.map byte)) =
      encode (t.rdropWhile (fun c => decide (c ∈ s))) := by
  induction t using List.reverseRecOn with
  | nil => rfl
  | append_singleton t d ih =>
      by_cases hd : d ∈ s
      · have hmem : byte d ∈ s.map byte := List.mem_map_of_mem hd
        rw [encode_append, encode_cons, encode_nil, List.append_nil, utf8EncodeChar_ascii (hs d hd),
          List.rdropWhile_concat_pos _ _ _ (by simpa using hmem), ih,
          List.rdropWhile_concat_pos _ _ _ (by simpa using hd)]
      · obtain ⟨bs, b, hb⟩ := last_byte d
        have hnot : b ∉ s.map byte := by
          intro hmem
          obtain ⟨c, hc, hbyte⟩ := List.mem_map.mp hmem
          have hcd : byte c ∈ String.utf8EncodeChar d := by
            rw [hb, hbyte]
            simp
          obtain rfl := byte_mem_utf8EncodeChar (hs c hc) hcd
          exact hd hc
        rw [List.rdropWhile_concat_neg _ _ _ (by simpa using hd), encode_append, encode_cons,
          encode_nil, List.append_nil, hb, ← List.append_assoc,
          List.rdropWhile_concat_neg _ _ _ (by simpa using hnot)]

end Rmsgw.Lib.Utf8
