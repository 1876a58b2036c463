/- Trimming of a string in memory: the copy loops as they run, also over the memory
   that they read. -/

import Rmsgw.Lib.Memory
import Rmsgw.Channels.Entry
import Rmsgw.Conf.Model
import Mathlib.Data.List.DropRight

set_option autoImplicit false
set_option relaxedAutoImplicit false

namespace Rmsgw.Strtrim

open Rmsgw.Lib.CStrings Rmsgw.Lib.Memory Rmsgw.Rms

/-- `set_arr`, one byte for each character. -/
abbrev CharSet := UInt8 → UInt8

def clearset : CharSet := fun _ => 0

/-- The characters index the array as signed ones, those above 127 in front of it. -/
def mkset (the_set : CharSet) : List UInt8 → Except Fault CharSet
  | [] => .ok the_set
  | c :: s => if c < 128 then mkset (Function.update the_set c 1) s else .error .bufferOverflow

def issetmem (the_set : CharSet) (c : UInt8) : Bool := the_set c != 0

/-- `while (issetmem(&tset, *s)) s++`. -/
def skip (tset : CharSet) (m : Mem) : Nat → Nat → Option Nat
  | 0, _ => none
  | fuel + 1, s => if issetmem tset (m s) then skip tset m fuel (s + 1) else some s

/-- The loop that copies ahead and moves the mark behind each character not in the set. -/
def copyMarking (tset : CharSet) : Nat → Mem → Nat → Nat → Nat → Option (Mem × Nat)
  | 0, _, _, _, _ => none
  | fuel + 1, m, d, s, mark =>
      if m s = 0 then some (m, mark)
      else
        copyMarking tset fuel (write m d (m s)) (d + 1) (s + 1)
          (if issetmem tset (m s) then mark else d + 1)

/-- `while (*d++ = *s++)`. -/
def copyAll : Nat → Mem → Nat → Nat → Option Mem
  | 0, _, _, _ => none
  | fuel + 1, m, d, s =>
      if m s = 0 then some (write m d (m s)) else copyAll fuel (write m d (m s)) (d + 1) (s + 1)

/-- The memory that is left and the start of the destination; `none` when no
terminator is met within `fuel` characters. -/
def strtrim (fuel : Nat) (m : Mem) (d s : Nat) (trim_chars : CString) (trim : Int) :
    Except Fault (Option (Mem × Nat)) :=
  (mkset clearset trim_chars.bytes).map (fun tset =>
    (if trim ≤ 0 then skip tset m fuel s else some s).bind (fun s =>
      if 0 ≤ trim then
        (copyMarking tset fuel m d s d).map (fun copied => (write copied.1 copied.2 0, d))
      else (copyAll fuel m d s).map (fun copied => (copied, d))))

/-- The text without its longest prefix of characters in the set, unless only the
suffix is to go. -/
def skipped (chars : Str) (trim : Int) (text : Str) : Str :=
  if trim ≤ 0 then text.dropWhile (fun c => decide (c ∈ chars)) else text

/-- The text trimmed: the longest prefix off for `trim ≤ 0`, the longest suffix for
`trim ≥ 0`. -/
def trimmed (chars : Str) (trim : Int) (text : Str) : Str :=
  if 0 ≤ trim then (skipped chars trim text).rdropWhile (fun c => decide (c ∈ chars))
  else skipped chars trim text

section Sets

variable {chars : Str}

private theorem mkset_ok (hascii : ∀ c ∈ chars, c < 128) (the_set : CharSet) :
    ∃ tset, mkset the_set chars = .ok tset ∧
      ∀ c, issetmem tset c = true ↔ c ∈ chars ∨ issetmem the_set c = true := by
  induction chars generalizing the_set with
  | nil => exact ⟨the_set, rfl, by simp⟩
  | cons b chars ih =>
      rw [List.forall_mem_cons] at hascii
      obtain ⟨tset, hset, hmem⟩ := ih hascii.2 (Function.update the_set b 1)
      refine ⟨tset, by rw [mkset, if_pos hascii.1, hset], fun c => ?_⟩
      rw [hmem c, List.mem_cons, issetmem, issetmem]
      by_cases hc : c = b
      · subst hc
        simp
      · rw [Function.update_of_ne hc]
        simp [hc]

private theorem mkset_clearset (hascii : ∀ c ∈ chars, c < 128) :
    ∃ tset, mkset clearset chars = .ok tset ∧
      ∀ c, issetmem tset c = decide (c ∈ chars) := by
  obtain ⟨tset, hset, hmem⟩ := mkset_ok hascii clearset
  refine ⟨tset, hset, fun c => ?_⟩
  rw [Bool.eq_iff_iff, hmem c, decide_eq_true_iff]
  exact or_iff_left (by simp [issetmem, clearset])

end Sets

section Loops

variable {tset : CharSet} {m : Mem} {text : Str}

private theorem skip_eq (hnul : issetmem tset 0 = false) {fuel s : Nat} (htext : StringAt m s text)
    (hfuel : text.length < fuel) :
    ∃ s', skip tset m fuel s = some s' ∧ StringAt m s' (text.dropWhile (issetmem tset)) ∧
      s' + (text.dropWhile (issetmem tset)).length = s + text.length := by
  induction text generalizing fuel s with
  | nil =>
      obtain ⟨fuel, rfl⟩ := Nat.exists_eq_succ_of_ne_zero (Nat.ne_zero_of_lt hfuel)
      have hend : m s = 0 := htext.1
      exact ⟨s, by rw [skip, hend, hnul]; rfl, htext, rfl⟩
  | cons c text ih =>
      obtain ⟨fuel, rfl⟩ := Nat.exists_eq_succ_of_ne_zero (Nat.ne_zero_of_lt hfuel)
      obtain ⟨hfirst, hrest⟩ := htext
      rw [skip, hfirst]
      by_cases hc : issetmem tset c = true
      · obtain ⟨s', hskip, hat, hlen⟩ := ih hrest (Nat.lt_of_succ_lt_succ hfuel)
        rw [if_pos hc, List.dropWhile_cons_of_pos hc, List.length_cons]
        exact ⟨s', hskip, hat, by omega⟩
      · rw [if_neg hc, List.dropWhile_cons_of_neg hc]
        exact ⟨s, rfl, ⟨hfirst, hrest⟩, rfl⟩

/-- The destination is the source or starts in front of it, or it lies behind the text
and its terminator: the copying does not overtake the reading. -/
def Placed (d s n : Nat) : Prop := d ≤ s ∨ s + n < d

private theorem Placed.next {d s n : Nat} (h : Placed d s (n + 1)) : Placed (d + 1) (s + 1) n := by
  rcases h with h | h
  · exact .inl (by omega)
  · exact .inr (by omega)

private theorem Placed.snoc {p s n : Nat} {done : Str} (c : UInt8)
    (h : Placed (p + done.length) s (n + 1)) : Placed (p + (done ++ [c]).length) (s + 1) n := by
  rw [List.length_append, List.length_singleton, ← Nat.add_assoc]
  exact h.next

private theorem unread_write {d s : Nat} (b c : UInt8) (hplace : Placed d s (text.length + 1))
    (h : Holds m (s + 1) (text ++ [b])) : Holds (write m d c) (s + 1) (text ++ [b]) := by
  refine (holds_write c ?_).mpr h
  rw [List.length_append, List.length_singleton]
  rcases hplace with hplace | hplace
  · exact .inl (by omega)
  · exact .inr (by omega)

/-- The copy loop: what is copied so far stands at `p`, with the mark behind the last
character of it that is not in the set. -/
private theorem copyMarking_eq (tset : CharSet) (p : Nat) {s fuel : Nat} (done : Str)
    (hnul : (0 : UInt8) ∉ text) (htext : StringAt m s text) (hdone : Holds m p done)
    (hplace : Placed (p + done.length) s text.length) (hfuel : text.length < fuel) :
    ∃ m', copyMarking tset fuel m (p + done.length) s
          (p + (done.rdropWhile (issetmem tset)).length) =
        some (m', p + ((done ++ text).rdropWhile (issetmem tset)).length) ∧
      Holds m' p (done ++ text) ∧
      ∀ a, a < p + done.length ∨ p + (done ++ text).length ≤ a → m' a = m a := by
  induction text generalizing m s fuel done with
  | nil =>
      obtain ⟨fuel, rfl⟩ := Nat.exists_eq_succ_of_ne_zero (Nat.ne_zero_of_lt hfuel)
      have hend : m s = 0 := htext.1
      rw [List.append_nil]
      exact ⟨m, by rw [copyMarking, if_pos hend], hdone, fun _ _ => rfl⟩
  | cons c text ih =>
      obtain ⟨fuel, rfl⟩ := Nat.exists_eq_succ_of_ne_zero (Nat.ne_zero_of_lt hfuel)
      obtain ⟨hfirst, hrest⟩ := htext
      rw [List.mem_cons, not_or] at hnul
      obtain ⟨m', hcopy, hholds, hframe⟩ := ih (done ++ [c]) hnul.2
        (unread_write 0 c hplace hrest) (holds_snoc c hdone) (hplace.snoc c)
        (Nat.lt_of_succ_lt_succ hfuel)
      have hmark : p + ((done ++ [c]).rdropWhile (issetmem tset)).length =
          if issetmem tset c then p + (done.rdropWhile (issetmem tset)).length
          else p + done.length + 1 := by
        by_cases hc : issetmem tset c = true
        · rw [if_pos hc, List.rdropWhile_concat_pos _ _ _ hc]
        · rw [if_neg hc, List.rdropWhile_concat_neg _ _ _ hc, List.length_append,
            List.length_singleton, Nat.add_assoc]
      rw [List.append_cons]
      refine ⟨m', ?_, hholds, fun a ha => ?_⟩
      · rw [copyMarking, hfirst, if_neg (Ne.symm hnul.1), ← hmark, ← hcopy, List.length_append,
          List.length_singleton, Nat.add_assoc]
      · simp only [List.length_append, List.length_cons, List.length_nil] at ha hframe
        rw [hframe a (by omega), write_of_ne m c (by omega)]

private theorem copyAll_eq (p : Nat) {s fuel : Nat} (done : Str) (hnul : (0 : UInt8) ∉ text)
    (htext : StringAt m s text) (hdone : Holds m p done)
    (hplace : Placed (p + done.length) s text.length) (hfuel : text.length < fuel) :
    ∃ m', copyAll fuel m (p + done.length) s = some m' ∧ StringAt m' p (done ++ text) ∧
      ∀ a, a < p + done.length ∨ p + (done ++ text).length < a → m' a = m a := by
  induction text generalizing m s fuel done with
  | nil =>
      obtain ⟨fuel, rfl⟩ := Nat.exists_eq_succ_of_ne_zero (Nat.ne_zero_of_lt hfuel)
      have hend : m s = 0 := htext.1
      rw [List.append_nil]
      refine ⟨_, by rw [copyAll, if_pos hend, hend], holds_snoc 0 hdone, fun a ha => ?_⟩
      exact write_of_ne m 0 (by omega)
  | cons c text ih =>
      obtain ⟨fuel, rfl⟩ := Nat.exists_eq_succ_of_ne_zero (Nat.ne_zero_of_lt hfuel)
      obtain ⟨hfirst, hrest⟩ := htext
      rw [List.mem_cons, not_or] at hnul
      obtain ⟨m', hcopy, hholds, hframe⟩ := ih (done ++ [c]) hnul.2
        (unread_write 0 c hplace hrest) (holds_snoc c hdone) (hplace.snoc c)
        (Nat.lt_of_succ_lt_succ hfuel)
      rw [List.append_cons]
      refine ⟨m', ?_, hholds, fun a ha => ?_⟩
      · rw [copyAll, hfirst, if_neg (Ne.symm hnul.1), ← hcopy, List.length_append,
          List.length_singleton, Nat.add_assoc]
      · simp only [List.length_append, List.length_cons, List.length_nil] at ha hframe
        rw [hframe a (by omega), write_of_ne m c (by omega)]

end Loops

section Text

variable (chars : Str) (trim : Int) (text : Str)

private theorem skipped_suffix : skipped chars trim text <:+ text := by
  rw [skipped]
  split
  · exact List.dropWhile_suffix _
  · exact List.suffix_refl text

private theorem trimmed_front : trimmed chars trim text <+: skipped chars trim text := by
  rw [trimmed]
  split
  · exact List.rdropWhile_prefix _ _
  · exact List.prefix_refl _

private theorem trimmed_sublist : List.Sublist (trimmed chars trim text) text :=
  (trimmed_front chars trim text).sublist.trans (skipped_suffix chars trim text).sublist

private theorem skipped_of_front {front : Str} (h : skipped chars trim text = text)
    (hfront : front <+: text) : skipped chars trim front = front := by
  cases front with
  | nil => simp [skipped]
  | cons c front =>
      obtain ⟨rest, rfl⟩ := hfront
      rw [skipped] at h ⊢
      split
      case isFalse => rfl
      case isTrue htrim =>
        rw [if_pos htrim, List.cons_append] at h
        by_cases hc : c ∈ chars
        · -- a shorter list does not start over with the character
          rw [List.dropWhile_cons_of_pos (by simpa using hc)] at h
          have hlen : ((front ++ rest).dropWhile (fun c => decide (c ∈ chars))).length ≤
              (front ++ rest).length := (List.dropWhile_suffix _).length_le
          rw [h, List.length_cons] at hlen
          exact absurd hlen (Nat.not_succ_le_self _)
        · rw [List.dropWhile_cons_of_neg (by simpa using hc)]

private theorem skipped_skipped :
    skipped chars trim (skipped chars trim text) = skipped chars trim text := by
  rw [skipped, skipped]
  split
  · exact List.dropWhile_idempotent _ _
  · rfl

private theorem trimmed_trimmed :
    trimmed chars trim (trimmed chars trim text) = trimmed chars trim text := by
  have hskip : skipped chars trim (trimmed chars trim text) = trimmed chars trim text :=
    skipped_of_front chars trim _ (skipped_skipped chars trim text)
      (trimmed_front chars trim text)
  rw [trimmed, hskip]
  split
  case isFalse => rfl
  case isTrue htrim =>
    rw [trimmed, if_pos htrim]
    exact List.rdropWhile_idempotent _ _

private theorem trimmed_eq_nil (h : ∀ c ∈ text, c ∈ chars) : trimmed chars trim text = [] := by
  rw [trimmed, skipped]
  split
  case isTrue =>
    refine List.rdropWhile_eq_nil_iff.mpr fun c hc => decide_eq_true (h c ?_)
    split at hc
    · exact (List.dropWhile_suffix _).subset hc
    · exact hc
  case isFalse htrim =>
    rw [if_pos (by omega)]
    exact List.dropWhile_eq_nil_iff.mpr fun c hc => decide_eq_true (h c hc)

end Text

/-- The memory after a text was trimmed: the destination has it, and nothing is
written but what is copied there and the terminator. -/
structure Trims (m : Mem) (d : Nat) (chars : Str) (trim : Int) (text : Str) (m' : Mem) : Prop where
  trimmed : StringAt m' d (trimmed chars trim text)
  others : ∀ a, (a < d ∨ d + (skipped chars trim text).length ≤ a ∧
    a ≠ d + (Strtrim.trimmed chars trim text).length) → m' a = m a

section Calls

variable {fuel : Nat} {m : Mem} {d s : Nat} {tset : CharSet} {chars : Str} {text : Str}

private theorem skipped_eq (hset : ∀ c, issetmem tset c = decide (c ∈ chars))
    (hnul : (0 : UInt8) ∉ chars)
    (trim : Int) (htext : StringAt m s text) (hfuel : text.length < fuel) :
    ∃ s', (if trim ≤ 0 then skip tset m fuel s else some s) = some s' ∧
      StringAt m s' (skipped chars trim text) ∧
      s' + (skipped chars trim text).length = s + text.length := by
  have hmember : issetmem tset = fun c => decide (c ∈ chars) := funext hset
  rw [skipped]
  split
  case isFalse => exact ⟨s, rfl, htext, rfl⟩
  case isTrue =>
    rw [← hmember]
    exact skip_eq (by rw [hset, decide_eq_false_iff_not]; exact hnul) htext hfuel

private theorem marked_eq (hset : ∀ c, issetmem tset c = decide (c ∈ chars)) {trim : Int}
    (htrim : 0 ≤ trim) (hnul : (0 : UInt8) ∉ skipped chars trim text)
    (hskipped : StringAt m s (skipped chars trim text))
    (hplace : Placed d s (skipped chars trim text).length)
    (hfuel : (skipped chars trim text).length < fuel) :
    ∃ m₁, copyMarking tset fuel m d s d = some (m₁, d + (trimmed chars trim text).length) ∧
      Trims m d chars trim text (write m₁ (d + (trimmed chars trim text).length) 0) := by
  have hmember : issetmem tset = fun c => decide (c ∈ chars) := funext hset
  obtain ⟨m₁, hcopy, hholds, hframe⟩ :=
    copyMarking_eq tset d [] hnul hskipped trivial hplace hfuel
  rw [List.nil_append, hmember] at hcopy
  rw [List.nil_append] at hholds hframe
  have htrimmed : trimmed chars trim text =
      (skipped chars trim text).rdropWhile (fun c => decide (c ∈ chars)) := by
    rw [trimmed, if_pos htrim]
  obtain ⟨cut, hcut⟩ := trimmed_front chars trim text
  refine ⟨m₁, by rw [htrimmed]; exact hcopy, ?_, fun a ha => ?_⟩
  · rw [← hcut] at hholds
    exact stringAt_cut hholds
  · have hne : a ≠ d + (trimmed chars trim text).length := by
      rcases ha with ha | ha
      · omega
      · exact ha.2
    rw [write_of_ne m₁ 0 hne]
    exact hframe a (ha.imp id And.left)

private theorem copied_eq {trim : Int} (htrim : ¬ 0 ≤ trim)
    (hnul : (0 : UInt8) ∉ skipped chars trim text)
    (hskipped : StringAt m s (skipped chars trim text))
    (hplace : Placed d s (skipped chars trim text).length)
    (hfuel : (skipped chars trim text).length < fuel) :
    ∃ m', copyAll fuel m d s = some m' ∧ Trims m d chars trim text m' := by
  obtain ⟨m', hcopy, hat, hframe⟩ := copyAll_eq d [] hnul hskipped trivial hplace hfuel
  rw [List.nil_append] at hat hframe
  have htrimmed : trimmed chars trim text = skipped chars trim text := by
    rw [trimmed, if_neg htrim]
  refine ⟨m', hcopy, by rw [htrimmed]; exact hat, fun a ha => hframe a ?_⟩
  rw [htrimmed] at ha
  rw [List.length_nil]
  omega

end Calls

/-- A call on a text that stands in memory ends with the text trimmed, wherever the
destination is but in the middle of what is still to be read. -/
theorem strtrim_eq (text chars : CString) (hascii : ∀ c ∈ chars.bytes, c < 128) (trim : Int)
    {m : Mem} {d s fuel : Nat} (htext : StringAt m s text.bytes)
    (hplace : Placed d s text.bytes.length) (hfuel : text.bytes.length < fuel) :
    ∃ m', strtrim fuel m d s chars trim = .ok (some (m', d)) ∧
      Trims m d chars.bytes trim text.bytes m' := by
  obtain ⟨tset, hmkset, hset⟩ := mkset_clearset hascii
  obtain ⟨s', hskip, hskipped, hlen⟩ := skipped_eq hset chars.noNul trim htext hfuel
  have hshorter := (skipped_suffix chars.bytes trim text.bytes).length_le
  have hnul : (0 : UInt8) ∉ skipped chars.bytes trim text.bytes := fun h =>
    text.noNul ((skipped_suffix chars.bytes trim text.bytes).subset h)
  have hplace' : Placed d s' (skipped chars.bytes trim text.bytes).length := by
    rcases hplace with hplace | hplace
    · exact .inl (by omega)
    · exact .inr (by omega)
  have hfuel' : (skipped chars.bytes trim text.bytes).length < fuel := by omega
  rw [strtrim, hmkset]
  by_cases htrim : 0 ≤ trim
  · obtain ⟨m₁, hcopy, hwritten⟩ := marked_eq hset htrim hnul hskipped hplace' hfuel'
    refine ⟨_, ?_, hwritten⟩
    rw [Except.map, hskip, Option.bind_some, if_pos htrim, hcopy, Option.map_some]
  · obtain ⟨m', hcopy, hwritten⟩ := copied_eq htrim hnul hskipped hplace' hfuel'
    refine ⟨m', ?_, hwritten⟩
    rw [Except.map, hskip, Option.bind_some, if_neg htrim, hcopy, Option.map_some]

/-- strtrim() is exact trimming, in place and to another buffer: it leaves the text
without its longest prefix and suffix of characters in the set, as the mode has it,
nothing of a text of such characters, and the same text when it is called again. -/
theorem strtrim_exact (text chars : CString) (hascii : ∀ c ∈ chars.bytes, c < 128) (trim : Int)
    {m : Mem} {d s fuel : Nat} (htext : StringAt m s text.bytes)
    (hplace : Placed d s text.bytes.length) (hfuel : text.bytes.length < fuel) :
    ∃ m', strtrim fuel m d s chars trim = .ok (some (m', d)) ∧
      Trims m d chars.bytes trim text.bytes m' ∧
      ((∀ c ∈ text.bytes, c ∈ chars.bytes) → StringAt m' d []) ∧
      ∀ d', Placed d' d text.bytes.length →
        ∃ m'', strtrim fuel m' d' d chars trim = .ok (some (m'', d')) ∧
          StringAt m'' d' (trimmed chars.bytes trim text.bytes) := by
  obtain ⟨m', hcall, htrims⟩ := strtrim_eq text chars hascii trim htext hplace hfuel
  refine ⟨m', hcall, htrims, fun hall => ?_, fun d' hplace' => ?_⟩
  · have hstring := htrims.trimmed
    rwa [trimmed_eq_nil _ _ _ hall] at hstring
  · have hshorter := (trimmed_sublist chars.bytes trim text.bytes).length_le
    have hagain : Placed d' d (trimmed chars.bytes trim text.bytes).length :=
      hplace'.imp id fun h => by omega
    obtain ⟨m'', hcall', htrims'⟩ := strtrim_eq
      ⟨trimmed chars.bytes trim text.bytes,
        fun h => text.noNul ((trimmed_sublist _ _ _).subset h)⟩
      chars hascii trim htrims.trimmed hagain (Nat.lt_of_le_of_lt hshorter hfuel)
    refine ⟨m'', hcall', ?_⟩
    have hstring := htrims'.trimmed
    rwa [trimmed_trimmed] at hstring

/-- The characters that the map files and variables are trimmed of. -/
def blanks : CString := ⟨lit " \t", by decide⟩

theorem blanks_ascii : ∀ c ∈ blanks.bytes, c < 128 := by
  have hchars : blanks.bytes = [32, 9] := by decide
  rw [hchars, List.forall_mem_cons, List.forall_mem_singleton]
  exact ⟨by decide, by decide⟩

private def padded : CString := ⟨lit " W1AW 10\t", by decide⟩

/-- The bytes from address 4 on. -/
private def paddedMem : Mem := fun a => (lit " W1AW 10\t").getD (a - 4) 0

theorem strtrim_exact_padded :
    StringAt paddedMem 4 (lit " W1AW 10\t") ∧
      ∃ m', strtrim 10 paddedMem 4 4 blanks 0 = .ok (some (m', 4)) ∧
        StringAt m' 4 (lit "W1AW 10") := by
  have htext : StringAt paddedMem 4 padded.bytes :=
    ⟨rfl, rfl, rfl, rfl, rfl, rfl, rfl, rfl, rfl, rfl, trivial⟩
  obtain ⟨m', hcall, htrims, -, -⟩ := strtrim_exact padded blanks
    blanks_ascii 0 htext (.inl (Nat.le_refl 4)) (Nat.lt_succ_self 9)
  refine ⟨htext, m', hcall, ?_⟩
  have htrimmed : trimmed blanks.bytes 0 padded.bytes = lit "W1AW 10" := by decide
  rw [← htrimmed]
  exact htrims.trimmed

section Uses

variable {m : Mem} {d s fuel : Nat}

/-- `strtrim(entrybuf, entrybuf, " \t", 1)` on a line of a map file. -/
theorem conf_strtrim {entry : CString} (htext : StringAt m s entry.bytes)
    (hfuel : entry.bytes.length < fuel) :
    ∃ m', strtrim fuel m s s blanks 1 = .ok (some (m', s)) ∧
      StringAt m' s (Conf.Model.strtrim entry.bytes) := by
  obtain ⟨m', hcall, htrims⟩ :=
    strtrim_eq entry blanks blanks_ascii 1 htext (.inl (Nat.le_refl s)) hfuel
  exact ⟨m', hcall, htrims.trimmed⟩

def blanksEol : CString := ⟨lit " \t\n", by decide⟩

private theorem blanksEol_bytes : blanksEol.bytes = [32, 9, 10] := by decide

private theorem blanksEol_ascii : ∀ c ∈ blanksEol.bytes, c < 128 := by
  rw [blanksEol_bytes, List.forall_mem_cons, List.forall_mem_cons, List.forall_mem_singleton]
  exact ⟨by decide, by decide, by decide⟩

private theorem isBlank_eq : Channels.Model.isBlank = fun c => decide (c ∈ blanksEol.bytes) := by
  funext c
  rw [Bool.eq_iff_iff, blanksEol_bytes]
  simp [Channels.Model.isBlank, or_assoc]

/-- `strtrim(cbuf, content, " \t\n", 0)` on the text of an element: what fits the
buffer stays in it. -/
theorem channels_strtrim {content : CString} {text : Str} (htext : StringAt m s content.bytes)
    (hfits : Channels.Model.strtrim content.bytes = .ok text)
    (hplace : Placed d s content.bytes.length) (hfuel : content.bytes.length < fuel) :
    ∃ m', strtrim fuel m d s blanksEol 0 = .ok (some (m', d)) ∧ StringAt m' d text ∧
      ∀ a, a < d ∨ d + Channels.Model.bigBuf ≤ a → m' a = m a := by
  obtain ⟨m', hcall, htrims⟩ := strtrim_eq content blanksEol blanksEol_ascii 0 htext hplace hfuel
  obtain ⟨⟨hcopied, hshort⟩, rfl⟩ := Channels.Entry.strtrim_eq_ok_iff.mp hfits
  rw [Channels.Isolation.trimText] at hshort ⊢
  rw [isBlank_eq] at hcopied hshort ⊢
  refine ⟨m', hcall, htrims.trimmed, fun a ha => htrims.others a ?_⟩
  refine ha.imp id fun ha => ⟨Nat.le_trans (Nat.add_le_add_left hcopied d) ha, ?_⟩
  exact Nat.ne_of_gt (Nat.lt_of_lt_of_le (Nat.add_lt_add_left hshort d) ha)

end Uses

end Rmsgw.Strtrim
