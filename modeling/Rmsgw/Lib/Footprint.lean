/- Which bytes of an array a scan or a comparison looks at, and that it looks at
   no others: arrays that agree there are treated alike. -/

import Rmsgw.Lib.CStrings

set_option autoImplicit false
set_option relaxedAutoImplicit false

namespace Rmsgw.Lib.Footprint

open Rmsgw.Lib.CStrings

/-- Two arrays hold the same bytes at some offsets. -/
def Agree (offsets : List Nat) (a b : List UInt8) : Prop := ∀ i ∈ offsets, a[i]? = b[i]?

theorem Agree.append_left {is js : List Nat} {a b : List UInt8} (h : Agree (is ++ js) a b) :
    Agree is a b := fun i hi => h i (List.mem_append_left js hi)

theorem Agree.append_right {is js : List Nat} {a b : List UInt8} (h : Agree (is ++ js) a b) :
    Agree js a b := fun i hi => h i (List.mem_append_right is hi)

theorem agree_of_front {offsets : List Nat} {front a b : List UInt8}
    (h : ∀ i ∈ offsets, i < front.length) : Agree offsets (front ++ a) (front ++ b) := by
  intro i hi
  rw [List.getElem?_append_left (h i hi), List.getElem?_append_left (h i hi)]

/-- The offsets from the start that `strncmp(a, s, strlen(s))` looks at: it stops
at the first difference. -/
def compareReads : List UInt8 → List UInt8 → List Nat
  | a :: as, b :: bs => 0 :: if a = b then (compareReads as bs).map (· + 1) else []
  | _, _ => []

theorem compareReads_lt {a s : List UInt8} {i : Nat} (h : i ∈ compareReads a s) : i < s.length := by
  induction s generalizing a i with
  | nil => cases a <;> simp [compareReads] at h
  | cons b bs ih =>
      cases a with
      | nil => simp [compareReads] at h
      | cons a as =>
          rw [compareReads, List.mem_cons] at h
          rcases h with rfl | h
          · exact Nat.succ_pos _
          · split at h
            · obtain ⟨j, hj, rfl⟩ := List.mem_map.mp h
              exact Nat.succ_lt_succ (ih hj)
            · cases h

theorem isPrefixOf_congr {a b s : List UInt8} (hlen : a.length = b.length)
    (h : Agree (compareReads a s) a b) : s.isPrefixOf a = s.isPrefixOf b := by
  induction s generalizing a b with
  | nil => rfl
  | cons c s ih =>
      cases a with
      | nil =>
          cases b with
          | nil => rfl
          | cons _ _ => cases hlen
      | cons x a =>
          cases b with
          | nil => cases hlen
          | cons y b =>
              have hfirst := h 0 (by rw [compareReads]; exact List.mem_cons_self)
              obtain rfl : x = y := by simpa using hfirst
              rw [List.isPrefixOf_cons_cons, List.isPrefixOf_cons_cons]
              by_cases hx : x = c
              · rw [ih (Nat.succ.inj hlen)]
                intro i hi
                have hnext := h (i + 1) (by
                  rw [compareReads, if_pos hx]
                  exact List.mem_cons_of_mem _ (List.mem_map_of_mem hi))
                simpa using hnext
              · have hne : (c == x) = false := beq_false_of_ne (Ne.symm hx)
                rw [hne, Bool.false_and, Bool.false_and]

theorem compareReads_front {front behind s : List UInt8} (h : front <+: s → front = s) {i : Nat}
    (hi : i ∈ compareReads (front ++ behind) s) : i < front.length := by
  induction s generalizing front i with
  | nil => cases front <;> cases behind <;> simp [compareReads] at hi
  | cons c s ih =>
      cases front with
      | nil => exact absurd (h ⟨c :: s, rfl⟩) (by simp)
      | cons x front =>
          rw [List.cons_append, compareReads, List.mem_cons] at hi
          rcases hi with rfl | hi
          · exact Nat.succ_pos _
          · split at hi
            · rename_i hx
              obtain ⟨j, hj, rfl⟩ := List.mem_map.mp hi
              refine Nat.succ_lt_succ (ih (fun hpre => ?_) hj)
              have hall := h (List.cons_prefix_cons.mpr ⟨hx, hpre⟩)
              exact (List.cons.inj hall).2
            · cases hi

theorem compareReads_nul {front behind s : List UInt8} (hs : (0 : UInt8) ∉ s) {i : Nat}
    (hi : i ∈ compareReads (front ++ 0 :: behind) s) : i ≤ front.length := by
  induction front generalizing s i with
  | nil =>
      cases s with
      | nil => simp [compareReads] at hi
      | cons c s =>
          have hne : ¬ (0 : UInt8) = c := fun h => hs (h ▸ List.mem_cons_self)
          rw [List.nil_append, compareReads, if_neg hne, List.mem_singleton] at hi
          rw [hi, List.length_nil]
  | cons x front ih =>
      cases s with
      | nil => simp [compareReads] at hi
      | cons c s =>
          rw [List.cons_append, compareReads, List.mem_cons] at hi
          rcases hi with rfl | hi
          · exact Nat.zero_le _
          · split at hi
            · obtain ⟨j, hj, rfl⟩ := List.mem_map.mp hi
              exact Nat.succ_le_succ (ih (fun h => hs (List.mem_cons_of_mem c h)) hj)
            · cases hi

theorem length_mem_compareReads {front behind s : List UInt8} (h : front <+: s) (hne : front ≠ s)
    (hmore : behind ≠ []) : front.length ∈ compareReads (front ++ behind) s := by
  induction front generalizing s with
  | nil =>
      cases s with
      | nil => exact absurd rfl hne
      | cons c s =>
          obtain ⟨b, bs, rfl⟩ := List.exists_cons_of_ne_nil hmore
          exact List.mem_cons_self
  | cons x front ih =>
      cases s with
      | nil => simp at h
      | cons c s =>
          obtain ⟨rfl, hpre⟩ := List.cons_prefix_cons.mp h
          have hne' : front ≠ s := fun heq => hne (by rw [heq])
          rw [List.cons_append, compareReads, if_pos rfl, List.length_cons]
          exact List.mem_cons_of_mem _ (List.mem_map_of_mem (ih hpre hne'))

/-- The offsets that a loop from `p` on looks at, up to and with the first byte
that stops it. -/
def scanReads (buf : List UInt8) (p : Nat) (stop : UInt8 → Bool) : List Nat :=
  List.range' p (((buf.drop p).takeWhile (fun c => !stop c)).length + 1)

private theorem mem_scanReads {buf : List UInt8} {p i : Nat} {stop : UInt8 → Bool} :
    i ∈ scanReads buf p stop ↔
      p ≤ i ∧ i ≤ p + ((buf.drop p).takeWhile (fun c => !stop c)).length := by
  rw [scanReads, List.mem_range'_1, ← Nat.add_assoc, Nat.lt_succ_iff]

theorem takeWhile_congr {q : UInt8 → Bool} {s t : List UInt8}
    (h : ∀ i ≤ (s.takeWhile q).length, s[i]? = t[i]?) : s.takeWhile q = t.takeWhile q := by
  induction s generalizing t with
  | nil =>
      have hfirst := h 0 (Nat.zero_le _)
      cases t with
      | nil => rfl
      | cons c t => simp at hfirst
  | cons b s ih =>
      have hfirst := h 0 (Nat.zero_le _)
      cases t with
      | nil => simp at hfirst
      | cons c t =>
          obtain rfl : b = c := by simpa using hfirst
          by_cases hb : q b = true
          · rw [List.takeWhile_cons_of_pos hb, List.takeWhile_cons_of_pos hb, ih]
            intro i hi
            have hnext := h (i + 1) (by
              rw [List.takeWhile_cons_of_pos hb]
              exact Nat.succ_le_succ hi)
            simpa using hnext
          · rw [List.takeWhile_cons_of_neg hb, List.takeWhile_cons_of_neg hb]

theorem scan_congr {a b : List UInt8} {p : Nat} {stop : UInt8 → Bool}
    (h : Agree (scanReads a p stop) a b) :
    (a.drop p).takeWhile (fun c => !stop c) = (b.drop p).takeWhile (fun c => !stop c) := by
  refine takeWhile_congr fun i hi => ?_
  rw [List.getElem?_drop, List.getElem?_drop]
  exact h _ (mem_scanReads.mpr ⟨Nat.le_add_right p i, Nat.add_le_add_left hi p⟩)

theorem takeWhile_terminated {q : UInt8 → Bool} (hq : q 0 = false) (s rest : List UInt8) :
    (s ++ 0 :: rest).takeWhile q = s.takeWhile q := by
  induction s with
  | nil => simp [hq]
  | cons c s ih =>
      rw [List.cons_append, List.takeWhile_cons, List.takeWhile_cons, ih]

theorem scanReads_inside {s rest : List UInt8} {p i : Nat} {stop : UInt8 → Bool}
    (hstop : stop 0 = true) (hp : p ≤ s.length) (h : i ∈ scanReads (s ++ 0 :: rest) p stop) :
    i ≤ s.length := by
  have hle := (mem_scanReads.mp h).2
  rw [List.drop_append_of_le_length hp, takeWhile_terminated (by simp [hstop])] at hle
  have hrest := (List.takeWhile_prefix (l := s.drop p) (fun c => !stop c)).length_le
  rw [List.length_drop] at hrest
  omega

theorem drop_length_takeWhile (q : UInt8 → Bool) (s : List UInt8) :
    s.drop (s.takeWhile q).length = s.dropWhile q := by
  calc s.drop (s.takeWhile q).length
      = (s.takeWhile q ++ s.dropWhile q).drop (s.takeWhile q).length := by
        rw [List.takeWhile_append_dropWhile]
    _ = s.dropWhile q := List.drop_left

end Rmsgw.Lib.Footprint
