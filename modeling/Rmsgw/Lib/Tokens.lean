/- Tokens between separators: what strtok() brings call by call. -/

import Mathlib.Data.List.TakeWhile

set_option autoImplicit false
set_option relaxedAutoImplicit false

namespace Rmsgw.Lib.Tokens

universe u

variable {α : Type u}

/-- The pieces between runs of separators, none of them empty. -/
def tokens (sep : α → Bool) (s : List α) : List (List α) :=
  (s.splitOnP sep).filter (fun t => !t.isEmpty)

/-- The next token and what is left behind the separator that ends it. -/
def strtok (sep : α → Bool) (s : List α) : Option (List α × List α) :=
  match s.dropWhile sep with
  | [] => none
  | c :: rest =>
      some ((c :: rest).takeWhile (fun b => !sep b), ((c :: rest).dropWhile (fun b => !sep b)).drop 1)

variable {sep : α → Bool}

private theorem tokens_sep {c : α} (hc : sep c = true) (s : List α) :
    tokens sep (c :: s) = tokens sep s := by
  simp [tokens, List.splitOnP_cons_eq_if_modifyHead, hc]

private theorem tokens_dropWhile (s : List α) : tokens sep (s.dropWhile sep) = tokens sep s := by
  induction s with
  | nil => rfl
  | cons c s ih =>
      by_cases hc : sep c = true
      · rw [List.dropWhile_cons_of_pos hc, ih, tokens_sep hc]
      · rw [List.dropWhile_cons_of_neg hc]

private theorem tokens_word {w : List α} (hne : w ≠ []) (hw : ∀ c ∈ w, sep c = false)
    {rest : List α} (hrest : ∀ c ∈ rest.head?, sep c = true) :
    tokens sep (w ++ rest) = w :: tokens sep (rest.drop 1) := by
  have hkept : (!w.isEmpty) = true := by simpa using hne
  cases rest with
  | nil =>
      rw [tokens, List.append_nil, List.splitOnP_eq_singleton hw]
      simp [tokens, hkept]
  | cons c rest =>
      rw [tokens, List.splitOnP_append_cons_of_forall_mem hw c (hrest c rfl),
        List.filter_cons, if_pos hkept]
      rfl

theorem tokens_of_none {s : List α} (h : strtok sep s = none) : tokens sep s = [] := by
  rw [strtok] at h
  split at h
  · rename_i hdrop
    rw [← tokens_dropWhile, hdrop]
    rfl
  · cases h

theorem tokens_of_some {s tok rest : List α} (h : strtok sep s = some (tok, rest)) :
    tokens sep s = tok :: tokens sep rest := by
  rw [strtok] at h
  split at h
  · cases h
  rename_i c more hdrop
  obtain ⟨rfl, rfl⟩ := Prod.mk.inj (Option.some.inj h)
  have hc : sep c = false := by
    have hhead := List.head?_dropWhile_not sep s
    rw [hdrop] at hhead
    simpa using hhead
  have hne : (c :: more).takeWhile (fun b => !sep b) ≠ [] := by simp [hc]
  have hword : ∀ b ∈ (c :: more).takeWhile (fun b => !sep b), sep b = false := fun b hb => by
    simpa using List.mem_takeWhile_imp hb
  have hend : ∀ b ∈ ((c :: more).dropWhile (fun b => !sep b)).head?, sep b = true := by
    intro b hb
    have hhead := List.head?_dropWhile_not (fun b => !sep b) (c :: more)
    rw [Option.mem_def.mp hb] at hhead
    simpa using hhead
  have hsplit := tokens_word hne hword hend
  rw [List.takeWhile_append_dropWhile] at hsplit
  rw [← tokens_dropWhile, hdrop, hsplit]

theorem strtok_length {s tok rest : List α} (h : strtok sep s = some (tok, rest)) :
    tok.length ≤ s.length ∧ rest.length ≤ s.length := by
  have hdrop := (List.dropWhile_suffix (p := sep) (l := s)).length_le
  rw [strtok] at h
  split at h
  · cases h
  · rename_i c more heq
    rw [heq] at hdrop
    obtain ⟨rfl, rfl⟩ := Prod.mk.inj (Option.some.inj h)
    have htake := (List.takeWhile_prefix (l := c :: more) (fun b => !sep b)).length_le
    have hend := (List.dropWhile_suffix (l := c :: more) (p := fun b => !sep b)).length_le
    rw [List.length_drop]
    omega

private theorem mem_splitOnP {s t : List α} (h : t ∈ s.splitOnP sep) : ∀ c ∈ t, sep c = false := by
  induction s generalizing t with
  | nil =>
      rw [List.splitOnP_nil, List.mem_singleton] at h
      simp [h]
  | cons b s ih =>
      rw [List.splitOnP_cons_eq_if_modifyHead] at h
      split at h
      · rcases List.mem_cons.mp h with rfl | h
        · simp
        · exact ih h
      · rename_i hb
        cases hs : s.splitOnP sep with
        | nil => exact absurd hs (List.splitOnP_ne_nil sep s)
        | cons piece more =>
            rw [hs, List.modifyHead_cons] at h
            rw [hs] at ih
            rcases List.mem_cons.mp h with rfl | h
            · exact List.forall_mem_cons.mpr ⟨by simpa using hb, ih List.mem_cons_self⟩
            · exact ih (List.mem_cons_of_mem piece h)

theorem mem_tokens {s t : List α} (h : t ∈ tokens sep s) : t ≠ [] ∧ ∀ c ∈ t, sep c = false := by
  obtain ⟨hpiece, hkept⟩ := List.mem_filter.mp h
  exact ⟨by simpa using hkept, mem_splitOnP hpiece⟩

end Rmsgw.Lib.Tokens
