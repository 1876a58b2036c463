/- The symbol table as a finite map, under additions in front and assignments in
   place. -/

import Rmsgw.Strtrim

set_option autoImplicit false
set_option relaxedAutoImplicit false

namespace Rmsgw.Symbols

open Rmsgw.Lib.CStrings Rmsgw.Lib.Memory
open Rmsgw.Channels.Model (SymTab symLookup)
open Rmsgw.Strtrim (strtrim strtrim_eq trimmed blanks blanks_ascii)

/-- The table and the symbol installed in it; NULL on error. -/
def symAdd (symtab : SymTab) (s v : Option Str) : SymTab × Option (Str × Str) :=
  match s with
  | none => (symtab, none)
  | some name =>
      if name.length < 1 then (symtab, none)
      else
        let sp := (name, v.getD [])
        (sp :: symtab, some sp)

/-- Store a value in the first entry of a name. -/
def replaceValue (s v : Str) : SymTab → SymTab
  | [] => []
  | sp :: next => if sp.1 = s then (sp.1, v) :: next else sp :: replaceValue s v next

/-- `strtrim(sp, sp, whitespace, 0)`. -/
def stripped (s : Str) : Str := trimmed blanks.bytes 0 s

theorem strtrim_stripped {m : Mem} {a fuel : Nat} {s : CString} (hs : StringAt m a s.bytes)
    (hfuel : s.bytes.length < fuel) :
    ∃ m', strtrim fuel m a a blanks 0 = .ok (some (m', a)) ∧ StringAt m' a (stripped s.bytes) := by
  obtain ⟨m', hcall, htrims⟩ :=
    strtrim_eq s blanks blanks_ascii 0 hs (.inl (Nat.le_refl a)) hfuel
  exact ⟨m', hcall, htrims.trimmed⟩

def _varassign (symtab : SymTab) (sp vp : Str) : SymTab × Int :=
  let sp := stripped sp
  let vp := stripped vp
  match symLookup symtab sp with
  | none =>
      match symAdd symtab (some sp) (some vp) with
      | (symtab, none) => (symtab, -1)
      | (symtab, some _) => (symtab, 0)
  | some _ => (replaceValue sp vp symtab, 0)

/-- A call that may change the table. -/
inductive Call
  | add (s v : Option Str)
  | assign (sp vp : Str)

/-- The table after a call, and whether the call reports success. -/
def Call.perform (symtab : SymTab) : Call → SymTab × Bool
  | .add s v => ((symAdd symtab s v).1, (symAdd symtab s v).2.isSome)
  | .assign sp vp => ((_varassign symtab sp vp).1, (_varassign symtab sp vp).2 == 0)

/-- The table after calls that start from an empty one. -/
def table (calls : List Call) : SymTab := calls.foldl (fun t c => (c.perform t).1) []

/-- The name that a call means, empty for NULL. -/
def Call.name : Call → Str
  | .add s _ => s.getD []
  | .assign sp _ => stripped sp

def Call.value : Call → Str
  | .add _ v => v.getD []
  | .assign _ vp => stripped vp

def Call.isAssign : Call → Bool
  | .add _ _ => false
  | .assign _ _ => true

/-- The value given last for a name; there is none for the empty name. -/
def lastGiven (calls : List Call) (n : Str) : Option Str :=
  if n = [] then none
  else (calls.reverse.find? (fun c => decide (c.name = n))).map Call.value

section Tables

variable {symtab : SymTab}

/-- The names of a table, newest first. -/
def names (symtab : SymTab) : List Str := symtab.map Prod.fst

private theorem symLookup_eq_none (n : Str) : symLookup symtab n = none ↔ n ∉ names symtab := by
  rw [symLookup, Option.map_eq_none_iff, List.find?_eq_none, names, List.mem_map]
  constructor
  · rintro h ⟨e, he, rfl⟩
    exact h e he (beq_self_eq_true e.1)
  · intro h e he hbeq
    exact h ⟨e, he, beq_iff_eq.mp hbeq⟩

private theorem symLookup_cons (e : Str × Str) (n : Str) :
    symLookup (e :: symtab) n = if e.1 = n then some e.2 else symLookup symtab n := by
  by_cases hn : e.1 = n <;> simp [symLookup, hn]

/-- The table that an addition leaves is the one that the channel reader goes on with. -/
theorem symAdd_eq (s v : Str) :
    (symAdd symtab (some s) (some v)).1 = Channels.Model.symAdd symtab s v := by
  rw [symAdd, Channels.Model.symAdd]
  cases s with
  | nil => rfl
  | cons c s => rfl

private theorem names_replaceValue (s v : Str) :
    names (replaceValue s v symtab) = names symtab := by
  induction symtab with
  | nil => rfl
  | cons sp next ih =>
      rw [replaceValue]
      split
      · rfl
      · rw [names, List.map_cons, names, List.map_cons]
        exact congrArg (sp.1 :: ·) ih

private theorem symLookup_replaceValue {s : Str} (hs : s ∈ names symtab) (v n : Str) :
    symLookup (replaceValue s v symtab) n = if s = n then some v else symLookup symtab n := by
  induction symtab with
  | nil => cases hs
  | cons sp next ih =>
      rw [replaceValue]
      by_cases hsp : sp.1 = s
      · rw [if_pos hsp, symLookup_cons, symLookup_cons, hsp]
        split <;> rfl
      · have hmem : s ∈ names next := by
          rw [names, List.map_cons, List.mem_cons] at hs
          exact hs.resolve_left (Ne.symm hsp)
        rw [if_neg hsp, symLookup_cons, ih hmem, symLookup_cons]
        by_cases hn : sp.1 = n
        · have hne : ¬ s = n := fun h => hsp (hn.trans h.symm)
          rw [if_pos hn, if_neg hne, if_pos hn]
        · rw [if_neg hn, if_neg hn]

end Tables

section Calls

variable {symtab : SymTab}

/-- No entry has the empty name. -/
def Named (symtab : SymTab) : Prop := [] ∉ names symtab

private theorem symAdd_named {s : Str} (hs : s ≠ []) (v : Option Str) :
    symAdd symtab (some s) v = ((s, v.getD []) :: symtab, some (s, v.getD [])) := by
  have hlen : ¬ s.length < 1 := by simpa [Nat.lt_one_iff] using hs
  rw [symAdd]
  simp only [hlen, if_false]

private theorem perform_add {s : Str} (hs : s ≠ []) (v : Option Str) :
    (Call.add (some s) v).perform symtab = ((s, v.getD []) :: symtab, true) := by
  rw [Call.perform, symAdd_named hs]
  rfl

private theorem varassign_new {sp : Str} (vp : Str) (hnew : stripped sp ∉ names symtab) :
    (Call.assign sp vp).perform symtab =
      if stripped sp = [] then (symtab, false)
      else ((stripped sp, stripped vp) :: symtab, true) := by
  have hnone : symLookup symtab (stripped sp) = none := (symLookup_eq_none _).mpr hnew
  rw [Call.perform, _varassign]
  by_cases hsp : stripped sp = []
  · rw [if_pos hsp]
    rw [hsp] at hnone
    simp only [hsp, hnone]
    rfl
  · rw [if_neg hsp]
    simp only [hnone, symAdd_named hsp]
    rfl

private theorem varassign_known {sp : Str} (vp : Str) (hknown : stripped sp ∈ names symtab) :
    (Call.assign sp vp).perform symtab = (replaceValue (stripped sp) (stripped vp) symtab, true) := by
  have hsome : symLookup symtab (stripped sp) ≠ none := fun h =>
    (symLookup_eq_none _).mp h hknown
  obtain ⟨value, hvalue⟩ := Option.ne_none_iff_exists'.mp hsome
  rw [Call.perform, _varassign]
  simp only [hvalue]
  rfl

private theorem perform_cases (symtab : SymTab) (c : Call) :
    c.name = [] ∧ c.perform symtab = (symtab, false) ∨
      c.name ≠ [] ∧ c.perform symtab = ((c.name, c.value) :: symtab, true) ∧
        (c.isAssign = true → c.name ∉ names symtab) ∨
      c.name ∈ names symtab ∧ c.perform symtab = (replaceValue c.name c.value symtab, true) := by
  cases c with
  | add s v =>
      cases s with
      | none => exact .inl ⟨rfl, rfl⟩
      | some s =>
          by_cases hs : s = []
          · subst hs
            exact .inl ⟨rfl, rfl⟩
          · exact .inr (.inl ⟨hs, perform_add hs v, fun h => Bool.noConfusion h⟩)
  | assign sp vp =>
      by_cases hknown : stripped sp ∈ names symtab
      · exact .inr (.inr ⟨hknown, varassign_known vp hknown⟩)
      · have hcall := varassign_new vp hknown
        by_cases hsp : stripped sp = []
        · rw [if_pos hsp] at hcall
          exact .inl ⟨hsp, hcall⟩
        · rw [if_neg hsp] at hcall
          exact .inr (.inl ⟨hsp, hcall, fun _ => hknown⟩)

private theorem symLookup_perform (hnamed : Named symtab) (c : Call) (n : Str) :
    symLookup (c.perform symtab).1 n =
      if c.name ≠ [] ∧ c.name = n then some c.value else symLookup symtab n := by
  obtain ⟨hname, hcall⟩ | ⟨hname, hcall, -⟩ | ⟨hknown, hcall⟩ := perform_cases _ c
  · rw [hcall, if_neg fun h => h.1 hname]
  · rw [hcall, symLookup_cons]
    exact if_congr (and_iff_right hname).symm rfl rfl
  · have hname : c.name ≠ [] := fun h => hnamed (h ▸ hknown)
    rw [hcall, symLookup_replaceValue hknown]
    exact if_congr (and_iff_right hname).symm rfl rfl

private theorem named_perform (hnamed : Named symtab) (c : Call) : Named (c.perform symtab).1 := by
  obtain ⟨-, hcall⟩ | ⟨hname, hcall, -⟩ | ⟨-, hcall⟩ := perform_cases _ c
  · rw [hcall]
    exact hnamed
  · rw [hcall, Named, names, List.map_cons, List.mem_cons, not_or]
    exact ⟨Ne.symm hname, hnamed⟩
  · rw [hcall, Named, names_replaceValue]
    exact hnamed

private theorem nodup_perform {c : Call} (hc : c.isAssign = true)
    (hnodup : (names symtab).Nodup) : (names (c.perform symtab).1).Nodup := by
  obtain ⟨-, hcall⟩ | ⟨-, hcall, hnew⟩ | ⟨-, hcall⟩ := perform_cases _ c
  · rw [hcall]
    exact hnodup
  · rw [hcall, names, List.map_cons]
    exact List.nodup_cons.mpr ⟨hnew hc, hnodup⟩
  · rw [hcall, names_replaceValue]
    exact hnodup

end Calls

section Runs

private theorem table_snoc (calls : List Call) (c : Call) :
    table (calls ++ [c]) = (c.perform (table calls)).1 := by
  rw [table, List.foldl_append, List.foldl_cons, List.foldl_nil, table]

private theorem lastGiven_snoc (calls : List Call) (c : Call) (n : Str) :
    lastGiven (calls ++ [c]) n =
      if c.name ≠ [] ∧ c.name = n then some c.value else lastGiven calls n := by
  rw [lastGiven, lastGiven, List.reverse_append, List.reverse_singleton, List.singleton_append]
  by_cases hn : n = []
  · subst hn
    rw [if_pos rfl, if_pos rfl, if_neg fun h => h.1 h.2]
  · rw [if_neg hn, if_neg hn]
    by_cases hc : c.name = n
    · have hne : c.name ≠ [] := fun h => hn (hc.symm.trans h)
      rw [List.find?_cons_of_pos (by simpa using hc), if_pos ⟨hne, hc⟩, Option.map_some]
    · rw [List.find?_cons_of_neg (by simpa using hc), if_neg fun h => hc h.2]

private theorem table_named (calls : List Call) : Named (table calls) := by
  induction calls using List.reverseRecOn with
  | nil => exact List.not_mem_nil
  | append_singleton calls c ih =>
      rw [table_snoc]
      exact named_perform ih c

private theorem symLookup_table (calls : List Call) (n : Str) :
    symLookup (table calls) n = lastGiven calls n := by
  induction calls using List.reverseRecOn with
  | nil => simp [table, symLookup, lastGiven]
  | append_singleton calls c ih =>
      rw [table_snoc, symLookup_perform (table_named calls), lastGiven_snoc, ih]

private theorem names_nodup {calls : List Call} (h : ∀ c ∈ calls, c.isAssign = true) :
    (names (table calls)).Nodup := by
  induction calls using List.reverseRecOn with
  | nil => exact List.nodup_nil
  | append_singleton calls c ih =>
      rw [table_snoc]
      exact nodup_perform (h c (by simp))
        (ih fun c' hc' => h c' (List.mem_append_left _ hc'))

/-- The table is a finite map: after any calls a name has the value given last; a
call without a name changes nothing and fails, any other succeeds and leaves the
other names; and assignments alone make no name twice. -/
theorem symtab_finite_map (calls : List Call) :
    (∀ n, symLookup (table calls) n = lastGiven calls n) ∧
      (∀ c : Call, c.name = [] → c.perform (table calls) = (table calls, false)) ∧
      (∀ c : Call, c.name ≠ [] → (c.perform (table calls)).2 = true ∧
        ∀ n, n ≠ c.name → symLookup (table (calls ++ [c])) n = symLookup (table calls) n) ∧
      ((∀ c ∈ calls, c.isAssign = true) → (names (table calls)).Nodup) := by
  have hnamed := table_named calls
  refine ⟨symLookup_table calls, fun c hc => ?_, fun c hc => ⟨?_, fun n hn => ?_⟩, names_nodup⟩
  · obtain ⟨-, hcall⟩ | ⟨hname, -, -⟩ | ⟨hknown, -⟩ := perform_cases _ c
    · exact hcall
    · exact absurd hc hname
    · exact absurd (hc ▸ hknown) hnamed
  · obtain ⟨hname, -⟩ | ⟨-, hcall, -⟩ | ⟨-, hcall⟩ := perform_cases _ c
    · exact absurd hname hc
    · rw [hcall]
    · rw [hcall]
  · rw [table_snoc, symLookup_perform hnamed, if_neg fun h => hn h.2.symm]

end Runs

end Rmsgw.Symbols
