/- Logs of events in time order: what an event needs before it and what it
   permits behind it, checked one event at a time. -/

import Mathlib.Data.List.Induction

set_option autoImplicit false
set_option relaxedAutoImplicit false

namespace Rmsgw.Lib.Transcript

universe u

variable {ε : Type u} {needs : List ε → ε → Prop} {permits : ε → ε → Prop}

/-- Every event finds what it needs in front of it, and everything behind it is
something it permits. -/
def Ordered (needs : List ε → ε → Prop) (permits : ε → ε → Prop) (log : List ε) : Prop :=
  ∀ before e after, log = before ++ e :: after →
    needs before e ∧ ∀ later ∈ after, permits e later

theorem split_snoc_iff {log before after : List ε} {x e : ε} :
    log ++ [x] = before ++ e :: after ↔
      (after = [] ∧ log = before ∧ x = e) ∨
        ∃ after', after = after' ++ [x] ∧ log = before ++ e :: after' := by
  constructor
  · intro heq
    rcases List.eq_nil_or_concat after with rfl | ⟨after', y, rfl⟩
    · obtain ⟨hlog, hx⟩ := List.append_inj' heq rfl
      exact .inl ⟨rfl, hlog, List.singleton_inj.mp hx⟩
    · have hsplit : log ++ [x] = (before ++ e :: after') ++ [y] := by
        simpa using heq
      obtain ⟨hlog, hx⟩ := List.append_inj' hsplit rfl
      obtain rfl := List.singleton_inj.mp hx
      exact .inr ⟨after', by rw [List.concat_eq_append], hlog⟩
  · rintro (⟨rfl, rfl, rfl⟩ | ⟨after', rfl, rfl⟩)
    · rfl
    · simp

theorem ordered_nil : Ordered needs permits [] := by
  intro before e after h
  cases before <;> cases h

theorem ordered_snoc {log : List ε} {x : ε} (h : Ordered needs permits log)
    (hneeds : needs log x) (hpermits : ∀ e ∈ log, permits e x) :
    Ordered needs permits (log ++ [x]) := by
  intro before e after heq
  rcases split_snoc_iff.mp heq with ⟨rfl, rfl, rfl⟩ | ⟨after', rfl, rfl⟩
  · exact ⟨hneeds, fun later hl => by cases hl⟩
  · obtain ⟨hn, hp⟩ := h before e after' rfl
    refine ⟨hn, ?_⟩
    intro later hl
    rcases List.mem_append.mp hl with hl | hl
    · exact hp later hl
    · obtain rfl := List.mem_singleton.mp hl
      exact hpermits e (by simp)

/-- A log is in order exactly when it was in order before its last event, and
that event found what it needs and is permitted. -/
theorem ordered_snoc_iff {log : List ε} {x : ε} :
    Ordered needs permits (log ++ [x]) ↔
      Ordered needs permits log ∧ needs log x ∧ ∀ e ∈ log, permits e x := by
  refine ⟨fun h => ⟨?_, (h log x [] rfl).1, ?_⟩, fun h => ordered_snoc h.1 h.2.1 h.2.2⟩
  · rintro before e after rfl
    obtain ⟨hn, hp⟩ := h before e (after ++ [x]) (by simp)
    exact ⟨hn, fun later hl => hp later (List.mem_append_left _ hl)⟩
  · intro e he
    obtain ⟨before, after, rfl⟩ := List.append_of_mem he
    exact (h before e (after ++ [x]) (by simp)).2 x (by simp)

/-- A property that each event decides holds at every stage of a log exactly when each
event meets the condition for it on what is in front of it. -/
theorem forall_stage_iff {P : List ε → Prop} {C : List ε → ε → Prop} (start : P [])
    (decided : ∀ log x, P log → (P (log ++ [x]) ↔ C log x)) (log : List ε) :
    (∀ stage, stage <+: log → P stage) ↔ Ordered C (fun _ _ => True) log := by
  induction log using List.reverseRecOn with
  | nil =>
      refine iff_of_true (fun stage hstage => ?_) ordered_nil
      rw [List.prefix_nil.mp hstage]
      exact start
  | append_singleton log x ih =>
      have hstages : (∀ stage, stage <+: log ++ [x] → P stage) ↔
          (∀ stage, stage <+: log → P stage) ∧ P (log ++ [x]) := by
        constructor
        · intro h
          exact ⟨fun stage hstage => h stage (hstage.trans (List.prefix_append _ _)),
            h _ (List.prefix_refl _)⟩
        · rintro ⟨hlog, hall⟩ stage hstage
          rcases List.prefix_concat_iff.mp hstage with rfl | hstage
          · exact hall
          · exact hlog stage hstage
      rw [hstages, ordered_snoc_iff, ← ih]
      refine and_congr_right fun hlog => ?_
      rw [decided log x (hlog log (List.prefix_refl _))]
      exact (and_iff_left fun _ _ => trivial).symm

/-- Some event starts a condition that nothing behind it ends. -/
def Since (starts ends : ε → Prop) (log : List ε) : Prop :=
  ∃ before e after, log = before ++ e :: after ∧ starts e ∧ ∀ later ∈ after, ¬ ends later

/-- Some event stands in relation `R` to the log in front of it. -/
def Occurs (R : List ε → ε → Prop) (log : List ε) : Prop :=
  ∃ before e after, log = before ++ e :: after ∧ R before e

variable {starts ends : ε → Prop} {R : List ε → ε → Prop}

theorem since_snoc {log : List ε} {x : ε} :
    Since starts ends (log ++ [x]) ↔ starts x ∨ (Since starts ends log ∧ ¬ ends x) := by
  constructor
  · rintro ⟨before, e, after, heq, hstart, hend⟩
    rcases split_snoc_iff.mp heq with ⟨-, -, rfl⟩ | ⟨after', rfl, rfl⟩
    · exact .inl hstart
    · exact .inr ⟨⟨before, e, after', rfl, hstart,
        fun later hl => hend later (List.mem_append_left _ hl)⟩, hend x (by simp)⟩
  · rintro (hstart | ⟨⟨before, e, after, rfl, hstart, hend⟩, hx⟩)
    · exact ⟨log, x, [], rfl, hstart, fun _ hl => by cases hl⟩
    · refine ⟨before, e, after ++ [x], by simp, hstart, ?_⟩
      intro later hl
      rcases List.mem_append.mp hl with hl | hl
      · exact hend later hl
      · rwa [List.mem_singleton.mp hl]

theorem occurs_snoc {log : List ε} {x : ε} : Occurs R (log ++ [x]) ↔ Occurs R log ∨ R log x := by
  constructor
  · rintro ⟨before, e, after, heq, hR⟩
    rcases split_snoc_iff.mp heq with ⟨-, rfl, rfl⟩ | ⟨after', rfl, rfl⟩
    · exact .inr hR
    · exact .inl ⟨before, e, after', rfl, hR⟩
  · rintro (⟨before, e, after, rfl, hR⟩ | hR)
    · exact ⟨before, e, after ++ [x], by simp, hR⟩
    · exact ⟨log, x, [], rfl, hR⟩

theorem since_append_quiet {log es : List ε} (h : ∀ x ∈ es, ¬ starts x ∧ ¬ ends x) :
    Since starts ends (log ++ es) ↔ Since starts ends log := by
  induction es using List.reverseRecOn with
  | nil => rw [List.append_nil]
  | append_singleton es x ih =>
      obtain ⟨hstart, hend⟩ := h x (by simp)
      rw [← List.append_assoc, since_snoc, ih fun y hy => h y (List.mem_append_left _ hy)]
      simp [hstart, hend]

theorem occurs_append_quiet {log es : List ε} (h : ∀ x ∈ es, ∀ before, ¬ R before x) :
    Occurs R (log ++ es) ↔ Occurs R log := by
  induction es using List.reverseRecOn with
  | nil => rw [List.append_nil]
  | append_singleton es x ih =>
      rw [← List.append_assoc, occurs_snoc, ih fun y hy => h y (List.mem_append_left _ hy)]
      exact or_iff_left (h x (by simp) _)

end Rmsgw.Lib.Transcript
