/- Finite runs of deterministic processes that put questions to an environment:
   invariants, per-step conditions and pairs of runs on the same answers. -/

import Mathlib.Data.List.Induction

set_option autoImplicit false
set_option relaxedAutoImplicit false

namespace Rmsgw.Lib.Process

universe u v w x

/-- A process consumes one answer at a time; `none` rejects an answer that does
not fit the question the state is waiting on. -/
abbrev Step (σ : Type u) (ι : Type v) := σ → ι → Option σ

variable {σ : Type u} {τ : Type w} {ι : Type v}

/-- Consume a finite sequence of answers. -/
def run (step : Step σ ι) : σ → List ι → Option σ
  | s, [] => some s
  | s, a :: as => (step s a).bind (fun t => run step t as)

theorem run_cons_eq_some {step : Step σ ι} {s u : σ} {a : ι} {as : List ι} :
    run step s (a :: as) = some u ↔ ∃ t, step s a = some t ∧ run step t as = some u := by
  simp only [run, Option.bind_eq_some_iff]

theorem run_snoc_eq_some {step : Step σ ι} {s u : σ} {as : List ι} {a : ι} :
    run step s (as ++ [a]) = some u ↔ ∃ t, run step s as = some t ∧ step t a = some u := by
  induction as generalizing s with
  | nil => simp [run]
  | cons b as ih =>
      simp only [List.cons_append, run_cons_eq_some, ih]
      constructor
      · rintro ⟨r, hr, t, ht, hu⟩
        exact ⟨t, ⟨r, hr, ht⟩, hu⟩
      · rintro ⟨t, ⟨r, hr, ht⟩, hu⟩
        exact ⟨r, hr, t, ht, hu⟩

theorem run_append (step : Step σ ι) (s : σ) (as bs : List ι) :
    run step s (as ++ bs) = (run step s as).bind (fun t => run step t bs) := by
  induction as generalizing s with
  | nil => rfl
  | cons a as ih =>
      simp only [List.cons_append, run, Option.bind_assoc]
      congr 1
      funext t
      exact ih t

/-- What every accepted step preserves, every run preserves. -/
theorem run_preserves {step : Step σ ι} {P : σ → Prop}
    (keep : ∀ s a t, step s a = some t → P s → P t)
    {s t : σ} {as : List ι} (h : run step s as = some t) (hs : P s) : P t := by
  induction as generalizing s with
  | nil => exact Option.some.inj h ▸ hs
  | cons a as ih =>
      obtain ⟨r, hr, hrest⟩ := run_cons_eq_some.mp h
      exact ih hrest (keep s a r hr hs)

/-- What holds of the start and is carried on by each accepted step, together with
the answers consumed so far, holds at the end of every run. -/
theorem run_induction {step : Step σ ι} {P : List ι → σ → Prop} {s : σ} (start : P [] s)
    (carry : ∀ as u a t, step u a = some t → P as u → P (as ++ [a]) t)
    {as : List ι} {t : σ} (h : run step s as = some t) : P as t := by
  induction as using List.reverseRecOn generalizing t with
  | nil => exact Option.some.inj h ▸ start
  | append_singleton as a ih =>
      obtain ⟨u, hu, ht⟩ := run_snoc_eq_some.mp h
      exact carry as u a t ht (ih hu)

/-- What the steps of a run contribute, added up. -/
def tally (step : Step σ ι) (f : σ → ι → Nat) : σ → List ι → Nat
  | _, [] => 0
  | s, a :: as =>
      f s a +
        match step s a with
        | some t => tally step f t as
        | none => 0

/-- A quantity that each step raises by its contribution is raised by a run by
theirs together. -/
theorem run_tally {step : Step σ ι} {f : σ → ι → Nat} {m : σ → Nat}
    (adds : ∀ s a t, step s a = some t → m t = m s + f s a)
    {s t : σ} {as : List ι} (h : run step s as = some t) : m t = m s + tally step f s as := by
  induction as generalizing s with
  | nil => exact Option.some.inj h ▸ (Nat.add_zero _).symm
  | cons a as ih =>
      obtain ⟨r, hr, hrest⟩ := run_cons_eq_some.mp h
      have hstep := adds s a r hr
      have hrun := ih hrest
      simp only [tally, hr]
      omega

/-- Every step the run takes meets the condition `C` on the state before the
step and the answer it consumes. -/
def Meets (step : Step σ ι) (C : σ → ι → Prop) : σ → List ι → Prop
  | _, [] => True
  | s, a :: as => C s a ∧ ∀ t, step s a = some t → Meets step C t as

instance Meets.decidable {step : Step σ ι} {C : σ → ι → Prop} [∀ s a, Decidable (C s a)] :
    ∀ (s : σ) (as : List ι), Decidable (Meets step C s as)
  | _, [] => isTrue trivial
  | s, a :: as =>
      match h : step s a with
      | none => decidable_of_iff (C s a)
          ⟨fun hC => ⟨hC, fun t ht => by rw [h] at ht; cases ht⟩, fun hm => hm.1⟩
      | some t =>
          have : Decidable (Meets step C t as) := Meets.decidable t as
          decidable_of_iff (C s a ∧ Meets step C t as)
            ⟨fun hm => ⟨hm.1, fun u hu => Option.some.inj (h.symm.trans hu) ▸ hm.2⟩,
              fun hm => ⟨hm.1, hm.2 t h⟩⟩

/-- What every step meeting `C` preserves, every run meeting `C` preserves. -/
theorem Meets.preserves {step : Step σ ι} {C : σ → ι → Prop} {P : σ → Prop}
    (keep : ∀ s a t, C s a → step s a = some t → P s → P t)
    {s t : σ} {as : List ι} (hC : Meets step C s as)
    (h : run step s as = some t) (hs : P s) : P t := by
  induction as generalizing s with
  | nil => exact Option.some.inj h ▸ hs
  | cons a as ih =>
      obtain ⟨r, hr, hrest⟩ := run_cons_eq_some.mp h
      exact ih (hC.2 r hr) hrest (keep s a r hC.1 hr hs)

theorem Meets.of_forall {step : Step σ ι} {C : ι → Prop} {s : σ} {as : List ι}
    (h : ∀ a ∈ as, C a) : Meets step (fun _ a => C a) s as := by
  induction as generalizing s with
  | nil => trivial
  | cons a as ih =>
      exact ⟨h a List.mem_cons_self, fun _ _ => ih fun b hb => h b (List.mem_cons_of_mem a hb)⟩

/-- An invariant that entails the condition makes every run meet it. -/
theorem Meets.of_invariant {step : Step σ ι} {C : σ → ι → Prop} {P : σ → Prop}
    (meets : ∀ s a, P s → C s a) (keep : ∀ s a t, step s a = some t → P s → P t)
    {s : σ} {as : List ι} (hs : P s) : Meets step C s as := by
  induction as generalizing s with
  | nil => trivial
  | cons a as ih => exact ⟨meets s a hs, fun t ht => ih (keep s a t ht hs)⟩

theorem Meets.append {step : Step σ ι} {C : σ → ι → Prop} {s : σ} {as bs : List ι}
    (has : Meets step C s as) (hbs : ∀ t, run step s as = some t → Meets step C t bs) :
    Meets step C s (as ++ bs) := by
  induction as generalizing s with
  | nil => exact hbs s rfl
  | cons a as ih =>
      refine ⟨has.1, fun r hr => ih (has.2 r hr) fun t ht => ?_⟩
      exact hbs t (run_cons_eq_some.mpr ⟨r, hr, ht⟩)

theorem Meets.congr {step : Step σ ι} {C C' D : σ → ι → Prop}
    (same : ∀ s a, D s a → (C s a ↔ C' s a)) {s : σ} {as : List ι} (hD : Meets step D s as) :
    Meets step C s as ↔ Meets step C' s as := by
  induction as generalizing s with
  | nil => exact Iff.rfl
  | cons a as ih =>
      refine and_congr (same s a hD.1) (forall_congr' fun t => forall_congr' fun ht => ?_)
      exact ih (hD.2 t ht)

/-- A state property that each step decides by `C` holds at the end of a run
exactly when it held at the start and the whole run meets `C`. -/
theorem run_iff_meets {step : Step σ ι} {C : σ → ι → Prop} {Q : σ → Prop}
    (decided : ∀ s a t, step s a = some t → (Q t ↔ Q s ∧ C s a))
    {s t : σ} {as : List ι} (h : run step s as = some t) :
    Q t ↔ Q s ∧ Meets step C s as := by
  induction as generalizing s with
  | nil =>
      obtain rfl := Option.some.inj h
      simp [Meets]
  | cons a as ih =>
      obtain ⟨r, hr, hrest⟩ := run_cons_eq_some.mp h
      rw [ih hrest, decided s a r hr, and_assoc]
      refine and_congr_right fun _ => and_congr_right ?_
      intro _
      constructor
      · intro hm t' ht'
        exact Option.some.inj (hr.symm.trans ht') ▸ hm
      · intro hm
        exact hm r hr

/-- Two processes that stay related under equal answers accept the same runs
and end in related states. -/
theorem run_related {step₁ : Step σ ι} {step₂ : Step τ ι} {R : σ → τ → Prop}
    (lockstep : ∀ s t a, R s t → Option.Rel R (step₁ s a) (step₂ t a))
    {s : σ} {t : τ} (as : List ι) (h : R s t) :
    Option.Rel R (run step₁ s as) (run step₂ t as) := by
  induction as generalizing s t with
  | nil => exact .some h
  | cons a as ih =>
      have hstep := lockstep s t a h
      simp only [run]
      cases hs : step₁ s a with
      | none =>
          rw [hs] at hstep
          cases ht : step₂ t a with
          | none => exact .none
          | some t' => rw [ht] at hstep; cases hstep
      | some s' =>
          rw [hs] at hstep
          cases ht : step₂ t a with
          | none => rw [ht] at hstep; cases hstep
          | some t' =>
              rw [ht] at hstep
              cases hstep with
              | some h' => exact ih h'

/-- A process whose steps under a condition are those of another one, under its condition,
has all such runs in common with it. -/
theorem Meets.simulates {κ : Type x} {step₁ : Step σ ι} {step₂ : Step τ κ} {C : σ → ι → Prop}
    {D : τ → κ → Prop} {R : σ → τ → Prop} {f : ι → κ}
    (simulates : ∀ s t a s', R s t → C s a → step₁ s a = some s' →
      D t (f a) ∧ ∃ t', step₂ t (f a) = some t' ∧ R s' t')
    {s s' : σ} {t : τ} {as : List ι} (hmeets : Meets step₁ C s as) (h : run step₁ s as = some s')
    (hR : R s t) :
    Meets step₂ D t (as.map f) ∧ ∃ t', run step₂ t (as.map f) = some t' ∧ R s' t' := by
  induction as generalizing s t with
  | nil => exact ⟨trivial, t, rfl, Option.some.inj h ▸ hR⟩
  | cons a as ih =>
      obtain ⟨r, hr, hrest⟩ := run_cons_eq_some.mp h
      obtain ⟨hD, q, hq, hRq⟩ := simulates s t a r hR hmeets.1 hr
      obtain ⟨hafter, t', ht', hRt⟩ := ih (hmeets.2 r hr) hrest hRq
      refine ⟨⟨hD, fun u hu => ?_⟩, t', run_cons_eq_some.mpr ⟨q, hq, ht'⟩, hRt⟩
      exact Option.some.inj (hq.symm.trans hu) ▸ hafter

/-- `n` questions put to an environment that answers by the state; a process
whose answer does not fit rests. -/
def drive (step : Step σ ι) (answer : σ → ι) (s : σ) : Nat → σ
  | 0 => s
  | n + 1 => (step (drive step answer s n) (answer (drive step answer s n))).getD
      (drive step answer s n)

theorem drive_preserves {step : Step σ ι} {answer : σ → ι} {P : σ → Prop}
    (keep : ∀ s t, step s (answer s) = some t → P s → P t) {s : σ} (hs : P s) (n : Nat) :
    P (drive step answer s n) := by
  induction n with
  | zero => exact hs
  | succ n ih =>
      simp only [drive]
      cases h : step (drive step answer s n) (answer (drive step answer s n)) with
      | none => exact ih
      | some t => exact keep _ t h ih

/-- A process whose every accepted step raises a bounded quantity comes to rest. -/
theorem drive_rests {step : Step σ ι} {answer : σ → ι} {f : σ → Nat} {b : Nat}
    (rise : ∀ s t, step s (answer s) = some t → f s < f t) {s : σ}
    (bounded : ∀ n, f (drive step answer s n) ≤ b) :
    ∃ n, step (drive step answer s n) (answer (drive step answer s n)) = none := by
  by_contra hnever
  have hgo : ∀ n, n ≤ f (drive step answer s n) := by
    intro n
    induction n with
    | zero => exact Nat.zero_le _
    | succ n ih =>
        cases h : step (drive step answer s n) (answer (drive step answer s n)) with
        | none => exact absurd ⟨n, h⟩ hnever
        | some t =>
            have hnext : drive step answer s (n + 1) = t := by simp only [drive, h, Option.getD_some]
            rw [hnext]
            exact Nat.succ_le_of_lt (Nat.lt_of_le_of_lt ih (rise _ t h))
  have hle := bounded (b + 1)
  have hge := hgo (b + 1)
  omega

theorem drive_monotone {step : Step σ ι} {answer : σ → ι} {f : σ → Nat}
    (rise : ∀ s t, step s (answer s) = some t → f s ≤ f t) (s : σ) {n m : Nat} (h : n ≤ m) :
    f (drive step answer s n) ≤ f (drive step answer s m) := by
  induction h with
  | refl => exact Nat.le_refl _
  | step _ ih =>
      refine Nat.le_trans ih ?_
      simp only [drive]
      cases hs : step (drive step answer s _) (answer (drive step answer s _)) with
      | none => exact Nat.le_refl _
      | some t => exact rise _ t hs

theorem drive_resting {step : Step σ ι} {answer : σ → ι} {s : σ} {n m : Nat} (h : n ≤ m)
    (rest : step (drive step answer s n) (answer (drive step answer s n)) = none) :
    drive step answer s m = drive step answer s n := by
  induction h with
  | refl => rfl
  | step _ ih => simp only [drive, ih, rest, Option.getD_none]

end Rmsgw.Lib.Process
