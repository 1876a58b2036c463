/- Cutting whole packets out of a stream: each element carries a mark that says
   whether it was cut, and the cuts must tile into copies of one packet. -/

import Mathlib.Data.List.Infix

set_option autoImplicit false
set_option relaxedAutoImplicit false

namespace Rmsgw.Lib.PacketCuts

universe u

variable {α : Type u} {p : List α}

/-- The marked elements fall into kept ones and whole copies of the packet `p`. -/
inductive CutsOnly (p : List α) : List (α × Bool) → Prop
  | nil : CutsOnly p []
  | keep (a : α) {ms : List (α × Bool)} (rest : CutsOnly p ms) : CutsOnly p ((a, false) :: ms)
  | cut {ms : List (α × Bool)} (rest : CutsOnly p ms) : CutsOnly p (p.map (·, true) ++ ms)

def kept (ms : List (α × Bool)) : List α := (ms.filter (fun m => !m.2)).map Prod.fst

/-- No proper suffix of the packet begins the packet. -/
def Unbordered (p : List α) : Prop := ∀ j, j < p.length → 0 < j → ¬ p.drop j <+: p

@[simp] theorem kept_append (ms ns : List (α × Bool)) : kept (ms ++ ns) = kept ms ++ kept ns := by
  simp [kept]

@[simp] theorem kept_map_true (es : List α) : kept (es.map (·, true)) = [] := by
  simp [kept]

@[simp] theorem kept_map_false (es : List α) : kept (es.map (·, false)) = es := by
  induction es with
  | nil => rfl
  | cons a es ih => simpa [kept] using ih

theorem CutsOnly.append {ms ns : List (α × Bool)} (hm : CutsOnly p ms) (hn : CutsOnly p ns) :
    CutsOnly p (ms ++ ns) := by
  induction hm with
  | nil => exact hn
  | keep a _ ih => exact .keep a ih
  | cut _ ih => rw [List.append_assoc]; exact .cut ih

theorem cutsOnly_kept (es : List α) : CutsOnly p (es.map (·, false)) := by
  induction es with
  | nil => exact .nil
  | cons a es ih => exact .keep a ih

theorem cutsOnly_cut_iff (es : List α) :
    CutsOnly p (es.map (·, true)) ↔ ∃ k, es = (List.replicate k p).flatten := by
  constructor
  · intro h
    generalize hms : es.map (·, true) = ms at h
    induction h generalizing es with
    | nil => exact ⟨0, by simpa using hms⟩
    | keep a _ _ =>
        cases es with
        | nil => cases hms
        | cons b es => simp at hms
    | cut _ ih =>
        obtain ⟨front, back, rfl, hfront, hback⟩ := List.map_eq_append_iff.mp hms
        obtain ⟨k, rfl⟩ := ih back hback
        have hp : front = p :=
          List.map_injective_iff.mpr (fun _ _ h => (Prod.mk.inj h).1) hfront
        exact ⟨k + 1, by simp [hp, List.replicate_succ]⟩
  · rintro ⟨k, rfl⟩
    induction k with
    | zero => exact .nil
    | succ k ih =>
        rw [List.replicate_succ, List.flatten_cons, List.map_append]
        exact .cut ih

theorem CutsOnly.length_dvd {es : List α} (h : CutsOnly p (es.map (·, true))) :
    p.length ∣ es.length := by
  obtain ⟨k, rfl⟩ := (cutsOnly_cut_iff es).mp h
  exact ⟨k, by simp [List.length_flatten, Nat.mul_comm]⟩

theorem cutsOnly_append_iff {ms ns : List (α × Bool)}
    (apart : ∀ j, j < p.length → 0 < j → ¬ (p.drop j).map (·, true) <+: ns) :
    CutsOnly p (ms ++ ns) ↔ CutsOnly p ms ∧ CutsOnly p ns := by
  refine ⟨fun h => ?_, fun h => h.1.append h.2⟩
  generalize hall : ms ++ ns = all at h
  induction h generalizing ms with
  | nil =>
      obtain ⟨rfl, rfl⟩ := List.append_eq_nil_iff.mp hall
      exact ⟨.nil, .nil⟩
  | keep a rest ih =>
      cases ms with
      | nil =>
          obtain rfl : ns = _ := hall
          exact ⟨.nil, .keep a rest⟩
      | cons m ms =>
          obtain ⟨rfl, htail⟩ := List.cons.inj hall
          obtain ⟨hm, hn⟩ := ih htail
          exact ⟨.keep a hm, hn⟩
  | cut rest ih =>
      rcases List.append_eq_append_iff.mp hall with ⟨c, hpacket, hns⟩ | ⟨c, hms, hrest⟩
      · -- the packet starts in `ms` and leaves `c` of itself to `ns`
        have hc : c = (p.drop ms.length).map (·, true) := by
          rw [List.map_drop, hpacket, List.drop_left]
        have hlen : p.length = ms.length + c.length := by
          simpa using congrArg List.length hpacket
        rcases Nat.eq_zero_or_pos ms.length with hnil | hpos
        · obtain rfl := List.length_eq_zero_iff.mp hnil
          have hcp : c = p.map (·, true) := by simpa using hc
          rw [hns, hcp]
          exact ⟨.nil, .cut rest⟩
        · rcases Nat.eq_zero_or_pos c.length with hcnil | hcpos
          · obtain rfl := List.length_eq_zero_iff.mp hcnil
            rw [List.append_nil] at hpacket
            rw [List.nil_append] at hns
            rw [← hpacket, hns]
            exact ⟨by simpa using CutsOnly.cut (p := p) .nil, rest⟩
          · exact absurd ⟨_, hc ▸ hns.symm⟩ (apart ms.length (by omega) hpos)
      · obtain ⟨hm, hn⟩ := ih hrest.symm
        exact ⟨hms ▸ .cut hm, hn⟩

theorem cutsOnly_append_kept {ms : List (α × Bool)} (es : List α) :
    CutsOnly p (ms ++ es.map (·, false)) ↔ CutsOnly p ms := by
  refine (cutsOnly_append_iff ?_).trans (and_iff_left (cutsOnly_kept es))
  intro j hj _ hpre
  cases hd : p.drop j with
  | nil => exact absurd (List.drop_eq_nil_iff.mp hd) (by omega)
  | cons a q =>
      rw [hd] at hpre
      cases es with
      | nil => simp at hpre
      | cons b es => simp at hpre

/-- A cut stretch that starts like an unbordered packet starts on a packet boundary. -/
theorem cutsOnly_append_cut (unbordered : Unbordered p) {ms : List (α × Bool)} {es : List α}
    (starts : es.take p.length <+: p) :
    CutsOnly p (ms ++ es.map (·, true)) ↔
      CutsOnly p ms ∧ ∃ k, es = (List.replicate k p).flatten := by
  rw [← cutsOnly_cut_iff]
  refine cutsOnly_append_iff ?_
  rintro j hj hpos ⟨rest, hrest⟩
  obtain ⟨front, back, rfl, hfront, -⟩ := List.map_eq_append_iff.mp hrest.symm
  obtain rfl : front = p.drop j :=
    List.map_injective_iff.mpr (fun _ _ h => (Prod.mk.inj h).1) hfront
  refine unbordered j hj hpos (List.IsPrefix.trans ?_ starts)
  exact List.prefix_take_iff.mpr ⟨List.prefix_append _ _, by simp⟩

end Rmsgw.Lib.PacketCuts
