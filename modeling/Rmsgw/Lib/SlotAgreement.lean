/- Several searchers in one slot table: the shape of the table that exclusive steps
   preserve, and when every interleaving agrees. -/

import Rmsgw.Lib.SlotRace

set_option autoImplicit false
set_option relaxedAutoImplicit false

namespace Rmsgw.Lib.SlotAgreement

open Rmsgw.Lib.Process Rmsgw.Lib.SlotTable Rmsgw.Lib.SlotRace

universe u v

variable {κ : Type u} {ρ : Type v}

/-- The slot that is being written, if there is one: by whom, for which key, and how far. -/
abbrev Owner (κ : Type u) := Option (Nat × κ × Nat)

def held (W : Writing κ ρ) (empty : ρ) (o : Owner κ) : List ρ :=
  o.toList.map (fun c => written W c.2.1 c.2.2 empty)

/-- What a searcher knows of the entries where it stands. -/
def Stands (size : Nat) (es : List (κ × ρ)) (o : Owner κ) (p : Nat) (k : κ) : Phase → Prop
  | .visiting i => i ≤ es.length ∧ k ∉ (es.take i).map Prod.fst
  | .comparing i => i < es.length ∧ k ∉ (es.take i).map Prod.fst
  | .claiming i j => i = es.length ∧ o = some (p, k, j) ∧ k ∉ es.map Prod.fst
  | .returned (some i) => (es.map Prod.fst)[i]? = some k
  | .returned none => es.length = size ∧ k ∉ es.map Prod.fst

/-- Entries in front, then the slot that is being written, then vacant slots. -/
structure Shape (W : Writing κ ρ) (empty : ρ) (size : Nat) (good : κ → Prop)
    (s : System κ ρ) (es : List (κ × ρ)) (o : Owner κ) : Prop where
  table_eq : s.table = es.map Prod.snd ++ (held W empty o ++
    List.replicate (size - es.length - o.toList.length) empty)
  fits : es.length + o.toList.length ≤ size
  keyed : ∀ e ∈ es, W.key e.2 = some e.1 ∧ good e.1
  nodup : (es.map Prod.fst).Nodup
  goods : ∀ q ∈ s.procs, good q.key
  stands : ∀ (p : Nat) (q : Searcher κ), s.procs[p]? = some q → Stands size es o p q.key q.phase
  owned : ∀ c ∈ o, ∃ q, s.procs[c.1]? = some q ∧ q.phase = .claiming es.length c.2.2

section Steps

variable {W : Writing κ ρ} {empty : ρ} {size : Nat} {good : κ → Prop} {s t : System κ ρ}
  {es : List (κ × ρ)} {o : Owner κ} {p : Nat}

private theorem Shape.entry_slot (h : Shape W empty size good s es o) {i : Nat}
    (hi : i < es.length) : s.table[i]? = some es[i].2 := by
  rw [h.table_eq, List.getElem?_append_left (by simpa using hi)]
  simp [hi]

private theorem Shape.next_slot (h : Shape W empty size good s es none) :
    s.table[es.length]? = if es.length < size then some empty else none := by
  have hfits := h.fits
  rw [h.table_eq, List.getElem?_append_right (by simp)]
  simp only [held, Option.toList_none, List.map_nil, List.nil_append, List.length_map,
    Nat.sub_self, List.length_nil, Nat.sub_zero, List.getElem?_replicate]
  by_cases hlt : es.length < size
  · rw [if_pos hlt, if_pos (by omega)]
  · rw [if_neg hlt, if_neg (by omega)]

private theorem goods_set {q : Searcher κ} {ph : Phase} (h : ∀ q ∈ s.procs, good q.key)
    (hq : s.procs[p]? = some q) : ∀ q' ∈ s.procs.set p ⟨q.key, ph⟩, good q'.key := by
  intro q' hq'
  rcases List.mem_or_eq_of_mem_set hq' with hmem | rfl
  · exact h q' hmem
  · exact h q (List.mem_of_getElem? hq)

private theorem procs_set_cases {ps : List (Searcher κ)} {q q' : Searcher κ} {p' : Nat}
    (h : (ps.set p q)[p']? = some q') : (p' = p ∧ q' = q) ∨ (p' ≠ p ∧ ps[p']? = some q') := by
  rw [List.getElem?_set] at h
  split at h
  · rename_i heq
    split at h
    · exact .inl ⟨heq.symm, (Option.some.inj h).symm⟩
    · cases h
  · rename_i hne
    exact .inr ⟨Ne.symm hne, h⟩

private theorem Shape.move (h : Shape W empty size good s es o) {q : Searcher κ} {ph : Phase}
    (hq : s.procs[p]? = some q) (unheld : ∀ c ∈ o, c.1 ≠ p)
    (there : Stands size es o p q.key ph) :
    Shape W empty size good ⟨s.table, s.procs.set p ⟨q.key, ph⟩⟩ es o where
  table_eq := h.table_eq
  fits := h.fits
  keyed := h.keyed
  nodup := h.nodup
  goods := goods_set h.goods hq
  stands := by
    intro p' q' hq'
    rcases procs_set_cases hq' with ⟨rfl, rfl⟩ | ⟨-, hq'⟩
    · exact there
    · exact h.stands p' q' hq'
  owned := by
    intro c hc
    obtain ⟨q', hq', hph⟩ := h.owned c hc
    refine ⟨q', ?_, hph⟩
    rw [List.getElem?_set_ne (Ne.symm (unheld c hc))]
    exact hq'

private theorem Shape.unheld (h : Shape W empty size good s es o) {q : Searcher κ}
    (hq : s.procs[p]? = some q) (hph : ∀ i j, q.phase ≠ .claiming i j) : ∀ c ∈ o, c.1 ≠ p := by
  rintro c hc rfl
  obtain ⟨q', hq', hph'⟩ := h.owned c hc
  obtain rfl := Option.some.inj (hq.symm.trans hq')
  exact hph _ _ hph'

private theorem notMem_take_succ {k : κ} {i : Nat} (hi : i < es.length)
    (h : k ∉ (es.take i).map Prod.fst) (hne : k ≠ es[i].1) :
    k ∉ (es.take (i + 1)).map Prod.fst := by
  rw [List.take_add_one, List.getElem?_eq_getElem hi, Option.toList_some, List.map_append,
    List.mem_append]
  rintro (hmem | hmem)
  · exact h hmem
  · exact hne (List.mem_singleton.mp hmem)

private theorem Shape.begin_claim (h : Shape W empty size good s es none) {q : Searcher κ}
    (hq : s.procs[p]? = some q) (room : es.length < size) (pass : q.key ∉ es.map Prod.fst) :
    Shape W empty size good ⟨s.table, s.procs.set p ⟨q.key, .claiming es.length 0⟩⟩ es
      (some (p, q.key, 0)) where
  table_eq := by
    obtain ⟨left, hleft⟩ : ∃ m, size - es.length = m + 1 := ⟨size - es.length - 1, by omega⟩
    simp only [h.table_eq, held, Option.toList_none, Option.toList_some, List.map_nil,
      List.map_singleton, List.nil_append, List.length_nil, List.length_singleton, Nat.sub_zero,
      hleft, Nat.add_sub_cancel, List.replicate_succ]
    rfl
  fits := Nat.succ_le_of_lt room
  keyed := h.keyed
  nodup := h.nodup
  goods := goods_set h.goods hq
  stands := by
    intro p' q' hq'
    rcases procs_set_cases hq' with ⟨rfl, rfl⟩ | ⟨-, hq'⟩
    · exact ⟨rfl, rfl, pass⟩
    have hother := h.stands p' q' hq'
    cases hph : q'.phase with
    | claiming i j =>
        rw [hph] at hother
        cases hother.2.1
    | visiting i => rw [hph] at hother; exact hother
    | comparing i => rw [hph] at hother; exact hother
    | returned slot =>
        rw [hph] at hother
        cases slot <;> exact hother
  owned := by
    intro c hc
    obtain rfl := Option.some.inj hc
    have hlt := (List.getElem?_eq_some_iff.mp hq).1
    refine ⟨⟨q.key, .claiming es.length 0⟩, ?_, rfl⟩
    rw [List.getElem?_set_self hlt]

private theorem Shape.visit (laws : Exact W empty good) (h : Shape W empty size good s es o)
    {q : Searcher κ} {i : Nat} (hq : s.procs[p]? = some q) (hph : q.phase = .visiting i)
    (excl : Exclusive s p) {n : List ρ × Phase} (hn : advance W q.key (s.table, q.phase) = some n) :
    ∃ o', Shape W empty size good ⟨n.1, s.procs.set p ⟨q.key, n.2⟩⟩ es o' := by
  have hunheld := h.unheld hq (by simp [hph])
  have hstand := h.stands p q hq
  rw [hph] at hstand hn
  obtain ⟨hle, hpass⟩ := hstand
  rcases Nat.lt_or_ge i es.length with hlt | hge
  · have hkey := (h.keyed es[i] (List.getElem_mem hlt)).1
    simp only [advance, h.entry_slot hlt, hkey, Option.isNone_some, Bool.false_eq_true,
      if_false, Option.some.injEq] at hn
    obtain rfl := hn
    exact ⟨o, h.move hq hunheld ⟨hlt, hpass⟩⟩
  obtain rfl : i = es.length := Nat.le_antisymm hle hge
  rw [List.take_length] at hpass
  cases o with
  | some c =>
      obtain ⟨q', hq', hph'⟩ := h.owned c rfl
      exact absurd hph' (excl q es.length hq hph c.1 q' c.2.2 hq')
  | none =>
      by_cases room : es.length < size
      · simp only [advance, h.next_slot, if_pos room, laws.empty_vacant, Option.isNone_none,
          if_true, Option.some.injEq] at hn
        obtain rfl := hn
        exact ⟨_, h.begin_claim hq room hpass⟩
      · simp only [advance, h.next_slot, if_neg room, Option.some.injEq] at hn
        obtain rfl := hn
        have hfits := h.fits
        exact ⟨none, h.move hq hunheld ⟨by simp at hfits; omega, hpass⟩⟩

private theorem Shape.compare (laws : Exact W empty good) (h : Shape W empty size good s es o)
    {q : Searcher κ} {i : Nat} (hq : s.procs[p]? = some q) (hph : q.phase = .comparing i)
    {n : List ρ × Phase} (hn : advance W q.key (s.table, q.phase) = some n) :
    Shape W empty size good ⟨n.1, s.procs.set p ⟨q.key, n.2⟩⟩ es o := by
  have hunheld := h.unheld hq (by simp [hph])
  have hstand := h.stands p q hq
  rw [hph] at hstand hn
  obtain ⟨hlt, hpass⟩ := hstand
  obtain ⟨hkey, hgood⟩ := h.keyed es[i] (List.getElem_mem hlt)
  have hhits := laws.hits_iff q.key es[i].1 (h.goods q (List.mem_of_getElem? hq)) hgood
  simp only [advance, h.entry_slot hlt, Option.bind_some, hkey, Option.some.injEq] at hn
  obtain rfl := hn
  by_cases heq : q.key = es[i].1
  · rw [if_pos (hhits.mpr heq)]
    refine h.move hq hunheld ?_
    show (es.map Prod.fst)[i]? = some q.key
    rw [List.getElem?_map, List.getElem?_eq_getElem hlt, heq]
    rfl
  · rw [if_neg fun hit => heq (hhits.mp hit)]
    exact h.move hq hunheld ⟨hlt, notMem_take_succ hlt hpass heq⟩

private theorem Shape.table_held {k : κ} {j : Nat}
    (h : Shape W empty size good s es (some (p, k, j))) : s.table = es.map Prod.snd ++
      written W k j empty :: List.replicate (size - es.length - 1) empty := by
  rw [h.table_eq]
  simp [held]

private theorem Shape.write {q : Searcher κ} {j : Nat} {w : ρ → ρ}
    (h : Shape W empty size good s es (some (p, q.key, j))) (hq : s.procs[p]? = some q)
    (pass : q.key ∉ es.map Prod.fst) (hw : (W.writes q.key)[j]? = some w) :
    Shape W empty size good
      ⟨s.table.modify es.length w, s.procs.set p ⟨q.key, .claiming es.length (j + 1)⟩⟩ es
      (some (p, q.key, j + 1)) where
  table_eq := by
    have hmod := modify_behind (es.map Prod.snd) (written W q.key j empty)
      (List.replicate (size - es.length - 1) empty) w
    rw [List.length_map] at hmod
    simp only [h.table_held, hmod, ← written_succ hw]
    simp [held]
  fits := h.fits
  keyed := h.keyed
  nodup := h.nodup
  goods := goods_set h.goods hq
  stands := by
    intro p' q' hq'
    rcases procs_set_cases hq' with ⟨rfl, rfl⟩ | ⟨hne, hq'⟩
    · exact ⟨rfl, rfl, pass⟩
    have hother := h.stands p' q' hq'
    cases hph : q'.phase with
    | claiming i' j' =>
        rw [hph] at hother
        exact absurd (congrArg Prod.fst (Option.some.inj hother.2.1)).symm hne
    | visiting i => rw [hph] at hother; exact hother
    | comparing i => rw [hph] at hother; exact hother
    | returned slot =>
        rw [hph] at hother
        cases slot <;> exact hother
  owned := by
    intro c hc
    obtain rfl := Option.some.inj hc
    have hlt := (List.getElem?_eq_some_iff.mp hq).1
    refine ⟨⟨q.key, .claiming es.length (j + 1)⟩, ?_, rfl⟩
    rw [List.getElem?_set_self hlt]

private theorem Shape.finish (laws : Exact W empty good) {q : Searcher κ} {j : Nat}
    (h : Shape W empty size good s es (some (p, q.key, j))) (hq : s.procs[p]? = some q)
    (pass : q.key ∉ es.map Prod.fst) (hdone : (W.writes q.key)[j]? = none) :
    Shape W empty size good ⟨s.table, s.procs.set p ⟨q.key, .returned (some es.length)⟩⟩
      (es ++ [(q.key, written W q.key j empty)]) none where
  table_eq := by
    simp only [h.table_held, List.map_append, List.map_singleton, held, Option.toList_none,
      List.map_nil, List.nil_append, List.length_append, List.length_singleton, List.length_nil,
      Nat.sub_zero, Nat.sub_sub, List.append_assoc, List.singleton_append]
  fits := by
    have hfits := h.fits
    simpa using hfits
  keyed := by
    have hgood := h.goods q (List.mem_of_getElem? hq)
    have hall : written W q.key j empty = written W q.key (W.writes q.key).length empty := by
      rw [List.getElem?_eq_none_iff] at hdone
      rw [written, written, List.take_of_length_le hdone, List.take_length]
    intro e he
    rcases List.mem_append.mp he with he | he
    · exact h.keyed e he
    · obtain rfl := List.mem_singleton.mp he
      exact ⟨by rw [hall]; exact laws.key_written _ hgood, hgood⟩
  nodup := by
    rw [List.map_append, List.map_singleton]
    refine List.nodup_append.mpr ⟨h.nodup, List.nodup_singleton _, ?_⟩
    rintro a ha b hb rfl
    obtain rfl := List.mem_singleton.mp hb
    exact pass ha
  goods := goods_set h.goods hq
  stands := by
    intro p' q' hq'
    rcases procs_set_cases hq' with ⟨rfl, rfl⟩ | ⟨hne, hq'⟩
    · show ((es ++ [(q.key, written W q.key j empty)]).map Prod.fst)[es.length]? = some q.key
      simp
    have hother := h.stands p' q' hq'
    have hfits := h.fits
    simp only [Option.toList_some, List.length_singleton] at hfits
    cases hph : q'.phase with
    | claiming i' j' =>
        rw [hph] at hother
        exact absurd (congrArg Prod.fst (Option.some.inj hother.2.1)).symm hne
    | visiting i =>
        rw [hph] at hother
        refine ⟨Nat.le_trans hother.1 (by simp), ?_⟩
        rw [List.take_append_of_le_length hother.1]
        exact hother.2
    | comparing i =>
        rw [hph] at hother
        refine ⟨Nat.lt_of_lt_of_le hother.1 (by simp), ?_⟩
        rw [List.take_append_of_le_length (Nat.le_of_lt hother.1)]
        exact hother.2
    | returned slot =>
        rw [hph] at hother
        cases slot with
        | none => exact absurd hother.1 (by omega)
        | some i =>
            have hi : (es.map Prod.fst)[i]? = some q'.key := hother
            have hlt := (List.getElem?_eq_some_iff.mp hi).1
            show ((es ++ [(q.key, written W q.key j empty)]).map Prod.fst)[i]? = some q'.key
            rw [List.map_append, List.getElem?_append_left hlt]
            exact hi
  owned := fun c hc => by cases hc

private theorem Shape.keep (laws : Exact W empty good) (h : Shape W empty size good s es o)
    (excl : Exclusive s p) (ht : step W s p = some t) :
    ∃ es' o', es <+: es' ∧ Shape W empty size good t es' o' := by
  obtain ⟨q, n, hq, hn, rfl⟩ := step_eq_some.mp ht
  cases hph : q.phase with
  | visiting i =>
      obtain ⟨o', hshape⟩ := h.visit laws hq hph excl hn
      exact ⟨es, o', List.prefix_refl es, hshape⟩
  | comparing i => exact ⟨es, o, List.prefix_refl es, h.compare laws hq hph hn⟩
  | claiming i j =>
      have hstand := h.stands p q hq
      rw [hph] at hstand hn
      obtain ⟨rfl, rfl, hpass⟩ := hstand
      simp only [advance] at hn
      split at hn
      · rename_i hdone
        obtain rfl := Option.some.inj hn
        exact ⟨_, none, List.prefix_append es _, h.finish laws hq hpass hdone⟩
      · rename_i w hw
        obtain rfl := Option.some.inj hn
        exact ⟨es, _, List.prefix_refl es, h.write hq hpass hw⟩
  | returned slot => rw [hph] at hn; cases hn

/-- What an exclusive run preserves. -/
theorem Shape.keep_run (laws : Exact W empty good) (h : Shape W empty size good s es o)
    {sched : List Nat} (excl : Meets (step W) Exclusive s sched)
    (ht : run (step W) s sched = some t) :
    ∃ es' o', es <+: es' ∧ Shape W empty size good t es' o' := by
  refine Meets.preserves (P := fun u => ∃ es' o', es <+: es' ∧ Shape W empty size good u es' o')
    ?_ excl ht ⟨es, o, List.prefix_refl es, h⟩
  rintro u a u' hexcl hu ⟨es', o', hle, hshape⟩
  obtain ⟨es'', o'', hle', hshape'⟩ := hshape.keep laws hexcl hu
  exact ⟨es'', o'', hle.trans hle', hshape'⟩

private theorem Shape.entry_of_returned (h : Shape W empty size good s es o) {q : Searcher κ}
    (hq : q ∈ s.procs) {i : Nat} (hph : q.phase = .returned (some i)) :
    (es.map Prod.fst)[i]? = some q.key := by
  obtain ⟨p, hp⟩ := List.mem_iff_getElem?.mp hq
  have hstand := h.stands p q hp
  rw [hph] at hstand
  exact hstand

theorem Shape.agreed (laws : Exact W empty good) (hs : Shape W empty size good s es none)
    {es' : List (κ × ρ)} (grow : es <+: es') (ht : Shape W empty size good t es' o) :
    Agreed W s t where
  found := by
    intro q hq i hph
    have hi := ht.entry_of_returned hq hph
    rw [List.getElem?_map, Option.map_eq_some_iff] at hi
    obtain ⟨e, he, hkey⟩ := hi
    obtain ⟨hlt, rfl⟩ := List.getElem?_eq_some_iff.mp he
    rw [ht.entry_slot hlt, Option.bind_some, (ht.keyed _ (List.getElem_mem hlt)).1, hkey]
  apart := by
    intro q hq q' hq' i i' hph hph'
    have hi := ht.entry_of_returned hq hph
    have hi' := ht.entry_of_returned hq' hph'
    constructor
    · intro hkey
      have hlt := (List.getElem?_eq_some_iff.mp hi).1
      exact (List.getElem?_inj hlt ht.nodup).mp (hi.trans (hkey ▸ hi'.symm))
    · rintro rfl
      exact Option.some.inj (hi.symm.trans hi')
  full := by
    intro q hq hph r hr
    obtain ⟨p, hp⟩ := List.mem_iff_getElem?.mp hq
    have hstand := ht.stands p q hp
    rw [hph] at hstand
    obtain ⟨hsize, hpass⟩ := hstand
    have hfits := ht.fits
    have hnone : o = none := by
      cases o with
      | none => rfl
      | some c => simp only [Option.toList_some, List.length_singleton] at hfits; omega
    subst hnone
    rw [ht.table_eq, hsize, Nat.sub_self] at hr
    simp only [held, Option.toList_none, List.map_nil, List.length_nil, Nat.sub_zero,
      List.replicate_zero, List.append_nil, List.mem_map] at hr
    obtain ⟨e, he, rfl⟩ := hr
    refine ⟨e.1, (ht.keyed e he).1, ?_⟩
    intro heq
    exact hpass (heq ▸ List.mem_map_of_mem he)
  kept := by
    intro i r hr hne
    rcases Nat.lt_or_ge i es.length with hlt | hge
    · have hlt' := Nat.lt_of_lt_of_le hlt grow.length_le
      have hsame : es'[i] = es[i] := (List.IsPrefix.getElem grow hlt).symm
      rw [ht.entry_slot hlt', hsame, ← hs.entry_slot hlt]
      exact hr
    · rw [hs.table_eq, List.getElem?_append_right (by simpa using hge)] at hr
      simp only [held, Option.toList_none, List.map_nil, List.nil_append] at hr
      obtain ⟨-, rfl⟩ := List.mem_replicate.mp (List.mem_of_getElem? hr)
      exact absurd laws.empty_vacant hne

end Steps

section Races

variable {W : Writing κ ρ} {empty : ρ} {size : Nat} {good : κ → Prop} {s : System κ ρ}
  {es : List (κ × ρ)}

theorem Shape.known_iff (h : Shape W empty size good s es none) (laws : Exact W empty good)
    {k : κ} : Known W s.table k ↔ k ∈ es.map Prod.fst := by
  have htable := h.table_eq
  simp only [held, Option.toList_none, List.map_nil, List.nil_append] at htable
  constructor
  · rintro ⟨r, hr, hkey⟩
    rw [htable] at hr
    rcases List.mem_append.mp hr with hr | hr
    · obtain ⟨e, he, rfl⟩ := List.mem_map.mp hr
      obtain rfl := Option.some.inj ((h.keyed e he).1.symm.trans hkey)
      exact List.mem_map_of_mem he
    · obtain ⟨-, rfl⟩ := List.mem_replicate.mp hr
      rw [laws.empty_vacant] at hkey
      cases hkey
  · intro hk
    obtain ⟨e, he, rfl⟩ := List.mem_map.mp hk
    refine ⟨e.2, ?_, (h.keyed e he).1⟩
    rw [htable]
    exact List.mem_append_left _ (List.mem_map_of_mem he)

theorem Shape.room_iff (h : Shape W empty size good s es none) (laws : Exact W empty good) :
    Room W s.table ↔ es.length < size := by
  have htable := h.table_eq
  simp only [held, Option.toList_none, List.map_nil, List.nil_append, List.length_nil,
    Nat.sub_zero] at htable
  constructor
  · rintro ⟨r, hr, hkey⟩
    rw [htable] at hr
    rcases List.mem_append.mp hr with hr | hr
    · obtain ⟨e, he, rfl⟩ := List.mem_map.mp hr
      rw [(h.keyed e he).1] at hkey
      cases hkey
    · have hne := (List.mem_replicate.mp hr).1
      omega
  · intro hlt
    refine ⟨empty, ?_, laws.empty_vacant⟩
    rw [htable]
    exact List.mem_append_right _ (List.mem_replicate.mpr ⟨by omega, rfl⟩)

private theorem Shape.exclusive {s t : System κ ρ} {es es' : List (κ × ρ)} {o : Owner κ}
    (ht : Shape W empty size good t es' o) (grow : es <+: es')
    (keys : t.procs.map Searcher.key = s.procs.map Searcher.key)
    (few : es.length < size → ∀ (p p' : Nat) (q q' : Searcher κ), s.procs[p]? = some q →
      s.procs[p']? = some q' → q.key ∉ es.map Prod.fst → q'.key ∉ es.map Prod.fst → p = p')
    (p : Nat) : Exclusive t p := by
  intro q i hq hph p' q' j hq' hph'
  have hstand := ht.stands p q hq
  have hstand' := ht.stands p' q' hq'
  rw [hph] at hstand
  rw [hph'] at hstand'
  obtain ⟨rfl, rfl, hpass'⟩ := hstand'
  have hpass := hstand.2
  rw [List.take_length] at hpass
  have hfits := ht.fits
  simp only [Option.toList_some, List.length_singleton] at hfits
  have hsub : ∀ k, k ∉ es'.map Prod.fst → k ∉ es.map Prod.fst := fun k hk hmem =>
    hk ((grow.map Prod.fst).subset hmem)
  have origin : ∀ {m : Nat} {x : Searcher κ}, t.procs[m]? = some x →
      ∃ y, s.procs[m]? = some y ∧ y.key = x.key := by
    intro m x hx
    have hkey : (s.procs.map Searcher.key)[m]? = some x.key := by
      rw [← keys, List.getElem?_map, hx]
      rfl
    rw [List.getElem?_map, Option.map_eq_some_iff] at hkey
    exact hkey
  obtain ⟨y, hy, hykey⟩ := origin hq
  obtain ⟨y', hy', hykey'⟩ := origin hq'
  have hlen := grow.length_le
  obtain rfl := few (by omega) p p' y y' hy hy' (hykey ▸ hsub _ hpass) (hykey' ▸ hsub _ hpass')
  obtain rfl := Option.some.inj (hq.symm.trans hq')
  rw [hph] at hph'
  cases hph'

private theorem step_keys {t : System κ ρ} {p : Nat} (h : step W s p = some t) :
    t.procs.map Searcher.key = s.procs.map Searcher.key := by
  obtain ⟨q, n, hq, -, rfl⟩ := step_eq_some.mp h
  obtain ⟨hlt, rfl⟩ := List.getElem?_eq_some_iff.mp hq
  rw [List.map_set]
  show (s.procs.map Searcher.key).set p s.procs[p].key = s.procs.map Searcher.key
  rw [← List.getElem_map Searcher.key (h := by simpa using hlt), List.set_getElem_self]

private theorem Shape.alone_claims (laws : Exact W empty good)
    (h : Shape W empty size good s es none)
    {k : κ} (hk : good k) (new : k ∉ es.map Prod.fst) (room : es.length < size) :
    ∃ n, alone W k n (s.table, .visiting 0) = some (s.table, .claiming es.length 0) := by
  have pass : ∀ r ∈ es.map Prod.snd, ∃ stored, W.key r = some stored ∧
      W.hits k stored = false := by
    intro r hr
    obtain ⟨e, he, rfl⟩ := List.mem_map.mp hr
    obtain ⟨hkey, hgood⟩ := h.keyed e he
    refine ⟨e.1, hkey, Bool.eq_false_iff.mpr fun hit => new ?_⟩
    rw [(laws.hits_iff k e.1 hk hgood).mp hit]
    exact List.mem_map_of_mem he
  obtain ⟨n, hn⟩ := alone_pass (W := W) (k := k) [] (es.map Prod.snd)
    (held W empty none ++ List.replicate (size - es.length - (none : Owner κ).toList.length) empty)
    pass
  rw [List.nil_append, ← h.table_eq, List.length_nil, Nat.zero_add, List.length_map] at hn
  have htest : advance W k (s.table, .visiting es.length) =
      some (s.table, .claiming es.length 0) := by
    simp only [advance, h.next_slot, if_pos room, laws.empty_vacant, Option.isNone_none, if_true]
  exact ⟨n + 1, by rw [alone_add hn]; exact alone_one htest⟩

private theorem alone_claim (k : κ) (front : List ρ) (r : ρ) (rs : List ρ) :
    ∃ n r', alone W k n (front ++ r :: rs, .claiming front.length 0) =
      some (front ++ r' :: rs, .returned (some front.length)) := by
  obtain ⟨n, hn⟩ := alone_writes (W := W) (k := k) front r rs (W.writes k).length (Nat.zero_add _)
  exact ⟨n, _, hn⟩

private theorem Shape.exists_race (laws : Exact W empty good)
    (h : Shape W empty size good s es none)
    (begun : ∀ q ∈ s.procs, q.phase = .visiting 0) {p p' : Nat} {q q' : Searcher κ}
    (hq : s.procs[p]? = some q) (hq' : s.procs[p']? = some q') (hne : q.key ≠ q'.key)
    (new : q.key ∉ es.map Prod.fst) (new' : q'.key ∉ es.map Prod.fst)
    (room : es.length < size) :
    ∃ sched t, run (step W) s sched = some t ∧ ¬ Agreed W s t := by
  have hp : p' ≠ p := by
    rintro rfl
    exact hne (congrArg Searcher.key (Option.some.inj (hq.symm.trans hq')))
  have hlt := (List.getElem?_eq_some_iff.mp hq).1
  have hlt' := (List.getElem?_eq_some_iff.mp hq').1
  obtain ⟨rest, hrest⟩ : ∃ rest, s.table = es.map Prod.snd ++ empty :: rest := by
    obtain ⟨left, hleft⟩ : ∃ m, size - es.length = m + 1 := ⟨size - es.length - 1, by omega⟩
    refine ⟨List.replicate left empty, ?_⟩
    rw [h.table_eq]
    simp [held, hleft, List.replicate_succ]
  -- both test the vacant slot before either writes
  obtain ⟨n, hn⟩ := h.alone_claims laws (h.goods q (List.mem_of_getElem? hq)) new room
  obtain ⟨n', hn'⟩ := h.alone_claims laws (h.goods q' (List.mem_of_getElem? hq')) new' room
  obtain ⟨m, r, hm⟩ := alone_claim (W := W) q.key (es.map Prod.snd) empty rest
  obtain ⟨m', r', hm'⟩ := alone_claim (W := W) q'.key (es.map Prod.snd) r rest
  rw [List.length_map] at hm hm'
  rw [← begun q (List.mem_of_getElem? hq)] at hn
  rw [← begun q' (List.mem_of_getElem? hq')] at hn'
  rw [hrest] at hn hn'
  let s₁ : System κ ρ := ⟨s.table, s.procs.set p ⟨q.key, .claiming es.length 0⟩⟩
  let s₂ : System κ ρ := ⟨s.table, s₁.procs.set p' ⟨q'.key, .claiming es.length 0⟩⟩
  let s₃ : System κ ρ := ⟨es.map Prod.snd ++ r :: rest,
    s₂.procs.set p ⟨q.key, .returned (some es.length)⟩⟩
  let s₄ : System κ ρ := ⟨es.map Prod.snd ++ r' :: rest,
    s₃.procs.set p' ⟨q'.key, .returned (some es.length)⟩⟩
  have h₁ : run (step W) s (List.replicate n p) = some s₁ := by
    rw [← hrest] at hn
    exact run_alone hq hn
  have hq₁ : s₁.procs[p']? = some q' := by
    rw [List.getElem?_set_ne hp.symm]
    exact hq'
  have h₂ : run (step W) s₁ (List.replicate n' p') = some s₂ := by
    rw [← hrest] at hn'
    exact run_alone hq₁ hn'
  have hq₂ : s₂.procs[p]? = some ⟨q.key, .claiming es.length 0⟩ := by
    rw [List.getElem?_set_ne hp, List.getElem?_set_self hlt]
  have h₃ : run (step W) s₂ (List.replicate m p) = some s₃ := by
    rw [← hrest] at hm
    exact run_alone (s := s₂) (q := ⟨q.key, .claiming es.length 0⟩) hq₂ hm
  have hq₃ : s₃.procs[p']? = some ⟨q'.key, .claiming es.length 0⟩ := by
    rw [List.getElem?_set_ne hp.symm, List.getElem?_set_self (by simpa [s₁] using hlt')]
  have h₄ : run (step W) s₃ (List.replicate m' p') = some s₄ :=
    run_alone (q := ⟨q'.key, .claiming es.length 0⟩) hq₃ hm'
  have hall : run (step W) s (List.replicate n p ++ (List.replicate n' p' ++
      (List.replicate m p ++ List.replicate m' p'))) = some s₄ := by
    rw [run_append, h₁, Option.bind_some, run_append, h₂, Option.bind_some, run_append, h₃,
      Option.bind_some, h₄]
  refine ⟨_, s₄, hall, fun agreed => hne ?_⟩
  have hmem : ⟨q.key, .returned (some es.length)⟩ ∈ s₄.procs := by
    refine List.mem_of_getElem? (i := p) ?_
    rw [List.getElem?_set_ne hp, List.getElem?_set_self (by simpa [s₁, s₂] using hlt)]
  have hmem' : ⟨q'.key, .returned (some es.length)⟩ ∈ s₄.procs := by
    refine List.mem_of_getElem? (i := p') ?_
    rw [List.getElem?_set_self (by simpa [s₁, s₂, s₃] using hlt')]
  exact (agreed.apart _ hmem _ hmem' es.length es.length rfl rfl).mpr rfl

/-- With different keys to search for, every interleaving agrees exactly when there is
no vacant slot or at most one of the keys is new. -/
theorem Shape.agreed_iff (laws : Exact W empty good) (h : Shape W empty size good s es none)
    (begun : ∀ q ∈ s.procs, q.phase = .visiting 0)
    (apart : (s.procs.map Searcher.key).Nodup) :
    (∀ sched t, run (step W) s sched = some t → Agreed W s t) ↔
      (Room W s.table → ∀ q ∈ s.procs, ∀ q' ∈ s.procs, ¬ Known W s.table q.key →
        ¬ Known W s.table q'.key → q.key = q'.key) := by
  simp only [h.room_iff laws, h.known_iff laws]
  constructor
  · intro all room q hq q' hq' new new'
    by_contra hne
    obtain ⟨p, hp⟩ := List.mem_iff_getElem?.mp hq
    obtain ⟨p', hp'⟩ := List.mem_iff_getElem?.mp hq'
    obtain ⟨sched, t, ht, hbad⟩ := h.exists_race laws begun hp hp' hne new new' room
    exact hbad (all sched t ht)
  · intro few sched t ht
    have keep : ∃ es' o, es <+: es' ∧ Shape W empty size good t es' o ∧
        t.procs.map Searcher.key = s.procs.map Searcher.key := by
      refine run_preserves (P := fun u => ∃ es' o, es <+: es' ∧ Shape W empty size good u es' o ∧
        u.procs.map Searcher.key = s.procs.map Searcher.key) ?_ ht ⟨es, none, List.prefix_refl es,
          h, rfl⟩
      rintro u p u' hu ⟨es', o, grow, hshape, hkeys⟩
      have excl := hshape.exclusive grow hkeys (fun room a a' x x' hx hx' hnew hnew' => ?_) p
      · obtain ⟨es'', o', grow', hshape'⟩ := hshape.keep laws excl hu
        exact ⟨es'', o', grow.trans grow', hshape', (step_keys hu).trans hkeys⟩
      · have hkey := few room x (List.mem_of_getElem? hx) x' (List.mem_of_getElem? hx') hnew hnew'
        have hget : (s.procs.map Searcher.key)[a]? = (s.procs.map Searcher.key)[a']? := by
          rw [List.getElem?_map, List.getElem?_map, hx, hx']
          exact congrArg some hkey
        have hlt := (List.getElem?_eq_some_iff.mp hx).1
        exact (List.getElem?_inj (by simpa using hlt) apart).mp hget
    obtain ⟨es', o, grow, hshape, -⟩ := keep
    exact h.agreed laws grow hshape

end Races

end Rmsgw.Lib.SlotAgreement
