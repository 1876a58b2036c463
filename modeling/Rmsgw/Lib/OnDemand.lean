/- A resource that whoever misses it creates and initializes, each look, store and
   return being a step of its own: when everyone is handed the initialized value. -/

import Rmsgw.Lib.Process

set_option autoImplicit false
set_option relaxedAutoImplicit false

namespace Rmsgw.Lib.OnDemand

open Rmsgw.Lib.Process

universe u v

/-- The value as created, the test by which it needs no initialization, the stores of
the initialization, and the updates of those who have the resource. -/
structure Resource (σ : Type u) (α : Type v) where
  created : σ
  ready : σ → Bool
  stores : List (σ → σ)
  apply : α → σ → σ

/-- Where a process stands: it has not looked for the resource yet, has missed it, has
got it (and is to initialize it or not), has made `j` stores, or is done. -/
inductive Phase
  | calling
  | creating
  | attaching (mustInit : Bool)
  | storing (j : Nat)
  | returned
  deriving DecidableEq

/-- The value, the processes, what each of them that returned was handed with the
updates before it, and the updates so far. -/
structure System (σ : Type u) (α : Type v) where
  value : Option σ
  procs : List Phase
  handed : List (σ × List α)
  updates : List α

/-- A process goes on with its call, or makes an update behind it. -/
inductive Act (α : Type v)
  | go (p : Nat)
  | update (p : Nat) (a : α)

variable {σ : Type u} {α : Type v}

/-- The value behind the first `j` stores. -/
def Resource.stored (R : Resource σ α) (j : Nat) : σ :=
  (R.stores.take j).foldl (fun v store => store v) R.created

/-- The value behind the whole initialization. -/
def Resource.made (R : Resource σ α) : σ := R.stored R.stores.length

def Resource.updated (R : Resource σ α) (base : σ) (as : List α) : σ :=
  as.foldl (fun v a => R.apply a v) base

structure Resource.Lawful (R : Resource σ α) : Prop where
  created_raw : R.ready R.created = false
  made_ready : R.ready R.made = true
  apply_ready : ∀ a v, R.ready (R.apply a v) = R.ready v

/-- The next step of a process: what becomes of the value, and where it stands then. -/
def advance (R : Resource σ α) (value : Option σ) : Phase → Option (Option σ × Phase)
  | .calling => some (value, if value.isSome then .attaching false else .creating)
  | .creating => some (some (value.getD R.created), .attaching true)
  | .attaching mustInit =>
      value.map fun v => (some v, if mustInit && !R.ready v then .storing 0 else .returned)
  | .storing j =>
      value.map fun v =>
        match R.stores[j]? with
        | some store => (some (store v), .storing (j + 1))
        | none => (some v, .returned)
  | .returned => none

def System.move (s : System σ α) (p : Nat) (value : Option σ) (ph : Phase) : System σ α where
  value := value
  procs := s.procs.set p ph
  handed :=
    if ph = .returned then s.handed ++ value.toList.map (fun v => (v, s.updates)) else s.handed
  updates := s.updates

def step (R : Resource σ α) : Step (System σ α) (Act α) := fun s a =>
  match a with
  | .go p =>
      (s.procs[p]?).bind fun ph => (advance R s.value ph).map fun n => s.move p n.1 n.2
  | .update p a =>
      if s.procs[p]? = some .returned then
        s.value.map fun v => { s with value := some (R.apply a v), updates := s.updates ++ [a] }
      else none

/-- `n` processes ahead of their calls. -/
def start (value : Option σ) (n : Nat) : System σ α := ⟨value, List.replicate n .calling, [], []⟩

/-- Everyone was handed the base with the updates until then, and none has been lost. -/
structure Sound (R : Resource σ α) (base : σ) (s : System σ α) : Prop where
  handed : ∀ h ∈ s.handed, h.1 = R.updated base h.2
  kept : s.handed ≠ [] → s.value = some (R.updated base s.updates)

/-- Nobody is initializing. -/
def Idle (s : System σ α) : Prop := ∀ j, Phase.storing j ∉ s.procs

/-- A process that is to initialize looks at the value while nobody is initializing. -/
def Marked (s : System σ α) (a : Act α) : Prop :=
  ∀ p, a = .go p → s.procs[p]? = some (.attaching true) → Idle s

/-- Nobody leaves the attached value, or looks at it, while somebody is initializing, and
who does not initialize it waits until it is ready. -/
def Guarded (R : Resource σ α) (s : System σ α) (a : Act α) : Prop :=
  ∀ p mustInit, a = .go p → s.procs[p]? = some (.attaching mustInit) →
    Idle s ∧ (mustInit = false → ∃ v, s.value = some v ∧ R.ready v = true)

def Phase.initializes : Phase → Bool
  | .storing _ => true
  | _ => false

instance (s : System σ α) : Decidable (Idle s) :=
  decidable_of_iff (∀ q ∈ s.procs, q.initializes = false)
    ⟨fun h j hj => Bool.noConfusion (h _ hj), fun h q hq => by
      cases q with
      | storing j => exact absurd hq (h j)
      | _ => rfl⟩

private theorem exists_ready_iff (R : Resource σ α) (value : Option σ) :
    (∃ v, value = some v ∧ R.ready v = true) ↔ value.any R.ready = true := by
  cases value with
  | none => simp
  | some v => simp

instance (R : Resource σ α) (s : System σ α) : (a : Act α) → Decidable (Guarded R s a)
  | .update _ _ => isTrue fun _ _ heq => by cases heq
  | .go p => decidable_of_iff
      (∀ mustInit, s.procs[p]? = some (.attaching mustInit) →
        Idle s ∧ (mustInit = false → s.value.any R.ready = true))
      ⟨fun h _ mustInit heq hp => by
          obtain rfl := Act.go.inj heq
          rw [exists_ready_iff]
          exact h mustInit hp,
        fun h mustInit hp => by
          rw [← exists_ready_iff]
          exact h p mustInit rfl hp⟩

/-- The value is not there or raw, or one process is initializing it, or it is the base
with the updates made. -/
inductive Shape (R : Resource σ α) (base : σ) (s : System σ α) : Prop
  | raw (hbase : base = R.made) (hvalue : ∀ v, s.value = some v → v = R.created)
      (idle : Idle s) (early : Phase.returned ∉ s.procs) (hhanded : s.handed = [])
      (hupdates : s.updates = [])
  | filling {p j : Nat} (hbase : base = R.made) (hvalue : s.value = some (R.stored j))
      (hp : s.procs[p]? = some (.storing j)) (hj : j ≤ R.stores.length)
      (others : ∀ p', p' ≠ p → s.procs[p']? ≠ some .returned ∧ ∀ j', s.procs[p']? ≠ some (.storing j'))
      (hhanded : s.handed = []) (hupdates : s.updates = [])
  | made (hvalue : s.value = some (R.updated base s.updates)) (idle : Idle s)
      (hhanded : ∀ h ∈ s.handed, h.1 = R.updated base h.2)

section Steps

variable {R : Resource σ α} {base : σ} {s t : System σ α}

private theorem step_go {p : Nat} : step R s (.go p) = some t ↔
    ∃ ph n, s.procs[p]? = some ph ∧ advance R s.value ph = some n ∧ t = s.move p n.1 n.2 := by
  simp only [step, Option.bind_eq_some_iff, Option.map_eq_some_iff]
  constructor
  · rintro ⟨ph, hph, n, hn, rfl⟩
    exact ⟨ph, n, hph, hn, rfl⟩
  · rintro ⟨ph, n, hph, hn, rfl⟩
    exact ⟨ph, hph, n, hn, rfl⟩

private theorem step_update {p : Nat} {a : α} : step R s (.update p a) = some t ↔
    s.procs[p]? = some .returned ∧ ∃ v, s.value = some v ∧
      t = { s with value := some (R.apply a v), updates := s.updates ++ [a] } := by
  simp only [step]
  split
  · rename_i hp
    rw [Option.map_eq_some_iff]
    constructor
    · rintro ⟨v, hv, rfl⟩
      exact ⟨hp, v, hv, rfl⟩
    · rintro ⟨-, v, hv, rfl⟩
      exact ⟨v, hv, rfl⟩
  · rename_i hp
    exact iff_of_false (by simp) fun h => hp h.1

theorem stored_zero : R.stored 0 = R.created := rfl

private theorem stored_succ {j : Nat} {store : σ → σ} (h : R.stores[j]? = some store) :
    R.stored (j + 1) = store (R.stored j) := by
  rw [Resource.stored, List.take_add_one, h, Option.toList_some, List.foldl_append]
  rfl

private theorem updated_snoc (as : List α) (a : α) :
    R.updated base (as ++ [a]) = R.apply a (R.updated base as) := List.foldl_append

private theorem updated_ready (laws : R.Lawful) (hbase : R.ready base = true) (as : List α) :
    R.ready (R.updated base as) = true := by
  induction as using List.reverseRecOn with
  | nil => exact hbase
  | append_singleton as a ih => rw [updated_snoc, laws.apply_ready, ih]

private theorem Idle.move (h : Idle s) {p : Nat} {value : Option σ} {ph : Phase}
    (hph : ∀ j, ph ≠ .storing j) : Idle (s.move p value ph) := by
  intro j hmem
  rcases List.mem_or_eq_of_mem_set hmem with hold | hnew
  · exact h j hold
  · exact hph j hnew.symm

private theorem handed_move {p : Nat} {value : Option σ} {ph : Phase} (h : ph ≠ .returned) :
    (s.move p value ph).handed = s.handed := if_neg h

private theorem mem_handed_return {p : Nat} {v : σ} {h : σ × List α}
    (hmem : h ∈ (s.move p (some v) .returned).handed) : h ∈ s.handed ∨ h = (v, s.updates) := by
  have hhanded : (s.move p (some v) .returned).handed = s.handed ++ [(v, s.updates)] := by
    rw [System.move, if_pos rfl, Option.toList_some, List.map_singleton]
  rw [hhanded, List.mem_append, List.mem_singleton] at hmem
  exact hmem

private theorem Shape.step_raw (laws : R.Lawful) {p : Nat} (hbase : base = R.made)
    (hvalue : ∀ v, s.value = some v → v = R.created) (idle : Idle s)
    (early : Phase.returned ∉ s.procs) (hhanded : s.handed = []) (hupdates : s.updates = [])
    (guarded : Guarded R s (.go p)) (h : step R s (.go p) = some t) : Shape R base t := by
  obtain ⟨ph, n, hph, hn, rfl⟩ := step_go.mp h
  have still : ∀ (value : Option σ) (ph' : Phase), (∀ v, value = some v → v = R.created) →
      (∀ j, ph' ≠ .storing j) → ph' ≠ .returned → Shape R base (s.move p value ph') := by
    intro value ph' hcreated hstoring hreturned
    refine .raw hbase hcreated (idle.move hstoring) ?_ ((handed_move hreturned).trans hhanded)
      hupdates
    intro hmem
    rcases List.mem_or_eq_of_mem_set hmem with hold | hnew
    · exact early hold
    · exact hreturned hnew.symm
  cases ph with
  | calling =>
      obtain rfl := Option.some.inj hn
      refine still _ _ hvalue ?_ ?_
      · intro j
        split <;> simp
      · split <;> simp
  | creating =>
      obtain rfl := Option.some.inj hn
      refine still _ _ ?_ (by simp) (by simp)
      rintro v hv
      obtain rfl := Option.some.inj hv
      cases hs : s.value with
      | none => rfl
      | some w => exact hvalue w hs
  | attaching mustInit =>
      obtain ⟨v, hv, rfl⟩ := Option.map_eq_some_iff.mp hn
      obtain rfl := hvalue v hv
      cases mustInit with
      | false =>
          obtain ⟨w, hw, hready⟩ := (guarded p false rfl hph).2 rfl
          obtain rfl := Option.some.inj (hv.symm.trans hw)
          rw [laws.created_raw] at hready
          cases hready
      | true =>
          have hlt := (List.getElem?_eq_some_iff.mp hph).1
          simp only [laws.created_raw, Bool.not_false, Bool.and_self, if_true]
          refine .filling (p := p) (j := 0) hbase rfl ?_ (Nat.zero_le _) ?_ hhanded hupdates
          · exact List.getElem?_set_self hlt
          · intro p' hne
            simp only [System.move, List.getElem?_set_ne (Ne.symm hne)]
            exact ⟨fun hmem => early (List.mem_of_getElem? hmem),
              fun j' hmem => idle j' (List.mem_of_getElem? hmem)⟩
  | storing j => exact absurd (List.mem_of_getElem? hph) (idle j)
  | returned => exact absurd (List.mem_of_getElem? hph) early

private theorem Shape.step_filling {p q j : Nat} (hbase : base = R.made)
    (hvalue : s.value = some (R.stored j)) (hp : s.procs[p]? = some (.storing j))
    (hj : j ≤ R.stores.length)
    (others : ∀ p', p' ≠ p →
      s.procs[p']? ≠ some .returned ∧ ∀ j', s.procs[p']? ≠ some (.storing j'))
    (hhanded : s.handed = []) (hupdates : s.updates = []) (guarded : Guarded R s (.go q))
    (h : step R s (.go q) = some t) : Shape R base t := by
  obtain ⟨ph, n, hph, hn, rfl⟩ := step_go.mp h
  have busy : ¬ Idle s := fun idle => idle j (List.mem_of_getElem? hp)
  have hlt := (List.getElem?_eq_some_iff.mp hph).1
  by_cases hq : q = p
  · subst hq
    obtain rfl := Option.some.inj (hph.symm.trans hp)
    obtain ⟨v, hv, rfl⟩ := Option.map_eq_some_iff.mp hn
    obtain rfl := Option.some.inj (hv.symm.trans hvalue)
    cases hstore : R.stores[j]? with
    | some store =>
        refine .filling (p := q) (j := j + 1) hbase ?_ (List.getElem?_set_self hlt)
          (List.getElem?_eq_some_iff.mp hstore).1 ?_ hhanded hupdates
        · rw [stored_succ hstore]
          rfl
        · intro p' hne
          simp only [System.move, List.getElem?_set_ne (Ne.symm hne)]
          exact others p' hne
    | none =>
        have hend : j = R.stores.length := Nat.le_antisymm hj (List.getElem?_eq_none_iff.mp hstore)
        have hmade : R.stored j = R.updated base s.updates := by
          rw [hupdates, hbase, hend]
          rfl
        refine .made (congrArg some hmade) ?_ ?_
        · intro j' hmem
          obtain ⟨p', hp'⟩ := List.mem_iff_getElem?.mp hmem
          simp only [System.move, List.getElem?_set] at hp'
          split at hp'
          · simp at hp'
          · rename_i hne
            exact (others p' (Ne.symm hne)).2 j' hp'
        · intro x hx
          rcases mem_handed_return hx with hold | rfl
          · rw [hhanded] at hold
            cases hold
          · exact hmade
  · have still : ∀ ph', ph' ≠ .returned → (∀ j', ph' ≠ .storing j') →
        Shape R base (s.move q s.value ph') := by
      intro ph' hreturned hstoring
      refine .filling (p := p) (j := j) hbase hvalue ?_ hj ?_ ((handed_move hreturned).trans hhanded)
        hupdates
      · simp only [System.move, List.getElem?_set_ne hq]
        exact hp
      · intro p' hne
        by_cases hp' : q = p'
        · subst hp'
          simp only [System.move, List.getElem?_set_self hlt]
          exact ⟨fun heq => hreturned (Option.some.inj heq),
            fun j' heq => hstoring j' (Option.some.inj heq)⟩
        · simp only [System.move, List.getElem?_set_ne hp']
          exact others p' hne
    cases ph with
    | calling =>
        obtain rfl := Option.some.inj hn
        simp only [hvalue, Option.isSome_some, if_true]
        rw [← hvalue]
        exact still _ (by simp) (by simp)
    | creating =>
        obtain rfl := Option.some.inj hn
        simp only [hvalue, Option.getD_some]
        rw [← hvalue]
        exact still _ (by simp) (by simp)
    | attaching mustInit => exact absurd (guarded q mustInit rfl hph).1 busy
    | storing j' => exact absurd hph ((others q hq).2 j')
    | returned => exact absurd hph (others q hq).1

private theorem Shape.step_made (laws : R.Lawful) (hready : R.ready base = true) {p : Nat}
    (hvalue : s.value = some (R.updated base s.updates)) (idle : Idle s)
    (hhanded : ∀ h ∈ s.handed, h.1 = R.updated base h.2) (h : step R s (.go p) = some t) :
    Shape R base t := by
  obtain ⟨ph, n, hph, hn, rfl⟩ := step_go.mp h
  have still : ∀ ph', ph' ≠ .returned → (∀ j', ph' ≠ .storing j') →
      Shape R base (s.move p s.value ph') := by
    intro ph' hreturned hstoring
    refine .made hvalue (idle.move hstoring) ?_
    rw [handed_move hreturned]
    exact hhanded
  cases ph with
  | calling =>
      obtain rfl := Option.some.inj hn
      simp only [hvalue, Option.isSome_some, if_true]
      rw [← hvalue]
      exact still _ (by simp) (by simp)
  | creating =>
      obtain rfl := Option.some.inj hn
      simp only [hvalue, Option.getD_some]
      rw [← hvalue]
      exact still _ (by simp) (by simp)
  | attaching mustInit =>
      obtain ⟨v, hv, rfl⟩ := Option.map_eq_some_iff.mp hn
      obtain rfl := Option.some.inj (hv.symm.trans hvalue)
      simp only [updated_ready laws hready, Bool.not_true, Bool.and_false, Bool.false_eq_true,
        if_false]
      refine .made rfl (idle.move (by simp)) ?_
      intro x hx
      rcases mem_handed_return hx with hold | rfl
      · exact hhanded x hold
      · rfl
  | storing j => exact absurd (List.mem_of_getElem? hph) (idle j)
  | returned => cases hn

private theorem Shape.step_update {p : Nat} {a : α} (hs : Shape R base s)
    (h : step R s (.update p a) = some t) : Shape R base t := by
  obtain ⟨hp, v, hv, rfl⟩ := OnDemand.step_update.mp h
  cases hs with
  | raw _ _ _ early _ _ => exact absurd (List.mem_of_getElem? hp) early
  | @filling p' j _ _ hp' _ others _ _ =>
      by_cases hne : p = p'
      · subst hne
        cases hp.symm.trans hp'
      · exact absurd hp (others p hne).1
  | made hvalue idle hhanded =>
      obtain rfl := Option.some.inj (hv.symm.trans hvalue)
      exact .made (congrArg some (updated_snoc _ _).symm) idle hhanded

private theorem Shape.step (laws : R.Lawful) (hready : R.ready base = true) {a : Act α}
    (guarded : Guarded R s a) (h : OnDemand.step R s a = some t) (hs : Shape R base s) :
    Shape R base t := by
  cases a with
  | update p a => exact hs.step_update h
  | go p =>
      cases hs with
      | raw hbase hvalue idle early hhanded hupdates =>
          exact Shape.step_raw laws hbase hvalue idle early hhanded hupdates guarded h
      | filling hbase hvalue hp hj others hhanded hupdates =>
          exact Shape.step_filling hbase hvalue hp hj others hhanded hupdates guarded h
      | made hvalue idle hhanded => exact Shape.step_made laws hready hvalue idle hhanded h

private theorem Shape.sound (hs : Shape R base s) : Sound R base s := by
  have empty : s.handed = [] → Sound R base s := fun hnil =>
    ⟨by rw [hnil]; simp, fun hne => absurd hnil hne⟩
  cases hs with
  | raw _ _ _ _ hhanded _ => exact empty hhanded
  | filling _ _ _ _ _ hhanded _ => exact empty hhanded
  | made hvalue _ hhanded => exact ⟨hhanded, fun _ => hvalue⟩

end Steps

section Runs

variable {R : Resource σ α}

private theorem start_idle (value : Option σ) (n : Nat) : Idle (start (α := α) value n) := by
  intro j hmem
  cases List.eq_of_mem_replicate hmem

private theorem shape_start (value : Option σ) (n : Nat) :
    Shape R (value.getD R.made) (start value n) := by
  cases value with
  | none =>
      refine .raw rfl (by simp [start]) (start_idle _ n) ?_ rfl rfl
      intro hmem
      cases List.eq_of_mem_replicate hmem
  | some v => exact .made rfl (start_idle _ n) (by simp [start])

/-- In every guarded run of any number of processes everyone is handed the initialized
value, and no update is lost. -/
theorem sound_of_guarded (laws : R.Lawful) {value : Option σ}
    (hready : ∀ v, value = some v → R.ready v = true) {n : Nat} {as : List (Act α)}
    {t : System σ α} (guarded : Meets (step R) (Guarded R) (start value n) as)
    (h : run (step R) (start value n) as = some t) : Sound R (value.getD R.made) t := by
  have hbase : R.ready (value.getD R.made) = true := by
    cases value with
    | none => exact laws.made_ready
    | some v => exact hready v rfl
  have keep : ∀ s a t, Guarded R s a → step R s a = some t →
      Shape R (value.getD R.made) s → Shape R (value.getD R.made) t :=
    fun s a t hg hst => Shape.step laws hbase hg hst
  exact (guarded.preserves keep h (shape_start value n)).sound

/-- The value is there, and nobody has missed it. -/
def Found (R : Resource σ α) (s : System σ α) : Prop :=
  ∃ v, s.value = some v ∧ R.ready v = true ∧
    ∀ q ∈ s.procs, q = .calling ∨ q = .attaching false ∨ q = .returned

/-- One process at most, which has not found a value. -/
def Lone (s : System σ α) : Prop :=
  s.procs.length ≤ 1 ∧ Phase.attaching false ∉ s.procs ∧ (Phase.calling ∈ s.procs → s.value = none)

private theorem Found.guarded {s : System σ α} (hs : Found R s) (a : Act α) : Guarded R s a := by
  obtain ⟨v, hv, hready, hprocs⟩ := hs
  rintro p mustInit rfl -
  refine ⟨fun j hj => ?_, fun _ => ⟨v, hv, hready⟩⟩
  rcases hprocs _ hj with h | h | h <;> cases h

private theorem Found.keep (laws : R.Lawful) {s t : System σ α} {a : Act α}
    (h : step R s a = some t) (hs : Found R s) : Found R t := by
  obtain ⟨v, hv, hready, hprocs⟩ := hs
  cases a with
  | update p a =>
      obtain ⟨-, w, hw, rfl⟩ := step_update.mp h
      obtain rfl := Option.some.inj (hv.symm.trans hw)
      exact ⟨_, rfl, (laws.apply_ready a v).trans hready, hprocs⟩
  | go p =>
      obtain ⟨ph, n, hph, hn, rfl⟩ := step_go.mp h
      have move : ∀ ph', ph' = .calling ∨ ph' = .attaching false ∨ ph' = .returned →
          Found R (s.move p (some v) ph') := by
        intro ph' hph'
        refine ⟨v, rfl, hready, fun q hq => ?_⟩
        rcases List.mem_or_eq_of_mem_set hq with hold | rfl
        · exact hprocs q hold
        · exact hph'
      rcases hprocs ph (List.mem_of_getElem? hph) with rfl | rfl | rfl
      · simp only [advance, hv, Option.isSome_some, if_true, Option.some.injEq] at hn
        subst hn
        exact move _ (.inr (.inl rfl))
      · simp only [advance, hv, Option.map_some, Bool.false_and, Bool.false_eq_true, if_false,
          Option.some.injEq] at hn
        subst hn
        exact move _ (.inr (.inr rfl))
      · cases hn

private theorem Lone.eq_singleton {s : System σ α} (hs : Lone s) {p : Nat} {ph : Phase}
    (hp : s.procs[p]? = some ph) : p = 0 ∧ s.procs = [ph] := by
  obtain ⟨q, hq⟩ : ∃ q, s.procs = [q] :=
    List.length_eq_one_iff.mp
      (Nat.le_antisymm hs.1 (List.length_pos_of_mem (List.mem_of_getElem? hp)))
  rw [hq] at hp
  cases p with
  | zero => exact ⟨rfl, hq.trans (congrArg (fun q => [q]) (Option.some.inj hp))⟩
  | succ p => cases hp

private theorem Lone.guarded {s : System σ α} (hs : Lone s) (a : Act α) : Guarded R s a := by
  rintro p mustInit rfl hp
  obtain ⟨-, hprocs⟩ := hs.eq_singleton hp
  refine ⟨fun j hj => ?_, fun hfalse => ?_⟩
  · rw [hprocs, List.mem_singleton] at hj
    cases hj
  · exact absurd (hfalse ▸ List.mem_of_getElem? hp) hs.2.1

private theorem Lone.keep {s t : System σ α} {a : Act α} (h : step R s a = some t) (hs : Lone s) :
    Lone t := by
  cases a with
  | update p a =>
      obtain ⟨hp, -, -, rfl⟩ := step_update.mp h
      refine ⟨hs.1, hs.2.1, fun hmem => ?_⟩
      change Phase.calling ∈ s.procs at hmem
      rw [(hs.eq_singleton hp).2, List.mem_singleton] at hmem
      cases hmem
  | go p =>
      obtain ⟨ph, n, hph, hn, rfl⟩ := step_go.mp h
      obtain ⟨rfl, hprocs⟩ := hs.eq_singleton hph
      have hset : (s.move 0 n.1 n.2).procs = [n.2] := by
        rw [System.move, hprocs]
        rfl
      suffices hne : n.2 ≠ .attaching false ∧ n.2 ≠ .calling by
        rw [Lone, hset]
        simp only [List.mem_singleton]
        exact ⟨Nat.le_refl 1, Ne.symm hne.1, fun heq => absurd heq.symm hne.2⟩
      cases ph with
      | calling =>
          rw [advance, hs.2.2 (List.mem_of_getElem? hph)] at hn
          obtain rfl := Option.some.inj hn
          simp
      | creating =>
          obtain rfl := Option.some.inj hn
          simp
      | attaching mustInit =>
          obtain ⟨v, -, rfl⟩ := Option.map_eq_some_iff.mp hn
          constructor <;> (dsimp only; split <;> simp)
      | storing j =>
          obtain ⟨v, -, rfl⟩ := Option.map_eq_some_iff.mp hn
          constructor <;> split <;> simp
      | returned => cases hn

private theorem guarded_start (laws : R.Lawful) {value : Option σ}
    (hready : ∀ v, value = some v → R.ready v = true) {n : Nat} (h : value.isSome ∨ n ≤ 1)
    (as : List (Act α)) : Meets (step R) (Guarded R) (start value n) as := by
  cases value with
  | some v =>
      have hstart : Found R (start (α := α) (some v) n) :=
        ⟨v, rfl, hready v rfl, fun q hq => .inl (List.eq_of_mem_replicate hq)⟩
      exact Meets.of_invariant (fun s a hs => hs.guarded a) (fun s a t ht hs => hs.keep laws ht)
        hstart
  | none =>
      have hstart : Lone (start (σ := σ) (α := α) none n) := by
        refine ⟨?_, fun hmem => ?_, fun _ => rfl⟩
        · rw [start, List.length_replicate]
          exact h.resolve_left (by simp)
        · cases List.eq_of_mem_replicate hmem
      exact Meets.of_invariant (fun s a hs => hs.guarded a) (fun s a t ht hs => hs.keep ht) hstart

private theorem exists_race (laws : R.Lawful) (m : Nat) :
    ∃ (as : List (Act α)) (t : System σ α), Meets (step R) Marked (start none (m + 2)) as ∧
      run (step R) (start none (m + 2)) as = some t ∧ ¬ Sound R R.made t := by
  refine ⟨[.go 0, .go 0, .go 1, .go 1],
    ⟨some R.created, .attaching true :: .returned :: List.replicate m .calling,
      [(R.created, [])], []⟩, ?_, rfl, fun hsound => ?_⟩
  · have marked : ∀ (s : System σ α) (p : Nat) (ph : Phase), s.procs[p]? = some ph →
        ph ≠ .attaching true → Marked s (.go p) := by
      rintro s p ph hph hne q heq hq
      obtain rfl := Act.go.inj heq
      exact absurd (Option.some.inj (hph.symm.trans hq)) hne
    refine ⟨marked _ 0 .calling rfl (by simp), fun s hs => ?_⟩
    obtain rfl := Option.some.inj hs
    refine ⟨marked _ 0 .creating rfl (by simp), fun s hs => ?_⟩
    obtain rfl := Option.some.inj hs
    refine ⟨marked _ 1 .calling rfl (by simp), fun s hs => ?_⟩
    obtain rfl := Option.some.inj hs
    refine ⟨marked _ 1 (.attaching false) rfl (by simp), fun s _ => trivial⟩
  · have hsame : R.created = R.made := hsound.handed _ List.mem_cons_self
    have hraw := laws.created_raw
    rw [hsame, laws.made_ready] at hraw
    cases hraw

/-- Every run is sound exactly when the value is there or there is one process at most;
that only one process initializes at a time does not change that. -/
theorem sound_iff (laws : R.Lawful) {value : Option σ}
    (hready : ∀ v, value = some v → R.ready v = true) (n : Nat) :
    ((∀ (as : List (Act α)) t, run (step R) (start value n) as = some t →
        Sound R (value.getD R.made) t) ↔ value.isSome ∨ n ≤ 1) ∧
      ((∀ (as : List (Act α)) t, Meets (step R) Marked (start value n) as →
        run (step R) (start value n) as = some t → Sound R (value.getD R.made) t) ↔
        value.isSome ∨ n ≤ 1) := by
  have all : value.isSome ∨ n ≤ 1 → ∀ (as : List (Act α)) t,
      run (step R) (start value n) as = some t → Sound R (value.getD R.made) t := by
    intro hsafe as t ht
    exact sound_of_guarded laws hready (guarded_start laws hready hsafe as) ht
  have only : (∀ (as : List (Act α)) t, Meets (step R) Marked (start value n) as →
      run (step R) (start value n) as = some t → Sound R (value.getD R.made) t) →
      value.isSome ∨ n ≤ 1 := by
    intro hall
    by_contra hnot
    obtain ⟨hvalue, hn⟩ := not_or.mp hnot
    obtain rfl : value = none := by simpa using hvalue
    obtain ⟨m, rfl⟩ : ∃ m, n = m + 2 := ⟨n - 2, by omega⟩
    obtain ⟨as, t, hmarked, ht, hunsound⟩ := exists_race (α := α) laws m
    exact hunsound (hall as t hmarked ht)
  exact ⟨⟨fun h => only fun as t _ => h as t, all⟩, only, fun h as t _ => all h as t⟩

end Runs

section Alone

variable {R : Resource σ α}

private theorem alone_stores (us : List α) {j : Nat} (hj : j ≤ R.stores.length) :
    ∃ k, run (step R) ⟨some (R.stored j), [.storing j], [], us⟩ (List.replicate k (.go 0)) =
      some ⟨some R.made, [.returned], [(R.made, us)], us⟩ := by
  induction hd : R.stores.length - j generalizing j with
  | zero =>
      obtain rfl : j = R.stores.length := by omega
      refine ⟨1, ?_⟩
      simp [run, step, advance, System.move, Resource.made]
  | succ d ih =>
      have hlt : j < R.stores.length := by omega
      obtain ⟨k, hk⟩ := ih hlt (by omega)
      refine ⟨k + 1, ?_⟩
      have hsome : R.stores[j]? = some R.stores[j] := List.getElem?_eq_getElem hlt
      rw [stored_succ hsome] at hk
      rw [List.replicate_succ, run]
      simpa [step, advance, System.move, hsome] using hk

theorem alone_missing (laws : R.Lawful) :
    ∃ k, run (step R) (start none 1) (List.replicate k (.go 0)) =
      some ⟨some R.made, [.returned], [(R.made, [])], []⟩ := by
  obtain ⟨k, hk⟩ := alone_stores (R := R) [] (Nat.zero_le _)
  refine ⟨k + 3, ?_⟩
  rw [Nat.add_comm, ← List.replicate_append_replicate, run_append]
  have hthree : run (step R) (start none 1) (List.replicate 3 (.go 0)) =
      some ⟨some (R.stored 0), [.storing 0], [], []⟩ := by
    simp [run, step, advance, System.move, start, stored_zero, laws.created_raw, List.replicate]
  rw [hthree]
  exact hk

theorem alone_found (v : σ) :
    run (step R) (start (some v) 1) (List.replicate 2 (.go 0)) =
      some ⟨some v, [.returned], [(v, [])], []⟩ := by
  simp [run, step, advance, System.move, start, List.replicate]

end Alone

end Rmsgw.Lib.OnDemand
