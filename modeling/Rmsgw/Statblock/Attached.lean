/- Which calls of statblock_attach() hand over an initialized block: the fate of the
   segment is decided by the first call that gets past shm_get(). -/

import Rmsgw.Statblock.Attach
import Mathlib.Data.List.Induction

set_option autoImplicit false
set_option relaxedAutoImplicit false

namespace Rmsgw.Statblock.Attached

open Rmsgw.Lib.CStrings Rmsgw.Lib.Process Rmsgw.Rms Rmsgw.Statblock.Model
open Rmsgw.Statblock.Attach

/-- The segment behind its whole initialization. -/
def freshSegment : Segment := writeMagic { zeroFilled with block := freshBlock }

theorem freshSegment_hasMagic : hasMagic freshSegment = true := by decide

theorem zeroFilled_hasMagic : hasMagic zeroFilled = false := by decide

/-- The last sentinel to be stored. -/
def lastPid (seg : Segment) : Option Int :=
  (seg.block.rmsgw[rmsGwTableSize - 1]?).map RmsgwStat.gwPid

private theorem stores_before_last_sentinel :
    initialization.take (sentinelStores - 1) =
      [fun _ => zeroFilled, writeMagic] ++ initializeAci ++
        (List.range rmsCmsTableSize).flatMap initializeHost ++
        (List.range (rmsGwTableSize - 1)).flatMap initializeGateway := by
  rfl

private theorem onGateway_lastPid (seg : Segment) (f : RmsgwStat → RmsgwStat) {i : Nat}
    (hi : i < rmsGwTableSize - 1) : lastPid (onGateway i f seg) = lastPid seg := by
  have hne : i ≠ rmsGwTableSize - 1 := by omega
  simp only [lastPid, onGateway, onBlock, List.getElem?_modify_ne f _ hne]

private theorem store_lastPid {store : Segment → Segment}
    (hstore : store ∈ initialization.take (sentinelStores - 1)) {seg : Segment}
    (hseg : lastPid seg = some 0) : lastPid (store seg) = some 0 := by
  rw [stores_before_last_sentinel] at hstore
  simp only [List.mem_append, List.mem_flatMap, List.mem_range] at hstore
  rcases hstore with ((h | h) | ⟨i, _, h⟩) | ⟨i, hi, h⟩
  · simp only [List.mem_cons, List.not_mem_nil, or_false] at h
    rcases h with rfl | rfl
    · rfl
    · exact hseg
  · simp only [initializeAci, List.mem_cons, List.not_mem_nil, or_false] at h
    rcases h with rfl | rfl | rfl <;> exact hseg
  · simp only [initializeHost, List.mem_cons, List.not_mem_nil, or_false] at h
    rcases h with rfl | rfl | rfl | rfl | rfl | rfl <;> exact hseg
  · simp only [initializeGateway, List.mem_cons, List.not_mem_nil, or_false] at h
    rcases h with rfl | rfl | rfl | rfl | rfl <;> rw [onGateway_lastPid _ _ hi] <;> exact hseg

private theorem initializeBlock_short {stores : Nat} (h : stores < sentinelStores) :
    lastPid (initializeBlock stores zeroFilled) = some 0 := by
  have htake : initialization.take stores =
      (initialization.take (sentinelStores - 1)).take stores := by
    rw [List.take_take, Nat.min_eq_left (by omega)]
  simp only [initializeBlock, zeroFilled_hasMagic, Bool.false_eq_true, if_false]
  refine List.foldlRecOn (motive := fun seg => lastPid seg = some 0) _ _ ?_ ?_
  · rfl
  · intro seg hseg store hstore
    rw [htake] at hstore
    exact store_lastPid (List.mem_of_mem_take hstore) hseg

private theorem sentinel_stores_end :
    (initialization.take sentinelStores).foldl (fun seg store => store seg) zeroFilled =
      freshSegment := by
  decide

private theorem store_freshSegment {store : Segment → Segment}
    (hstore : store ∈ initialization.drop sentinelStores) : store freshSegment = freshSegment := by
  have hdrop : initialization.drop sentinelStores =
      (initializeGateway (rmsGwTableSize - 1)).tail := rfl
  rw [hdrop] at hstore
  simp only [initializeGateway, List.tail_cons, List.mem_cons, List.not_mem_nil, or_false] at hstore
  rcases hstore with rfl | rfl | rfl | rfl <;> decide

theorem initializeBlock_long {stores : Nat} (h : sentinelStores ≤ stores) :
    initializeBlock stores zeroFilled = freshSegment := by
  have htake : initialization.take stores = initialization.take sentinelStores ++
      (initialization.drop sentinelStores).take (stores - sentinelStores) := by
    rw [← List.take_add, Nat.add_sub_cancel' h]
  simp only [initializeBlock, zeroFilled_hasMagic, Bool.false_eq_true, if_false]
  rw [htake, List.foldl_append, sentinel_stores_end]
  refine List.foldlRecOn (motive := fun seg => seg = freshSegment) _ _ ?_ ?_
  · rfl
  · intro seg hseg store hstore
    rw [hseg]
    exact store_freshSegment (List.mem_of_mem_take hstore)

private theorem not_initialized_of_lastPid {seg : Segment} (h : lastPid seg = some 0) :
    ¬ Initialized (seg, []) := by
  intro hinit
  have hpids : seg.block.rmsgw.map RmsgwStat.gwPid = freshBlock.rmsgw.map RmsgwStat.gwPid :=
    congrArg (fun q => q.2.2) hinit.2
  have hlast := congrArg (fun pids => pids[rmsGwTableSize - 1]?) hpids
  simp only [List.getElem?_map] at hlast
  rw [lastPid] at h
  rw [h] at hlast
  exact absurd hlast (by decide)

private theorem initialized_of_fresh (updates : List SbOp) {seg : Segment}
    (hmagic : hasMagic seg = true)
    (hblock : seg.block = updates.foldl SbOp.apply freshBlock) : Initialized (seg, updates) :=
  ⟨hmagic, congrArg sentinels hblock⟩

private theorem statblockAttach_none {r : AttachResult} {q : Option Segment × Option Int}
    (h : statblockAttach none r = some q) :
    (obtains (.attach r) = false ∧ q = (none, some (-1))) ∨
      (obtains (.attach r) = true ∧ completes (.attach r) = true ∧ q.1 = some freshSegment ∧
        (q.2 = some 0 ↔ r = .done)) ∨
      (obtains (.attach r) = true ∧ completes (.attach r) = false ∧ r ≠ .done ∧ q.2 ≠ some 0 ∧
        ∃ seg, q.1 = some seg ∧ lastPid seg = some 0) := by
  cases r with
  | keyFailed => exact Or.inl ⟨rfl, (Option.some.inj h).symm⟩
  | getFailed => exact Or.inl ⟨rfl, (Option.some.inj h).symm⟩
  | createFailed => exact Or.inl ⟨rfl, (Option.some.inj h).symm⟩
  | stopped =>
      obtain rfl := Option.some.inj h
      exact Or.inr (Or.inr ⟨rfl, rfl, by simp, by simp, zeroFilled, rfl, rfl⟩)
  | shmatFailed =>
      obtain rfl := Option.some.inj h
      exact Or.inr (Or.inr ⟨rfl, rfl, by simp, by simp, zeroFilled, rfl, rfl⟩)
  | stoppedInitializing stores =>
      obtain rfl := Option.some.inj h
      by_cases hlong : sentinelStores ≤ stores
      · have hblock : attached stores (shmGet none) = freshSegment := initializeBlock_long hlong
        refine Or.inr (Or.inl ⟨rfl, decide_eq_true hlong, ?_, by simp⟩)
        rw [hblock]
      · have hpid := initializeBlock_short (Nat.lt_of_not_le hlong)
        exact Or.inr (Or.inr ⟨rfl, decide_eq_false hlong, by simp, by simp, _, rfl, hpid⟩)
  | done =>
      obtain rfl := Option.some.inj h
      have hblock : attached initialization.length (shmGet none) = freshSegment :=
        initializeBlock_long (Nat.sub_le _ _)
      refine Or.inr (Or.inl ⟨rfl, rfl, ?_, by simp⟩)
      rw [hblock]

private theorem statblockAttach_some {seg : Segment} {r : AttachResult}
    {q : Option Segment × Option Int} (h : statblockAttach (some seg) r = some q) :
    q.1 = some seg ∧ (q.2 = some 0 ↔ r = .done) := by
  cases r with
  | createFailed => cases h
  | keyFailed => obtain rfl := Option.some.inj h; exact ⟨rfl, by simp⟩
  | getFailed => obtain rfl := Option.some.inj h; exact ⟨rfl, by simp⟩
  | stopped => obtain rfl := Option.some.inj h; exact ⟨rfl, by simp⟩
  | shmatFailed => obtain rfl := Option.some.inj h; exact ⟨rfl, by simp⟩
  | stoppedInitializing stores => obtain rfl := Option.some.inj h; exact ⟨rfl, by simp⟩
  | done => obtain rfl := Option.some.inj h; exact ⟨rfl, by simp⟩

private theorem step_attach {s t : State} {r : AttachResult} (h : step s (.attach r) = some t) :
    ∃ q, statblockAttach s.segment r = some q ∧ t = onAttach s q.1 q.2 := by
  obtain ⟨q, hq, rfl⟩ := Option.map_eq_some_iff.mp h
  exact ⟨q, hq, rfl⟩

/-- The segment and the calls so far: none yet, left behind by a call that was cut
short, initialized, or handed over as it was left. -/
inductive Phase (es : List Event) (s : State) : Prop
  | absent (hseg : s.segment = none) (hupdates : s.updates = []) (hhanded : s.handed = [])
      (hfirst : es.find? obtains = none)
  | abandoned {e : Event} {seg : Segment} (hseg : s.segment = some seg)
      (hpid : lastPid seg = some 0) (hupdates : s.updates = []) (hhanded : s.handed = [])
      (hfirst : es.find? obtains = some e) (hcut : completes e = false)
      (hdone : Event.attach .done ∉ es)
  | ready {e : Event} {seg : Segment} (hseg : s.segment = some seg)
      (hmagic : hasMagic seg = true)
      (hblock : seg.block = s.updates.foldl SbOp.apply freshBlock)
      (hhanded : ∀ h ∈ s.handed, Initialized h)
      (hfirst : es.find? obtains = some e) (hwhole : completes e = true)
  | exposed {e : Event} (hbad : ∃ h ∈ s.handed, ¬ Initialized h)
      (hfirst : es.find? obtains = some e) (hcut : completes e = false)
      (hdone : Event.attach .done ∈ es)

private theorem find_snoc_of_some {es : List Event} {e₀ : Event} (h : es.find? obtains = some e₀)
    (e : Event) : (es ++ [e]).find? obtains = some e₀ := by
  rw [List.find?_append, h, Option.some_or]

private theorem find_snoc_of_none {es : List Event} (h : es.find? obtains = none) (e : Event) :
    (es ++ [e]).find? obtains = if obtains e = true then some e else none := by
  rw [List.find?_append, h, Option.none_or]
  cases he : obtains e <;> simp [he]

private theorem done_notMem_of_find {es : List Event} (h : es.find? obtains = none) :
    Event.attach .done ∉ es := by
  intro hmem
  exact absurd rfl (List.find?_eq_none.mp h _ hmem)

private theorem onAttach_handed_of_ne {s : State} {segment : Option Segment} {returned : Option Int}
    (h : returned ≠ some 0) : (onAttach s segment returned).handed = s.handed := by
  simp only [onAttach, h, if_false]

private theorem onAttach_handed_zero (s : State) (seg : Segment) :
    (onAttach s (some seg) (some 0)).handed = s.handed ++ [(seg, s.updates)] := by
  simp only [onAttach, if_true, Option.toList_some, List.map_cons, List.map_nil]

private theorem mem_onAttach_handed {s : State} {segment : Option Segment} {returned : Option Int}
    {h : Segment × List SbOp} (hmem : h ∈ s.handed) :
    h ∈ (onAttach s segment returned).handed := by
  simp only [onAttach]
  split
  · exact List.mem_append_left _ hmem
  · exact hmem

private theorem handed_initialized {s : State} {seg : Segment} {returned : Option Int}
    (hhanded : ∀ h ∈ s.handed, Initialized h) (hmagic : hasMagic seg = true)
    (hblock : seg.block = s.updates.foldl SbOp.apply freshBlock) :
    ∀ h ∈ (onAttach s (some seg) returned).handed, Initialized h := by
  intro x hx
  by_cases hret : returned = some 0
  · rw [hret, onAttach_handed_zero] at hx
    rcases List.mem_append.mp hx with hold | hnew
    · exact hhanded x hold
    · obtain rfl := List.mem_singleton.mp hnew
      exact initialized_of_fresh _ hmagic hblock
  · rw [onAttach_handed_of_ne hret] at hx
    exact hhanded x hx

private theorem done_notMem_snoc {es : List Event} {r : AttachResult} (h : Event.attach .done ∉ es)
    (hr : r ≠ .done) : Event.attach .done ∉ es ++ [.attach r] := by
  intro hmem
  rcases List.mem_append.mp hmem with hold | hnew
  · exact h hold
  · exact hr (Event.attach.inj (List.mem_singleton.mp hnew)).symm

private theorem Phase.attach_absent {es : List Event} {s t : State} {r : AttachResult}
    (hseg : s.segment = none) (hupdates : s.updates = []) (hhanded : s.handed = [])
    (hfirst : es.find? obtains = none) (h : step s (.attach r) = some t) :
    Phase (es ++ [.attach r]) t := by
  obtain ⟨q, hq, rfl⟩ := step_attach h
  rw [hseg] at hq
  have hnone : Event.attach .done ∉ es := done_notMem_of_find hfirst
  have hfind := find_snoc_of_none hfirst (.attach r)
  rcases statblockAttach_none hq with ⟨hr, rfl⟩ | ⟨hr, hwhole, hfresh, hzero⟩ |
      ⟨hr, hcut, hne, hq0, seg, hleft, hpid⟩
  · rw [hr] at hfind
    exact .absent rfl hupdates (by rw [onAttach_handed_of_ne (by simp), hhanded]) hfind
  · rw [hr, if_pos rfl] at hfind
    have hblock : freshSegment.block = s.updates.foldl SbOp.apply freshBlock := by
      rw [hupdates, List.foldl_nil]
      rfl
    refine .ready hfresh freshSegment_hasMagic hblock ?_ hfind hwhole
    rw [hfresh]
    exact handed_initialized (by simp [hhanded]) freshSegment_hasMagic hblock
  · rw [hr, if_pos rfl] at hfind
    exact .abandoned hleft hpid hupdates (by rw [onAttach_handed_of_ne hq0, hhanded]) hfind hcut
      (done_notMem_snoc hnone hne)

private theorem Phase.attach_abandoned {es : List Event} {s t : State} {r : AttachResult}
    {e : Event} {seg : Segment} (hseg : s.segment = some seg) (hpid : lastPid seg = some 0)
    (hupdates : s.updates = []) (hhanded : s.handed = []) (hfirst : es.find? obtains = some e)
    (hcut : completes e = false) (hdone : Event.attach .done ∉ es)
    (h : step s (.attach r) = some t) : Phase (es ++ [.attach r]) t := by
  obtain ⟨q, hq, rfl⟩ := step_attach h
  rw [hseg] at hq
  obtain ⟨hsame, hzero⟩ := statblockAttach_some hq
  have hfind := find_snoc_of_some hfirst (.attach r)
  by_cases hret : q.2 = some 0
  · refine .exposed ⟨(seg, s.updates), ?_, ?_⟩ hfind hcut ?_
    · rw [hsame, hret, onAttach_handed_zero]
      exact List.mem_append_right _ (List.mem_singleton_self _)
    · rw [hupdates]
      exact not_initialized_of_lastPid hpid
    · rw [hzero.mp hret]
      exact List.mem_append_right _ (List.mem_singleton_self _)
  · refine .abandoned hsame hpid hupdates ?_ hfind hcut ?_
    · rw [onAttach_handed_of_ne hret, hhanded]
    · exact done_notMem_snoc hdone (fun hr => hret (hzero.mpr hr))

private theorem Phase.attach_ready {es : List Event} {s t : State} {r : AttachResult} {e : Event}
    {seg : Segment} (hseg : s.segment = some seg) (hmagic : hasMagic seg = true)
    (hblock : seg.block = s.updates.foldl SbOp.apply freshBlock)
    (hhanded : ∀ h ∈ s.handed, Initialized h) (hfirst : es.find? obtains = some e)
    (hwhole : completes e = true) (h : step s (.attach r) = some t) :
    Phase (es ++ [.attach r]) t := by
  obtain ⟨q, hq, rfl⟩ := step_attach h
  rw [hseg] at hq
  obtain ⟨hsame, _⟩ := statblockAttach_some hq
  refine .ready hsame hmagic hblock ?_ (find_snoc_of_some hfirst _) hwhole
  rw [hsame]
  exact handed_initialized hhanded hmagic hblock

private theorem step_update {s t : State} {o : SbOp} (h : step s (.update o) = some t) :
    s.handed ≠ [] ∧ ∃ seg, s.segment = some seg ∧
      t = { s with
        segment := some { seg with block := o.apply seg.block }
        updates := s.updates ++ [o] } := by
  simp only [step] at h
  split at h
  · cases h
  · rename_i hne
    obtain ⟨seg, hseg, rfl⟩ := Option.map_eq_some_iff.mp h
    exact ⟨fun hnil => hne (by rw [hnil]; rfl), seg, hseg, rfl⟩

private theorem Phase.step_update {es : List Event} {s t : State} {o : SbOp} (hs : Phase es s)
    (h : step s (.update o) = some t) : Phase (es ++ [.update o]) t := by
  obtain ⟨hne, seg, hseg, rfl⟩ := Attached.step_update h
  cases hs with
  | absent _ _ hhanded _ => exact absurd hhanded hne
  | abandoned _ _ _ hhanded _ _ _ => exact absurd hhanded hne
  | ready hseg' hmagic hblock hhanded hfirst hwhole =>
      obtain rfl := Option.some.inj (hseg.symm.trans hseg')
      refine .ready rfl hmagic ?_ hhanded (find_snoc_of_some hfirst _) hwhole
      change o.apply seg.block = (s.updates ++ [o]).foldl SbOp.apply freshBlock
      rw [List.foldl_append, hblock]
      rfl
  | exposed hbad hfirst hcut hdone =>
      exact .exposed hbad (find_snoc_of_some hfirst _) hcut (List.mem_append_left _ hdone)

private theorem Phase.step {es : List Event} {s t : State} {e : Event} (hs : Phase es s)
    (h : Attach.step s e = some t) : Phase (es ++ [e]) t := by
  cases e with
  | update o => exact hs.step_update h
  | attach r =>
      cases hs with
      | absent hseg hupdates hhanded hfirst =>
          exact Phase.attach_absent hseg hupdates hhanded hfirst h
      | abandoned hseg hpid hupdates hhanded hfirst hcut hdone =>
          exact Phase.attach_abandoned hseg hpid hupdates hhanded hfirst hcut hdone h
      | ready hseg hmagic hblock hhanded hfirst hwhole =>
          exact Phase.attach_ready hseg hmagic hblock hhanded hfirst hwhole h
      | exposed hbad hfirst hcut hdone =>
          obtain ⟨q, _, rfl⟩ := step_attach h
          obtain ⟨x, hx, hnot⟩ := hbad
          exact .exposed ⟨x, mem_onAttach_handed hx, hnot⟩ (find_snoc_of_some hfirst _) hcut
            (List.mem_append_left _ hdone)

private theorem run_phase {es : List Event} {t : State} (h : run Attach.step initial es = some t) :
    Phase es t := by
  induction es using List.reverseRecOn generalizing t with
  | nil =>
      obtain rfl := Option.some.inj h
      exact .absent rfl rfl rfl rfl
  | append_singleton es e ih =>
      obtain ⟨s, hs, hstep⟩ := run_snoc_eq_some.mp h
      exact (ih hs).step hstep

private theorem step_wiped {s t : State} {e : Event} (h : Attach.step s e = some t) :
    t.wiped = s.wiped := by
  cases e with
  | update o =>
      obtain ⟨_, seg, _, rfl⟩ := Attached.step_update h
      rfl
  | attach r =>
      obtain ⟨q, hq, rfl⟩ := step_attach h
      have hnot : wipes s.segment q.1 = false := by
        cases hseg : s.segment with
        | none => rfl
        | some seg =>
            rw [hseg] at hq
            simp [wipes, (statblockAttach_some hq).1]
      simp only [onAttach, hnot, Bool.or_false]

private theorem run_wiped {es : List Event} {t : State} (h : run Attach.step initial es = some t) :
    t.wiped = false :=
  run_preserves (fun _ _ _ hstep hs => (step_wiped hstep).trans hs) h rfl

private theorem sound_of_nil {s : State} (hhanded : s.handed = []) (hwiped : s.wiped = false) :
    Sound s := by
  refine ⟨?_, hwiped⟩
  intro x hx
  rw [hhanded] at hx
  cases hx

/-- Every attached block is an initialized one exactly when no call has returned 0, or
the call that created the segment came to the last sentinel. -/
theorem attached_blocks_initialized_iff {es : List Event} {t : State}
    (h : run Attach.step initial es = some t) :
    Sound t ↔ Event.attach .done ∉ es ∨ (es.find? obtains).any completes = true := by
  have hwiped := run_wiped h
  cases run_phase h with
  | absent _ _ hhanded hfirst =>
      exact iff_of_true (sound_of_nil hhanded hwiped) (Or.inl (done_notMem_of_find hfirst))
  | abandoned _ _ _ hhanded _ _ hdone =>
      exact iff_of_true (sound_of_nil hhanded hwiped) (Or.inl hdone)
  | ready _ _ _ hhanded hfirst hwhole =>
      exact iff_of_true ⟨hhanded, hwiped⟩ (Or.inr (by rw [hfirst]; exact hwhole))
  | exposed hbad hfirst hcut hdone =>
      obtain ⟨x, hx, hnot⟩ := hbad
      apply iff_of_false
      · intro hsound
        exact hnot (hsound.1 x hx)
      · rintro (hno | hwhole)
        · exact hno hdone
        · rw [hfirst] at hwhole
          exact absurd (hcut.symm.trans hwhole) (by decide)

/-- Two calls that fail before there is a segment, then two that return 0. -/
theorem attached_blocks_initialized_iff_retried :
    ∃ t, run Attach.step initial
        [.attach .keyFailed, .attach .createFailed, .attach .done, .attach .done] = some t ∧
      t.handed.length = 2 ∧ Sound t := by
  have hrun : ∃ t, run Attach.step initial
      [.attach .keyFailed, .attach .createFailed, .attach .done, .attach .done] = some t :=
    ⟨_, rfl⟩
  obtain ⟨t, ht⟩ := hrun
  refine ⟨t, ht, ?_, (attached_blocks_initialized_iff ht).mpr (Or.inr rfl)⟩
  obtain rfl := Option.some.inj ht
  rfl

/-- The first process cannot map the segment that it has created; the next one gets
it without the magic string, and 0. -/
theorem created_and_left_zeroed :
    ∃ t, run Attach.step initial [.attach .shmatFailed, .attach .done] = some t ∧
      t.handed = [(zeroFilled, [])] ∧ hasMagic zeroFilled = false ∧
      zeroFilled.block.aciHostidx = 0 ∧ ¬ Sound t := by
  refine ⟨_, rfl, rfl, by decide, rfl, ?_⟩
  intro hsound
  exact absurd (hsound.1 _ (List.mem_singleton_self _)) (by decide)

end Rmsgw.Statblock.Attached
