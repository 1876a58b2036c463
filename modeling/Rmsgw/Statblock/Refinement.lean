/- The status block against two maps: one from callsigns to gateway records, one
   from host names to ACI records. -/

import Rmsgw.Statblock.Model

set_option autoImplicit false
set_option relaxedAutoImplicit false

namespace Rmsgw.Statblock.Refinement

open Rmsgw.Lib.CStrings Rmsgw.Lib.SlotTable Rmsgw.Lib.Transcript Rmsgw.Rms Rmsgw.Statblock.Model

universe v

/-- The gateway record that a call updates, and how. -/
def gwOp : SbOp → Option (Op CString RmsgwStat)
  | .gwState s gwcall => some ⟨gwcall, setState s⟩
  | .gwPid gwcall pid => some ⟨gwcall, setPid pid⟩
  | .gwUsercall gwcall usercall => some ⟨gwcall, setClient usercall⟩
  | .gwCms gwcall cmsHost => some ⟨gwcall, setCms cmsHost⟩
  | .gwConnects gwcall => some ⟨gwcall, incrConnects⟩
  | .gwBytesIn gwcall count => some ⟨gwcall, addBytesIn count⟩
  | .gwBytesOut gwcall count => some ⟨gwcall, addBytesOut count⟩
  | _ => none

/-- The ACI host record that a call updates, and how. -/
def aciOp : SbOp → Option (Op CString AciHostStat)
  | .aciError cmsHost now => some ⟨cmsHost, countError now⟩
  | .aciCheckin cmsHost now => some ⟨cmsHost, countCheckin now⟩
  | .channelStats cmsHost updates errors => some ⟨cmsHost, setChannelStats updates errors⟩
  | _ => none

def gwcalls (ops : List SbOp) : List CString := (ops.filterMap gwOp).map Op.key

def cmsHosts (ops : List SbOp) : List CString := (ops.filterMap aciOp).map Op.key

/-- The slot that each call on one table searches out, call by call. -/
def slotsOf {ρ : Type v} (slot : RmsStatus → CString → Option (Nat × RmsStatus))
    (view : SbOp → Option (Op CString ρ)) :
    RmsStatus → List SbOp → List (CString × Option Nat)
  | _, [] => []
  | p, o :: os =>
      ((view o).toList.map (fun q => (q.key, (slot p q.key).map Prod.fst))) ++
        slotsOf slot view (o.apply p) os

/-- The gateway table after a sequence of calls on a fresh block, and the slots
that the calls used. -/
def gwTable (ops : List SbOp) : Run CString RmsgwStat :=
  ⟨(ops.foldl SbOp.apply freshBlock).rmsgw, slotsOf getGwSlot gwOp freshBlock ops⟩

/-- The ACI host table after a sequence of calls on a fresh block, and the slots
that the calls used. -/
def hostTable (ops : List SbOp) : Run CString AciHostStat :=
  ⟨(ops.foldl SbOp.apply freshBlock).aciHost, slotsOf getCmsSlot aciOp freshBlock ops⟩

/-- No key, when it is first used, is a prefix of a key used before. -/
def FirstUseNoPrefix (keys : List CString) : Prop :=
  Ordered (fun before k => k ∉ before → ∀ used ∈ before, ¬ k.bytes <+: used.bytes)
    (fun _ _ => True) keys

/-- Callsigns of 1..MAXGWCALL characters. -/
def GoodGwcall (k : CString) : Prop := 0 < k.bytes.length ∧ k.bytes.length ≤ maxGwCall

/-- Host names of 1..RMS_MAXHOSTNAME-1 characters. -/
def GoodHost (k : CString) : Prop := 0 < k.bytes.length ∧ k.bytes.length < rmsMaxHostName

theorem onGwSlot_rmsgw (p : RmsStatus) (o : Op CString RmsgwStat) (slots : List (CString × Option Nat)) :
    perform gwLayout ⟨p.rmsgw, slots⟩ o =
      ⟨(onGwSlot p o.key o.update).rmsgw, slots ++ [(o.key, (getGwSlot p o.key).map Prod.fst)]⟩ := by
  simp only [perform, onGwSlot, getGwSlot]
  cases getSlot gwLayout o.key p.rmsgw <;> rfl

theorem onCmsSlot_aciHost (p : RmsStatus) (o : Op CString AciHostStat)
    (slots : List (CString × Option Nat)) :
    perform aciLayout ⟨p.aciHost, slots⟩ o =
      ⟨(onCmsSlot p o.key o.update).aciHost,
        slots ++ [(o.key, (getCmsSlot p o.key).map Prod.fst)]⟩ := by
  simp only [perform, onCmsSlot, getCmsSlot]
  cases getSlot aciLayout o.key p.aciHost <;> rfl

private theorem onGwSlot_aciHost (p : RmsStatus) (gwcall : CString) (f : RmsgwStat → RmsgwStat) :
    (onGwSlot p gwcall f).aciHost = p.aciHost := by
  simp only [onGwSlot, getGwSlot]
  cases getSlot gwLayout gwcall p.rmsgw <;> rfl

private theorem onCmsSlot_rmsgw (p : RmsStatus) (cmsHost : CString)
    (f : AciHostStat → AciHostStat) : (onCmsSlot p cmsHost f).rmsgw = p.rmsgw := by
  simp only [onCmsSlot, getCmsSlot]
  cases getSlot aciLayout cmsHost p.aciHost <;> rfl

theorem apply_rmsgw (p : RmsStatus) (o : SbOp) :
    (∃ q, gwOp o = some q ∧ o.apply p = onGwSlot p q.key q.update) ∨
      (gwOp o = none ∧ (o.apply p).rmsgw = p.rmsgw) := by
  cases o
  case aciState | aciPid => exact .inr ⟨rfl, rfl⟩
  case aciError | aciCheckin | channelStats => exact .inr ⟨rfl, onCmsSlot_rmsgw ..⟩
  all_goals exact .inl ⟨_, rfl, rfl⟩

theorem apply_aciHost (p : RmsStatus) (o : SbOp) :
    (∃ q, aciOp o = some q ∧ o.apply p = onCmsSlot p q.key q.update) ∨
      (aciOp o = none ∧ (o.apply p).aciHost = p.aciHost) := by
  cases o
  case aciState | aciPid => exact .inr ⟨rfl, rfl⟩
  case aciError | aciCheckin | channelStats => exact .inl ⟨_, rfl, rfl⟩
  all_goals exact .inr ⟨rfl, onGwSlot_aciHost ..⟩

theorem gwTable_eq (ops : List SbOp) :
    gwTable ops = execute gwLayout emptyGw rmsGwTableSize (ops.filterMap gwOp) := by
  have key : ∀ (ops : List SbOp) (p : RmsStatus) (slots : List (CString × Option Nat)),
      (ops.filterMap gwOp).foldl (perform gwLayout) ⟨p.rmsgw, slots⟩ =
        ⟨(ops.foldl SbOp.apply p).rmsgw, slots ++ slotsOf getGwSlot gwOp p ops⟩ := by
    intro ops
    induction ops with
    | nil => intro p slots; simp [slotsOf]
    | cons o os ih =>
        intro p slots
        rcases apply_rmsgw p o with ⟨q, hq, happly⟩ | ⟨hq, happly⟩
        · rw [List.filterMap_cons_some hq, List.foldl_cons, onGwSlot_rmsgw, ← happly, ih]
          simp [slotsOf, hq]
        · rw [List.filterMap_cons_none hq, ← happly, ih]
          simp [slotsOf, hq]
  exact (key ops freshBlock []).symm

private theorem hostTable_eq (ops : List SbOp) :
    hostTable ops = execute aciLayout emptyHost rmsCmsTableSize (ops.filterMap aciOp) := by
  have key : ∀ (ops : List SbOp) (p : RmsStatus) (slots : List (CString × Option Nat)),
      (ops.filterMap aciOp).foldl (perform aciLayout) ⟨p.aciHost, slots⟩ =
        ⟨(ops.foldl SbOp.apply p).aciHost, slots ++ slotsOf getCmsSlot aciOp p ops⟩ := by
    intro ops
    induction ops with
    | nil => intro p slots; simp [slotsOf]
    | cons o os ih =>
        intro p slots
        rcases apply_aciHost p o with ⟨q, hq, happly⟩ | ⟨hq, happly⟩
        · rw [List.filterMap_cons_some hq, List.foldl_cons, onCmsSlot_aciHost, ← happly, ih]
          simp [slotsOf, hq]
        · rw [List.filterMap_cons_none hq, ← happly, ih]
          simp [slotsOf, hq]
  exact (key ops freshBlock []).symm

private theorem key_of_text {size : Nat} {a : CArray size} {k : CString}
    (h : text a.bytes = k.bytes)
    (hpos : 0 < k.bytes.length) : (if a.vacant then none else some a.cstring) = some k := by
  have hne : a.vacant = false := by
    rw [CArray.vacant, h]
    cases hk : k.bytes with
    | nil => rw [hk] at hpos; cases hpos
    | cons b bs => rfl
  rw [hne]
  exact congrArg some (CString.ext h)

theorem gwLayout_lawful : Lawful gwLayout emptyGw GoodGwcall where
  empty_vacant := by decide
  key_claim := by
    intro k ⟨hpos, hlen⟩
    refine key_of_text ?_ hpos
    rcases Nat.lt_or_ge k.bytes.length maxGwCall with hlt | hge
    · exact CArray.text_strncpy_of_lt _ _ _ (Nat.le_succ _) hlt
    · exact CArray.text_strncpy_of_eq _ _ _ (Nat.le_succ _) (Nat.le_antisymm hlen hge) (by decide)
  hits_self := fun k _ => beq_self_eq_true _

theorem aciLayout_lawful : Lawful aciLayout emptyHost GoodHost where
  empty_vacant := by decide
  key_claim := fun k ⟨hpos, hlt⟩ =>
    key_of_text (CArray.text_strncpy_of_lt _ _ _ (Nat.le_refl _) hlt) hpos
  hits_self := fun k _ => beq_self_eq_true _

theorem gwOp_key {o : SbOp} {q : Op CString RmsgwStat} (h : gwOp o = some q) (r : RmsgwStat) :
    gwLayout.key (q.update r) = gwLayout.key r := by
  cases o <;> cases h
  case gwUsercall usercall => cases usercall <;> rfl
  case gwCms cmsHost => cases cmsHost <;> rfl
  all_goals rfl

theorem aciOp_key {o : SbOp} {q : Op CString AciHostStat} (h : aciOp o = some q) (r : AciHostStat) :
    aciLayout.key (q.update r) = aciLayout.key r := by
  cases o <;> cases h <;> rfl

theorem hits_iff_begins {k stored : CString} {limit : Nat} (hlen : k.bytes.length ≤ limit) :
    strnequal k.bytes stored.bytes (min limit k.bytes.length) = true ↔
      k.bytes <+: stored.bytes := by
  rw [min_eq_right hlen]
  exact strnequal_length _ _

theorem firstUseClear_iff {ρ : Type v} {L : Layout CString ρ} {ops : List (Op CString ρ)}
    (hits : ∀ o ∈ ops, ∀ stored, L.hits o.key stored = true ↔ o.key.bytes <+: stored.bytes) :
    FirstUseClear L ops ↔ FirstUseNoPrefix (ops.map Op.key) := by
  induction ops using List.reverseRecOn with
  | nil => exact iff_of_true ordered_nil ordered_nil
  | append_singleton past o ih =>
      rw [FirstUseClear, FirstUseNoPrefix, List.map_append, List.map_singleton, ordered_snoc_iff,
        ordered_snoc_iff]
      refine and_congr (ih fun q hq => hits q (List.mem_append_left _ hq)) (and_congr ?_ (by simp))
      refine imp_congr_right ?_
      intro _
      simp only [List.forall_mem_map]
      refine forall₂_congr ?_
      intro q _
      rw [← hits o (by simp) q.key, Bool.not_eq_true]

private theorem gwTable_refines_iff {ops : List SbOp} (good : ∀ k ∈ gwcalls ops, GoodGwcall k)
    (few : (gwcalls ops).dedup.length ≤ rmsGwTableSize) :
    Refines gwLayout emptyGw (ops.filterMap gwOp) (gwTable ops) ↔
      FirstUseNoPrefix (gwcalls ops) := by
  have hgood : ∀ q ∈ ops.filterMap gwOp, GoodGwcall q.key := fun q hq =>
    good _ (List.mem_map_of_mem hq)
  rw [gwTable_eq, refines_iff_firstUseClear gwLayout_lawful ?_ few]
  · exact firstUseClear_iff fun q hq stored => hits_iff_begins (hgood q hq).2
  · intro q hq
    obtain ⟨o, -, ho⟩ := List.mem_filterMap.mp hq
    exact ⟨hgood q hq, gwOp_key ho⟩

private theorem hostTable_refines_iff {ops : List SbOp} (good : ∀ k ∈ cmsHosts ops, GoodHost k)
    (few : (cmsHosts ops).dedup.length ≤ rmsCmsTableSize) :
    Refines aciLayout emptyHost (ops.filterMap aciOp) (hostTable ops) ↔
      FirstUseNoPrefix (cmsHosts ops) := by
  have hgood : ∀ q ∈ ops.filterMap aciOp, GoodHost q.key := fun q hq =>
    good _ (List.mem_map_of_mem hq)
  rw [hostTable_eq, refines_iff_firstUseClear aciLayout_lawful ?_ few]
  · exact firstUseClear_iff fun q hq stored => hits_iff_begins (Nat.le_of_lt (hgood q hq).2)
  · intro q hq
    obtain ⟨o, -, ho⟩ := List.mem_filterMap.mp hq
    exact ⟨hgood q hq, aciOp_key ho⟩

/-- Over any sequence of calls on a fresh block that fits the tables, the status
block is a pair of maps exactly when no callsign and no host name, when first
used, is a prefix of one used before. -/
theorem status_block_refines_iff (ops : List SbOp)
    (goodCalls : ∀ k ∈ gwcalls ops, GoodGwcall k) (goodHosts : ∀ k ∈ cmsHosts ops, GoodHost k)
    (fewCalls : (gwcalls ops).dedup.length ≤ rmsGwTableSize)
    (fewHosts : (cmsHosts ops).dedup.length ≤ rmsCmsTableSize) :
    (Refines gwLayout emptyGw (ops.filterMap gwOp) (gwTable ops) ∧
        Refines aciLayout emptyHost (ops.filterMap aciOp) (hostTable ops)) ↔
      FirstUseNoPrefix (gwcalls ops) ∧ FirstUseNoPrefix (cmsHosts ops) :=
  and_congr (gwTable_refines_iff goodCalls fewCalls) (hostTable_refines_iff goodHosts fewHosts)

private def shortSsid : CString := ⟨lit "W1AW-1", by decide⟩

private def longSsid : CString := ⟨lit "W1AW-10", by decide⟩

private def cmsHost : CString := ⟨lit "cms.winlink.org", by decide⟩

private def shortFirst : List SbOp :=
  [.gwState .gwRunning shortSsid, .gwConnects longSsid, .gwConnects shortSsid,
    .aciCheckin cmsHost 1000, .aciError cmsHost 2000]

theorem status_block_refines_iff_short_first :
    (Refines gwLayout emptyGw (shortFirst.filterMap gwOp) (gwTable shortFirst) ∧
        Refines aciLayout emptyHost (shortFirst.filterMap aciOp) (hostTable shortFirst)) ↔
      FirstUseNoPrefix (gwcalls shortFirst) ∧ FirstUseNoPrefix (cmsHosts shortFirst) :=
  status_block_refines_iff shortFirst
    (by simp [gwcalls, shortFirst, gwOp, GoodGwcall, shortSsid, longSsid]; decide)
    (by simp [cmsHosts, shortFirst, aciOp, GoodHost, cmsHost]; decide)
    (by decide) (by decide)

private def longFirst : List SbOp := [.gwConnects longSsid, .gwConnects shortSsid]

/-- After W1AW-10 has its slot, W1AW-1 is given the same one. -/
theorem ssids_share_slot :
    (gwTable longFirst).slots = [(longSsid, some 0), (shortSsid, some 0)] ∧
      ¬ Refines gwLayout emptyGw (longFirst.filterMap gwOp) (gwTable longFirst) := by
  have hslots : (gwTable longFirst).slots = [(longSsid, some 0), (shortSsid, some 0)] := by decide
  refine ⟨hslots, ?_⟩
  intro h
  have hne : longSsid ≠ shortSsid := by decide
  exact (h.1 (longSsid, some 0) (by simp [hslots])).2 (shortSsid, some 0) (by simp [hslots]) hne rfl

end Rmsgw.Statblock.Refinement
