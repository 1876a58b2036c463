/- Gateways of several channels at the status block at once: which interleavings of
   get_gw_slot() give each callsign a slot of its own. -/

import Rmsgw.Lib.SlotAgreement
import Rmsgw.Statblock.Refinement

set_option autoImplicit false
set_option relaxedAutoImplicit false

namespace Rmsgw.Statblock.Race

open Rmsgw.Lib.CStrings Rmsgw.Lib.Process Rmsgw.Lib.SlotTable Rmsgw.Lib.SlotRace
open Rmsgw.Lib.SlotAgreement Rmsgw.Lib.Transcript Rmsgw.Rms
open Rmsgw.Statblock.Model Rmsgw.Statblock.Refinement

/-- Byte `i` of `strncpy(p->rmsgw[].gw_gwcall, gwcall, MAXGWCALL)`. -/
def copyByte (gwcall : CString) (i : Nat) (r : RmsgwStat) : RmsgwStat :=
  { r with gwGwcall := r.gwGwcall.set i (gwcall.bytes[i]?.getD 0) }

/-- get_gw_slot() in the steps that other processes can see. -/
def gwWriting : Writing CString RmsgwStat where
  toLayout := gwLayout
  writes := fun gwcall => (List.range maxGwCall).map (copyByte gwcall)

/-- Processes about to call get_gw_slot(), one for each callsign. -/
def searching (p : RmsStatus) (calls : List CString) : System CString RmsgwStat :=
  ⟨p.rmsgw, calls.map (fun gwcall => ⟨gwcall, .visiting 0⟩)⟩

/-- No callsign begins with another one. -/
def NoPrefix (calls : List CString) : Prop :=
  ∀ k ∈ calls, ∀ k' ∈ calls, k.bytes <+: k'.bytes → k = k'

private theorem claim_eq_written (k : CString) (r : RmsgwStat) :
    gwWriting.claim k r = written gwWriting k (gwWriting.writes k).length r := by
  have hfold : ∀ (is : List Nat) (r : RmsgwStat),
      (is.map (copyByte k)).foldl (fun r w => w r) r =
        { r with gwGwcall := is.foldl (fun a i => a.set i (k.bytes[i]?.getD 0)) r.gwGwcall } := by
    intro is
    induction is with
    | nil => intro r; rfl
    | cons i is ih => intro r; rw [List.map_cons, List.foldl_cons, ih]; rfl
  rw [written, List.take_length]
  show gwLayout.claim k r = ((List.range maxGwCall).map (copyByte k)).foldl (fun r w => w r) r
  rw [hfold, CArray.strncpy_eq_sets _ k maxGwCall (by decide)]
  rfl

/-- Undisturbed, a process in the middle of others gets what get_gw_slot() returns. -/
theorem undisturbed_eq_getGwSlot (p : RmsStatus) (gwcall : CString) :
    ∃ n, run (step gwWriting) (searching p [gwcall]) (List.replicate n 0) =
      some ⟨((getGwSlot p gwcall).elim p Prod.snd).rmsgw,
        [⟨gwcall, .returned ((getGwSlot p gwcall).map Prod.fst)⟩]⟩ := by
  obtain ⟨n, hn⟩ := alone_eq_getSlot (claim_eq_written gwcall) [] p.rmsgw
  have hslot : getSlot gwWriting.toLayout gwcall p.rmsgw = getSlot gwLayout gwcall p.rmsgw := rfl
  refine ⟨n, ?_⟩
  rw [run_alone (s := searching p [gwcall]) (p := 0) (q := ⟨gwcall, .visiting 0⟩) rfl hn, hslot,
    getGwSlot]
  cases getSlot gwLayout gwcall p.rmsgw with
  | none => rfl
  | some q => simp [searching]

private theorem gwWriting_exact {calls : List CString} (good : ∀ k ∈ calls, GoodGwcall k)
    (clear : NoPrefix calls) : Exact gwWriting emptyGw (fun k => k ∈ calls) where
  empty_vacant := gwLayout_lawful.empty_vacant
  key_written := fun k hk => by
    rw [← claim_eq_written]
    exact gwLayout_lawful.key_claim k (good k hk)
  hits_iff := by
    intro k k' hk hk'
    refine (hits_iff_begins (good k hk).2).trans ⟨clear k hk k' hk', ?_⟩
    rintro rfl
    exact List.prefix_refl _

private theorem firstUse_of_noPrefix {calls : List CString} (clear : NoPrefix calls) :
    FirstUseNoPrefix calls := by
  intro before k after hcalls
  refine ⟨fun new used hused hpre => new ?_, fun _ _ => trivial⟩
  have hk : k ∈ calls := hcalls ▸ by simp
  have hused' : used ∈ calls := hcalls ▸ List.mem_append_left _ hused
  exact clear k hk used hused' hpre ▸ hused

/-- The calls so far have left one entry for each callsign. -/
theorem gwTable_entries {ops : List SbOp} (good : ∀ k ∈ gwcalls ops, GoodGwcall k)
    (clear : NoPrefix (gwcalls ops)) (few : (gwcalls ops).dedup.length ≤ rmsGwTableSize) :
    ∃ es, Entries gwLayout emptyGw rmsGwTableSize (ops.filterMap gwOp) (gwTable ops) es := by
  have hgood : ∀ q ∈ ops.filterMap gwOp, q.Keeps gwLayout GoodGwcall := by
    intro q hq
    obtain ⟨o, -, ho⟩ := List.mem_filterMap.mp hq
    exact ⟨good _ (List.mem_map_of_mem hq), gwOp_key ho⟩
  have hfirst : FirstUseClear gwLayout (ops.filterMap gwOp) := by
    refine (firstUseClear_iff fun q hq stored => hits_iff_begins (hgood q hq).1.2).mpr ?_
    exact firstUse_of_noPrefix clear
  rcases execute_cases gwLayout_lawful hgood few with ⟨-, es, hes⟩ | ⟨hbad, -⟩
  · rw [gwTable_eq]
    exact ⟨es, hes⟩
  · exact absurd hfirst hbad

/-- A callsign in use is found in its own slot, with the record that its own calls make,
and the search changes nothing. -/
theorem getGwSlot_known {ops : List SbOp} {es : List (CString × RmsgwStat)}
    (hes : Entries gwLayout emptyGw rmsGwTableSize (ops.filterMap gwOp) (gwTable ops) es)
    {k : CString} (hk : k ∈ gwcalls ops) :
    ∃ i, (es.map Prod.fst)[i]? = some k ∧
      getGwSlot (ops.foldl SbOp.apply freshBlock) k =
        some (i, ops.foldl SbOp.apply freshBlock) ∧
      (ops.foldl SbOp.apply freshBlock).rmsgw[i]? =
        some (own gwLayout emptyGw k (ops.filterMap gwOp)) := by
  obtain ⟨e, he, rfl⟩ := List.mem_map.mp ((hes.used k).mpr hk)
  obtain ⟨front, back, rfl⟩ := List.append_of_mem he
  have htable : (ops.foldl SbOp.apply freshBlock).rmsgw = layOut (front ++ e :: back) emptyGw
      (rmsGwTableSize - (front ++ e :: back).length) := hes.table_eq
  have hpass : ∀ q ∈ front, gwLayout.hits e.1 q.1 = false := fun q hq =>
    (List.pairwise_append.mp hes.passes).2.2 q hq e List.mem_cons_self
  have hget := getSlot_hit (L := gwLayout) emptyGw (rmsGwTableSize - (front ++ e :: back).length)
    hes.keyed hpass (beq_self_eq_true _)
  refine ⟨front.length, by simp, ?_, ?_⟩
  · rw [getGwSlot, htable, hget, ← htable]
    rfl
  · rw [htable, layOut, List.getElem?_append_left (by simp), ← hes.owned e he]
    simp

private theorem shape_searching {ops : List SbOp} {calls : List CString}
    (good : ∀ k ∈ gwcalls ops ++ calls, GoodGwcall k) (clear : NoPrefix (gwcalls ops ++ calls))
    (few : (gwcalls ops).dedup.length ≤ rmsGwTableSize) :
    ∃ es : List (CString × RmsgwStat), (∀ k, k ∈ es.map Prod.fst ↔ k ∈ gwcalls ops) ∧
      es.length = (gwcalls ops).dedup.length ∧
      Shape gwWriting emptyGw rmsGwTableSize (fun k => k ∈ gwcalls ops ++ calls)
        (searching (ops.foldl SbOp.apply freshBlock) calls) es none := by
  obtain ⟨es, hes⟩ := gwTable_entries (fun k hk => good k (List.mem_append_left _ hk))
    (fun k hk k' hk' => clear k (List.mem_append_left _ hk) k' (List.mem_append_left _ hk')) few
  have hlen : es.length = (gwcalls ops).dedup.length := by
    have hperm := (List.perm_ext_iff_of_nodup hes.nodup (List.nodup_dedup (gwcalls ops))).mpr
      fun k => (hes.used k).trans List.mem_dedup.symm
    rw [← hperm.length_eq, List.length_map]
  refine ⟨es, hes.used, hlen, ?_⟩
  constructor
  case table_eq =>
    have htable : (ops.foldl SbOp.apply freshBlock).rmsgw =
        layOut es emptyGw (rmsGwTableSize - es.length) := hes.table_eq
    show (ops.foldl SbOp.apply freshBlock).rmsgw = _
    simpa [held, layOut] using htable
  case fits => simpa using hes.fits
  case keyed =>
    intro e he
    exact ⟨hes.keyed e he, List.mem_append_left _ ((hes.used e.1).mp (List.mem_map_of_mem he))⟩
  case nodup => exact hes.nodup
  case goods =>
    intro q hq
    obtain ⟨k, hk, rfl⟩ := List.mem_map.mp hq
    exact List.mem_append_right _ hk
  case stands =>
    intro p q hq
    obtain ⟨k, -, rfl⟩ := List.mem_map.mp (List.mem_of_getElem? hq)
    exact ⟨Nat.zero_le _, by simp⟩
  case owned => exact fun c hc => by cases hc

/-- Processes that look up different callsigns find or claim slots of their own in every
interleaving exactly when the table is full or at most one of the callsigns is new. -/
theorem gw_searches_agree_iff (ops : List SbOp) (calls : List CString)
    (good : ∀ k ∈ gwcalls ops ++ calls, GoodGwcall k) (clear : NoPrefix (gwcalls ops ++ calls))
    (few : (gwcalls ops).dedup.length ≤ rmsGwTableSize) (apart : calls.Nodup) :
    (∀ sched t, run (step gwWriting) (searching (ops.foldl SbOp.apply freshBlock) calls) sched =
        some t → Agreed gwWriting (searching (ops.foldl SbOp.apply freshBlock) calls) t) ↔
      ((gwcalls ops).dedup.length < rmsGwTableSize →
        ∀ k ∈ calls, ∀ k' ∈ calls, k ∉ gwcalls ops → k' ∉ gwcalls ops → k = k') := by
  obtain ⟨es, hused, hlen, hshape⟩ := shape_searching good clear few
  have laws := gwWriting_exact good clear
  have hkeys : (searching (ops.foldl SbOp.apply freshBlock) calls).procs.map Searcher.key =
      calls := by
    simp [searching, Function.comp_def]
  rw [hshape.agreed_iff laws ?_ (hkeys.symm ▸ apart)]
  · simp only [hshape.room_iff laws, hshape.known_iff laws, hused, hlen]
    simp only [searching, List.forall_mem_map]
  · intro q hq
    obtain ⟨k, -, rfl⟩ := List.mem_map.mp hq
    rfl

private theorem heard_noNul : (0 : UInt8) ∉ lit "W1AW-10" := by decide

private theorem fresh_noNul : (0 : UInt8) ∉ lit "N7NIX-10" := by decide

private theorem other_noNul : (0 : UInt8) ∉ lit "KF7VOL" := by decide

private def heard : CString := ⟨lit "W1AW-10", heard_noNul⟩

private def fresh : CString := ⟨lit "N7NIX-10", fresh_noNul⟩

private def other : CString := ⟨lit "KF7VOL", other_noNul⟩

private def past : List SbOp := [.gwConnects heard]

theorem gw_searches_agree_iff_one_new :
    (∀ sched t, run (step gwWriting)
        (searching (past.foldl SbOp.apply freshBlock) [heard, fresh]) sched = some t →
      Agreed gwWriting (searching (past.foldl SbOp.apply freshBlock) [heard, fresh]) t) ↔
      ((gwcalls past).dedup.length < rmsGwTableSize →
        ∀ k ∈ [heard, fresh], ∀ k' ∈ [heard, fresh], k ∉ gwcalls past → k' ∉ gwcalls past →
          k = k') :=
  gw_searches_agree_iff past [heard, fresh]
    (by simp [past, gwcalls, gwOp, GoodGwcall, heard, fresh]; decide)
    (by simp only [NoPrefix]; decide) (by decide) (by decide)

/-- As long as no process tests a slot that another one is copying its callsign into, the
searches agree, whatever their callsigns and their order. -/
theorem gw_searches_agree_exclusive (ops : List SbOp) (calls : List CString)
    (good : ∀ k ∈ gwcalls ops ++ calls, GoodGwcall k) (clear : NoPrefix (gwcalls ops ++ calls))
    (few : (gwcalls ops).dedup.length ≤ rmsGwTableSize) (sched : List Nat)
    (excl : Meets (step gwWriting) Exclusive
      (searching (ops.foldl SbOp.apply freshBlock) calls) sched)
    (t : System CString RmsgwStat)
    (ht : run (step gwWriting) (searching (ops.foldl SbOp.apply freshBlock) calls) sched =
      some t) :
    Agreed gwWriting (searching (ops.foldl SbOp.apply freshBlock) calls) t := by
  obtain ⟨es, -, -, hshape⟩ := shape_searching good clear few
  have laws := gwWriting_exact good clear
  obtain ⟨es', o, grow, hshape'⟩ := hshape.keep_run laws excl ht
  exact hshape.agreed laws grow hshape'

private def twoNew : System CString RmsgwStat :=
  searching (past.foldl SbOp.apply freshBlock) [fresh, other]

/-- One search after the other. -/
private def serial : List Nat := List.replicate 13 0 ++ List.replicate 15 1

private theorem serial_some : (run (step gwWriting) twoNew serial).isSome := by decide +kernel

theorem gw_searches_agree_exclusive_serial :
    Agreed gwWriting twoNew ((run (step gwWriting) twoNew serial).get serial_some) := by
  refine gw_searches_agree_exclusive past [fresh, other]
    (by simp [past, gwcalls, gwOp, GoodGwcall, heard, fresh, other]; decide)
    (by simp only [NoPrefix]; decide) (by decide) serial ?_ _ (Option.some_get serial_some).symm
  refine (meets_exclusive_alone ?_ 13).append fun t ht => meets_exclusive_alone ?_ 15
  · intro p q _ hq i j hph
    obtain ⟨k, -, rfl⟩ := List.mem_map.mp (List.mem_of_getElem? hq)
    cases hph
  · have hprocs : t.procs = [⟨fresh, .returned (some 1)⟩, ⟨other, .visiting 0⟩] := by
      have hmap : (run (step gwWriting) twoNew (List.replicate 13 0)).map System.procs =
          some [⟨fresh, .returned (some 1)⟩, ⟨other, .visiting 0⟩] := by decide +kernel
      exact Option.some.inj ((congrArg (Option.map System.procs) ht).symm.trans hmap)
    intro p q hp hq i j hph
    rw [hprocs] at hq
    rcases p with - | - | p
    · obtain rfl := Option.some.inj hq
      cases hph
    · exact hp rfl
    · cases hq

end Rmsgw.Statblock.Race
