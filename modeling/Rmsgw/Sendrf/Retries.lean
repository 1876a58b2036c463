/- What an EAGAIN costs a call of sendrf(): the step expression of the send loop runs
   with the -1 that the failed write has returned. -/

import Rmsgw.Sendrf.Loop

set_option autoImplicit false
set_option relaxedAutoImplicit false

namespace Rmsgw.Sendrf.Retries

open Rmsgw.Lib.Cursor Rmsgw.Rms Rmsgw.Sendrf.Model Rmsgw.Sendrf.Loop

/-- The outcomes with all EAGAIN results removed. -/
def withoutEagain (rs : List WriteResult) : List WriteResult := rs.filter (fun r => r ≠ .eagain)

/-- The call over `rs` stands where it would without the EAGAIN results, its cursor is in
the send buffer, and it has not made more than 16 writes for a byte. -/
structure CostsNothing (mem : Memory) (c : Call) (rs : List WriteResult) (s : State) : Prop where
  same : ∃ t, sendrf c (withoutEagain rs) = some t ∧ t.written mem = s.written mem ∧
    t.returned = s.returned
  cursor_nonneg : 0 ≤ s.cursor
  cursor_le : s.cursor ≤ c.slen
  nleft_le : s.nleft ≤ c.slen
  writes_le : rs.length ≤ 16 * c.slen

/-- No write takes bytes behind an EAGAIN, and the bytes taken before are as many as
the EAGAIN results. -/
def Harmless (rs : List WriteResult) : Prop :=
  rs.Pairwise (fun a b => a = .eagain → size b = 0) ∧ rs.count .eagain ≤ bytesTaken rs

instance (rs : List WriteResult) : Decidable (Harmless rs) := inferInstanceAs (Decidable (_ ∧ _))

private theorem move_eq_back_iff {r : WriteResult} : move r = .back ↔ r = .eagain := by
  cases r with
  | wrote m => simp [move]
  | eagain => simp [move]
  | failed => simp [move]

private theorem count_back_moves (rs : List WriteResult) :
    (moves rs).count .back = rs.count .eagain := by
  induction rs with
  | nil => rfl
  | cons r rs ih =>
      have hcons : moves (r :: rs) = move r :: moves rs := rfl
      rw [hcons, List.count_cons, List.count_cons, ih]
      cases r with
      | wrote m => simp [move]
      | eagain => simp [move]
      | failed => simp [move]

private theorem settled_moves_iff {rs : List WriteResult} :
    Settled (moves rs) ↔ rs.Pairwise (fun a b => a = .eagain → size b = 0) := by
  rw [Settled, moves, List.pairwise_map]
  simp only [move_eq_back_iff, count_move]

private theorem bytesTaken_withoutEagain (rs : List WriteResult) :
    bytesTaken (withoutEagain rs) = bytesTaken rs := by
  induction rs with
  | nil => rfl
  | cons r rs ih =>
      cases r with
      | wrote m => simpa [withoutEagain, bytesTaken, size] using ih
      | eagain => simpa [withoutEagain, bytesTaken, size] using ih
      | failed => simpa [withoutEagain, bytesTaken, size] using ih

private theorem eagain_notMem_withoutEagain (rs : List WriteResult) :
    WriteResult.eagain ∉ withoutEagain rs := by
  simp [withoutEagain]

private theorem withoutEagain_of_notMem {rs : List WriteResult} (h : WriteResult.eagain ∉ rs) :
    withoutEagain rs = rs := by
  apply List.filter_eq_self.mpr
  intro r hr
  exact decide_eq_true (fun heq => h (heq ▸ hr))

private theorem not_givesUp_of_notMem {rs : List WriteResult} (h : WriteResult.eagain ∉ rs) :
    ¬ GivesUp rs :=
  fun hup => h (hup.subset (List.mem_replicate.mpr ⟨by decide, rfl⟩))

private theorem length_le {rs : List WriteResult} (htakes : WriteResult.wrote 0 ∉ rs) :
    rs.length ≤ bytesTaken rs + rs.count .eagain + rs.count .failed := by
  induction rs with
  | nil => exact Nat.le_refl 0
  | cons r rs ih =>
      have hrest := ih (fun hmem => htakes (List.mem_cons_of_mem _ hmem))
      cases r with
      | wrote m =>
          have hpos : m ≠ 0 := by
            rintro rfl
            exact htakes List.mem_cons_self
          simp [bytesTaken, size]
          omega
      | eagain => simp [bytesTaken, size]; omega
      | failed => simp [bytesTaken, size]; omega

private theorem count_failed_le {c : Call} {rs : List WriteResult} {s : State}
    (hs : Follows c rs s) : rs.count .failed ≤ 1 := by
  cases hs.phase with
  | sending _ _ hok _ => rw [List.count_eq_zero_of_not_mem hok]; exact Nat.zero_le 1
  | sent _ _ hok => rw [List.count_eq_zero_of_not_mem hok]; exact Nat.zero_le 1
  | broken _ _ hone => exact Nat.le_of_eq hone

private theorem nleft_nonneg {c : Call} {rs : List WriteResult} {s : State} (hs : Follows c rs s) :
    0 ≤ s.nleft := by
  cases hs.phase with
  | sending _ hleft _ _ => exact Int.le_of_lt hleft
  | sent _ hleft _ => exact Int.le_of_eq hleft.symm
  | broken _ hleft _ => exact Int.le_of_lt hleft

private theorem cursor_of_follows {c : Call} {rs : List WriteResult} {s : State}
    (hs : Follows c rs s) : s.cursor = bytesTaken rs - rs.count .eagain := by
  rw [hs.cursor, cursor_eq, total_moves, count_back_moves]
  omega

private theorem slen_pos {c : Call} {rs : List WriteResult} {s : State} (h : sendrf c rs = some s)
    (hrs : rs ≠ []) : 0 < c.slen := by
  obtain ⟨r, rs, rfl⟩ := List.exists_cons_of_ne_nil hrs
  by_contra hzero
  have hslen : c.slen = 0 := by omega
  have hfirst : loopTest c { start with nleft := c.slen } =
      { start with pc := .returned 0, nleft := 0 } := by
    rw [hslen]
    simp [loopTest, hslen]
  have hreturned : sendrf c (r :: rs) = none := by
    change (step c (loopTest c { start with nleft := c.slen }) (.write r)).bind _ = none
    rw [hfirst]
    rfl
  rw [hreturned] at h
  cases h

private theorem onWrite_zero {c : Call} {s t : State} (hleft : 0 < t.nleft)
    (h : onWrite c t (.wrote 0) = some s) : s.pc = .write := by
  have hfits : ((0 : Nat) : Int) ≤ t.nleft := by omega
  simp only [onWrite, hfits, if_true, Option.some.injEq] at h
  subst h
  have hpos : 0 < t.nleft - ((0 : Nat) : Int) := by omega
  simp only [advance, loopTest, hpos, if_true]

private theorem onWrite_zero_fits {c : Call} {t : State} (hleft : 0 < t.nleft) :
    ∃ s, onWrite c t (.wrote 0) = some s := by
  have hfits : ((0 : Nat) : Int) ≤ t.nleft := by omega
  exact ⟨_, if_pos hfits⟩

private theorem onWrite_eagain {c : Call} {rs : List WriteResult} {s t : State}
    (ht : Follows c rs t)
    (hup : ¬ GivesUp (rs ++ [.eagain])) (h : step c t (.write .eagain) = some s) :
    s.pc = .write := by
  have hs := follows_step ht hup h
  have hleft : s.nleft = t.nleft + 1 := by
    rw [hs.nleft, ht.nleft, hs.cursor, ht.cursor, moves_snoc, cursor_snoc, move, Move.apply]
    omega
  have hnonneg := nleft_nonneg ht
  obtain ⟨hpc, hwrite⟩ := step_write h
  cases hs.phase with
  | sending hpc' _ _ _ => exact hpc'
  | sent _ hzero _ => omega
  | broken _ _ hone =>
      have hok := failed_notMem_snoc (ht.writing hpc).2.1 (r := .eagain) (by simp)
      rw [List.count_eq_zero_of_not_mem hok] at hone
      cases hone

private theorem withoutEagain_snoc (rs : List WriteResult) {r : WriteResult} (h : r ≠ .eagain) :
    withoutEagain (rs ++ [r]) = withoutEagain rs ++ [r] := by
  simp [withoutEagain, h]

/-- Where no write takes bytes behind an EAGAIN, the call without the EAGAIN results is
possible too, and comes to the same point. -/
private theorem sendrf_withoutEagain {c : Call} {rs : List WriteResult} {s : State}
    (hup : ¬ GivesUp rs)
    (hquiet : rs.Pairwise (fun a b => a = .eagain → size b = 0)) (h : sendrf c rs = some s) :
    ∃ t, sendrf c (withoutEagain rs) = some t ∧ t.pc = s.pc := by
  induction rs using List.reverseRecOn generalizing s with
  | nil => exact ⟨s, h, rfl⟩
  | append_singleton rs r ih =>
      obtain ⟨t, ht, hstep⟩ := sendrf_snoc.mp h
      obtain ⟨hquiet', -, hlate⟩ := List.pairwise_append.mp hquiet
      have hup' : ¬ GivesUp rs := fun hrs => hup (hrs.snoc r)
      have hfollows := sendrf_follows hup' ht
      obtain ⟨u, hu, hpc⟩ := ih hup' hquiet' ht
      obtain ⟨htpc, hwrite⟩ := step_write hstep
      have hupc : u.pc = .write := hpc.trans htpc
      have hstepu : ∀ r, step c u (.write r) = onWrite c u r := by
        intro r
        simp only [step, hupc]
      cases r with
      | eagain =>
          have hsame : withoutEagain (rs ++ [.eagain]) = withoutEagain rs := by
            simp [withoutEagain]
          rw [hsame]
          exact ⟨u, hu, hupc.trans (onWrite_eagain hfollows hup hstep).symm⟩
      | failed =>
          obtain rfl := Option.some.inj hwrite
          rw [withoutEagain_snoc rs (by simp)]
          exact ⟨_, sendrf_snoc.mpr ⟨u, hu, hstepu .failed⟩, rfl⟩
      | wrote m =>
          by_cases hmem : WriteResult.eagain ∈ rs
          · -- behind an EAGAIN this write takes nothing
            have hzero : m = 0 := hlate _ hmem _ (List.mem_singleton_self _) rfl
            subst hzero
            have hfollowsu := sendrf_follows
              (not_givesUp_of_notMem (eagain_notMem_withoutEagain rs)) hu
            have hleft := (hfollows.writing htpc).1
            have hleftu := (hfollowsu.writing hupc).1
            obtain ⟨v, hv⟩ := onWrite_zero_fits (c := c) hleftu
            rw [withoutEagain_snoc rs (by simp)]
            refine ⟨v, sendrf_snoc.mpr ⟨u, hu, (hstepu _).trans hv⟩, ?_⟩
            rw [onWrite_zero hleftu hv, onWrite_zero hleft hwrite]
          · rw [withoutEagain_snoc rs (by simp), withoutEagain_of_notMem hmem]
            exact ⟨s, h, rfl⟩

private theorem eq_of_map_eq {as bs : List Int} (h : ∀ mem : Memory, as.map mem = bs.map mem) :
    as = bs := by
  induction as generalizing bs with
  | nil =>
      have hlen := congrArg List.length (h (fun _ => 0))
      simp only [List.length_map, List.length_nil] at hlen
      exact (List.length_eq_zero_iff.mp hlen.symm).symm
  | cons a as ih =>
      cases bs with
      | nil => simpa using h (fun _ => 0)
      | cons b bs =>
          have hhead : a = b := by
            have hmark := h (fun i => if i = a then 1 else 0)
            simp only [List.map_cons, if_true, List.cons.injEq] at hmark
            by_contra hne
            rw [if_neg (fun heq => hne heq.symm)] at hmark
            exact absurd hmark.1 (by decide)
          have htail : as = bs := by
            apply ih
            intro mem
            exact (List.cons.inj (h mem)).2
          rw [hhead, htail]

private theorem written_same {c : Call} {rs : List WriteResult} {s t : State} (hup : ¬ GivesUp rs)
    (hs : sendrf c rs = some s) (ht : sendrf c (withoutEagain rs) = some t) :
    t.taken = s.taken ↔ rs.Pairwise (fun a b => a = .eagain → size b = 0) := by
  have hnone := eagain_notMem_withoutEagain rs
  have htaken := (sendrf_follows (not_givesUp_of_notMem hnone) ht).taken
  rw [positions_of_no_slip (mt back_mem_moves.mp hnone), total_moves, bytesTaken_withoutEagain,
    ← total_moves] at htaken
  rw [htaken, (sendrf_follows hup hs).taken, ← settled_moves_iff, eq_comm]
  exact positions_eq_span_iff

private theorem harmless_of_costsNothing {c : Call} {rs : List WriteResult} {s : State}
    (hup : ¬ GivesUp rs) (h : sendrf c rs = some s)
    (hcosts : ∀ mem, CostsNothing mem c rs s) : Harmless rs := by
  obtain ⟨t, ht, _⟩ := (hcosts (fun _ => 0)).same
  have hwritten : ∀ mem : Memory, t.taken.map mem = s.taken.map mem := by
    intro mem
    obtain ⟨t', ht', hmem, _⟩ := (hcosts mem).same
    obtain rfl := Option.some.inj (ht.symm.trans ht')
    exact hmem
  refine ⟨(written_same hup h ht).mp (eq_of_map_eq hwritten), ?_⟩
  have hcursor := (hcosts (fun _ => 0)).cursor_nonneg
  rw [cursor_of_follows (sendrf_follows hup h)] at hcursor
  omega

private theorem costsNothing_of_harmless {mem : Memory} {c : Call} {rs : List WriteResult}
    {s : State} (hup : ¬ GivesUp rs) (htakes : WriteResult.wrote 0 ∉ rs) (h : sendrf c rs = some s)
    (hharmless : Harmless rs) : CostsNothing mem c rs s := by
  obtain ⟨hquiet, hfew⟩ := hharmless
  obtain ⟨t, ht, hpc⟩ := sendrf_withoutEagain hup hquiet h
  have hs := sendrf_follows hup h
  have hleft := nleft_nonneg hs
  have hnleft := hs.nleft
  have hcursor := cursor_of_follows hs
  -- without EAGAIN the cursor is at the bytes sent, so these fit the send buffer
  have hnone := eagain_notMem_withoutEagain rs
  have htf := sendrf_follows (not_givesUp_of_notMem hnone) ht
  have hcursort := cursor_of_follows htf
  rw [bytesTaken_withoutEagain, List.count_eq_zero_of_not_mem hnone] at hcursort
  have hleftt := nleft_nonneg htf
  have hnleftt := htf.nleft
  refine ⟨⟨t, ht, ?_, ?_⟩, by omega, by omega, by omega, ?_⟩
  · rw [State.written, State.written, (written_same hup h ht).mpr hquiet]
  · rw [State.returned, State.returned, hpc]
  · rcases Decidable.em (rs = []) with rfl | hne
    · exact Nat.zero_le _
    · have hpos := slen_pos h hne
      have hlength := length_le htakes
      have hone := count_failed_le hs
      omega

private theorem Harmless.of_append {qs ps : List WriteResult} (h : Harmless (qs ++ ps)) :
    Harmless qs := by
  obtain ⟨hquiet, hfew⟩ := h
  obtain ⟨hquiet', -, hlate⟩ := List.pairwise_append.mp hquiet
  refine ⟨hquiet', ?_⟩
  by_cases hmem : WriteResult.eagain ∈ qs
  · have hzero : bytesTaken ps = 0 := by
      rw [← total_moves, total_eq_zero_iff]
      intro m hm
      obtain ⟨p, hp, rfl⟩ := List.mem_map.mp hm
      rw [count_move]
      exact hlate _ hmem _ hp rfl
    rw [List.count_append, bytesTaken_append, hzero] at hfew
    omega
  · rw [List.count_eq_zero_of_not_mem hmem]
    exact Nat.zero_le _

/-- Where no 16 EAGAIN results follow one another, they cost nothing at any point of the
loop, whatever the buffer holds, exactly when the outcomes are harmless. -/
theorem eagain_costs_nothing_iff {c : Call} {rs : List WriteResult} {s : State}
    (hup : ¬ GivesUp rs)
    -- write() takes a byte of a buffer that is not empty, or fails
    (htakes : WriteResult.wrote 0 ∉ rs)
    (h : sendrf c rs = some s) :
    (∀ mem qs t, qs <+: rs → sendrf c qs = some t → CostsNothing mem c qs t) ↔ Harmless rs := by
  constructor
  · intro hall
    exact harmless_of_costsNothing hup h (fun mem => hall mem rs s List.prefix_rfl h)
  · intro hharmless mem qs t hqs ht
    obtain ⟨ps, rfl⟩ := hqs
    have hup' : ¬ GivesUp qs := fun hq => hup (hq.trans (List.prefix_append qs ps).isInfix)
    have htakes' : WriteResult.wrote 0 ∉ qs := fun hq => htakes (List.mem_append_left ps hq)
    exact costsNothing_of_harmless hup' htakes' ht hharmless.of_append

theorem eagain_costs_nothing_iff_last :
    Harmless [.wrote 2, .eagain] ∧
      ∀ mem qs t, qs <+: [.wrote 2, .eagain] → sendrf ⟨5, 0⟩ qs = some t →
        CostsNothing mem ⟨5, 0⟩ qs t := by
  have hharmless : Harmless [.wrote 2, .eagain] := by decide
  refine ⟨hharmless, ?_⟩
  have hrun : sendrf ⟨5, 0⟩ [.wrote 2, .eagain] = some ⟨.write, 1, 4, 1, [0, 1]⟩ := rfl
  exact (eagain_costs_nothing_iff (by decide) (by decide) hrun).mpr hharmless

/-- Five bytes, with an EAGAIN behind the first two: the second one is sent again, and the
loop goes on. -/
theorem eagain_repeats_byte :
    ¬ GivesUp [.wrote 2, .eagain, .wrote 3] ∧
      ∃ s, sendrf ⟨5, 0⟩ [.wrote 2, .eagain, .wrote 3] = some s ∧
      s.taken = [0, 1, 1, 2, 3] ∧ s.returned = none ∧
      (sendrf ⟨5, 0⟩ (withoutEagain [.wrote 2, .eagain, .wrote 3])).map
        (fun t => (t.taken, t.returned)) = some ([0, 1, 2, 3, 4], some 5) ∧
      ∀ mem, ¬ CostsNothing mem ⟨5, 0⟩ [.wrote 2, .eagain, .wrote 3] s := by
  refine ⟨by decide, _, rfl, rfl, rfl, rfl, ?_⟩
  intro mem hcosts
  obtain ⟨t, ht, _, hreturned⟩ := hcosts.same
  obtain rfl := Option.some.inj ht
  exact absurd hreturned (by decide)

end Rmsgw.Sendrf.Retries
