/- Several users of one table who take from it in least recent order. Each looks at the
   times one by one, orders by what it has seen, and takes from the front of its order:
   how long an element can be left out. -/

import Rmsgw.Lib.LeastRecent
import Rmsgw.Lib.Process
import Mathlib.Algebra.BigOperators.Ring.Finset
import Mathlib.Algebra.Order.BigOperators.Group.Finset
import Mathlib.Data.Fintype.BigOperators

set_option autoImplicit false
set_option relaxedAutoImplicit false

namespace Rmsgw.Lib.SharedOrder

open Rmsgw.Lib.LeastRecent Rmsgw.Lib.Process

universe u v

variable {α : Type u} {β : Type v} [DecidableEq α] [LinearOrder β] {p : Nat}

/-- A user is away, has looked at the times of some elements and is to look at the rest,
or is taking what is left of its order. -/
inductive User (α : Type u) (β : Type v)
  | away
  | looking (seen : List (α × β)) (rest : List α)
  | taking (todo : List (α × β))

inductive Move (β : Type v)
  | come
  | look
  | take (now : β)
  | leave

/-- The time of each element, the users, and what was taken so far. -/
structure System (α : Type u) (β : Type v) (p : Nat) where
  time : α → β
  users : Fin p → User α β
  taken : List α

abbrev Act (β : Type v) (p : Nat) := Fin p × Move β

/-- Where a user stands after a move. -/
def User.next (table : List α) (time : α → β) : User α β → Move β → Option (User α β)
  | .away, .come => some (.looking [] table)
  | .looking seen (x :: rest), .look =>
      some (.looking (insertByTime Prod.snd (x, time x) seen) rest)
  | .looking seen [], .look => some (.taking seen)
  | .looking _ _, .leave => some .away
  | .taking (_ :: todo), .take _ => some (.taking todo)
  | .taking _, .leave => some .away
  | _, _ => none

/-- What a user takes by a move, and when. -/
def User.takes : User α β → Move β → Option (α × β)
  | .taking (x :: _), .take now => some (x.1, now)
  | _, _ => none

/-- The times after a move. -/
def stamp (time : α → β) : Option (α × β) → α → β
  | some x => Function.update time x.1 x.2
  | none => time

def step (table : List α) : Step (System α β p) (Act β p) := fun s a =>
  ((s.users a.1).next table s.time a.2).map fun u =>
    { time := stamp s.time ((s.users a.1).takes a.2)
      users := Function.update s.users a.1 u
      taken := s.taken ++ (((s.users a.1).takes a.2).map Prod.fst).toList }

def start (time : α → β) : System α β p := ⟨time, fun _ => .away, []⟩

def User.present : User α β → Bool
  | .away => false
  | _ => true

section Present

variable {seen : List (α × β)} {rest : List α}

omit [DecidableEq α] [LinearOrder β]

theorem present_away : User.present (.away : User α β) = false := rfl

theorem present_looking : User.present (.looking seen rest) = true := rfl

theorem present_taking : User.present (.taking seen : User α β) = true := rfl

end Present

/-- How many users are there. -/
def present (s : System α β p) : Nat := ∑ k, if (s.users k).present then 1 else 0

/-- How much a user has taken of its order. -/
def User.count (table : List α) : User α β → Nat
  | .taking todo => table.length - todo.length
  | _ => 0

/-- Nobody comes while `c` are there or takes more than `m` in one visit, and what is
taken is taken at a time behind all others. -/
structure Orderly (table : List α) (c m : Nat) (s : System α β p) (a : Act β p) : Prop where
  room : a.2 = .come → present s < c
  few : ∀ now, a.2 = .take now → (s.users a.1).count table < m
  later : ∀ now, a.2 = .take now → ∀ x ∈ table, s.time x < now

/-- A visit follows the table. -/
def Visiting (table : List α) : User α β → Prop
  | .away => True
  | .looking seen rest =>
      rest <:+ table ∧ seen.length + rest.length = table.length ∧ ∀ x ∈ seen, x.1 ∈ table
  | .taking todo => todo.length ≤ table.length ∧ ∀ x ∈ todo, x.1 ∈ table

/-- The element that comes before all others. -/
def First (table : List α) (time : α → β) (g : α) : Prop :=
  g ∈ table ∧ ∀ x ∈ table, x ≠ g → Before time table g x

/-- A user that is about to take the first element next, or that will if nobody else
takes it before. -/
def Loyal (table : List α) (time : α → β) (g : α) : User α β → Prop
  | .away => True
  | .looking seen rest => (g ∈ rest ∧ ∀ x ∈ seen, time g < x.2) ∨ seen.head? = some (g, time g)
  | .taking todo => todo.length = table.length ∧ todo.head?.map Prod.fst = some g

open Classical in
/-- The elements that come before `h`. -/
noncomputable def ahead (table : List α) (time : α → β) (h : α) : Finset α :=
  table.toFinset.filter (fun x => Before time table x h)

open Classical in
/-- What a user may still take before it comes again, if not the first element next. -/
noncomputable def debt (table : List α) (time : α → β) (m : Nat) (g : α) (u : User α β) : Nat :=
  if Loyal table time g u then 0 else m - u.count table

noncomputable def owed (table : List α) (m : Nat) (g : α) (s : System α β p) : Nat :=
  ∑ k, debt table s.time m g (s.users k)

/-- At most `n` elements will be taken before `h` is: for each element ahead of it as
many as the users can take in one visit, and what they still owe. -/
def Within (table : List α) (c m : Nat) (h : α) (n : Nat) (s : System α β p) : Prop :=
  ∃ g, First table s.time g ∧ (ahead table s.time h).card * (c * m) + owed table m g s ≤ n

section First

variable {table : List α} {time : α → β} {g h x : α} {now : β}

private theorem exists_first (nodup : table.Nodup) (hx : x ∈ table) : ∃ g, First table time g := by
  have hpair := leastRecent_pairwise time nodup
  have hperm := leastRecent_perm time table
  cases horder : leastRecent time table with
  | nil =>
      rw [horder] at hperm
      exact absurd (hperm.mem_iff.mpr hx) (by simp)
  | cons g rest =>
      rw [horder] at hpair hperm
      refine ⟨g, hperm.mem_iff.mp List.mem_cons_self, fun y hy hne => ?_⟩
      rcases List.mem_cons.mp (hperm.mem_iff.mpr hy) with rfl | hrest
      · exact absurd rfl hne
      · exact (List.pairwise_cons.mp hpair).1 y hrest

private theorem First.le (hg : First table time g) (hx : x ∈ table) : time g ≤ time x := by
  by_cases heq : x = g
  · rw [heq]
  · exact (hg.2 x hx heq).le

private theorem First.update (hg : First table time g) (hne : x ≠ g)
    (later : ∀ y ∈ table, time y < now) : First table (Function.update time x now) g := by
  refine ⟨hg.1, fun y hy hyg => ?_⟩
  rw [Before, Function.update_of_ne hne.symm]
  by_cases hyx : y = x
  · subst hyx
    rw [Function.update_self]
    exact .inl (later g hg.1)
  · rw [Function.update_of_ne hyx]
    exact hg.2 y hy hyg

private theorem mem_ahead : x ∈ ahead table time h ↔ x ∈ table ∧ Before time table x h := by
  simp only [ahead, Finset.mem_filter, List.mem_toFinset]

private theorem ahead_update (hne : x ≠ h) (hh : h ∈ table) (later : ∀ y ∈ table, time y < now) :
    ahead table (Function.update time x now) h = (ahead table time h).erase x := by
  ext y
  rw [Finset.mem_erase, mem_ahead, mem_ahead, Before, Before, Function.update_of_ne hne.symm]
  by_cases hyx : y = x
  · subst hyx
    simp only [Function.update_self, not_true_eq_false, ne_eq, false_and, iff_false, not_and]
    rintro - (hlt | ⟨heq, -⟩)
    · exact absurd hlt (lt_asymm (later h hh))
    · exact absurd heq (later h hh).ne'
  · simp [hyx]

private theorem ahead_card_lt (hh : h ∈ table) : (ahead table time h).card < table.length := by
  have hsub : ahead table time h ⊆ table.toFinset.erase h := by
    intro y hy
    obtain ⟨hmem, hbefore⟩ := mem_ahead.mp hy
    refine Finset.mem_erase.mpr ⟨?_, List.mem_toFinset.mpr hmem⟩
    rintro rfl
    exact hbefore.asymm hbefore
  have hcard := Finset.card_le_card hsub
  rw [Finset.card_erase_of_mem (List.mem_toFinset.mpr hh)] at hcard
  have hle := List.toFinset_card_le table
  have hpos := List.length_pos_of_mem hh
  omega

end First

/-- The moves of a user, one by one. -/
inductive Moved (table : List α) (time : α → β) : User α β → Move β → User α β → Prop
  | came : Moved table time .away .come (.looking [] table)
  | looked (seen : List (α × β)) (x : α) (rest : List α) :
      Moved table time (.looking seen (x :: rest)) .look
        (.looking (insertByTime Prod.snd (x, time x) seen) rest)
  | ordered (seen : List (α × β)) : Moved table time (.looking seen []) .look (.taking seen)
  | took (x : α × β) (todo : List (α × β)) (now : β) :
      Moved table time (.taking (x :: todo)) (.take now) (.taking todo)
  | left (u : User α β) : Moved table time u .leave .away

section Users

variable {table : List α} {time : α → β} {g : α} {m : Nat} {u u' : User α β} {mv : Move β}

omit [DecidableEq α] in
private theorem next_moved (h : u.next table time mv = some u') : Moved table time u mv u' := by
  cases u with
  | away =>
      cases mv with
      | come => exact Option.some.inj h ▸ .came
      | _ => cases h
  | looking seen rest =>
      cases mv with
      | look =>
          cases rest with
          | nil => exact Option.some.inj h ▸ .ordered seen
          | cons x rest => exact Option.some.inj h ▸ .looked seen x rest
      | leave => cases rest <;> exact Option.some.inj h ▸ .left _
      | _ => cases rest <;> cases h
  | taking todo =>
      cases mv with
      | take now =>
          cases todo with
          | nil => cases h
          | cons x todo => exact Option.some.inj h ▸ .took x todo now
      | leave => cases todo <;> exact Option.some.inj h ▸ .left _
      | _ => cases todo <;> cases h

omit [DecidableEq α] [LinearOrder β] in
private theorem takes_leave (u : User α β) : u.takes .leave = none := by
  cases u with
  | taking todo => cases todo <;> rfl
  | _ => rfl

omit [DecidableEq α] in
private theorem Visiting.moved (hu : Visiting table u) (h : Moved table time u mv u') :
    Visiting table u' := by
  cases h with
  | came => exact ⟨List.suffix_refl table, by simp, by simp⟩
  | looked seen x rest =>
      obtain ⟨hrest, hlength, hseen⟩ := hu
      have hperm := insertByTime_perm Prod.snd (x, time x) seen
      refine ⟨(List.suffix_cons x rest).trans hrest, ?_, fun y hy => ?_⟩
      · rw [hperm.length_eq, List.length_cons]
        rw [List.length_cons] at hlength
        omega
      · rcases List.mem_cons.mp (hperm.mem_iff.mp hy) with rfl | hy
        · exact hrest.subset List.mem_cons_self
        · exact hseen y hy
  | ordered seen => exact ⟨Nat.le_of_eq hu.2.1, hu.2.2⟩
  | took x todo now =>
      refine ⟨Nat.le_trans (Nat.le_succ _) hu.1, fun y hy => ?_⟩
      exact hu.2 y (List.mem_cons_of_mem x hy)
  | left u => trivial

omit [DecidableEq α] in
private theorem head_insertByTime (x : α × β) (seen : List (α × β)) :
    ((∀ y ∈ seen, x.2 < y.2) → (insertByTime Prod.snd x seen).head? = some x) ∧
      ∀ y, seen.head? = some y → y.2 ≤ x.2 → (insertByTime Prod.snd x seen).head? = some y := by
  cases seen with
  | nil => simp [insertByTime]
  | cons y seen =>
      constructor
      · intro hlt
        rw [insertByTime, if_neg (not_le.mpr (hlt y List.mem_cons_self)), List.head?_cons]
      · rintro z hz hle
        obtain rfl := Option.some.inj hz
        rw [insertByTime, if_pos hle, List.head?_cons]

private theorem Loyal.moved (nodup : table.Nodup) (hg : First table time g) (hu : Visiting table u)
    (hl : Loyal table time g u) (h : Moved table time u mv u')
    (notake : ∀ now, mv ≠ .take now) : Loyal table time g u' := by
  cases h with
  | came => exact .inl ⟨hg.1, by simp⟩
  | looked seen x rest =>
      obtain ⟨hrest, -, -⟩ := hu
      have hx : x ∈ table := hrest.subset List.mem_cons_self
      have hperm := insertByTime_perm Prod.snd (x, time x) seen
      rcases hl with ⟨hmem, hlater⟩ | hhead
      · rcases List.mem_cons.mp hmem with rfl | hmem
        · exact .inr ((head_insertByTime (g, time g) seen).1 hlater)
        · obtain ⟨front, hfront⟩ := hrest
          rw [← hfront] at nodup
          have hsplit := List.nodup_append.mp nodup
          have hne : x ≠ g := fun heq =>
            (List.nodup_cons.mp hsplit.2.1).1 (heq ▸ hmem)
          have hlt : time g < time x := by
            rcases hg.2 x hx hne with hlt | ⟨-, hidx⟩
            · exact hlt
            · have hgf : g ∉ front := fun hgf =>
                hsplit.2.2 g hgf g (List.mem_cons_of_mem x hmem) rfl
              have hxf : x ∉ front := fun hxf =>
                hsplit.2.2 x hxf x List.mem_cons_self rfl
              rw [← hfront, List.idxOf_append_of_notMem hgf, List.idxOf_append_of_notMem hxf,
                List.idxOf_cons_self] at hidx
              omega
          refine .inl ⟨hmem, fun y hy => ?_⟩
          rcases List.mem_cons.mp (hperm.mem_iff.mp hy) with rfl | hy
          · exact hlt
          · exact hlater y hy
      · exact .inr ((head_insertByTime (x, time x) seen).2 _ hhead (hg.le hx))
  | ordered seen =>
      rcases hl with ⟨hmem, -⟩ | hhead
      · cases hmem
      · refine ⟨hu.2.1, ?_⟩
        rw [hhead]
        rfl
  | took x todo now => exact absurd rfl (notake now)
  | left u => trivial

omit [DecidableEq α] in
private theorem debt_le (u : User α β) : debt table time m g u ≤ if u.present then m else 0 := by
  rw [debt]
  split
  · exact Nat.zero_le _
  · cases u with
    | away => rename_i hl; exact absurd trivial hl
    | _ => exact Nat.sub_le _ _

private theorem debt_moved (nodup : table.Nodup) (hg : First table time g) (hu : Visiting table u)
    (h : Moved table time u mv u') (notake : ∀ now, mv ≠ .take now) :
    debt table time m g u' ≤ debt table time m g u := by
  by_cases hl : Loyal table time g u
  · rw [debt, if_pos (hl.moved nodup hg hu h notake)]
    exact Nat.zero_le _
  · have hm : debt table time m g u = m - u.count table := by rw [debt, if_neg hl]
    rw [hm]
    cases h with
    | came => exact absurd trivial hl
    | looked seen x rest =>
        exact Nat.le_trans (debt_le _) (Nat.le_of_eq rfl)
    | ordered seen => exact Nat.le_trans (debt_le _) (Nat.le_of_eq rfl)
    | took x todo now => exact absurd rfl (notake now)
    | left u => exact Nat.le_trans (debt_le _) (Nat.zero_le _)

omit [DecidableEq α] in
private theorem debt_congr {time' : α → β} (h : time' g = time g) (u : User α β) :
    debt table time' m g u = debt table time m g u := by
  have hloyal : Loyal table time' g u ↔ Loyal table time g u := by
    cases u with
    | away => exact Iff.rfl
    | looking seen rest => rw [Loyal, Loyal, h]
    | taking todo => exact Iff.rfl
  by_cases hl : Loyal table time g u
  · rw [debt, debt, if_pos hl, if_pos (hloyal.mpr hl)]
  · rw [debt, debt, if_neg hl, if_neg (fun hl' => hl (hloyal.mp hl'))]

omit [DecidableEq α] in
private theorem debt_took {x : α × β} {todo : List (α × β)}
    (hu : Visiting table (.taking (x :: todo))) (few : User.count table (.taking (x :: todo)) < m) :
    debt table time m g (.taking todo) + 1 = m - User.count table (.taking (x :: todo)) := by
  have hlength := hu.1
  rw [List.length_cons] at hlength
  have hdisloyal : ¬ Loyal table time g (.taking todo) := fun hl => by
    have heq := hl.1
    omega
  simp only [User.count, List.length_cons] at few
  rw [debt, if_neg hdisloyal, User.count, User.count, List.length_cons]
  omega

omit [DecidableEq α] in
private theorem debt_takes {x : α × β} {todo : List (α × β)} (hne : x.1 ≠ g) :
    debt table time m g (.taking (x :: todo)) = m - User.count table (.taking (x :: todo)) := by
  have hdisloyal : ¬ Loyal table time g (.taking (x :: todo)) := fun hl => hne (by simpa using hl.2)
  rw [debt, if_neg hdisloyal]

end Users

section Systems

variable {table : List α} {c m n : Nat} {g h : α} {s t : System α β p} {a : Act β p}

omit [DecidableEq α] [LinearOrder β] in
private theorem sum_update (f : User α β → Nat) (users : Fin p → User α β) (i : Fin p)
    (u : User α β) :
    ∑ k, f (Function.update users i u k) + f (users i) = ∑ k, f (users k) + f u := by
  rw [← Finset.add_sum_erase _ (fun k => f (Function.update users i u k)) (Finset.mem_univ i),
    ← Finset.add_sum_erase _ (fun k => f (users k)) (Finset.mem_univ i), Function.update_self]
  have hrest : ∀ k ∈ Finset.univ.erase i, f (Function.update users i u k) = f (users k) :=
    fun k hk => by rw [Function.update_of_ne (Finset.ne_of_mem_erase hk)]
  rw [Finset.sum_congr rfl hrest]
  omega

private theorem step_cases (hstep : step table s a = some t) :
    ∃ u, Moved table s.time (s.users a.1) a.2 u ∧
      t = { time := stamp s.time ((s.users a.1).takes a.2)
            users := Function.update s.users a.1 u
            taken := s.taken ++ (((s.users a.1).takes a.2).map Prod.fst).toList } := by
  obtain ⟨u, hu, rfl⟩ := Option.map_eq_some_iff.mp hstep
  exact ⟨u, next_moved hu, rfl⟩

/-- Every visit follows the table, and no more than `c` users are there. -/
structure Regular (table : List α) (c : Nat) (s : System α β p) : Prop where
  visiting : ∀ k, Visiting table (s.users k)
  room : present s ≤ c

private theorem Regular.step (hs : Regular table c s) (ho : Orderly table c m s a)
    (hstep : step table s a = some t) : Regular table c t := by
  obtain ⟨u, hmoved, rfl⟩ := step_cases hstep
  constructor
  · intro k
    change Visiting table (Function.update s.users a.1 u k)
    by_cases hk : k = a.1
    · subst hk
      rw [Function.update_self]
      exact (hs.visiting _).moved hmoved
    · rw [Function.update_of_ne hk]
      exact hs.visiting k
  · have hsum := sum_update (fun u => if u.present then 1 else 0) s.users a.1 u
    have hroom := hs.room
    have hcome := ho.room
    simp only [present] at hroom hcome ⊢
    generalize s.users a.1 = w at hmoved hsum
    generalize a.2 = mv at hmoved hcome
    cases hmoved with
    | came =>
        have hlt := hcome rfl
        simp only [present_away, present_looking, if_true, Bool.false_eq_true, if_false] at hsum
        omega
    | left w =>
        simp only [present_away, Bool.false_eq_true, if_false] at hsum
        omega
    | _ =>
        simp only [present_looking, present_taking, if_true] at hsum
        omega

omit [DecidableEq α] [LinearOrder β] in
private theorem sum_present (s : System α β p) :
    (∑ k, if (s.users k).present then m else 0) = present s * m := by
  rw [present, Finset.sum_mul]
  exact Finset.sum_congr rfl fun k _ => by split <;> simp

private theorem Within.rests (nodup : table.Nodup) (hs : Regular table c s)
    (htakes : (s.users a.1).takes a.2 = none) (hw : Within table c m h n s)
    (hstep : step table s a = some t) : Within table c m h n t ∧ t.taken = s.taken := by
  obtain ⟨g, hg, hle⟩ := hw
  obtain ⟨u, hmoved, rfl⟩ := step_cases hstep
  rw [htakes]
  have notake : ∀ now, a.2 ≠ .take now := by
    intro now hnow
    rw [hnow] at hmoved htakes
    generalize s.users a.1 = w at hmoved htakes
    cases hmoved
    cases htakes
  refine ⟨⟨g, hg, Nat.le_trans (Nat.add_le_add_left ?_ _) hle⟩, List.append_nil _⟩
  refine Finset.sum_le_sum fun k _ => ?_
  change debt table s.time m g (Function.update s.users a.1 u k) ≤ _
  by_cases hk : k = a.1
  · subst hk
    rw [Function.update_self]
    exact debt_moved nodup hg (hs.visiting _) hmoved notake
  · rw [Function.update_of_ne hk]

private theorem step_takes {x : α} {now : β} (htakes : (s.users a.1).takes a.2 = some (x, now))
    (hstep : step table s a = some t) :
    ∃ y todo, s.users a.1 = .taking ((x, y) :: todo) ∧ a.2 = .take now ∧
      t = { time := Function.update s.time x now
            users := Function.update s.users a.1 (.taking todo)
            taken := s.taken ++ [x] } := by
  obtain ⟨u, hmoved, rfl⟩ := step_cases hstep
  rw [htakes]
  generalize s.users a.1 = w at hmoved htakes
  generalize a.2 = mv at hmoved htakes
  cases hmoved with
  | took z todo now' =>
      obtain ⟨rfl, rfl⟩ := Prod.mk.inj (Option.some.inj htakes)
      exact ⟨z.2, todo, rfl, rfl, rfl⟩
  | came => cases htakes
  | looked seen x rest => cases htakes
  | ordered seen => cases htakes
  | left w =>
      rw [takes_leave] at htakes
      cases htakes

private theorem owed_after {x : α} {now : β} (hs : Regular table c s) (ho : Orderly table c m s a)
    (htakes : (s.users a.1).takes a.2 = some (x, now)) (hstep : step table s a = some t) :
    owed table m g t < c * m := by
  have hroom := (hs.step ho hstep).room
  obtain ⟨y, todo, huser, hmove, rfl⟩ := step_takes htakes hstep
  have hfew := ho.few now hmove
  rw [huser] at hfew
  have hvisit := hs.visiting a.1
  rw [huser] at hvisit
  refine Nat.lt_of_lt_of_le ?_ (Nat.mul_le_mul_right m hroom)
  rw [← sum_present, owed]
  refine Finset.sum_lt_sum (fun k _ => debt_le _) ⟨a.1, Finset.mem_univ _, ?_⟩
  simp only [Function.update_self, present_taking, if_true]
  have htook : debt table (Function.update s.time x now) m g (.taking todo) + 1 =
      m - User.count table (.taking ((x, y) :: todo)) := debt_took hvisit hfew
  omega

private theorem within_after {x : α} {now : β} (nodup : table.Nodup) (hs : Regular table c s)
    (ho : Orderly table c m s a) (hh : h ∈ table)
    (htakes : (s.users a.1).takes a.2 = some (x, now)) (hstep : step table s a = some t) :
    ∃ n, n < table.length * (c * m) ∧ Within table c m h n t := by
  obtain ⟨g, hg⟩ : ∃ g, First table t.time g := exists_first nodup hh
  have howed := owed_after (g := g) hs ho htakes hstep
  have hcard : (ahead table t.time h).card < table.length := ahead_card_lt hh
  refine ⟨_, ?_, g, hg, Nat.le_refl _⟩
  calc (ahead table t.time h).card * (c * m) + owed table m g t
      < (ahead table t.time h).card * (c * m) + c * m := Nat.add_lt_add_left howed _
    _ = ((ahead table t.time h).card + 1) * (c * m) := (Nat.succ_mul _ _).symm
    _ ≤ table.length * (c * m) := Nat.mul_le_mul_right _ hcard

private theorem Within.takes {x : α} {now : β} (nodup : table.Nodup) (hs : Regular table c s)
    (ho : Orderly table c m s a) (hh : h ∈ table) (hne : x ≠ h)
    (htakes : (s.users a.1).takes a.2 = some (x, now)) (hw : Within table c m h n s)
    (hstep : step table s a = some t) : ∃ n', n = n' + 1 ∧ Within table c m h n' t := by
  obtain ⟨g, hg, hle⟩ := hw
  have howed : ∀ g, owed table m g t < c * m := fun g => owed_after hs ho htakes hstep
  obtain ⟨y, todo, huser, hmove, rfl⟩ := step_takes htakes hstep
  have hlater := ho.later now hmove
  have hfew := ho.few now hmove
  have hvisit := hs.visiting a.1
  rw [huser] at hfew hvisit
  have hx : x ∈ table := hvisit.2 _ List.mem_cons_self
  have hahead := ahead_update hne hh hlater
  by_cases hxg : x = g
  · subst hxg
    have hmem : x ∈ ahead table s.time h := mem_ahead.mpr ⟨hx, hg.2 h hh hne.symm⟩
    have hcard := Finset.card_erase_of_mem hmem
    have hpos := Finset.card_pos.mpr ⟨x, hmem⟩
    obtain ⟨g', hg'⟩ : ∃ g', First table (Function.update s.time x now) g' := exists_first nodup hh
    have hg'owed := howed g'
    obtain ⟨r, hr⟩ : ∃ r, (ahead table s.time h).card = r + 1 := ⟨_, (Nat.succ_pred hpos.ne').symm⟩
    rw [hr, Nat.succ_mul] at hle
    refine ⟨n - 1, by omega, g', hg', ?_⟩
    simp only [hahead, hcard, hr, Nat.add_sub_cancel]
    omega
  · have hsum := sum_update (debt table s.time m g) s.users a.1 (.taking todo)
    have htook : debt table s.time m g (.taking todo) + 1 =
        m - User.count table (.taking ((x, y) :: todo)) := debt_took hvisit hfew
    rw [huser, debt_takes hxg, ← htook] at hsum
    have hsame : owed table m g
        { time := Function.update s.time x now
          users := Function.update s.users a.1 (.taking todo)
          taken := s.taken ++ [x] : System α β p } =
        ∑ k, debt table s.time m g (Function.update s.users a.1 (.taking todo) k) :=
      Finset.sum_congr rfl fun k _ => debt_congr (Function.update_of_ne (Ne.symm hxg) _ _) _
    have hless : (ahead table (Function.update s.time x now) h).card ≤
        (ahead table s.time h).card := by
      rw [hahead]
      exact Finset.card_le_card (Finset.erase_subset _ _)
    have hmul := Nat.mul_le_mul_right (c * m) hless
    rw [owed] at hle
    refine ⟨n - 1, by omega, g, hg.update hxg hlater, ?_⟩
    simp only [hsame]
    omega

/-- The runs of elements other than `h` so far, and the bound on the one that goes on. -/
structure Waits (table : List α) (c m : Nat) (h : α) (s : System α β p) : Prop where
  regular : Regular table c s
  past : ∀ w, w <:+: s.taken → h ∉ w → w.length < table.length * (c * m)
  current : ∃ n, Within table c m h n s ∧
    ∀ w, w <:+ s.taken → h ∉ w → w.length + n < table.length * (c * m)

private theorem waits_start (nodup : table.Nodup) (hc : 0 < c) (hm : 0 < m) (hh : h ∈ table)
    (time : α → β) : Waits table c m h (start time : System α β p) := by
  obtain ⟨g, hg⟩ : ∃ g, First table time g := exists_first nodup hh
  have howed : owed table m g (start time : System α β p) = 0 :=
    Finset.sum_eq_zero fun k _ => if_pos trivial
  have hcard : (ahead table time h).card < table.length := ahead_card_lt hh
  have hlt : (ahead table time h).card * (c * m) < table.length * (c * m) :=
    Nat.mul_lt_mul_of_pos_right hcard (Nat.mul_pos hc hm)
  have hwithin : Within table c m h ((ahead table time h).card * (c * m))
      (start time : System α β p) := ⟨g, hg, by rw [howed]; exact Nat.le_refl _⟩
  refine ⟨⟨fun _ => trivial, ?_⟩, fun w hw _ => ?_, _, hwithin, fun w hw _ => ?_⟩
  · exact Nat.le_trans (Nat.le_of_eq (Finset.sum_eq_zero fun k _ => rfl)) (Nat.zero_le c)
  · obtain rfl := List.infix_nil.mp hw
    exact Nat.lt_of_le_of_lt (Nat.zero_le _) hlt
  · obtain rfl := List.suffix_nil.mp hw
    rw [List.length_nil, Nat.zero_add]
    exact hlt

private theorem Waits.step (nodup : table.Nodup) (hh : h ∈ table) (hs : Waits table c m h s)
    (ho : Orderly table c m s a) (hstep : step table s a = some t) : Waits table c m h t := by
  have hregular := hs.regular.step ho hstep
  obtain ⟨n, hwithin, hcurrent⟩ := hs.current
  cases htakes : (s.users a.1).takes a.2 with
  | none =>
      obtain ⟨hwithin', htaken⟩ := hwithin.rests nodup hs.regular htakes hstep
      refine ⟨hregular, ?_, n, hwithin', ?_⟩
      · rw [htaken]
        exact hs.past
      · rw [htaken]
        exact hcurrent
  | some x =>
      obtain ⟨x, now⟩ := x
      have htaken : t.taken = s.taken ++ [x] := by
        obtain ⟨y, todo, -, -, rfl⟩ := step_takes htakes hstep
        rfl
      -- the runs that end here are those of before with `x`, or empty
      have hlast : ∃ n', Within table c m h n' t ∧
          ∀ w, w <:+ t.taken → h ∉ w → w.length + n' < table.length * (c * m) := by
        by_cases hx : x = h
        · obtain ⟨n', hlt, hwithin'⟩ := within_after nodup hs.regular ho hh htakes hstep
          refine ⟨n', hwithin', fun w hw hnot => ?_⟩
          rw [htaken] at hw
          rcases List.suffix_concat_iff.mp hw with rfl | ⟨w', rfl, -⟩
          · simpa using hlt
          · exact absurd (by simp [hx]) hnot
        · obtain ⟨n', rfl, hwithin'⟩ := hwithin.takes nodup hs.regular ho hh hx htakes hstep
          refine ⟨n', hwithin', fun w hw hnot => ?_⟩
          rw [htaken] at hw
          rcases List.suffix_concat_iff.mp hw with rfl | ⟨w', rfl, hw'⟩
          · have hnil := hcurrent [] List.nil_suffix (by simp)
            simp only [List.length_nil] at hnil ⊢
            omega
          · have hlt := hcurrent w' hw' fun hmem => hnot (List.mem_append_left _ hmem)
            rw [List.length_append, List.length_singleton]
            omega
      refine ⟨hregular, fun w hw hnot => ?_, hlast⟩
      rw [htaken] at hw
      rcases List.infix_concat_iff.mp hw with hsuffix | hinfix
      · obtain ⟨n', -, hlength⟩ := hlast
        have hlt := hlength w (htaken ▸ hsuffix) hnot
        omega
      · exact hs.past w hinfix hnot

/-- However the users' steps come one behind the other: among as many elements taken in a
row as the table has, times the users that are there at most, times what a visit takes at
most, there is every element of the table. -/
theorem all_in_window (nodup : table.Nodup) (hc : 0 < c) (hm : 0 < m) {time : α → β}
    {acts : List (Act β p)} (orderly : Meets (step table) (Orderly table c m) (start time) acts)
    (hrun : run (step table) (start time) acts = some t) {w : List α} (hw : w <:+: t.taken)
    (long : table.length * (c * m) ≤ w.length) (hh : h ∈ table) : h ∈ w := by
  have hwaits : Waits table c m h t :=
    orderly.preserves (fun _ _ _ ho hstep hs => hs.step nodup hh ho hstep) hrun
      (waits_start nodup hc hm hh time)
  by_contra hnot
  exact absurd (hwaits.past w hw hnot) (not_lt.mpr long)

end Systems

end Rmsgw.Lib.SharedOrder
