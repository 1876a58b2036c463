/- Hashing a message block by block: a compression function chained over whole
   blocks, a stream that keeps what does not fill a block yet, and collisions. -/

import Mathlib.Data.List.Induction
import Mathlib.Data.List.Infix

set_option autoImplicit false
set_option relaxedAutoImplicit false

namespace Rmsgw.Lib.BlockHash

universe u v

variable {σ : Type u} {α : Type v} {compress : σ → List α → σ} {b : Nat}

/-- The compression function applied to one whole block of the message after the other. -/
def chain (compress : σ → List α → σ) (b : Nat) (h : σ) (msg : List α) : σ :=
  (List.range (msg.length / b)).foldl (fun h i => compress h ((msg.drop (b * i)).take b)) h

/-- What stands behind the last whole block. -/
def tail (b : Nat) (msg : List α) : List α := msg.drop (b * (msg.length / b))

/-- A hash under way: the value so far, and the items that do not fill a block yet. -/
structure Hashing (σ : Type u) (α : Type v) where
  value : σ
  pending : List α

def Hashing.absorb (compress : σ → List α → σ) (b : Nat) (s : Hashing σ α) (items : List α) :
    Hashing σ α where
  value := chain compress b s.value (s.pending ++ items)
  pending := tail b (s.pending ++ items)

/-- A whole block of a message, with what stands in front of it and behind it. -/
structure BlockOf (b : Nat) (msg : List α) where
  front : List α
  block : List α
  rest : List α
  parts : msg = front ++ block ++ rest
  whole : front.length % b = 0
  size : block.length = b

/-- What the compression function is given at a block: the value so far and the block. -/
def BlockOf.input {msg : List α} (p : BlockOf b msg) (compress : σ → List α → σ) (h : σ) :
    σ × List α :=
  (chain compress b h p.front, p.block)

/-- At a block of the one message and a block of the other, the compression function is given
different inputs and has one value. -/
def Collide (compress : σ → List α → σ) (b : Nat) (h : σ) (msg msg' : List α) : Prop :=
  ∃ (p : BlockOf b msg) (q : BlockOf b msg'), p.input compress h ≠ q.input compress h ∧
    compress (p.input compress h).1 (p.input compress h).2 =
      compress (q.input compress h).1 (q.input compress h).2

theorem length_tail (msg : List α) : (tail b msg).length = msg.length % b := by
  rw [tail, List.length_drop]
  exact (Nat.mod_eq_sub msg.length b).symm

theorem chain_short {msg : List α} (h : σ) (short : msg.length < b) :
    chain compress b h msg = h := by
  rw [chain, Nat.div_eq_of_lt short]
  rfl

theorem tail_short {msg : List α} (short : msg.length < b) : tail b msg = msg := by
  rw [tail, Nat.div_eq_of_lt short, Nat.mul_zero, List.drop_zero]

theorem chain_block (hb : 0 < b) (h : σ) {block : List α} (hblock : block.length = b)
    (rest : List α) :
    chain compress b h (block ++ rest) = chain compress b (compress h block) rest := by
  have hcount : (block ++ rest).length / b = rest.length / b + 1 := by
    rw [List.length_append, hblock, Nat.add_comm, Nat.add_div_right _ hb]
  have hrest : ∀ i, (block ++ rest).drop (b * (i + 1)) = rest.drop (b * i) := by
    intro i
    rw [Nat.mul_add, Nat.mul_one, Nat.add_comm, ← List.drop_drop, ← hblock, List.drop_left]
  rw [chain, hcount, List.range_succ_eq_map, List.foldl_cons, List.foldl_map, Nat.mul_zero,
    List.drop_zero]
  simp only [Nat.succ_eq_add_one, hrest, chain]
  rw [List.take_append_of_le_length (Nat.le_of_eq hblock.symm), ← hblock, List.take_length]

theorem tail_block (hb : 0 < b) {block : List α} (hblock : block.length = b) (rest : List α) :
    tail b (block ++ rest) = tail b rest := by
  have hcount : (block ++ rest).length / b = rest.length / b + 1 := by
    rw [List.length_append, hblock, Nat.add_comm, Nat.add_div_right _ hb]
  rw [tail, hcount, Nat.mul_add, Nat.mul_one, Nat.add_comm, ← List.drop_drop, ← hblock,
    List.drop_left, tail]

/-- A message is its whole blocks and its tail; the induction goes by them. -/
theorem block_induction (hb : 0 < b) {P : List α → Prop} (short : ∀ msg, msg.length < b → P msg)
    (block : ∀ first rest : List α, first.length = b → P rest → P (first ++ rest))
    (msg : List α) : P msg := by
  induction hn : msg.length using Nat.strong_induction_on generalizing msg with
  | _ n ih =>
      rcases Nat.lt_or_ge msg.length b with hlt | hge
      · exact short msg hlt
      · have hfirst : (msg.take b).length = b := List.length_take_of_le hge
        have hrest : (msg.drop b).length < n := by
          rw [List.length_drop]
          omega
        rw [← List.take_append_drop b msg]
        exact block _ _ hfirst (ih _ hrest _ rfl)

theorem chain_append (hb : 0 < b) (h : σ) (msg more : List α) :
    chain compress b h (msg ++ more) =
      chain compress b (chain compress b h msg) (tail b msg ++ more) := by
  induction msg using block_induction hb generalizing h with
  | short msg hlt => rw [chain_short h hlt, tail_short hlt]
  | block first rest hfirst ih =>
      rw [List.append_assoc, chain_block hb h hfirst, ih, chain_block hb h hfirst,
        tail_block hb hfirst]

theorem tail_append (hb : 0 < b) (msg more : List α) :
    tail b (msg ++ more) = tail b (tail b msg ++ more) := by
  induction msg using block_induction hb with
  | short msg hlt => rw [tail_short hlt]
  | block first rest hfirst ih =>
      rw [List.append_assoc, tail_block hb hfirst, ih, tail_block hb hfirst]

theorem tail_eq_nil (msg : List α) (whole : msg.length % b = 0) : tail b msg = [] :=
  List.length_eq_zero_iff.mp ((length_tail msg).trans whole)

theorem chain_whole (hb : 0 < b) (h : σ) {msg : List α} (whole : msg.length % b = 0)
    (more : List α) :
    chain compress b h (msg ++ more) = chain compress b (chain compress b h msg) more := by
  rw [chain_append hb, tail_eq_nil msg whole, List.nil_append]

namespace Hashing

theorem absorb_append (hb : 0 < b) (s : Hashing σ α) (items more : List α) :
    (s.absorb compress b items).absorb compress b more = s.absorb compress b (items ++ more) := by
  simp only [absorb, ← List.append_assoc]
  rw [chain_append hb s.value (s.pending ++ items), tail_append hb (s.pending ++ items)]

/-- In however many pieces a message is absorbed, the stream is the same. -/
theorem absorb_flatten (hb : 0 < b) {s : Hashing σ α} (start : s.pending.length < b)
    (pieces : List (List α)) :
    pieces.foldl (absorb compress b) s = s.absorb compress b pieces.flatten := by
  induction pieces generalizing s with
  | nil =>
      have hshort : (s.pending ++ []).length < b := by rwa [List.append_nil]
      rw [List.foldl_nil, List.flatten_nil, absorb, chain_short _ hshort, tail_short hshort,
        List.append_nil]
  | cons piece pieces ih =>
      have hnext : (s.absorb compress b piece).pending.length < b := by
        rw [absorb, length_tail]
        exact Nat.mod_lt _ hb
      rw [List.foldl_cons, ih hnext, absorb_append hb, List.flatten_cons]

end Hashing

def BlockOf.append {msg : List α} (p : BlockOf b msg) (more : List α) : BlockOf b (msg ++ more) where
  front := p.front
  block := p.block
  rest := p.rest ++ more
  parts := by
    rw [← List.append_assoc]
    exact congrArg (· ++ more) p.parts
  whole := p.whole
  size := p.size

theorem Collide.append {h : σ} {msg msg' : List α} (hc : Collide compress b h msg msg')
    (more more' : List α) : Collide compress b h (msg ++ more) (msg' ++ more') := by
  obtain ⟨p, q, hne, heq⟩ := hc
  exact ⟨p.append more, q.append more', hne, heq⟩

/-- Two whole-block messages with one hash, neither of them the end of the other, hold a
collision of the compression function. -/
theorem collide_of_chain_eq (hb : 0 < b) {h : σ} {msg msg' : List α}
    (whole : msg.length % b = 0) (whole' : msg'.length % b = 0)
    (apart : ¬ msg <:+ msg') (apart' : ¬ msg' <:+ msg)
    (same : chain compress b h msg = chain compress b h msg') :
    Collide compress b h msg msg' := by
  -- the last blocks either collide or are equal, and then the messages in front of them do
  induction hn : msg.length using Nat.strong_induction_on generalizing msg msg' with
  | _ n ih =>
      have split : ∀ m : List α, m.length % b = 0 → m ≠ [] →
          ∃ front last, m = front ++ last ∧ last.length = b ∧ front.length % b = 0 := by
        intro m hm hne
        have hpos : 0 < m.length := List.length_pos_iff.mpr hne
        have hle : b ≤ m.length := Nat.le_of_dvd hpos (Nat.dvd_of_mod_eq_zero hm)
        refine ⟨m.take (m.length - b), m.drop (m.length - b), (List.take_append_drop _ _).symm,
          ?_, ?_⟩
        · rw [List.length_drop]
          omega
        · rw [List.length_take, Nat.min_eq_left (Nat.sub_le _ _), ← Nat.mod_eq_sub_mod hle]
          exact hm
      have hne : msg ≠ [] := fun hnil => apart (hnil ▸ List.nil_suffix)
      have hne' : msg' ≠ [] := fun hnil => apart' (hnil ▸ List.nil_suffix)
      obtain ⟨front, last, rfl, hlast, hfront⟩ := split msg whole hne
      obtain ⟨front', last', rfl, hlast', hfront'⟩ := split msg' whole' hne'
      have onto : ∀ (g : σ) (block : List α), block.length = b →
          chain compress b g block = compress g block := by
        intro g block hblock
        have hone : chain compress b g (block ++ []) = chain compress b (compress g block) [] :=
          chain_block hb g hblock []
        rw [List.append_nil] at hone
        rw [hone, chain_short _ hb]
      rw [chain_whole hb h hfront, chain_whole hb h hfront', onto _ _ hlast, onto _ _ hlast'] at same
      by_cases hpair : (chain compress b h front, last) = (chain compress b h front', last')
      · obtain ⟨hvalue, rfl⟩ := Prod.mk.inj hpair
        refine (ih front.length ?_ hfront hfront' ?_ ?_ hvalue rfl).append last last
        · rw [← hn, List.length_append, hlast]
          omega
        · rintro ⟨more, hmore⟩
          exact apart ⟨more, by rw [← hmore, List.append_assoc]⟩
        · rintro ⟨more, hmore⟩
          exact apart' ⟨more, by rw [← hmore, List.append_assoc]⟩
      · exact ⟨⟨front, last, [], (List.append_nil _).symm, hfront, hlast⟩,
          ⟨front', last', [], (List.append_nil _).symm, hfront', hlast'⟩, hpair, same⟩

end Rmsgw.Lib.BlockHash
