/- md5_append() against a stream of bytes: which accesses stay within the arrays,
   and that the registers, the buffer and the counter follow what was appended. -/

import Rmsgw.Lib.BlockHash
import Rmsgw.Lib.Decimal
import Rmsgw.Md5.Rounds

set_option autoImplicit false
set_option relaxedAutoImplicit false

namespace Rmsgw.Md5.Append

open Rmsgw.Lib.ByteOrder Rmsgw.Lib.BlockHash Rmsgw.Lib.CStrings Rmsgw.Lib.Decimal
open Rmsgw.Md5.Model Rmsgw.Md5.Rounds

/-- The hash under way that a state stands for: what lies in `buf` behind the offset
does not count. -/
def stream (pms : Md5State) : Hashing Abcd UInt8 := ⟨pms.abcd, pms.buf.take pms.offset⟩

/-- The two words of the counter as one number of bits. -/
def bits (pms : Md5State) : Nat := pms.count0.toNat + 4294967296 * pms.count1.toNat

/-- The hash under way after more bytes. -/
def absorb (s : Hashing Abcd UInt8) (items : List UInt8) : Hashing Abcd UInt8 :=
  s.absorb (compress .littleEndian) 64 items

/-- With a partial block in the buffer `offset + nbytes` must not leave the range of an `int`. -/
def SumFits (pms : Md5State) (nbytes : Int) : Prop :=
  pms.offset = 0 ∨ (pms.offset : Int) + nbytes ≤ 2147483647

theorem offset_eq (pms : Md5State) : pms.offset = bits pms / 8 % 64 := by
  have h0 := pms.count0.toNat_lt
  have hand : ∀ n : Nat, n &&& 63 = n % 64 := fun n => Nat.and_two_pow_sub_one_eq_mod n 6
  simp only [Md5State.offset, bits, UInt32.toNat_and, UInt32.toNat_shiftRight, UInt32.reduceToNat,
    Nat.shiftRight_eq_div_pow, Nat.reduceMod, Nat.reducePow, hand]
  omega

theorem offset_lt (pms : Md5State) : pms.offset < 64 := by
  rw [offset_eq]
  exact Nat.mod_lt _ (by decide)

theorem length_pending (pms : Md5State) : (stream pms).pending.length = pms.offset := by
  have hbuf := pms.length_buf
  have hlt := offset_lt pms
  rw [stream, List.length_take]
  omega

private theorem toNat_ofInt (n : Nat) : (UInt32.ofInt (n : Int)).toNat = n % 4294967296 := by
  rw [UInt32.ofInt, UInt32.toNat_ofNat']
  omega

private theorem bits_lengthen (pms : Md5State) (n : Nat) :
    bits (pms.lengthen n) = (bits pms + 8 * n) % 18446744073709551616 := by
  have h0 := pms.count0.toNat_lt
  have h1 := pms.count1.toNat_lt
  have hbits : (UInt32.ofInt ((n : Int) * 8)).toNat = 8 * n % 4294967296 := by
    rw [show (n : Int) * 8 = ((8 * n : Nat) : Int) by push_cast; omega, toNat_ofInt]
  have hhigh : (UInt32.ofInt ((n : Int) / 536870912)).toNat = n / 536870912 % 4294967296 := by
    rw [show (n : Int) / 536870912 = ((n / 536870912 : Nat) : Int) by push_cast; rfl, toNat_ofInt]
  simp only [bits, Md5State.lengthen, UInt32.lt_iff_toNat_lt, UInt32.toNat_add, hbits]
  split
  · simp only [UInt32.toNat_add, hhigh, UInt32.reduceToNat]
    omega
  · simp only [UInt32.toNat_add, hhigh]
    omega

private theorem offset_lengthen (pms : Md5State) (n : Nat) :
    (pms.lengthen n).offset = (pms.offset + n) % 64 := by
  rw [offset_eq, offset_eq, bits_lengthen]
  omega

private theorem abcd_md5Process (host : Host) (pms : Md5State) (data : List UInt8) :
    (md5Process host pms data).abcd = compress .littleEndian pms.abcd data :=
  compress_host host pms.abcd data

private theorem bits_md5Process (host : Host) (pms : Md5State) (data : List UInt8) :
    bits (md5Process host pms data) = bits pms := by
  have h0 : (md5Process host pms data).count0 = pms.count0 := by rw [md5Process]
  have h1 : (md5Process host pms data).count1 = pms.count1 := by rw [md5Process]
  rw [bits, bits, h0, h1]

private theorem readBytes_eq_some {p src : List UInt8} {n : Nat} :
    readBytes p n = some src ↔ n ≤ p.length ∧ p.take n = src := by
  rw [readBytes]
  split <;> simp_all

private theorem readBytes_of_le {p : List UInt8} {n : Nat} (h : n ≤ p.length) :
    readBytes p n = some (p.take n) :=
  readBytes_eq_some.mpr ⟨h, rfl⟩

private theorem readBytes_of_lt {p : List UInt8} {n : Nat} (h : p.length < n) :
    readBytes p n = none := by
  rw [readBytes, if_neg (by omega)]

private theorem memcpy_eq (pms : Md5State) (offset : Nat) (src : List UInt8)
    (fits : offset + src.length ≤ 64) :
    ∃ filled, pms.memcpy offset src = some filled ∧ filled.abcd = pms.abcd ∧
      bits filled = bits pms ∧ filled.buf.take (offset + src.length) = pms.buf.take offset ++ src := by
  have hfront : (pms.buf.take offset ++ src).length = offset + src.length := by
    have hbuf := pms.length_buf
    rw [List.length_append, List.length_take]
    omega
  rw [Md5State.memcpy, dif_pos fits]
  exact ⟨_, rfl, rfl, rfl, List.take_left' hfront⟩

private theorem memcpy_none (pms : Md5State) {offset : Nat} {src : List UInt8}
    (long : 64 < offset + src.length) : pms.memcpy offset src = none := by
  rw [Md5State.memcpy, dif_neg (by omega)]

private theorem fullBlocks_eq (host : Host) (n : Nat) (pms : Md5State) (p : List UInt8)
    (h : 64 * n ≤ p.length) :
    fullBlocks host n pms p =
      some ({ pms with abcd := chain (compress .littleEndian) 64 pms.abcd (p.take (64 * n)) },
        p.drop (64 * n)) := by
  induction n generalizing pms p with
  | zero =>
      have hnil : chain (compress .littleEndian) 64 pms.abcd (p.take (64 * 0)) = pms.abcd := by
        rw [Nat.mul_zero, List.take_zero]
        rfl
      rw [fullBlocks, hnil, Nat.mul_zero, List.drop_zero]
  | succ n ih =>
      have hfirst : 64 ≤ p.length := by omega
      have hrest : 64 * n ≤ (p.drop 64).length := by
        rw [List.length_drop]
        omega
      have hsplit : p.take (64 * (n + 1)) = p.take 64 ++ (p.drop 64).take (64 * n) := by
        rw [Nat.mul_add, Nat.mul_one, Nat.add_comm, List.take_add]
      rw [fullBlocks, readBytes_of_le hfirst, Option.bind_some, ih _ _ hrest, hsplit,
        chain_block (by decide) _ (List.length_take_of_le hfirst), List.drop_drop, md5Process,
        compress_host, Nat.mul_add, Nat.mul_one, Nat.add_comm 64]

private theorem fullBlocks_none (host : Host) (n : Nat) (pms : Md5State) (p : List UInt8)
    (h : p.length < 64 * n) : fullBlocks host n pms p = none := by
  induction n generalizing pms p with
  | zero => omega
  | succ n ih =>
      rw [fullBlocks]
      rcases Nat.lt_or_ge p.length 64 with hshort | hfirst
      · rw [readBytes_of_lt hshort, Option.bind_none]
      · rw [readBytes_of_le hfirst, Option.bind_some]
        refine ih _ _ ?_
        rw [List.length_drop]
        omega

private theorem processRest_eq (host : Host) (pms : Md5State) (p : List UInt8) (left : Nat)
    (h : left ≤ p.length) :
    ∃ t, processRest host pms p left = some t ∧
      t.abcd = chain (compress .littleEndian) 64 pms.abcd (p.take left) ∧
      t.buf.take (left % 64) = tail 64 (p.take left) ∧ bits t = bits pms := by
  have hwhole : 64 * (left / 64) ≤ p.length := by omega
  have hlen : (p.take left).length = left := List.length_take_of_le h
  have hblocks : (p.take left).take (64 * (left / 64)) = p.take (64 * (left / 64)) := by
    rw [List.take_take, Nat.min_eq_left (by omega)]
  have htail : tail 64 (p.take left) = (p.drop (64 * (left / 64))).take (left % 64) := by
    rw [tail, hlen, List.drop_take]
    congr 1
    omega
  have hchain : chain (compress .littleEndian) 64 pms.abcd (p.take left) =
      chain (compress .littleEndian) 64 pms.abcd (p.take (64 * (left / 64))) := by
    have hmod : (p.take (64 * (left / 64))).length % 64 = 0 := by
      rw [List.length_take_of_le hwhole, Nat.mul_mod_right]
    have hcut := List.take_append_drop (64 * (left / 64)) (p.take left)
    rw [hblocks] at hcut
    rw [← hcut, chain_whole (by decide) _ hmod, chain_short]
    rw [List.length_drop, hlen]
    omega
  rw [processRest, fullBlocks_eq host _ _ _ hwhole, Option.bind_some, hchain, htail]
  split
  · rename_i hzero
    refine ⟨_, rfl, rfl, ?_, rfl⟩
    rw [hzero, List.take_zero, List.take_zero]
  · have hread : left % 64 ≤ (p.drop (64 * (left / 64))).length := by
      rw [List.length_drop]
      omega
    have hlast : ((p.drop (64 * (left / 64))).take (left % 64)).length = left % 64 :=
      List.length_take_of_le hread
    rw [readBytes_of_le hread, Option.bind_some]
    obtain ⟨t, ht, habcd, hbits, hbuf⟩ := memcpy_eq
      ({ pms with
        abcd := chain (compress .littleEndian) 64 pms.abcd (p.take (64 * (left / 64))) } : Md5State)
      0 ((p.drop (64 * (left / 64))).take (left % 64)) (by omega)
    refine ⟨t, ht, habcd, ?_, hbits⟩
    rw [Nat.zero_add, hlast, List.take_zero, List.nil_append] at hbuf
    exact hbuf

private theorem processRest_none (host : Host) (pms : Md5State) (p : List UInt8) {left : Nat}
    (h : p.length < left) : processRest host pms p left = none := by
  rw [processRest]
  rcases Nat.lt_or_ge p.length (64 * (left / 64)) with hlt | hge
  · rw [fullBlocks_none host _ _ _ hlt, Option.bind_none]
  · have hread : (p.drop (64 * (left / 64))).length < left % 64 := by
      rw [List.length_drop]
      omega
    rw [fullBlocks_eq host _ _ _ hge, Option.bind_some, if_neg (by omega), readBytes_of_lt hread,
      Option.bind_none]

private theorem copy_eq {offset n : Nat} (hoffset : offset < 64) (sum : offset + n ≤ 2147483647) :
    (if 64 < toInt32 ((offset : Int) + n) then 64 - (offset : Int) else n) =
      ((min (64 - offset) n : Nat) : Int) := by
  have hint : toInt32 ((offset : Int) + n) = (offset : Int) + n :=
    toInt32_of_inInt32 ⟨by omega, by omega⟩
  rw [hint]
  split <;> omega

private theorem copy_overflow {offset n : Nat} (hoffset : offset < 64) (int : n ≤ 2147483647)
    (large : 2147483647 < offset + n) :
    (if 64 < toInt32 ((offset : Int) + n) then 64 - (offset : Int) else n) = (n : Int) := by
  refine if_neg ?_
  rw [toInt32]
  omega

private theorem stream_eq {t : Md5State} {s : Hashing Abcd UInt8} {n : Nat} (hoffset : t.offset = n)
    (habcd : t.abcd = s.value) (hbuf : t.buf.take n = s.pending) : stream t = s := by
  rw [stream, hoffset, habcd, hbuf]

/-- Within the arrays a call absorbs its bytes and counts them. -/
theorem md5Append_eq (host : Host) (pms : Md5State) (data : List UInt8) {n : Nat} (pos : 0 < n)
    (within : n ≤ data.length) (int : n ≤ 2147483647) (sum : SumFits pms n) :
    ∃ t, md5Append host pms data n = some t ∧ stream t = absorb (stream pms) (data.take n) ∧
      bits t = (bits pms + 8 * n) % 18446744073709551616 := by
  have hlt := offset_lt pms
  have hsixtyFour : 0 < 64 := by decide
  have hpos : ¬ (n : Int) ≤ 0 := by omega
  have hnext : ∀ t : Md5State, bits t = bits (pms.lengthen n) → t.offset = (pms.offset + n) % 64 := by
    intro t ht
    rw [offset_eq, ht, ← offset_eq, offset_lengthen]
  rw [md5Append, if_neg hpos]
  by_cases hzero : pms.offset = 0
  · rw [if_pos hzero, Int.toNat_natCast]
    obtain ⟨t, ht, habcd, hbuf, hbits⟩ := processRest_eq host (pms.lengthen n) data n within
    have hstart : (stream pms).pending = [] := by rw [stream, hzero, List.take_zero]
    refine ⟨t, ht, stream_eq (n := n % 64) ?_ ?_ ?_, hbits.trans (bits_lengthen pms n)⟩
    · rw [hnext t hbits, hzero, Nat.zero_add]
    · rw [absorb, Hashing.absorb, hstart, List.nil_append]
      exact habcd
    · rw [absorb, Hashing.absorb, hstart, List.nil_append]
      exact hbuf
  · have hsum : pms.offset + n ≤ 2147483647 := by
      rcases sum with h | h
      · exact absurd h hzero
      · omega
    have hpending := length_pending pms
    rw [if_neg hzero, copy_eq hlt hsum]
    simp only [Int.toNat_natCast]
    have hread : min (64 - pms.offset) n ≤ data.length := by omega
    have hsrc : (data.take (min (64 - pms.offset) n)).length = min (64 - pms.offset) n :=
      List.length_take_of_le hread
    obtain ⟨filled, hfilled, habcd, hbits, hbuf⟩ := memcpy_eq (pms.lengthen n) pms.offset
      (data.take (min (64 - pms.offset) n)) (by omega)
    rw [hsrc] at hbuf
    rw [readBytes_of_le hread, Option.bind_some, hfilled, Option.bind_some]
    by_cases hshort : pms.offset + n < 64
    · -- the bytes do not fill the block
      have hmin : min (64 - pms.offset) n = n := by omega
      have hfew : ((stream pms).pending ++ data.take n).length < 64 := by
        rw [List.length_append, hpending, List.length_take_of_le within]
        exact hshort
      rw [hmin] at hbuf ⊢
      rw [if_pos (by omega)]
      refine ⟨filled, rfl, stream_eq (n := pms.offset + n) ?_ ?_ ?_,
        hbits.trans (bits_lengthen pms n)⟩
      · rw [hnext filled hbits, Nat.mod_eq_of_lt hshort]
      · rw [absorb, Hashing.absorb, chain_short _ hfew]
        exact habcd
      · rw [absorb, Hashing.absorb, tail_short hfew]
        exact hbuf
    · -- the block is filled up and processed, and the rest follows
      have hmin : min (64 - pms.offset) n = 64 - pms.offset := by omega
      have hleft : ((n : Int) - ((64 - pms.offset : Nat) : Int)).toNat = n - (64 - pms.offset) := by
        omega
      rw [hmin] at hbuf ⊢
      rw [if_neg (by omega), hleft]
      have hblock : filled.buf = (stream pms).pending ++ data.take (64 - pms.offset) := by
        have hall : filled.buf.take (pms.offset + (64 - pms.offset)) = filled.buf := by
          refine List.take_of_length_le ?_
          rw [filled.length_buf]
          omega
        rw [← hall, hbuf]
        rfl
      have hwhole : ((stream pms).pending ++ data.take (64 - pms.offset)).length = 64 := by
        rw [← hblock, filled.length_buf]
      have hall : (stream pms).pending ++ data.take n =
          (stream pms).pending ++ data.take (64 - pms.offset) ++
            (data.drop (64 - pms.offset)).take (n - (64 - pms.offset)) := by
        rw [List.append_assoc, ← List.take_add]
        congr 2
        omega
      obtain ⟨t, ht, hvalue, hrest, hcount⟩ := processRest_eq host
        (md5Process host filled filled.buf) (data.drop (64 - pms.offset))
        (n - (64 - pms.offset)) (by rw [List.length_drop]; omega)
      have hprocessed : (md5Process host filled filled.buf).abcd =
          compress .littleEndian pms.abcd
            ((stream pms).pending ++ data.take (64 - pms.offset)) := by
        rw [abcd_md5Process, hblock, habcd, Md5State.lengthen]
      have hbitsT : bits t = bits (pms.lengthen n) := (hcount.trans (bits_md5Process _ _ _)).trans hbits
      refine ⟨t, ht, stream_eq (n := (n - (64 - pms.offset)) % 64) ?_ ?_ ?_,
        hbitsT.trans (bits_lengthen pms n)⟩
      · rw [hnext t hbitsT]
        omega
      · rw [absorb, Hashing.absorb, hall, chain_block hsixtyFour _ hwhole, hvalue, hprocessed,
          stream]
      · rw [absorb, Hashing.absorb, hall, tail_block hsixtyFour hwhole]
        exact hrest

theorem md5Append_none (host : Host) (pms : Md5State) (data : List UInt8) {n : Nat} (pos : 0 < n)
    (int : n ≤ 2147483647) (bad : data.length < n ∨ ¬ SumFits pms n) :
    md5Append host pms data n = none := by
  have hlt := offset_lt pms
  rw [md5Append, if_neg (by omega)]
  by_cases hzero : pms.offset = 0
  · have hshort : data.length < n := bad.resolve_right fun h => h (.inl hzero)
    rw [if_pos hzero, Int.toNat_natCast, processRest_none host _ _ hshort]
  rw [if_neg hzero]
  rcases Nat.lt_or_ge 2147483647 (pms.offset + n) with hover | hsum
  · -- the copy of all bytes goes past the buffer, if it does not go past the data
    rw [copy_overflow hlt int hover]
    simp only [Int.toNat_natCast]
    rcases Nat.lt_or_ge data.length n with hshort | hread
    · rw [readBytes_of_lt hshort, Option.bind_none]
    · rw [readBytes_of_le hread, Option.bind_some, memcpy_none, Option.bind_none]
      rw [List.length_take_of_le hread]
      omega
  · have hshort : data.length < n := bad.resolve_right fun h => h (.inr (by omega))
    rw [copy_eq hlt hsum]
    simp only [Int.toNat_natCast]
    rcases Nat.lt_or_ge data.length (min (64 - pms.offset) n) with hless | hread
    · rw [readBytes_of_lt hless, Option.bind_none]
    · have hsrc : (data.take (min (64 - pms.offset) n)).length = min (64 - pms.offset) n :=
        List.length_take_of_le hread
      obtain ⟨filled, hfilled, -⟩ := memcpy_eq (pms.lengthen n) pms.offset
        (data.take (min (64 - pms.offset) n)) (by omega)
      rw [readBytes_of_le hread, Option.bind_some, hfilled, Option.bind_some, if_neg (by omega)]
      refine processRest_none host _ _ ?_
      rw [List.length_drop]
      omega

/-- A call of md5_append() stays within `data` and within the buffer exactly when the
data are as long as it is told and the sum that it compares with 64 is an `int`. -/
theorem append_within_iff (host : Host) (pms : Md5State) (data : List UInt8) (nbytes : Int)
    (int : InInt32 nbytes) :
    (md5Append host pms data nbytes).isSome ↔
      nbytes ≤ 0 ∨ (nbytes ≤ data.length ∧ SumFits pms nbytes) := by
  by_cases hneg : nbytes ≤ 0
  · rw [md5Append, if_pos hneg]
    exact iff_of_true rfl (.inl hneg)
  · obtain ⟨n, rfl⟩ : ∃ n : Nat, nbytes = n := ⟨nbytes.toNat, by omega⟩
    have hpos : 0 < n := by omega
    have hint : n ≤ 2147483647 := by
      have := int.2
      omega
    constructor
    · intro hsome
      by_contra hbad
      have hnone : md5Append host pms data n = none := by
        refine md5Append_none host pms data hpos hint ?_
        by_contra hgood
        rw [not_or, not_not] at hgood
        exact hbad (.inr ⟨by omega, hgood.2⟩)
      rw [hnone] at hsome
      cases hsome
    · rintro (h | ⟨hlen, hsum⟩)
      · exact absurd h hneg
      · obtain ⟨t, ht, -⟩ := md5Append_eq host pms data hpos (Int.ofNat_le.mp hlen) hint hsum
        rw [ht]
        rfl

/-- One byte is pending when the largest `int` of bytes is announced. -/
theorem append_within_iff_largest :
    (md5Append .littleEndian { rawState with count0 := 8 } [] 2147483647).isSome ↔
      (2147483647 : Int) ≤ 0 ∨ ((2147483647 : Int) ≤ ([] : List UInt8).length ∧
        SumFits { rawState with count0 := 8 } 2147483647) :=
  append_within_iff .littleEndian { rawState with count0 := 8 } [] 2147483647 (by decide)

end Rmsgw.Md5.Append
