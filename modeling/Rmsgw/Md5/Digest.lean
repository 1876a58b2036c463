/- The digest of a message: padding, length field and chain of blocks, and that the
   calls of the library bring it out however the message is cut into pieces. -/

import Rmsgw.Md5.Append

set_option autoImplicit false
set_option relaxedAutoImplicit false

namespace Rmsgw.Md5.Digest

open Rmsgw.Lib.ByteOrder Rmsgw.Lib.BlockHash Rmsgw.Lib.CStrings
open Rmsgw.Md5.Model Rmsgw.Md5.Rounds Rmsgw.Md5.Append

/-- The registers that a hash begins with. -/
def iv : Abcd := ⟨0x67452301, 0xefcdab89, 0x98badcfe, 0x10325476⟩

/-- The low `k` bytes of a number, least significant first. -/
def lowBytes (k n : Nat) : List UInt8 := (List.range k).map (fun i => UInt8.ofNat (n / 256 ^ i))

/-- Zeroes behind the first padding byte, up to 56 bytes mod 64. -/
def zeroes (len : Nat) : Nat := (119 - len % 64) % 64

/-- What is hashed for a message: a one bit, zeroes, and the number of its bits in 8 bytes. -/
def padded (msg : List UInt8) : List UInt8 :=
  msg ++ (0x80 :: List.replicate (zeroes msg.length) 0) ++ lowBytes 8 (8 * msg.length)

/-- The registers, each least significant byte first. -/
def registerBytes (r : Abcd) : List UInt8 :=
  lowBytes 4 r.a.toNat ++ lowBytes 4 r.b.toNat ++ lowBytes 4 r.c.toNat ++ lowBytes 4 r.d.toNat

/-- The MD5 digest of a message. -/
def md5 (msg : List UInt8) : List UInt8 :=
  registerBytes (chain (compress .littleEndian) 64 iv (padded msg))

/-- Each piece that does not start at a block boundary leaves the sum with what stands
in the buffer within an `int`. -/
def PiecesFit : Nat → List (List UInt8) → Prop
  | _, [] => True
  | before, piece :: pieces =>
      (piece = [] ∨ before % 64 = 0 ∨ before % 64 + piece.length ≤ 2147483647) ∧
        PiecesFit (before + piece.length) pieces

private theorem ofNat_mod (n : Nat) : UInt8.ofNat (n % 256) = UInt8.ofNat n :=
  UInt8.toNat_inj.mp (by simp)

private theorem lowBytes_mod (k n : Nat) : lowBytes k (n % 256 ^ k) = lowBytes k n := by
  refine List.map_congr_left ?_
  intro i hi
  have hlt := List.mem_range.mp hi
  obtain ⟨j, rfl⟩ : ∃ j, k = i + (j + 1) := ⟨k - i - 1, by omega⟩
  rw [pow_add, Nat.mod_mul_right_div_self, ← ofNat_mod, pow_succ', Nat.mod_mul_right_mod, ofNat_mod]

private theorem lowBytes_inj {k m n : Nat} (hm : m < 256 ^ k) (hn : n < 256 ^ k)
    (h : lowBytes k m = lowBytes k n) : m = n := by
  induction k generalizing m n with
  | zero => omega
  | succ k ih =>
      have hsplit : ∀ v : Nat, lowBytes (k + 1) v = UInt8.ofNat v :: lowBytes k (v / 256) := by
        intro v
        rw [lowBytes, List.range_succ_eq_map, List.map_cons, List.map_map, pow_zero, Nat.div_one]
        refine congrArg _ (List.map_congr_left fun i _ => ?_)
        rw [Function.comp_apply, Nat.succ_eq_add_one, pow_succ', Nat.div_div_eq_div_mul]
      rw [hsplit, hsplit] at h
      obtain ⟨hfirst, hrest⟩ := List.cons.inj h
      have hlow : m % 256 = n % 256 := by simpa using congrArg UInt8.toNat hfirst
      rw [pow_succ] at hm hn
      have hhigh : m / 256 = n / 256 := ih (by omega) (by omega) hrest
      omega

theorem length_lowBytes (k n : Nat) : (lowBytes k n).length = k := by
  rw [lowBytes, List.length_map, List.length_range]

private theorem shifted_byte (w : UInt32) {j : Nat} (hj : j < 4) :
    (w >>> UInt32.ofNat (j * 8)).toUInt8 = UInt8.ofNat (w.toNat / 256 ^ j) := by
  apply UInt8.toNat_inj.mp
  rw [UInt32.toNat_toUInt8, UInt32.toNat_shiftRight, UInt32.toNat_ofNat', UInt8.toNat_ofNat',
    Nat.shiftRight_eq_div_pow]
  have hshift : j * 8 % 2 ^ 32 % 32 = j * 8 := by omega
  rw [hshift, Nat.mul_comm j 8, pow_mul, show (2 : Nat) ^ 8 = 256 by decide]

private theorem wordBytes_two (lo hi : UInt32) :
    wordBytes [lo, hi] = lowBytes 8 (lo.toNat + 4294967296 * hi.toNat) := by
  have hlo := lo.toNat_lt
  refine List.map_congr_left ?_
  intro i hi'
  have hlt : i < 8 := List.mem_range.mp hi'
  rcases Nat.lt_or_ge i 4 with hsmall | hlarge
  · rw [Nat.div_eq_of_lt hsmall, List.getD_cons_zero, Nat.mod_eq_of_lt hsmall,
      shifted_byte lo hsmall]
    have hlow : (lo.toNat + 4294967296 * hi.toNat) / 256 ^ i % 256 = lo.toNat / 256 ^ i % 256 := by
      interval_cases i <;> omega
    rw [← ofNat_mod, ← hlow, ofNat_mod]
  · obtain ⟨j, rfl⟩ : ∃ j, i = 4 + j := ⟨i - 4, by omega⟩
    have hj : j < 4 := by omega
    rw [show (4 + j) / 4 = 1 by omega, List.getD_cons_succ, List.getD_cons_zero,
      show (4 + j) % 4 = j by omega, shifted_byte hi hj, pow_add]
    rw [← Nat.div_div_eq_div_mul, show (256 : Nat) ^ 4 = 4294967296 by decide,
      Nat.add_mul_div_left _ _ (by decide), Nat.div_eq_of_lt hlo, Nat.zero_add]

private theorem wordBytes_registers (r : Abcd) :
    wordBytes [r.a, r.b, r.c, r.d] = registerBytes r := by
  have hword : ∀ w : UInt32, lowBytes 4 w.toNat =
      (List.range 4).map (fun j => (w >>> UInt32.ofNat (j * 8)).toUInt8) := by
    intro w
    exact List.map_congr_left fun j hj => (shifted_byte w (List.mem_range.mp hj)).symm
  simp [registerBytes, hword, wordBytes, List.range_succ]

private theorem registerBytes_inj {r s : Abcd} (h : registerBytes r = registerBytes s) : r = s := by
  have hword : ∀ w : UInt32, (lowBytes 4 w.toNat).length = 4 := fun w => length_lowBytes 4 _
  have hvalue : ∀ w v : UInt32, lowBytes 4 w.toNat = lowBytes 4 v.toNat → w = v := by
    intro w v hbytes
    exact UInt32.toNat_inj.mp (lowBytes_inj w.toNat_lt v.toNat_lt hbytes)
  obtain ⟨habc, hd⟩ := List.append_inj' h (by rw [hword, hword])
  obtain ⟨hab, hc⟩ := List.append_inj' habc (by rw [hword, hword])
  obtain ⟨ha, hb⟩ := List.append_inj' hab (by rw [hword, hword])
  cases r
  cases s
  simp only [Abcd.mk.injEq]
  exact ⟨hvalue _ _ ha, hvalue _ _ hb, hvalue _ _ hc, hvalue _ _ hd⟩

theorem bits_md5Init (raw : Md5State) : bits (md5Init raw) = 0 := rfl

theorem stream_md5Init (raw : Md5State) : stream (md5Init raw) = ⟨iv, []⟩ := by
  have hoffset : (md5Init raw).offset = 0 := by rw [offset_eq, bits_md5Init]
  rw [stream, hoffset, List.take_zero]
  rfl

private theorem absorb_nil (pms : Md5State) : absorb (stream pms) [] = stream pms := by
  have hstart : (stream pms).pending.length < 64 := by
    rw [length_pending]
    exact offset_lt pms
  have hempty : stream pms = absorb (stream pms) [] :=
    Hashing.absorb_flatten (by decide) hstart []
  exact hempty.symm

private theorem absorb_append (s : Hashing Abcd UInt8) (items more : List UInt8) :
    absorb (absorb s items) more = absorb s (items ++ more) :=
  Hashing.absorb_append (by decide) s items more

private theorem bits_lt (pms : Md5State) : bits pms < 18446744073709551616 := by
  have h0 := pms.count0.toNat_lt
  have h1 := pms.count1.toNat_lt
  rw [bits]
  omega

private theorem append_piece (host : Host) (pms : Md5State) {piece : List UInt8}
    (int : piece.length ≤ 2147483647) (fit : piece = [] ∨ SumFits pms piece.length) :
    ∃ t, md5Append host pms piece piece.length = some t ∧ stream t = absorb (stream pms) piece ∧
      bits t = (bits pms + 8 * piece.length) % 18446744073709551616 := by
  by_cases hnil : piece = []
  · subst hnil
    refine ⟨pms, if_pos (by decide), (absorb_nil pms).symm, ?_⟩
    rw [List.length_nil, Nat.mul_zero, Nat.add_zero, Nat.mod_eq_of_lt (bits_lt pms)]
  · obtain ⟨t, ht, hstream, hbits⟩ := md5Append_eq host pms piece
      (List.length_pos_iff.mpr hnil) (Nat.le_refl _) int (fit.resolve_left hnil)
    rw [List.take_length] at hstream
    exact ⟨t, ht, hstream, hbits⟩

private theorem sumFits_iff {pms : Md5State} {before n : Nat}
    (hbits : bits pms / 8 % 64 = before % 64) :
    SumFits pms n ↔ before % 64 = 0 ∨ before % 64 + n ≤ 2147483647 := by
  rw [SumFits, offset_eq, hbits]
  omega

private theorem appendAll_eq (host : Host) {pieces : List (List UInt8)}
    (int : ∀ piece ∈ pieces, piece.length ≤ 2147483647) {before : Nat} (pms : Md5State)
    (hbefore : bits pms / 8 % 64 = before % 64) (fit : PiecesFit before pieces) :
    ∃ t, appendAll host pms pieces = some t ∧ stream t = absorb (stream pms) pieces.flatten ∧
      bits t = (bits pms + 8 * pieces.flatten.length) % 18446744073709551616 := by
  induction pieces generalizing pms before with
  | nil =>
      refine ⟨pms, rfl, (absorb_nil pms).symm, ?_⟩
      rw [List.flatten_nil, List.length_nil, Nat.mul_zero, Nat.add_zero,
        Nat.mod_eq_of_lt (bits_lt pms)]
  | cons piece pieces ih =>
      obtain ⟨hpiece, hpieces⟩ := fit
      obtain ⟨s, hs, hstream, hbits⟩ := append_piece host pms (int piece List.mem_cons_self)
        (hpiece.imp_right (sumFits_iff hbefore).mpr)
      have hnext : bits s / 8 % 64 = (before + piece.length) % 64 := by
        rw [hbits]
        omega
      obtain ⟨t, ht, hstream', hbits'⟩ :=
        ih (fun p hp => int p (List.mem_cons_of_mem _ hp)) s hnext hpieces
      refine ⟨t, ?_, ?_, ?_⟩
      · rw [appendAll, hs, Option.bind_some, ht]
      · rw [hstream', hstream, absorb_append, List.flatten_cons]
      · rw [hbits', hbits, List.flatten_cons, List.length_append]
        omega

private theorem appendAll_none (host : Host) {pieces : List (List UInt8)}
    (int : ∀ piece ∈ pieces, piece.length ≤ 2147483647) {before : Nat} (pms : Md5State)
    (hbefore : bits pms / 8 % 64 = before % 64) (unfit : ¬ PiecesFit before pieces) :
    appendAll host pms pieces = none := by
  induction pieces generalizing pms before with
  | nil => exact absurd trivial unfit
  | cons piece pieces ih =>
      have hint := int piece List.mem_cons_self
      by_cases hpiece : piece = [] ∨ SumFits pms piece.length
      · obtain ⟨s, hs, -, hbits⟩ := append_piece host pms hint hpiece
        have hnext : bits s / 8 % 64 = (before + piece.length) % 64 := by
          rw [hbits]
          omega
        rw [appendAll, hs, Option.bind_some]
        refine ih (fun p hp => int p (List.mem_cons_of_mem _ hp)) s hnext fun hfit => unfit ?_
        exact ⟨hpiece.imp_right (sumFits_iff hbefore).mp, hfit⟩
      · rw [not_or] at hpiece
        rw [appendAll, md5Append_none host pms piece (List.length_pos_iff.mpr hpiece.1)
          hint (.inr hpiece.2), Option.bind_none]

private theorem padCount_eq (pms : Md5State) {len : Nat}
    (h : bits pms = 8 * len % 18446744073709551616) : pms.padCount = zeroes len + 1 := by
  have h0 := pms.count0.toNat_lt
  have hand : ∀ n : Nat, n &&& 63 = n % 64 := fun n => Nat.and_two_pow_sub_one_eq_mod n 6
  have hcount : pms.count0.toNat = 8 * len % 4294967296 := by
    rw [bits] at h
    omega
  simp only [Md5State.padCount, zeroes, UInt32.toNat_and, UInt32.toNat_sub,
    UInt32.toNat_shiftRight, UInt32.reduceToNat, Nat.shiftRight_eq_div_pow, Nat.reduceMod,
    Nat.reducePow, hand, hcount]
  omega

private theorem take_pad (n : Nat) (h : n < 64) :
    pad.take (n + 1) = 0x80 :: List.replicate n 0 := by
  rw [pad, List.take_succ_cons, List.take_replicate, Nat.min_eq_left (by omega)]

/-- The calls of md5_finish() bring out the digest of what was appended. -/
theorem md5Finish_eq (host : Host) (pms : Md5State) (msg : List UInt8)
    (hstream : stream pms = absorb ⟨iv, []⟩ msg)
    (hbits : bits pms = 8 * msg.length % 18446744073709551616) :
    md5Finish host pms = some (md5 msg) := by
  have hoffset := offset_lt pms
  have hzeroes : zeroes msg.length < 64 := Nat.mod_lt _ (by decide)
  have hlength : wordBytes [pms.count0, pms.count1] = lowBytes 8 (8 * msg.length) := by
    rw [wordBytes_two, ← lowBytes_mod 8 (8 * msg.length), show (256 : Nat) ^ 8 = 18446744073709551616
      by decide, ← hbits, bits]
  obtain ⟨s, hs, hstreamS, hbitsS⟩ := md5Append_eq host pms pad (n := pms.padCount)
    (by rw [padCount_eq pms hbits]; omega)
    (by rw [padCount_eq pms hbits]; simp only [pad, List.length_cons, List.length_replicate]; omega)
    (by rw [padCount_eq pms hbits]; omega)
    (.inr (by rw [padCount_eq pms hbits]; omega))
  have hoffsetS := offset_lt s
  obtain ⟨t, ht, hstreamT, -⟩ := md5Append_eq host s (lowBytes 8 (8 * msg.length)) (n := 8)
    (by decide) (by rw [length_lowBytes]) (by decide) (.inr (by omega))
  have hvalue : t.abcd = chain (compress .littleEndian) 64 iv (padded msg) := by
    have hall : stream t = absorb ⟨iv, []⟩ (padded msg) := by
      rw [hstreamT, hstreamS, hstream, absorb_append, absorb_append, padCount_eq pms hbits,
        take_pad _ hzeroes, List.take_of_length_le (Nat.le_of_eq (length_lowBytes _ _)), padded,
        ← List.append_assoc]
    exact congrArg Hashing.value hall
  rw [md5Finish, hlength, hs, Option.bind_some]
  exact (congrArg (Option.map _) ht).trans (by rw [Option.map_some, wordBytes_registers, hvalue, md5])

/-- The digest that the calls on a state bring out for the pieces of a message. -/
def digestOf (host : Host) (raw : Md5State) (pieces : List (List UInt8)) : Option (List UInt8) :=
  (appendAll host (md5Init raw) pieces).bind (md5Finish host)

section Pieces

variable (host : Host) (raw : Md5State) {pieces : List (List UInt8)}
  (int : ∀ piece ∈ pieces, piece.length ≤ 2147483647)

include int

private theorem digestOf_fit (fit : PiecesFit 0 pieces) :
    digestOf host raw pieces = some (md5 pieces.flatten) := by
  obtain ⟨t, ht, hstream, hbits⟩ := appendAll_eq host int (md5Init raw)
    (by rw [bits_md5Init]) fit
  rw [stream_md5Init] at hstream
  rw [bits_md5Init, Nat.zero_add] at hbits
  rw [digestOf, ht, Option.bind_some, md5Finish_eq host t _ hstream hbits]

private theorem digestOf_unfit (unfit : ¬ PiecesFit 0 pieces) :
    digestOf host raw pieces = none := by
  rw [digestOf, appendAll_none host int (md5Init raw) (by rw [bits_md5Init]) unfit,
    Option.bind_none]

private theorem digestOf_value {digest : List UInt8} (h : digestOf host raw pieces = some digest) :
    digest = md5 pieces.flatten := by
  by_cases hfit : PiecesFit 0 pieces
  · rw [digestOf_fit host raw int hfit] at h
    exact (Option.some.inj h).symm
  · rw [digestOf_unfit host raw int hfit] at h
    cases h

end Pieces

/-- Whatever the state held and however a message is cut, md5_init(), an md5_append() for
each piece and md5_finish() bring out the digest of the message, unless a piece behind
a partial block is so long that the buffer overflows. -/
theorem digest_of_pieces (host : Host) (raw : Md5State) (pieces : List (List UInt8))
    (int : ∀ piece ∈ pieces, piece.length ≤ 2147483647) (digest : List UInt8) :
    digestOf host raw pieces = some digest ↔
      PiecesFit 0 pieces ∧ digest = md5 pieces.flatten := by
  constructor
  · intro h
    refine ⟨by_contra fun hunfit => ?_, digestOf_value host raw int h⟩
    rw [digestOf_unfit host raw int hunfit] at h
    cases h
  · rintro ⟨hfit, rfl⟩
    exact digestOf_fit host raw int hfit

private def halves : List (List UInt8) := [List.replicate 40 97, List.replicate 40 98]

theorem digest_of_pieces_halves :
    (∀ piece ∈ halves, piece.length ≤ 2147483647) ∧
      (digestOf .bigEndian rawState halves = some (md5 halves.flatten) ↔
        PiecesFit 0 halves ∧ md5 halves.flatten = md5 halves.flatten) := by
  have hint : ∀ piece ∈ halves, piece.length ≤ 2147483647 := by decide
  exact ⟨hint, digest_of_pieces .bigEndian rawState halves hint (md5 halves.flatten)⟩

example : digestOf .bigEndian rawState [lit "a", [], lit "bc"] =
    some [144, 1, 80, 152, 60, 210, 79, 176, 214, 150, 63, 125, 40, 225, 127, 114] := by
  decide +kernel

private theorem length_padded (msg : List UInt8) : (padded msg).length % 64 = 0 := by
  simp only [padded, zeroes, List.length_append, List.length_cons, List.length_replicate,
    length_lowBytes]
  omega

private theorem eq_of_padded_suffix {msg msg' : List UInt8}
    (short : msg.length < 2305843009213693952)
    (short' : msg'.length < 2305843009213693952) (h : padded msg <:+ padded msg') : msg = msg' := by
  obtain ⟨front, hfront⟩ := h
  rw [padded, padded, ← List.append_assoc] at hfront
  obtain ⟨hbody, hfield⟩ := List.append_inj' hfront (by rw [length_lowBytes, length_lowBytes])
  have hlen : 8 * msg.length = 8 * msg'.length :=
    lowBytes_inj (k := 8) (by omega) (by omega) hfield
  have hsame : msg.length = msg'.length := by omega
  have hnil : front = [] := by
    have hcount := congrArg List.length hbody
    simp only [List.length_append, List.length_cons, List.length_replicate, hsame] at hcount
    exact List.length_eq_zero_iff.mp (by omega)
  rw [hnil, List.nil_append] at hbody
  exact (List.append_inj hbody hsame).1

/-- Two different messages with one digest hold a collision of md5_process(): at a block of the
one padded message and a block of the other, it is given different registers or different blocks
and leaves the same registers. -/
theorem collision_of_digests (host : Host) (raw raw' : Md5State)
    (pieces pieces' : List (List UInt8))
    (int : ∀ piece ∈ pieces ++ pieces', piece.length ≤ 2147483647)
    (short : pieces.flatten.length < 2305843009213693952)
    (short' : pieces'.flatten.length < 2305843009213693952)
    (different : pieces.flatten ≠ pieces'.flatten) (digest : List UInt8)
    (h : digestOf host raw pieces = some digest) (h' : digestOf host raw' pieces' = some digest) :
    Collide (compress host) 64 iv (padded pieces.flatten) (padded pieces'.flatten) := by
  have hint : ∀ piece ∈ pieces, piece.length ≤ 2147483647 := fun p hp =>
    int p (List.mem_append_left _ hp)
  have hint' : ∀ piece ∈ pieces', piece.length ≤ 2147483647 := fun p hp =>
    int p (List.mem_append_right _ hp)
  have hdigest := digestOf_value host raw hint h
  have hdigest' := digestOf_value host raw' hint' h'
  have hchain : chain (compress .littleEndian) 64 iv (padded pieces.flatten) =
      chain (compress .littleEndian) 64 iv (padded pieces'.flatten) :=
    registerBytes_inj (hdigest.symm.trans hdigest')
  have hcompress : compress host = compress .littleEndian :=
    funext fun abcd => funext fun data => compress_host host abcd data
  rw [hcompress]
  refine collide_of_chain_eq (by decide) (length_padded _) (length_padded _) ?_ ?_ hchain
  · exact fun hsuffix => different (eq_of_padded_suffix short short' hsuffix)
  · exact fun hsuffix => different (eq_of_padded_suffix short' short hsuffix).symm

/-- Two blocks, and the top bits in which the other message differs. -/
private def oneMessage : List UInt8 :=
  [209, 49, 221, 2, 197, 230, 238, 196, 105, 61, 154, 6, 152, 175, 249, 92, 47, 202, 181, 135,
    18, 70, 126, 171, 64, 4, 88, 62, 184, 251, 127, 137, 85, 173, 52, 6, 9, 244, 179, 2,
    131, 228, 136, 131, 37, 113, 65, 90, 8, 81, 37, 232, 247, 205, 201, 159, 217, 29, 189, 242,
    128, 55, 60, 91, 216, 130, 62, 49, 86, 52, 143, 91, 174, 109, 172, 212, 54, 201, 25, 198,
    221, 83, 226, 180, 135, 218, 3, 253, 2, 57, 99, 6, 210, 72, 205, 160, 233, 159, 51, 66,
    15, 87, 126, 232, 206, 84, 182, 112, 128, 168, 13, 30, 198, 152, 33, 188, 182, 168, 131, 147,
    150, 249, 101, 43, 111, 247, 42, 112]

private def otherMessage : List UInt8 :=
  [19, 45, 59, 83, 109, 123].foldl (fun msg i => msg.modify i (· ^^^ 128)) oneMessage

private def sharedDigest : List UInt8 :=
  [121, 5, 64, 37, 37, 95, 177, 162, 110, 75, 196, 34, 174, 245, 78, 180]

theorem collision_of_digests_known :
    [oneMessage].flatten ≠ [otherMessage].flatten ∧
      digestOf .littleEndian rawState [oneMessage] = some sharedDigest ∧
      digestOf .littleEndian rawState [otherMessage] = some sharedDigest ∧
      Collide (compress .littleEndian) 64 iv (padded [oneMessage].flatten)
        (padded [otherMessage].flatten) := by
  have hne : [oneMessage].flatten ≠ [otherMessage].flatten := by decide
  have hone : digestOf .littleEndian rawState [oneMessage] = some sharedDigest := by decide +kernel
  have hother : digestOf .littleEndian rawState [otherMessage] = some sharedDigest := by
    decide +kernel
  exact ⟨hne, hone, hother, collision_of_digests .littleEndian rawState rawState [oneMessage]
    [otherMessage] (by decide +kernel) (by decide +kernel) (by decide +kernel) hne sharedDigest hone
    hother⟩

end Rmsgw.Md5.Digest
