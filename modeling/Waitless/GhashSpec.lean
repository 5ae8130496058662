import Waitless.AesGcm
import Waitless.BitPoly

/-! # GHASH and GCM against the standard

SP 800-38D in its own terms (`gmul`, `ghash`, `gctr`, `gcmTag`), and the words of the code taken to
the ring of binary polynomials modulo `x^128 + x^127 + x^126 + x^121 + 1` by `val`. -/

namespace Waitless.Ghash

open Polynomial BitPoly Chunks
open List hiding Vector

noncomputable def modulus : (ZMod 2)[X] := X ^ 128 + X ^ 127 + X ^ 126 + X ^ 121 + 1

theorem natDegree_modulus : modulus.natDegree = 128 := by
  unfold modulus
  compute_degree!

theorem monic_modulus : modulus.Monic := by
  unfold modulus
  monicity!

noncomputable def x : AdjoinRoot modulus := AdjoinRoot.root modulus

noncomputable def xInv : AdjoinRoot modulus := x ^ 127 + x ^ 126 + x ^ 125 + x ^ 120

theorem root_eq {f : (ZMod 2)[X]} (hf : f = X ^ 128 + X ^ 127 + X ^ 126 + X ^ 121 + 1) :
    AdjoinRoot.root f ^ 128 + AdjoinRoot.root f ^ 127 + AdjoinRoot.root f ^ 126 +
      AdjoinRoot.root f ^ 121 + 1 = 0 := by
  have h : AdjoinRoot.mk f (X ^ 128 + X ^ 127 + X ^ 126 + X ^ 121 + 1) = 0 := by
    rw [← hf, AdjoinRoot.mk_self]
  simpa using h

theorem x_eq : x ^ 128 + x ^ 127 + x ^ 126 + x ^ 121 + 1 = 0 :=
  root_eq (by unfold modulus; rfl)

variable {n m : ℕ}

noncomputable def val (v : BitVec n) : AdjoinRoot modulus := residue modulus v

theorem two_eq_zero : (2 : AdjoinRoot modulus) = 0 := by
  have h : (2 : ZMod 2) = 0 := by decide
  rw [← map_ofNat (AdjoinRoot.of modulus) 2, h, map_zero]

theorem x_mul_xInv : x * xInv = 1 := by
  rw [xInv]
  linear_combination x_eq - two_eq_zero

theorem xInv_pow_mul (k : ℕ) : xInv ^ k * x ^ k = 1 := by
  rw [← mul_pow, mul_comm xInv, x_mul_xInv, one_pow]

theorem val_injective : Function.Injective (val (n := 128)) :=
  residue_injective monic_modulus natDegree_modulus.ge

@[simp] theorem val_xor (v w : BitVec n) : val (v ^^^ w) = val v + val w := by
  simp [val, residue]

@[simp] theorem val_zero : val 0#n = 0 := by simp [val, residue]

theorem val_append (hi : BitVec m) (lo : BitVec n) : val (hi ++ lo) = val lo + x ^ n * val hi := by
  simp [val, residue, poly_append, x]

theorem val_shift (v : BitVec n) {k : ℕ} (h : k ≤ n) :
    val (v <<< k) + x ^ n * val (v >>> (n - k)) = x ^ k * val v := by
  simpa [val, residue, x] using congrArg (AdjoinRoot.mk modulus) (poly_shift_split v h)

theorem val_bit {k : ℕ} (h : k < n) : val (1#n <<< k) = x ^ k := by
  simp [val, residue, poly_one_shiftLeft h, x]

theorem val_eq_sum (v : BitVec n) :
    val v = ∑ i ∈ Finset.range n, if v.getLsbD i then x ^ i else 0 := by
  simp [val, residue, poly, map_sum, apply_ite (AdjoinRoot.mk modulus), x]

theorem val_clmul (a b : BitVec 64) : val (clmul a b) = val a * val b := by
  have hpre : ∀ k ≤ 64, poly ((range k).foldl (fun acc i =>
      if b.getLsbD i then acc ^^^ (a.setWidth 128 <<< i) else acc) (0 : BitVec 128)) =
        poly a * ∑ i ∈ Finset.range k, if b.getLsbD i then X ^ i else 0 := by
    intro k hk
    induction k with
    | zero => simp
    | succ k ih =>
      rw [range_succ, foldl_append, Finset.sum_range_succ, mul_add, ← ih (by omega)]
      simp only [foldl_cons, foldl_nil]
      split_ifs
      · rw [poly_xor, poly_shiftLeft a (by omega), mul_comm (X ^ k)]
      · rw [mul_zero, add_zero]
  have h := congrArg (AdjoinRoot.mk modulus) (hpre 64 le_rfl)
  rwa [map_mul] at h

theorem val_fold (v : BitVec 64) :
    x ^ 64 * (val (v <<< 63 ^^^ (v <<< 62 ^^^ v <<< 57)) +
      x ^ 64 * (val v + val (v >>> 1 ^^^ (v >>> 2 ^^^ v >>> 7)))) = val v := by
  have h63 := val_shift v (show 63 ≤ 64 by omega)
  have h62 := val_shift v (show 62 ≤ 64 by omega)
  have h57 := val_shift v (show 57 ≤ 64 by omega)
  simp only [val_xor, Nat.reduceSub] at h63 h62 h57 ⊢
  linear_combination x ^ 64 * (h63 + h62 + h57) + val v * x_eq - val v * two_eq_zero

theorem val_reduce (v0 v1 v2 v3 : BitVec 64) :
    x ^ 128 * val (reduce v0 v1 v2 v3) =
      val v0 + x ^ 64 * val v1 + x ^ 128 * val v2 + x ^ 192 * val v3 := by
  have h0 := val_fold v0
  obtain ⟨w, hw⟩ : ∃ w, w = v1 ^^^ (v0 <<< 63 ^^^ (v0 <<< 62 ^^^ v0 <<< 57)) := ⟨_, rfl⟩
  have h1 := val_fold w
  have hval := congrArg val hw
  unfold reduce
  dsimp only
  rw [← hw, val_append]
  simp only [val_xor] at h0 h1 hval ⊢
  linear_combination h0 + x ^ 64 * (h1 + hval)

theorem val_halves (v : BitVec 128) : val v = val (lo64 v) + x ^ 64 * val (hi64 v) := by
  have h := poly_extractLsb v (show 128 ≤ 64 + 64 by omega)
  simpa [val, residue, x, lo64, hi64] using congrArg (AdjoinRoot.mk modulus) h

noncomputable def Acc.value (acc : Acc) : AdjoinRoot modulus :=
  val acc.lo + x ^ 64 * (val acc.mid + val acc.lo + val acc.hi) + x ^ 128 * val acc.hi

theorem val_accReduce (acc : Acc) : val (accReduce acc) = xInv ^ 128 * acc.value := by
  have h : x ^ 128 * val (accReduce acc) = acc.value := by
    have hlo := val_halves acc.lo
    have hhi := val_halves acc.hi
    have hmid := val_halves (acc.mid ^^^ (acc.lo ^^^ acc.hi))
    unfold accReduce
    dsimp only
    rw [val_reduce, Acc.value]
    simp only [val_xor] at hmid ⊢
    linear_combination -hlo - x ^ 64 * hmid - x ^ 128 * hhi
  rw [← h, ← mul_assoc, xInv_pow_mul, one_mul]

theorem value_karatsubaAccumulate (acc : Acc) (y h : BitVec 128) :
    (karatsubaAccumulate acc y h).value = acc.value + val y * val h := by
  have hy := val_halves y
  have hh := val_halves h
  simp only [karatsubaAccumulate, Acc.value, val_xor, val_clmul]
  rw [hy, hh]
  linear_combination x ^ 64 * (val (lo64 y) * val (lo64 h) + val (hi64 y) * val (hi64 h)) * two_eq_zero

theorem value_accZero : accZero.value = 0 := by
  simp [accZero, Acc.value]

theorem val_polyvalMul (a b : BitVec 128) :
    val (polyvalMul a b) = xInv ^ 128 * (val a * val b) := by
  rw [polyvalMul, val_accReduce, value_karatsubaAccumulate, value_accZero, zero_add]

theorem val_mulx (v : BitVec 128) : val (mulx v) = x * val v := by
  have hshift := val_shift v (show 1 ≤ 128 by omega)
  have hbit : ∀ k < 128, val (v >>> 127 <<< k) = x ^ k * val (v >>> 127) := by
    intro k hk
    have hzero : v >>> 127 >>> (128 - k) = 0#128 := by
      rw [← BitVec.shiftRight_add]
      exact BitVec.ushiftRight_eq_zero (by omega)
    have h := val_shift (v >>> 127) hk.le
    rwa [hzero, val_zero, mul_zero, add_zero] at h
  unfold mulx
  simp only [val_xor, hbit 127 (by omega), hbit 126 (by omega), hbit 121 (by omega)]
  simp only [Nat.reduceSub, pow_one] at hshift
  linear_combination hshift + val (v >>> 127) * (x_eq - x ^ 128 * two_eq_zero)

noncomputable def wide (z : BitVec 128 × BitVec 128) : AdjoinRoot modulus :=
  val z.2 + x ^ 128 * val z.1

theorem wide_foldBit (z : BitVec 128 × BitVec 128) {p : ℕ} (hp : p < 256) :
    wide (foldBit z p) = wide z + x ^ p := by
  unfold foldBit wide
  split_ifs with h
  · rw [val_xor, val_bit (by omega), mul_add, ← pow_add, Nat.add_sub_cancel' h, add_assoc]
  · rw [val_xor, val_bit (by omega)]
    ring

theorem getLsbD_foldBit (z : BitVec 128 × BitVec 128) {p i : ℕ} (hi : p < 128 + i) :
    (foldBit z p).1.getLsbD i = z.1.getLsbD i := by
  unfold foldBit
  split_ifs
  · rw [BitVec.getLsbD_xor, ← BitVec.twoPow_eq, BitVec.getLsbD_twoPow]
    simp [show p - 128 ≠ i by omega]
  · rfl

theorem wide_foldTop (z : BitVec 128 × BitVec 128) {i : ℕ} (hi : i < 128) :
    wide (foldTop i z) = wide z := by
  unfold foldTop
  split_ifs with hbit
  · simp only [foldl_cons, foldl_nil]
    rw [wide_foldBit _ (by omega), wide_foldBit _ (by omega), wide_foldBit _ (by omega),
      wide_foldBit _ (by omega)]
    simp only [wide, val_xor, val_bit hi]
    linear_combination x ^ i * x_eq
  · rfl

theorem getLsbD_foldTop (z : BitVec 128 × BitVec 128) {i k : ℕ} (hk : i ≤ k) (hlt : k < 128)
    (hz : ∀ j, i < j → z.1.getLsbD j = false) : (foldTop i z).1.getLsbD k = false := by
  unfold foldTop
  split_ifs with hbit
  · simp only [foldl_cons, foldl_nil]
    rw [getLsbD_foldBit _ (by omega), getLsbD_foldBit _ (by omega), getLsbD_foldBit _ (by omega),
      getLsbD_foldBit _ (by omega), BitVec.getLsbD_xor, ← BitVec.twoPow_eq, BitVec.getLsbD_twoPow]
    rcases hk.eq_or_lt with rfl | hk
    · simp [hbit, hlt]
    · simp [hz k hk, hk.ne]
  · rcases hk.eq_or_lt with rfl | hk
    · simpa using hbit
    · exact hz k hk

theorem foldr_foldTop {k : ℕ} (hk : k ≤ 128) (z : BitVec 128 × BitVec 128)
    (hz : ∀ j, k ≤ j → z.1.getLsbD j = false) :
    val ((List.range k).foldr foldTop z).2 = wide z := by
  induction k generalizing z with
  | zero =>
    have hzero : z.1 = 0#128 := BitVec.eq_of_getLsbD_eq fun i _ => by simp [hz i (Nat.zero_le i)]
    simp [wide, hzero]
  | succ k ih =>
    rw [range_succ, foldr_append, foldr_cons, foldr_nil,
      ih (by omega) _ fun j hj => ?_, wide_foldTop z hk]
    by_cases hlt : j < 128
    · exact getLsbD_foldTop z hj hlt hz
    · exact BitVec.getLsbD_of_ge _ j (by omega)

theorem wide_mulWide (a b : BitVec 128) : wide (mulWide a b) = val a * val b := by
  have hpre : ∀ k ≤ 128, wide ((range k).foldl (fun z i =>
      if a.getLsbD i then (if i ≠ 0 then z.1 ^^^ b >>> (128 - i) else z.1, z.2 ^^^ b <<< i)
      else z) (0#128, 0#128)) =
      (∑ i ∈ Finset.range k, if a.getLsbD i then x ^ i else 0) * val b := by
    intro k hk
    induction k with
    | zero => simp [wide]
    | succ k ih =>
      rw [range_succ, foldl_append, Finset.sum_range_succ, add_mul, ← ih (by omega)]
      simp only [foldl_cons, foldl_nil, wide]
      have hshift := val_shift b (show k ≤ 128 by omega)
      split_ifs with hbit h0
      · rw [val_xor, val_xor]
        linear_combination hshift
      · obtain rfl : k = 0 := by omega
        simp
      · ring
  rw [val_eq_sum a]
  exact hpre 128 le_rfl

theorem val_polyvalMulSoft (a b : BitVec 128) : val (polyvalMulSoft a b) = val a * val b := by
  rw [polyvalMulSoft, foldr_foldTop le_rfl _ fun j hj => BitVec.getLsbD_of_ge _ j hj, wide_mulWide]

theorem unit_factor : ∃ u, (x ^ 128 + 1) * u = 1 := by
  have hpow : ∀ k, x ^ 2 ^ k + 1 = (x + 1) ^ 2 ^ k := by
    intro k
    induction k with
    | zero => simp
    | succ k ih =>
      rw [pow_succ 2 k, pow_mul, pow_mul, ← ih]
      linear_combination -x ^ 2 ^ k * two_eq_zero
  have hone : (x + 1) * (x ^ 127 + x ^ 125 + x ^ 124 + x ^ 123 + x ^ 122 + x ^ 121) = 1 := by
    linear_combination x_eq +
      (x ^ 125 + x ^ 124 + x ^ 123 + x ^ 122 - 1) * two_eq_zero
  refine ⟨(x ^ 127 + x ^ 125 + x ^ 124 + x ^ 123 + x ^ 122 + x ^ 121) ^ 128, ?_⟩
  rw [show x ^ 128 + 1 = (x + 1) ^ 128 from hpow 7, ← mul_pow, hone, one_pow]

theorem val_mul_eq_zero (a b : BitVec 128) : val a * val b = 0 ↔ modulus ∣ poly a * poly b := by
  rw [← AdjoinRoot.mk_eq_zero, map_mul]
  rfl

/-- **The portable product** lacks a factor, and agrees only where the modulus divides the product. -/
theorem polyvalMulSoft_eq_iff (a b : BitVec 128) :
    polyvalMul (polyvalMulSoft a b) 1#128 = polyvalMul a b ∧
      (polyvalMulSoft a b = polyvalMul a b ↔ modulus ∣ poly a * poly b) := by
  have hone : val 1#128 = 1 := by simpa using val_bit (show 0 < 128 by omega)
  rw [← val_mul_eq_zero]
  refine ⟨val_injective ?_, fun h => ?_, fun h => val_injective ?_⟩
  · rw [val_polyvalMul, val_polyvalMulSoft, hone, mul_one, val_polyvalMul]
  · obtain ⟨u, hu⟩ := unit_factor
    have hval := congrArg val h
    rw [val_polyvalMulSoft, val_polyvalMul] at hval
    linear_combination -(val a * val b) * hu +
      u * (x ^ 128 * hval + val a * val b * (xInv_pow_mul 128 + two_eq_zero))
  · rw [val_polyvalMulSoft, val_polyvalMul, h, mul_zero]

theorem polyvalMulSoft_one_one : polyvalMulSoft 1 1 ≠ polyvalMul 1 1 := by decide +kernel

/-- A block, its first octet the most significant. -/
def bits (b : Block) : BitVec 128 :=
  b.toList.foldl (fun acc o => acc <<< 8 ||| o.toBitVec.setWidth 128) 0

def octets (v : BitVec 128) : Block :=
  Vector.ofFn fun i => UInt8.ofBitVec (v.extractLsb' (8 * (15 - i.val)) 8)

/-- `V` runs through `Y · x^i`, with `R = 11100001 || 0^120`. -/
def gmul (X Y : BitVec 128) : BitVec 128 :=
  ((List.range 128).foldl (fun (Z, V) i =>
    (if X.getMsbD i then Z ^^^ V else Z,
      if V.getLsbD 0 then V >>> 1 ^^^ (0xE1#8 ++ 0#120 : BitVec 128) else V >>> 1))
    (0#128, Y)).1

def ghash (H : BitVec 128) (blocks : List (BitVec 128)) : BitVec 128 :=
  blocks.foldl (fun Y X => gmul (Y ^^^ X) H) 0

/-- The last one is padded with zeros. -/
def blocks (s : List UInt8) : List (BitVec 128) :=
  let rest := remainder blockLen s
  (chunksExact blockLen s ++ if rest.isEmpty then [] else [rest]).map
    fun b => bits (GhashState.padBlock b)

theorem loadu_reverse (b : Block) : loadu b.reverse = bits b := by
  rw [loadu, Vector.toList_reverse, foldr_reverse, bits]

theorem storeu_reverse (v : BitVec 128) : (storeu v).reverse = octets v := by
  ext i hi
  simp [storeu, octets]

theorem val_halve (V : BitVec 128) :
    val (if V.getLsbD 0 then V >>> 1 ^^^ (0xE1#8 ++ 0#120 : BitVec 128) else V >>> 1) =
      xInv * val V := by
  have hV : x * val (V >>> 1) + (if V.getLsbD 0 then 1 else 0) = val V := by
    have h := congrArg (AdjoinRoot.mk modulus) (poly_ushiftRight_one V)
    rw [map_add, map_mul, AdjoinRoot.mk_X, apply_ite (AdjoinRoot.mk modulus), map_one, map_zero] at h
    exact h
  have hR : (0xE1#8 ++ 0#120 : BitVec 128) =
      1#128 <<< 127 ^^^ 1#128 <<< 126 ^^^ 1#128 <<< 125 ^^^ 1#128 <<< 120 := by decide
  have hinv := x_mul_xInv
  rw [← hV, hR]
  split_ifs
  · simp only [val_xor, val_bit (n := 128) (show 127 < 128 by omega),
      val_bit (n := 128) (show 126 < 128 by omega), val_bit (n := 128) (show 125 < 128 by omega),
      val_bit (n := 128) (show 120 < 128 by omega)]
    rw [mul_add, ← mul_assoc, mul_comm xInv, hinv, xInv]
    ring
  · rw [add_zero, ← mul_assoc, mul_comm xInv, hinv, one_mul]

theorem val_gmul (X Y : BitVec 128) : val (gmul X Y) = xInv ^ 127 * (val X * val Y) := by
  have hpre : ∀ k, let r := (range k).foldl (fun ((Z, V) : BitVec 128 × BitVec 128) i =>
      (if X.getMsbD i then Z ^^^ V else Z,
        if V.getLsbD 0 then V >>> 1 ^^^ (0xE1#8 ++ 0#120 : BitVec 128) else V >>> 1)) (0#128, Y)
      val r.1 = (∑ i ∈ Finset.range k, if X.getMsbD i then xInv ^ i else 0) * val Y ∧
        val r.2 = xInv ^ k * val Y := by
    intro k
    induction k with
    | zero => simp
    | succ k ih =>
      obtain ⟨hZ, hV⟩ := ih
      rw [range_succ, foldl_append, Finset.sum_range_succ]
      simp only [foldl_cons, foldl_nil, val_halve]
      constructor
      · split_ifs
        · rw [val_xor, hZ, hV, add_mul]
        · rw [hZ, add_zero]
      · rw [hV, pow_succ']
        ring
  have hX : ∑ i ∈ Finset.range 128, (if X.getMsbD i then xInv ^ i else 0) = xInv ^ 127 * val X := by
    rw [← Finset.sum_range_reflect, val_eq_sum, Finset.mul_sum]
    refine Finset.sum_congr rfl fun i hi => ?_
    have hlt := Finset.mem_range.1 hi
    have hpow : xInv ^ 127 * x ^ i = xInv ^ (128 - 1 - i) := by
      rw [show 127 = 128 - 1 - i + i by omega, pow_add, mul_assoc, xInv_pow_mul, mul_one]
    rw [BitVec.getMsbD_eq_getLsbD, show 128 - 1 - (128 - 1 - i) = i by omega, mul_ite, hpow, mul_zero]
    simp [show 128 - 1 - i < 128 by omega]
  rw [gmul, (hpre 128).1, hX]
  ring

namespace GhashState

variable (h : Block) (y : BitVec 128)

theorem val_hPowers (i : Fin 8) : val ((GhashKey.new h).hPowers.get i) =
    x * val (bits h) * (xInv ^ 127 * val (bits h)) ^ i.val := by
  have hpow : ∀ k, val ((polyvalMul · (mulx (bits h)))^[k] (mulx (bits h))) =
      x * val (bits h) * (xInv ^ 127 * val (bits h)) ^ k := by
    intro k
    induction k with
    | zero => simp [val_mulx]
    | succ k ih =>
      rw [Function.iterate_succ_apply', val_polyvalMul, ih, val_mulx, pow_succ xInv 127]
      linear_combination (xInv ^ 127 * val (bits h)) ^ k * x * val (bits h) ^ 2 * xInv ^ 127 *
        x_mul_xInv
  simp only [GhashKey.new, loadu_reverse]
  rw [Vector.get_eq_getElem, Vector.getElem_ofFn]
  exact hpow i.val

theorem absorbOne_eq (blk : Block) :
    absorbOne ⟨.new h, y⟩ blk = ⟨.new h, gmul (y ^^^ bits blk) (bits h)⟩ := by
  have hy : val (polyvalMul (y ^^^ bits blk) ((GhashKey.new h).hPowers.get 0)) =
      val (gmul (y ^^^ bits blk) (bits h)) := by
    rw [val_polyvalMul, val_gmul, val_hPowers]
    simp only [Fin.val_zero, pow_zero, mul_one]
    linear_combination xInv ^ 127 * val (y ^^^ bits blk) * val (bits h) * x_mul_xInv
  rw [absorbOne, loadu_reverse, val_injective hy]

theorem foldl_absorbOne (cs : List (List UInt8)) :
    cs.foldl (fun g b => g.absorbOne (padBlock b)) (mk (.new h) y) =
      mk (.new h) ((cs.map fun b => bits (padBlock b)).foldl (fun Y X => gmul (Y ^^^ X) (bits h)) y) := by
  induction cs generalizing y with
  | nil => rfl
  | cons c cs ih => rw [foldl_cons, absorbOne_eq, ih, map_cons, foldl_cons]

theorem value_foldl {ι : Type} (f g : ι → BitVec 128) (l : List ι) (acc : Acc) :
    (l.foldl (fun acc i => karatsubaAccumulate acc (f i) (g i)) acc).value =
      acc.value + (l.map fun i => val (f i) * val (g i)).sum := by
  induction l generalizing acc with
  | nil => simp
  | cons i l ih =>
    rw [foldl_cons, ih, value_karatsubaAccumulate, map_cons, sum_cons, add_assoc]

theorem padBlock_take (l : List UInt8) : padBlock (l.take blockLen) = padBlock l := by
  ext i hi
  simp [padBlock, blockLen, getD_eq_getElem?_getD]

theorem absorb8_eq {chunk : List UInt8} (hlen : chunk.length = blockLen * 8) :
    absorb8 ⟨.new h, y⟩ chunk =
      (chunksExact blockLen chunk).foldl (fun g b => g.absorbOne (padBlock b)) ⟨.new h, y⟩ := by
  have hchunks : chunksExact blockLen chunk = pieces blockLen 8 chunk := by
    rw [chunksExact, hlen]
    rfl
  have hmul : ∀ (a : AdjoinRoot modulus) (i : Fin 8),
      xInv ^ 128 * (a * val ((GhashKey.new h).hPowers.get i)) =
        a * (xInv ^ 127 * val (bits h)) ^ (i.val + 1) := by
    intro a i
    rw [val_hPowers]
    linear_combination a * (xInv ^ 127 * val (bits h)) ^ i.val * xInv ^ 127 * val (bits h) *
      x_mul_xInv
  rw [hchunks, foldl_absorbOne, absorb8]
  congr 1
  apply val_injective
  rw [val_accReduce, value_foldl, value_accZero, ← Fin.sum_univ_def, zero_add, Finset.mul_sum,
    Fin.sum_univ_eight]
  simp only [hmul, loadu_reverse, pieces, map_cons, map_nil, foldl_cons,
    foldl_nil, padBlock_take, drop_drop, val_gmul, val_xor]
  simp only [↓reduceIte, blockLen, Fin.isValue, Fin.coe_ofNat_eq_mod, Nat.zero_mod, mul_zero,
    drop_zero, val_xor, Fin.rev, zero_add, Nat.add_one_sub_one, Fin.reduceFinMk, Nat.mod_succ,
    one_ne_zero, Nat.one_mod, mul_one, Nat.reduceAdd, Nat.reduceSub, Nat.reduceMod, Fin.ext_iff,
    OfNat.ofNat_ne_zero, Nat.reduceMul, Fin.mk_one, tsub_self, Fin.zero_eta]
  ring

theorem foldl_absorb8 {cs : List (List UInt8)} (hlen : ∀ c ∈ cs, c.length = blockLen * 8) :
    cs.foldl absorb8 ⟨.new h, y⟩ = (cs.flatMap (chunksExact blockLen)).foldl
      (fun g b => g.absorbOne (padBlock b)) ⟨.new h, y⟩ := by
  induction cs generalizing y with
  | nil => rw [flatMap_nil, foldl_nil, foldl_nil]
  | cons c cs ih =>
    rw [foldl_cons, absorb8_eq h y (hlen c mem_cons_self), flatMap_cons,
      foldl_append, foldl_absorbOne, ih _ fun d hd => hlen d (mem_cons_of_mem c hd)]

theorem absorbPaddedSlice_eq (s : List UInt8) : absorbPaddedSlice ⟨.new h, y⟩ s =
    ⟨.new h, (blocks s).foldl (fun Y X => gmul (Y ^^^ X) (bits h)) y⟩ := by
  unfold absorbPaddedSlice blocks
  dsimp only
  rw [map_append, foldl_append, foldl_absorbOne]
  split_ifs
  · rfl
  · rw [absorbPartial, absorbOne_eq]
    rfl

theorem absorbText_eq (s : List UInt8) :
    AesGcm.absorbText ⟨.new h, y⟩ s = absorbPaddedSlice ⟨.new h, y⟩ s := by
  obtain ⟨hchunks, hrest⟩ := chunksExact_mul (show 0 < blockLen by decide) AesGcm.chunkBlocks s
  have hbatch := foldl_absorb8 h y fun c (hc : c ∈ chunksExact AesGcm.chunkLen s) =>
    length_of_mem_chunksExact hc
  unfold AesGcm.absorbText absorbPaddedSlice
  dsimp only
  rw [hbatch, hchunks, hrest, foldl_append, AesGcm.chunkLen]

end GhashState

open GhashState

/-- **GHASH**: every way to absorb a string, the batch included, gives the standard's hash. -/
theorem ghash_exact (h : Block) :
    (∀ (y : BitVec 128) (chunk : Vector UInt8 128),
      absorb8 ⟨.new h, y⟩ chunk.toList = (chunksExact blockLen chunk.toList).foldl
        (fun g b => g.absorbOne (padBlock b)) ⟨.new h, y⟩) ∧
    ∀ s : List UInt8,
      ((GhashKey.new h).start.absorbPaddedSlice s).finalize = octets (ghash (bits h) (blocks s)) ∧
      (AesGcm.absorbText (GhashKey.new h).start s).finalize =
        octets (ghash (bits h) (blocks s)) := by
  refine ⟨fun y chunk => absorb8_eq h y (by simp [blockLen]), fun s => ?_⟩
  rw [GhashKey.start, absorbText_eq, absorbPaddedSlice_eq, finalize, storeu_reverse]
  exact ⟨rfl, rfl⟩

end Waitless.Ghash

namespace Waitless.AesGcm

open Ghash Chunks StreamCipher
open List hiding Vector

/-- The octet of the field `k` that `j` more follow. -/
def digit (k j : ℕ) : UInt8 := UInt8.ofNat (k >>> (8 * j))

/-- The counter block `IV || [k]₃₂` of a 96-bit nonce. -/
def counterBlock (nonce : Nonce) (k : ℕ) : Block :=
  Vector.ofFn fun i => if h : i.val < 12 then nonce.get ⟨i.val, h⟩ else digit k (15 - i.val)

/-- The block `[8a]₆₄ || [8c]₆₄`. -/
def lengths (a c : ℕ) : Block :=
  Vector.ofFn fun i => if i.val < 8 then digit (8 * a) (7 - i.val) else digit (8 * c) (15 - i.val)

section gcm

variable (F : Block → Block) (nonce : Nonce) (aad text : Bytes)

/-- GCTR from counter `2` on. -/
def gctr : Bytes :=
  text.mapIdx fun i b => b ^^^ (F (counterBlock nonce (2 + i / 16))).toList.getD (i % 16) 0

def gcmTag : Tag :=
  xorBlock (octets (ghash (bits (F (Vector.replicate 16 0)))
    (blocks aad ++ blocks text ++ [bits (lengths aad.length text.length)])))
    (F (counterBlock nonce 1))

theorem lenBlock_eq (a c : ℕ) : lenBlock a c = lengths a c := by
  have hbe : ∀ n, beBytes64 (UInt64.ofNat n * 8) =
      [7, 6, 5, 4, 3, 2, 1, 0].map (digit (8 * n)) := by
    intro n
    simp [beBytes64, digit, ← UInt8.toNat_inj, Nat.shiftRight_eq_div_pow]
    omega
  ext i hi
  rw [lenBlock, hbe, hbe]
  interval_cases i <;> rfl

theorem incrementBe32_counterBlock (k : ℕ) :
    incrementBe32 (counterBlock nonce k) = counterBlock nonce (k + 1) := by
  have hfield : (digit k 3).toUInt32 <<< 24 ||| (digit k 2).toUInt32 <<< 16 |||
      (digit k 1).toUInt32 <<< 8 ||| (digit k 0).toUInt32 = UInt32.ofNat k := by
    apply UInt32.eq_of_toBitVec_eq
    apply BitVec.eq_of_getLsbD_eq
    intro i hi
    have hbit : ∀ j m, (digit k j).toBitVec.getLsbD m =
        (decide (m < 8) && k.testBit (8 * j + m)) := by
      intro j m
      rw [digit, UInt8.toBitVec_ofNat', BitVec.getLsbD_ofNat, Nat.testBit_shiftRight]
    have hbyte : ∀ m, (!decide (i < m) && (decide (i - m < 8) && k.testBit (m + (i - m)))) =
        (decide (m ≤ i ∧ i < 8 + m) && k.testBit i) := by
      intro m
      by_cases h : i < m
      · simp [h, not_le.2 h]
      · rw [Nat.add_sub_cancel' (by omega)]
        simp [h, not_lt.1 h, Nat.sub_lt_iff_lt_add (not_lt.1 h)]
    rw [UInt32.toBitVec_ofNat', BitVec.getLsbD_ofNat]
    simp [hi, hbit, hbyte]
    cases k.testBit i
    · simp
    · simp
      omega
  have hget : ∀ (i : Fin 16) (j : ℕ), i.val + j = 15 → j < 4 →
      (counterBlock nonce k).get i = digit k j := by
    intro i j hij hj
    simp [counterBlock, Vector.get_eq_getElem, show ¬ i.val < 12 by omega, show 15 - i.val = j by omega]
  unfold incrementBe32
  rw [hget 12 3 rfl (by omega), hget 13 2 rfl (by omega), hget 14 1 rfl (by omega),
    hget 15 0 rfl (by omega), hfield]
  ext i hi
  by_cases h : i < 12
  · simp [counterBlock, h, show 15 ≠ i by omega, show 14 ≠ i by omega,
      show 13 ≠ i by omega, show 12 ≠ i by omega]
  · interval_cases i <;> simp [counterBlock, digit, Nat.shiftRight_eq_div_pow] <;> omega

theorem iterate_incrementBe32 (k n : ℕ) :
    incrementBe32^[n] (counterBlock nonce k) = counterBlock nonce (k + n) := by
  induction n with
  | zero => rfl
  | succ n ih => rw [Function.iterate_succ_apply', ih, incrementBe32_counterBlock, Nat.add_assoc]

theorem j0_eq : j0 nonce = counterBlock nonce 1 := by
  ext i hi
  interval_cases i <;> rfl

end gcm

variable (E : Key → Block → Block) (key : Key) (nonce : Nonce) (aad : Bytes)

theorem xorStream_nonceStream (text : Bytes) :
    xorStream (nonceStream E (.new E key) nonce) text = gctr (E key) nonce text := by
  unfold xorStream gctr
  congr 1
  funext i b
  rw [nonceStream, keystream, blockStream, j0_eq, incrementBe32_counterBlock, iterate_incrementBe32]
  rfl

theorem tagOf_eq (ct : Bytes) :
    tagOf E (.new E key) nonce aad ct = gcmTag (E key) nonce aad ct := by
  rw [tagOf, Aes128GcmFast.new, GhashKey.start, GhashState.absorbPaddedSlice_eq,
    GhashState.absorbText_eq, GhashState.absorbPaddedSlice_eq, GhashState.absorbOne_eq,
    GhashState.finalize, storeu_reverse, lenBlock_eq, j0_eq, gcmTag, ghash, foldl_append,
    foldl_append]
  rfl

open Aes128GcmFast

theorem foldlM_copyPart (parts : List Bytes) (pre rest : Bytes) :
    parts.foldlM copyPart (pre ++ rest, pre.length) =
      if parts.flatten.length ≤ rest.length then
        some (pre ++ parts.flatten ++ rest.drop parts.flatten.length, (pre ++ parts.flatten).length)
      else none := by
  induction parts generalizing pre rest with
  | nil => simp
  | cons src parts ih =>
    rw [foldlM_cons, copyPart]
    by_cases hempty : src.length = 0
    · rw [if_pos hempty, length_eq_zero_iff.1 hempty]
      exact ih pre rest
    rw [if_neg hempty, length_append]
    by_cases hfit : src.length ≤ rest.length
    · have h := ih (pre ++ src) (rest.drop src.length)
      rw [if_pos (by omega), take_left, ← drop_drop, drop_left]
      rw [length_append] at h
      refine h.trans ?_
      simp only [drop_drop, flatten_cons, length_drop, length_append,
        append_assoc]
      exact if_congr (by omega) rfl rfl
    · rw [if_neg (by omega), if_neg (by simp; omega)]
      rfl

/-- **GCM**: sealing, opening and sealing a chain are those of the standard. -/
theorem aes128Gcm_exact :
    (∀ pt, sealInPlace E (.new E key) nonce aad pt =
      (gctr (E key) nonce pt, gcmTag (E key) nonce aad (gctr (E key) nonce pt))) ∧
    (∀ ct tag, (openInPlace E (.new E key) nonce aad ct tag).2 = true ↔
      tag = gcmTag (E key) nonce aad ct) ∧
    (∀ pt ct tag, openInPlace E (.new E key) nonce aad ct tag = (pt, true) ↔
      sealInPlace E (.new E key) nonce aad pt = (ct, tag)) ∧
    ∀ parts dst, sealChain E (.new E key) nonce aad parts dst =
      if parts.flatten.length ≤ dst.length then
        let (ct, tag) := sealInPlace E (.new E key) nonce aad parts.flatten
        some (ct ++ dst.drop parts.flatten.length, tag)
      else none := by
  refine ⟨fun pt => ?_, fun ct tag => ?_, fun pt ct tag => ?_, fun parts dst => ?_⟩
  · rw [← tagOf_eq, ← xorStream_nonceStream]
    exact Prod.ext (sealInPlace_buffer ..) (sealInPlace_tag ..)
  · rw [openInPlace_ok, tagOf_eq, eq_comm]
  · simp only [Prod.ext_iff, openInPlace_buffer, openInPlace_ok, sealInPlace_buffer,
      sealInPlace_tag]
    constructor
    · rintro ⟨rfl, htag⟩
      simpa using htag
    · rintro ⟨rfl, htag⟩
      simpa using htag
  · have hcopy := foldlM_copyPart parts [] dst
    rw [nil_append, length_nil] at hcopy
    rw [sealChain, hcopy]
    split_ifs <;> simp

end Waitless.AesGcm
