import Mathlib

/-! # Bit vectors as polynomials over GF(2)

`poly v` is the polynomial whose coefficients are the bits of `v`. `residue f v` is the class of
`poly v` modulo `f`; below the degree of a monic `f` it determines `v` (`residue_injective`). -/

namespace BitPoly

open Polynomial

variable {n m k : ℕ}

noncomputable def poly (v : BitVec n) : (ZMod 2)[X] :=
  ∑ i ∈ Finset.range n, if v.getLsbD i then X ^ i else 0

theorem coeff_poly (v : BitVec n) (d : ℕ) : (poly v).coeff d = if v.getLsbD d then 1 else 0 := by
  have hterm : ∀ i, (if v.getLsbD i then X ^ i else 0 : (ZMod 2)[X]).coeff d =
      if d = i then (if v.getLsbD i then 1 else 0) else 0 := by
    intro i
    cases v.getLsbD i <;> simp [coeff_X_pow]
  rw [poly, finsetSum_coeff, Finset.sum_congr rfl fun i _ => hterm i, Finset.sum_ite_eq]
  by_cases hd : d < n
  · simp [hd]
  · simp [hd, BitVec.getLsbD_of_ge v d (Nat.le_of_not_lt hd)]

theorem poly_injective : Function.Injective (poly (n := n)) := by
  intro v w h
  refine BitVec.eq_of_getLsbD_eq fun i _ => ?_
  have hi := congrArg (·.coeff i) h
  simp only [coeff_poly] at hi
  split_ifs at hi <;> simp_all

@[simp] theorem poly_zero : poly 0#n = 0 := by
  ext d
  simp [coeff_poly]

@[simp] theorem poly_xor (v w : BitVec n) : poly (v ^^^ w) = poly v + poly w := by
  ext d
  rw [coeff_add, coeff_poly, coeff_poly, coeff_poly, BitVec.getLsbD_xor]
  cases v.getLsbD d <;> cases w.getLsbD d <;> decide

theorem poly_append (hi : BitVec m) (lo : BitVec n) : poly (hi ++ lo) = poly lo + X ^ n * poly hi := by
  ext d
  rw [coeff_add, coeff_X_pow_mul', coeff_poly, coeff_poly, coeff_poly, BitVec.getLsbD_append]
  by_cases h : d < n
  · simp [h]
  · simp [h, Nat.le_of_not_lt h]

theorem poly_extractLsb (v : BitVec n) (h : n ≤ k + m) :
    poly v = poly (v.extractLsb' 0 k) + X ^ k * poly (v.extractLsb' k m) := by
  ext d
  rw [coeff_add, coeff_X_pow_mul', coeff_poly, coeff_poly, coeff_poly, BitVec.getLsbD_extractLsb',
    BitVec.getLsbD_extractLsb']
  by_cases hd : d < k
  · simp [hd, Nat.not_le_of_lt hd]
  · by_cases hm : d - k < m
    · simp [hd, hm, Nat.le_of_not_lt hd]
    · simp [hd, hm, BitVec.getLsbD_of_ge v d (by omega)]

theorem poly_shiftLeft (v : BitVec n) (h : n + k ≤ m) :
    poly (v.setWidth m <<< k) = X ^ k * poly v := by
  ext d
  rw [coeff_X_pow_mul', coeff_poly, coeff_poly, BitVec.getLsbD_shiftLeft, BitVec.getLsbD_setWidth]
  by_cases hk : k ≤ d
  · by_cases hd : d - k < n
    · simp [hk, show d < m by omega, show d - k < m by omega]
    · simp [hk, BitVec.getLsbD_of_ge v (d - k) (by omega)]
  · simp [hk, Nat.lt_of_not_le hk]

theorem poly_shift_split (v : BitVec n) (h : k ≤ n) :
    poly (v <<< k) + X ^ n * poly (v >>> (n - k)) = X ^ k * poly v := by
  ext d
  rw [coeff_add, coeff_X_pow_mul', coeff_X_pow_mul', coeff_poly, coeff_poly, coeff_poly,
    BitVec.getLsbD_shiftLeft, BitVec.getLsbD_ushiftRight]
  by_cases hd : d < n
  · by_cases hk : k ≤ d <;> simp [hd, hk]
  · have hle := Nat.le_of_not_lt hd
    simp [hd, hle, h.trans hle, show n - k + (d - n) = d - k by omega]

theorem poly_one_shiftLeft (h : k < n) : poly (1#n <<< k) = X ^ k := by
  ext d
  rw [coeff_poly, coeff_X_pow, ← BitVec.twoPow_eq, BitVec.getLsbD_twoPow]
  simp [h, eq_comm]

theorem poly_ushiftRight_one (v : BitVec n) :
    X * poly (v >>> 1) + (if v.getLsbD 0 then 1 else 0) = poly v := by
  ext d
  cases d with
  | zero => cases h : v.getLsbD 0 <;> simp [coeff_poly, h]
  | succ d =>
    rw [coeff_add, coeff_X_mul, coeff_poly, coeff_poly, BitVec.getLsbD_ushiftRight, Nat.add_comm 1]
    cases v.getLsbD 0 <;> simp [coeff_one]

theorem degree_poly_lt (v : BitVec n) : (poly v).degree < n := by
  rw [degree_lt_iff_coeff_zero]
  intro d hd
  rw [coeff_poly, BitVec.getLsbD_of_ge v d hd]
  rfl

noncomputable def residue (f : (ZMod 2)[X]) (v : BitVec n) : AdjoinRoot f := AdjoinRoot.mk f (poly v)

theorem residue_injective {f : (ZMod 2)[X]} (hf : f.Monic) (hn : n ≤ f.natDegree) :
    Function.Injective (residue f (n := n)) := by
  intro v w h
  have hdvd : f ∣ poly (v ^^^ w) := by
    rw [poly_xor, ← CharTwo.sub_eq_add]
    exact AdjoinRoot.mk_eq_mk.1 h
  have hzero := eq_zero_of_dvd_of_degree_lt hdvd ((degree_poly_lt _).trans_le ?_)
  · rw [poly_xor, CharTwo.add_eq_zero] at hzero
    exact poly_injective hzero
  · rw [degree_eq_natDegree hf.ne_zero]
    exact_mod_cast hn

end BitPoly
