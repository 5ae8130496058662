import Mathlib

/-! # Serial numbers

`number base p` is the number modulo `2 ^ 32` of position `p` of a stream. The difference of two
numbers is the distance of positions less than `2 ^ 32` apart (`distance`), and its sign tells which
comes first when they are less than `2 ^ 31` apart (`neg_iff`). -/

namespace SerialNumber

def number (base : UInt32) (p : ℕ) : UInt32 := base + UInt32.ofNat p

variable {base : UInt32} {p q : ℕ}

@[simp] theorem number_zero : number base 0 = base := by
  simp [number]

theorem number_add (n : ℕ) : number base p + UInt32.ofNat n = number base (p + n) := by
  simp [number, UInt32.add_assoc]

theorem number_succ : number base p + 1 = number base (p + 1) := number_add 1

theorem toNat_sub_number :
    (number base p - number base q).toNat = (p + (2 ^ 32 - q % 2 ^ 32)) % 2 ^ 32 := by
  simp only [number, UInt32.toNat_sub, UInt32.toNat_add, UInt32.toNat_ofNat']
  have := base.toNat_lt
  omega

theorem distance (h : q ≤ p) (h' : p < q + 2 ^ 32) :
    (number base p - number base q).toNat = p - q := by
  rw [toNat_sub_number]
  omega

theorem number_inj (h : number base p = number base q) (hp : p < q + 2 ^ 32)
    (hq : q < p + 2 ^ 32) : p = q := by
  have hz : (number base p - number base q).toNat = 0 := by simp [h]
  rw [toNat_sub_number] at hz
  omega

theorem eq_number {x : UInt32} : x = number base (q + (x - number base q).toNat) := by
  have h : number base q + UInt32.ofNat (x - number base q).toNat = x := by
    rw [UInt32.ofNat_toNat, UInt32.add_comm, UInt32.sub_add_cancel]
  rw [← number_add, h]

theorem toInt_toInt32 (x : UInt32) :
    x.toInt32.toInt = if x.toNat < 2 ^ 31 then (x.toNat : Int) else x.toNat - 2 ^ 32 := by
  have h : x.toInt32.toInt = x.toBitVec.toInt := rfl
  rw [h, BitVec.toInt_eq_toNat_cond]
  simp only [UInt32.toNat_toBitVec]
  split <;> split <;> omega

/-- **Signed differences** below half the numbers. -/
theorem toInt_distance (h : q ≤ p + 2 ^ 31) (h' : p < q + 2 ^ 31) :
    (number base p - number base q).toInt32.toInt = (p : Int) - q := by
  rw [toInt_toInt32, toNat_sub_number]
  split <;> omega

theorem neg_iff (h : q ≤ p + 2 ^ 31) (h' : p < q + 2 ^ 31) :
    (number base p - number base q).toInt32 < 0 ↔ p < q := by
  rw [Int32.lt_iff_toInt_lt, toInt_distance h h', Int32.toInt_zero]
  omega

theorem neg_iff_toNat (x : UInt32) : x.toInt32 < 0 ↔ 2 ^ 31 ≤ x.toNat := by
  rw [Int32.lt_iff_toInt_lt, toInt_toInt32, Int32.toInt_zero]
  have := x.toNat_lt
  split <;> omega

def ahead (r x : UInt32) : ℤ := (x - r).toInt32.toInt

variable {r x y : UInt32}

theorem ahead_bounds (r x : UInt32) : -2 ^ 31 ≤ ahead r x ∧ ahead r x < 2 ^ 31 := by
  have := (x - r).toNat_lt
  rw [ahead, toInt_toInt32]
  split <;> omega

theorem ahead_mod (r x : UInt32) : ((x.toNat : ℤ) - r.toNat - ahead r x) % 2 ^ 32 = 0 := by
  have hx := x.toNat_lt
  have hr := r.toNat_lt
  rw [ahead, toInt_toInt32, UInt32.toNat_sub]
  split <;> omega

theorem ahead_eq {d : ℤ} (hlow : -2 ^ 31 ≤ d) (hhigh : d < 2 ^ 31)
    (hmod : ((x.toNat : ℤ) - r.toNat - d) % 2 ^ 32 = 0) : ahead r x = d := by
  have hmod' := ahead_mod r x
  have hbounds := ahead_bounds r x
  omega

@[simp] theorem ahead_self : ahead r r = 0 := ahead_eq (by omega) (by omega) (by simp)

theorem ahead_inj (h : ahead r x = ahead r y) : x = y := by
  have hx := ahead_mod r x
  have hy := ahead_mod r y
  have hx' := x.toNat_lt
  have hy' := y.toNat_lt
  rw [← UInt32.toNat_inj]
  omega

theorem ahead_of_lt (h : (x - r).toNat < 2 ^ 31) : ahead r x = (x - r).toNat := by
  rw [ahead, toInt_toInt32, if_pos h]

theorem toNat_sub_of_ahead (h : 0 ≤ ahead r x) : ((x - r).toNat : ℤ) = ahead r x := by
  have hmod := ahead_mod r x
  have hbounds := ahead_bounds r x
  have hx := x.toNat_lt
  have hr := r.toNat_lt
  rw [UInt32.toNat_sub]
  omega

theorem toNat_sub_of_behind (h : ahead r x ≤ 0) : ((r - x).toNat : ℤ) = -ahead r x := by
  have hmod := ahead_mod r x
  have hbounds := ahead_bounds r x
  have hx := x.toNat_lt
  have hr := r.toNat_lt
  rw [UInt32.toNat_sub]
  omega

theorem ahead_add (n : ℕ) (h : ahead r x + n < 2 ^ 31) :
    ahead r (x + UInt32.ofNat n) = ahead r x + n := by
  have hmod := ahead_mod r x
  have hbounds := ahead_bounds r x
  refine ahead_eq (by omega) h ?_
  rw [UInt32.toNat_add, UInt32.toNat_ofNat']
  omega

theorem ahead_advance (n : ℕ) (h : -2 ^ 31 ≤ ahead r x - n) :
    ahead (r + UInt32.ofNat n) x = ahead r x - n := by
  have hmod := ahead_mod r x
  have hbounds := ahead_bounds r x
  refine ahead_eq h (by omega) ?_
  rw [UInt32.toNat_add, UInt32.toNat_ofNat']
  omega

end SerialNumber
