import Waitless.Congestion

/-! # The cube root in 128 bits

`icbrt_u128` once more, with every operation checked: one whose result has more than 128 bits is
`none`, as are a shift that is too wide, a division by zero and a loop that does not end.
`icbrt_exact` says that none of it happens, and that the result is the cube root. -/

namespace Waitless.Cc

def u128 (n : ℕ) : Option ℕ := if n < 2 ^ 128 then some n else none

theorem u128_eq {n : ℕ} (h : n < 2 ^ 128) : u128 n = some n := if_pos h

def leadingZeros (x : ℕ) : ℕ := 128 - Nat.size x

def shlOne (n : ℕ) : Option ℕ := if n < 128 then some (2 ^ n) else none

def checkedNewton (x : ℕ) : ℕ → ℕ → Option ℕ
  | 0, _ => none
  | fuel + 1, y => do
    let twice ← u128 (2 * y)
    let square ← u128 (y * y)
    let q ← divide x square
    let sum ← u128 (twice + q)
    let next := sum / 3
    if y ≤ next then some y else checkedNewton x fuel next

def checkedRaise (x : ℕ) : ℕ → ℕ → Option ℕ
  | 0, _ => none
  | fuel + 1, y => do
    let up ← u128 (y + 1)
    if cubeLe x up then checkedRaise x fuel up else some y

/-- `icbrt_u128`; the second loop only counts down. -/
def checkedIcbrt (x : ℕ) : Option ℕ :=
  if x < 8 then some (if 0 < x then 1 else 0)
  else do
    let bits := 128 - leadingZeros x
    let y ← shlOne ((bits + 2) / 3)
    let y ← checkedNewton x y y
    checkedRaise x (x + 1) (lower x y)

def Above (x y : ℕ) : Prop := ∀ r, r ^ 3 ≤ x → r ≤ y

variable {x y : ℕ}

theorem three_mul_le_newton {r : ℕ} (hy : 0 < y) (hr : r ^ 3 ≤ x) :
    3 * r ≤ 2 * y + x / (y * y) := by
  by_cases hsmall : 3 * r ≤ 2 * y
  · exact hsmall.trans (Nat.le_add_right _ _)
  · obtain ⟨d, hd⟩ : ∃ d, 3 * r = 2 * y + d := ⟨3 * r - 2 * y, by omega⟩
    rw [hd]
    apply Nat.add_le_add_left
    rw [Nat.le_div_iff_mul_le (Nat.mul_pos hy hy)]
    apply le_trans _ hr
    -- `r ^ 3 + 2 * y ^ 3 - 3 * r * y ^ 2 = (r - y) ^ 2 * (r + 2 * y)`
    zify at hd ⊢
    have hd' : (d : ℤ) = 3 * r - 2 * y := by linarith
    have hsq : 0 ≤ ((r : ℤ) - y) ^ 2 * (r + 2 * y) := by positivity
    rw [hd']
    nlinarith [hsq]

theorem Above.newton (hy : 0 < y) : Above x ((2 * y + x / (y * y)) / 3) := by
  intro r hr
  have := three_mul_le_newton hy hr
  omega

theorem Above.div_lt (h : Above x y) (hy : 0 < y) : x / (y * y) < 8 * y := by
  rw [Nat.div_lt_iff_lt_mul (Nat.mul_pos hy hy)]
  have hx : x < (y + 1) ^ 3 := by
    by_contra hle
    have := h (y + 1) (not_lt.mp hle)
    omega
  calc x < (y + 1) ^ 3 := hx
    _ ≤ (2 * y) ^ 3 := Nat.pow_le_pow_left (by omega) 3
    _ = 8 * y * (y * y) := by ring

theorem above_start : Above x (2 ^ ((Nat.size x + 2) / 3)) := by
  intro r hr
  apply le_of_lt
  by_contra hle
  have hcube : (2 ^ ((Nat.size x + 2) / 3)) ^ 3 ≤ r ^ 3 := Nat.pow_le_pow_left (not_lt.mp hle) 3
  have hsize : 2 ^ Nat.size x ≤ (2 ^ ((Nat.size x + 2) / 3)) ^ 3 := by
    rw [← pow_mul]
    exact Nat.pow_le_pow_right (by decide) (by omega)
  have := Nat.lt_size_self x
  omega

theorem checkedNewton_spec {fuel : ℕ} (hx : 0 < x) (habove : Above x y) (hy : 0 < y)
    (htop : y ≤ 2 ^ 43) (hfuel : y ≤ fuel) :
    ∃ r, checkedNewton x fuel y = some r ∧ newton x fuel y = some r := by
  induction fuel generalizing y with
  | zero => omega
  | succ fuel ih =>
    have hsquare : y * y ≤ 2 ^ 43 * 2 ^ 43 := Nat.mul_le_mul htop htop
    have hq := habove.div_lt hy
    rw [checkedNewton, newton, u128_eq (by omega), u128_eq (by omega)]
    simp only [Option.bind_eq_bind, Option.bind_some, divide_eq (Nat.mul_pos hy hy).ne']
    rw [u128_eq (by omega), Option.bind_some]
    split_ifs with hstop
    · exact ⟨y, rfl, rfl⟩
    · have hpos : 0 < (2 * y + x / (y * y)) / 3 := Above.newton hy 1 (by omega)
      exact ih (Above.newton hy) hpos (by omega) (by omega)

theorem cubeLe_iff {c : ℕ} (hx : x < 2 ^ 128) : cubeLe x c = true ↔ c ^ 3 ≤ x := by
  have hcube : c ^ 3 = c * c * c := by ring
  have hsquare : c * c ≤ c * c * c ∨ c = 0 := by
    rcases Nat.eq_zero_or_pos c with h | h
    · exact .inr h
    · exact .inl (Nat.le_mul_of_pos_right _ h)
  simp only [cubeLe, Bool.and_eq_true, decide_eq_true_eq, hcube]
  constructor
  · exact fun h => h.2
  · intro h
    rcases hsquare with hsquare | rfl
    · omega
    · omega

theorem checkedRaise_eq {fuel : ℕ} (hx : x < 2 ^ 128) (hy : y ^ 3 ≤ x) :
    checkedRaise x fuel y = raise x fuel y := by
  induction fuel generalizing y with
  | zero => rfl
  | succ fuel ih =>
    have hself : y ≤ y ^ 3 := Nat.le_self_pow (by decide) y
    have hroom : y + 1 < 2 ^ 128 := by
      by_contra hlarge
      have : 2 ^ 127 ≤ y := by omega
      have : (2 ^ 127) ^ 3 ≤ y ^ 3 := Nat.pow_le_pow_left this 3
      have : (2 : ℕ) ^ 128 ≤ (2 ^ 127) ^ 3 := by norm_num
      omega
    rw [checkedRaise, raise, u128_eq hroom]
    simp only [Option.bind_eq_bind, Option.bind_some]
    split_ifs with hup
    · exact ih ((cubeLe_iff hx).mp hup)
    · rfl

/-- **`icbrt_u128` is the exact cube root, and no operation overflows.** -/
theorem icbrt_exact (x : ℕ) (hx : x < 2 ^ 128) :
    ∃ r, checkedIcbrt x = some r ∧ r ^ 3 ≤ x ∧ x < (r + 1) ^ 3 ∧ icbrtU128 x = some r := by
  obtain ⟨r, hr, hle, hlt⟩ := icbrtU128_spec x
  have hlow : r ^ 3 ≤ x := (cubeLe_iff hx).mp hle
  have hhigh : x < (r + 1) ^ 3 := by
    by_contra h
    rw [(cubeLe_iff hx).mpr (not_lt.mp h)] at hlt
    exact Bool.noConfusion hlt
  refine ⟨r, ?_, hlow, hhigh, hr⟩
  rw [← hr, checkedIcbrt, icbrtU128]
  by_cases hsmall : x < 8
  · rw [if_pos hsmall, if_pos hsmall]
  · have hsize : Nat.size x ≤ 128 := Nat.size_le.mpr hx
    have hbits : 128 - leadingZeros x = Nat.size x := by
      unfold leadingZeros
      omega
    have hshift : (Nat.size x + 2) / 3 ≤ 43 := by omega
    have hstart : shlOne ((Nat.size x + 2) / 3) = some (2 ^ ((Nat.size x + 2) / 3)) :=
      if_pos (by omega)
    rw [if_neg hsmall, if_neg hsmall, hbits]
    obtain ⟨y, hchecked, hplain⟩ := checkedNewton_spec (by omega) above_start
      (Nat.two_pow_pos ((Nat.size x + 2) / 3)) (Nat.pow_le_pow_right (by decide) hshift) le_rfl
    simp only [hstart, Option.bind_eq_bind, Option.bind_some, hchecked, hplain]
    exact checkedRaise_eq hx ((cubeLe_iff hx).mp (lower_spec x y))

/-- Near the top of the range, where the next cube is out of it. -/
theorem icbrt_exact_top :
    ∃ r, checkedIcbrt (2 ^ 128 - 1) = some r ∧ r ^ 3 ≤ 2 ^ 128 - 1 ∧ 2 ^ 128 - 1 < (r + 1) ^ 3 ∧
      icbrtU128 (2 ^ 128 - 1) = some r :=
  icbrt_exact (2 ^ 128 - 1) (by decide)

end Waitless.Cc
