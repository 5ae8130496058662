import Waitless.HpackSpec

/-! # Prefixed integers

HPACK and QPACK have one format for integers: the number stands in the low bits of a first byte, or
fills them and has the rest behind it in groups of seven bits, lowest first. The readers shift the
tenth group by 63 within 64 bits, where all its bits but the lowest are lost unnoticed (`readInt_iff`
says what is left). So they agree with the RFC exactly where nothing is lost or what is left is still
too large (`prefixed_ints`). -/

namespace Waitless

open Waitless.AesGcm List Nat

namespace Http2

def decodeGroups : Bytes → Option (ℕ × ℕ)
  | [] => none
  | b :: bs =>
    if b &&& 0x80 = 0 then some ((b &&& 0x7f).toNat, 1)
    else (decodeGroups bs).map fun (v, n) => ((b &&& 0x7f).toNat + 128 * v, n + 1)

def decodeInt (nbits : ℕ) : Bytes → Option (ℕ × ℕ)
  | [] => none
  | b :: bs =>
    let low := b.toNat % 2 ^ nbits
    if low < 2 ^ nbits - 1 then some (low, 1)
    else (decodeGroups bs).map fun (v, n) => (2 ^ nbits - 1 + v, n + 1)

/-- A tenth group has only the lowest bit, or what is left without the others is too large. -/
def TenthFits (nbits : ℕ) (input : Bytes) : Prop :=
  ∀ v b, decodeInt nbits input = some (v, 11) → input[10]? = some b →
    b ≤ 1 ∨ 2 ^ 64 + 2 ^ 64 * (b.toNat / 2) ≤ v

/-- With the bytes taken; too large a number is an error. -/
def ReadsInt {ε : Type} (nbits : ℕ) (input : Bytes) (res : Except ε (ℕ × ℕ)) : Prop :=
  (∀ v c, res = .ok (v, c) → decodeInt nbits input = some (v, c)) ∧
    ∀ v c, decodeInt nbits input = some (v, c) → 2 ^ 64 ≤ v → ∃ e, res = .error e

def writeMore (v : ℕ) : Bytes :=
  if 128 ≤ v then (UInt8.ofNat v &&& 0x7f ||| 0x80) :: writeMore (v >>> 7) else [UInt8.ofNat v]
termination_by v
decreasing_by
  rw [Nat.shiftRight_eq_div_pow]
  omega

/-- The high bits of the first byte are the caller's. -/
def writeInt (value nbits : ℕ) (prefixByte : UInt8) : Bytes :=
  let mask := 2 ^ nbits - 1
  if value < mask then [prefixByte ||| UInt8.ofNat value]
  else (prefixByte ||| UInt8.ofNat mask) :: writeMore (value - mask)

end Http2

namespace Http3

/-- Why a field section is refused. -/
inductive QpackError where
  | truncated
  | badPrefix
  | badInstruction
  | staticIndexOutOfRange
  | huffmanFailed
  | utf8 (pos : ℕ)

def readPrefixedMore : Bytes → ℕ → ℕ → ℕ → Except QpackError (ℕ × ℕ)
  | [], _, _, _ => .error .truncated
  | b :: rest, value, p, shift =>
    let value' := value + ((b &&& 0x7f).toNat <<< shift) % 2 ^ 64
    if 2 ^ 64 ≤ value' then .error .badInstruction
    else if b &&& 0x80 = 0 then .ok (value', p + 1)
    else if 63 < shift + 7 then .error .badInstruction
    else readPrefixedMore rest value' (p + 1) (shift + 7)

def readPrefixedInt (buf : Bytes) (nbits : ℕ) : Except QpackError (ℕ × ℕ) :=
  match buf with
  | [] => .error .truncated
  | b :: rest =>
    let mask := 2 ^ nbits - 1
    let v0 := b.toNat &&& mask
    if v0 < mask then .ok (v0, 1) else readPrefixedMore rest v0 1 0

def writePrefixedInt (value nbits : ℕ) (prefixByte : UInt8) : Bytes :=
  Http2.writeInt value nbits prefixByte

end Http3

namespace Http2

variable {input : Bytes} {nbits v c : ℕ}

theorem group_lt (b : UInt8) : (b &&& 0x7f).toNat < 128 := by
  rw [UInt8.toNat_and]
  exact lt_succ_of_le and_le_right

theorem group_of_last {b : UInt8} (h : b &&& 0x80 = 0) : (b &&& 0x7f).toNat = b.toNat := by
  have hall : ∀ n < 256, UInt8.ofNat n &&& 0x80 = 0 → (UInt8.ofNat n &&& 0x7f).toNat = n := by
    decide +kernel
  have hb := hall b.toNat b.toNat_lt
  rw [UInt8.ofNat_toNat] at hb
  exact hb h

/-- What a group has outside the 64 bits, `k` groups behind the first. -/
def lostBits (k : ℕ) (b : UInt8) : ℕ := if k = 9 then b.toNat / 2 else 0

theorem shifted_group {k : ℕ} (hk : k < 10) {b : UInt8} (hend : b &&& 0x80 = 0) :
    (b &&& 0x7f).toNat * 2 ^ (7 * k) % 2 ^ 64 + 2 ^ 64 * lostBits k b =
      (b &&& 0x7f).toNat * 2 ^ (7 * k) := by
  have hlt := group_lt b
  rw [group_of_last hend] at hlt ⊢
  unfold lostBits
  interval_cases k <;> simp <;> omega

/-- The last group of those decoded weighs no more than the number. -/
theorem last_group_le {bs : Bytes} {w n : ℕ} (h : decodeGroups bs = some (w, n)) :
    ∃ b, bs[n - 1]? = some b ∧ 0 < n ∧ b.toNat * 128 ^ (n - 1) ≤ w := by
  induction bs generalizing w n with
  | nil => cases h
  | cons b bs ih =>
    rw [decodeGroups] at h
    split_ifs at h with hend
    · cases h
      exact ⟨b, rfl, by decide, by rw [group_of_last hend]; omega⟩
    · obtain ⟨⟨v, m⟩, hdec, heq⟩ := Option.map_eq_some_iff.mp h
      cases heq
      obtain ⟨b', hb', hm, hle⟩ := ih hdec
      obtain ⟨m, rfl⟩ := exists_eq_add_one_of_ne_zero hm.ne'
      refine ⟨b', hb', by omega, ?_⟩
      calc b'.toNat * 128 ^ (m + 1) = 128 * (b'.toNat * 128 ^ m) := by ring
        _ ≤ (b &&& 0x7f).toNat + 128 * v := by
          have : b'.toNat * 128 ^ m ≤ v := hle
          omega

theorem decodeGroups_succ {bs : Bytes} {w n : ℕ} (h : decodeGroups bs = some (w, n)) : ∃ m, n = m + 1 := by
  obtain ⟨-, -, hpos, -⟩ := last_group_le h
  exact exists_eq_add_one_of_ne_zero hpos.ne'

theorem decodeGroups_more {b : UInt8} {bs : Bytes} {w n : ℕ} (hmore : ¬b &&& 0x80 = 0) :
    decodeGroups (b :: bs) = some (w, n) ↔ ∃ u m,
      decodeGroups bs = some (u, m + 1) ∧ w = (b &&& 0x7f).toNat + 128 * u ∧ n = m + 2 := by
  rw [decodeGroups, if_neg hmore]
  constructor
  · intro h
    obtain ⟨⟨u, m⟩, hu, heq⟩ := Option.map_eq_some_iff.mp h
    cases heq
    obtain ⟨m, rfl⟩ := decodeGroups_succ hu
    exact ⟨u, m, hu, rfl, rfl⟩
  · rintro ⟨u, m, hu, rfl, rfl⟩
    rw [hu]
    rfl

/-- What is lost of the last group is part of the number. -/
theorem lostBits_le {bs : Bytes} {w n k : ℕ} {b : UInt8} (h : decodeGroups bs = some (w, n))
    (hb : bs[n - 1]? = some b) : 2 ^ 64 * lostBits (n - 1 + k) b ≤ w * 2 ^ (7 * k) := by
  obtain ⟨b', hb', -, hle⟩ := last_group_le h
  cases hb.symm.trans hb'
  unfold lostBits
  split_ifs with hnine
  · calc 2 ^ 64 * (b.toNat / 2) ≤ b.toNat * 2 ^ 63 := by omega
      _ = b.toNat * 128 ^ (n - 1) * 2 ^ (7 * k) := by
        rw [Nat.mul_assoc, show (128 : ℕ) = 2 ^ 7 by rfl, ← pow_mul, ← pow_add, ← mul_add, hnine]
      _ ≤ w * 2 ^ (7 * k) := Nat.mul_le_mul_right _ hle
  · exact Nat.zero_le _

/-- The number read is the one decoded, less the bits lost of a tenth group. -/
theorem readMore_iff {bs : Bytes} {value p k : ℕ} (hk : k < 10) :
    readMore bs value p (7 * k) = .ok (v, c) ↔ ∃ w n b, decodeGroups bs = some (w, n) ∧
      n + k ≤ 10 ∧ bs[n - 1]? = some b ∧ v < 2 ^ 64 ∧ c = p + n ∧
        v + 2 ^ 64 * lostBits (n - 1 + k) b = value + w * 2 ^ (7 * k) := by
  induction bs generalizing value p k with
  | nil => simp [readMore, decodeGroups]
  | cons b bs ih =>
    rw [readMore, shiftLeft_eq]
    by_cases hend : b &&& 0x80 = 0
    · have hshift := shifted_group hk hend
      have hdec : decodeGroups (b :: bs) = some ((b &&& 0x7f).toNat, 1) := by
        rw [decodeGroups, if_pos hend]
      rw [if_pos hend, hdec]
      constructor
      · intro h
        split_ifs at h with hover
        cases h
        refine ⟨_, 1, b, rfl, by omega, rfl, not_le.mp hover, rfl, ?_⟩
        rw [Nat.sub_self, Nat.zero_add]
        omega
      · rintro ⟨w, n, b', hw, -, hb', hv, rfl, hval⟩
        cases hw
        cases hb'
        rw [Nat.sub_self, Nat.zero_add] at hval
        rw [if_neg (by omega)]
        congr 2
        omega
    · rw [if_neg hend]
      by_cases hnine : k = 9
      · -- the tenth group says that there is an eleventh
        subst hnine
        rw [if_pos (show 63 < 7 * 9 + 7 by decide), ite_self]
        simp only [reduceCtorEq, false_iff]
        rintro ⟨w, n, b', hw, hn, -⟩
        obtain ⟨u, m, -, -, rfl⟩ := (decodeGroups_more hend).mp hw
        omega
      have hlt := group_lt b
      have hsmall : (b &&& 0x7f).toNat * 2 ^ (7 * k) < 2 ^ 64 :=
        calc (b &&& 0x7f).toNat * 2 ^ (7 * k) ≤ 127 * 2 ^ 56 :=
              Nat.mul_le_mul (by omega) (Nat.pow_le_pow_right (by decide) (by omega))
          _ < 2 ^ 64 := by decide
      have hsum (u : ℕ) : value + ((b &&& 0x7f).toNat + 128 * u) * 2 ^ (7 * k) =
          value + (b &&& 0x7f).toNat * 2 ^ (7 * k) + u * 2 ^ (7 * (k + 1)) := by ring
      have hnext := @ih (value + (b &&& 0x7f).toNat * 2 ^ (7 * k)) (p + 1) (k + 1) (by omega)
      have hplace (m : ℕ) : m + 1 - 1 + (k + 1) = m + 2 - 1 + k := by omega
      rw [mod_eq_of_lt hsmall, if_neg (show ¬63 < 7 * k + 7 by omega)]
      constructor
      · intro h
        split_ifs at h with hover
        obtain ⟨u, n, b', hu, hn, hb', hv, rfl, hval⟩ := hnext.mp h
        obtain ⟨m, rfl⟩ := decodeGroups_succ hu
        refine ⟨_, m + 2, b', (decodeGroups_more hend).mpr ⟨u, m, hu, rfl, rfl⟩, by omega, hb', hv,
          by omega, ?_⟩
        rw [hsum, ← hval, hplace]
      · rintro ⟨w, n, b', hw, hn, hb', hv, rfl, hval⟩
        obtain ⟨u, m, hu, rfl, rfl⟩ := (decodeGroups_more hend).mp hw
        rw [hsum, ← hplace] at hval
        have hlost := lostBits_le (k := k + 1) hu hb'
        rw [if_neg (by omega)]
        exact hnext.mpr ⟨u, m + 1, b', hu, by omega, hb', hv, by omega, hval⟩

theorem readInt_iff : readInt input nbits = .ok (v, c) ↔ ∃ w b,
    decodeInt nbits input = some (w, c) ∧ c ≤ 11 ∧ input[c - 1]? = some b ∧ v < 2 ^ 64 ∧
      v + 2 ^ 64 * lostBits (c - 2) b = w := by
  cases input with
  | nil => simp [readInt, decodeInt]
  | cons b bs =>
    rw [readInt, and_two_pow_sub_one_eq_mod, decodeInt]
    split_ifs with hlow
    · have := b.toNat_lt
      have := mod_le b.toNat (2 ^ nbits)
      constructor
      · intro h
        cases h
        exact ⟨_, b, rfl, by decide, rfl, by omega, rfl⟩
      · rintro ⟨w, b', hw, -, -, -, rfl⟩
        obtain ⟨hv, rfl⟩ := Prod.mk.inj (Option.some.inj hw)
        rw [hv]
        rfl
    · rw [← Nat.mul_zero 7, readMore_iff (by decide)]
      constructor
      · rintro ⟨w, n, b', hw, hle, hb', hv, rfl, hval⟩
        obtain ⟨m, rfl⟩ := decodeGroups_succ hw
        refine ⟨2 ^ nbits - 1 + w, b', ?_, by omega, ?_, hv, ?_⟩
        · rw [hw, Nat.add_comm 1]
          rfl
        · rwa [show 1 + (m + 1) - 1 = m + 1 by omega]
        · rw [show 1 + (m + 1) - 2 = m by omega]
          simpa using hval
      · rintro ⟨w, b', hw, hle, hb', hv, rfl⟩
        obtain ⟨⟨u, n⟩, hu, heq⟩ := Option.map_eq_some_iff.mp hw
        obtain ⟨hval, rfl⟩ := Prod.mk.inj heq
        obtain ⟨m, rfl⟩ := decodeGroups_succ hu
        refine ⟨u, m + 1, b', hu, by omega, hb', hv, by omega, ?_⟩
        simpa using hval.symm

theorem lost_le_of_eleven {w : ℕ} {b : UInt8} (h : decodeInt nbits input = some (w, 11))
    (hb : input[10]? = some b) : 2 ^ 64 * (b.toNat / 2) ≤ w := by
  cases input with
  | nil => cases h
  | cons a bs =>
    rw [decodeInt] at h
    split_ifs at h with hlow
    · cases h
    · obtain ⟨⟨u, n⟩, hu, heq⟩ := Option.map_eq_some_iff.mp h
      cases heq
      have hle := lostBits_le (k := 0) hu hb
      rw [lostBits, if_pos rfl] at hle
      omega

/-- The readers agree with the RFC exactly where a tenth group loses nothing that matters. -/
theorem readsInt_iff {ε : Type} {res : Except ε (ℕ × ℕ)}
    (hres : ∀ x, res = .ok x ↔ readInt input nbits = .ok x) :
    ReadsInt nbits input res ↔ TenthFits nbits input := by
  constructor
  · intro hreads w b hw hb
    by_contra hnot
    obtain ⟨hone, hbig⟩ := not_or.mp hnot
    have htwo : 1 < b.toNat := not_le.mp fun h => hone (UInt8.le_iff_toNat_le.mpr h)
    have hlost := lost_le_of_eleven hw hb
    have hread : readInt input nbits = .ok (w - 2 ^ 64 * (b.toNat / 2), 11) := by
      refine readInt_iff.mpr ⟨w, b, hw, le_rfl, hb, by omega, ?_⟩
      rw [lostBits, if_pos rfl]
      omega
    have hdec := hreads.1 _ _ ((hres _).mpr hread)
    have := (Prod.mk.inj (Option.some.inj (hw.symm.trans hdec))).1
    omega
  · intro hfits
    have hsound {v c : ℕ} (h : res = .ok (v, c)) :
        v < 2 ^ 64 ∧ decodeInt nbits input = some (v, c) := by
      obtain ⟨w, b, hw, -, hb, hv, hval⟩ := readInt_iff.mp ((hres _).mp h)
      suffices hlost : lostBits (c - 2) b = 0 by
        rw [hlost, Nat.mul_zero, Nat.add_zero] at hval
        exact ⟨hv, hval ▸ hw⟩
      unfold lostBits at hval ⊢
      split_ifs at hval ⊢ with hnine
      · obtain rfl : c = 11 := by omega
        rcases hfits w b hw hb with hone | hbig
        · have := UInt8.le_iff_toNat_le.mp hone
          exact Nat.div_eq_of_lt (lt_succ_of_le this)
        · omega
      · rfl
    refine ⟨fun v c h => (hsound h).2, fun v c hdec hv => ?_⟩
    cases hr : res with
    | error e => exact ⟨e, rfl⟩
    | ok x =>
      obtain ⟨hlt, hdec'⟩ := hsound hr
      cases hdec.symm.trans hdec'
      omega

theorem written_group (v : ℕ) :
    UInt8.ofNat v &&& 0x7f ||| 0x80 = UInt8.ofNat (128 + v % 128) := by
  have hbyte : ∀ b < 256, UInt8.ofNat b &&& 0x7f ||| 0x80 = UInt8.ofNat (128 + b % 128) := by
    decide +kernel
  have h := hbyte (v % 2 ^ 8) (mod_lt _ (by decide))
  rwa [UInt8.ofNat_mod_size, mod_mod_of_dvd _ (by decide)] at h

theorem readMore_writeMore {value p shift : ℕ} (rest : Bytes) (h : value + v * 2 ^ shift < 2 ^ 64) :
    readMore (writeMore v ++ rest) value p shift =
      .ok (value + v * 2 ^ shift, p + (writeMore v).length) := by
  induction v using Nat.strongRecOn generalizing value p shift with
  | ind v ih =>
    rw [writeMore]
    split_ifs with hv
    · obtain ⟨hlow, htop⟩ := group_more (v % 128) (mod_lt _ (by decide))
      have hdiv : v >>> 7 = v / 128 := shiftRight_eq_div_pow v 7
      have hsplit : v * 2 ^ shift = v % 128 * 2 ^ shift + v / 128 * 2 ^ (shift + 7) := by
        conv_lhs => rw [← mod_add_div v 128]
        ring
      have hshift : 2 ^ (shift + 7) < 2 ^ 64 :=
        calc 2 ^ (shift + 7) = 128 * 2 ^ shift := by ring
          _ ≤ v * 2 ^ shift := mul_le_mul_right _ hv
          _ < 2 ^ 64 := by omega
      have hlt := (Nat.pow_lt_pow_iff_right (by decide)).mp hshift
      have hnext : readMore (writeMore (v / 128) ++ rest) (value + v % 128 * 2 ^ shift) (p + 1)
          (shift + 7) = _ := ih (v / 128) (by omega) (by omega)
      rw [cons_append, readMore, written_group, hlow, hdiv, shiftLeft_eq,
        mod_eq_of_lt (by omega), if_neg (by omega), if_neg htop, if_neg (by omega), hnext,
        hsplit, length_cons]
      congr 2 <;> omega
    · obtain ⟨hlow, htop⟩ := group_last v (by omega)
      rw [singleton_append, readMore, hlow, shiftLeft_eq, mod_eq_of_lt (by omega),
        if_neg (by omega), if_pos htop]
      rfl

theorem first_byte {prefixByte : UInt8} {x : ℕ} (hn : nbits ≤ 8)
    (hfree : prefixByte.toNat % 2 ^ nbits = 0) (hx : x < 2 ^ nbits) :
    (prefixByte ||| UInt8.ofNat x).toNat &&& (2 ^ nbits - 1) = x := by
  have hpow : 2 ^ nbits ≤ 256 := Nat.pow_le_pow_right (n := 2) (by decide) hn
  rw [and_two_pow_sub_one_eq_mod, UInt8.toNat_or, UInt8.toNat_ofNat_of_lt' (hx.trans_le hpow),
    or_mod_two_pow, hfree, zero_or, mod_eq_of_lt hx]

theorem readInt_writeInt {prefixByte : UInt8} (hn : nbits ≤ 8)
    (hfree : prefixByte.toNat % 2 ^ nbits = 0) (hv : v < 2 ^ 64) (rest : Bytes) :
    readInt (writeInt v nbits prefixByte ++ rest) nbits =
      .ok (v, (writeInt v nbits prefixByte).length) := by
  have hpos := Nat.two_pow_pos nbits
  rw [writeInt]
  split_ifs with hlt
  · rw [singleton_append, readInt, first_byte hn hfree (by omega), if_pos hlt]
    rfl
  · have hmore : readMore (writeMore (v - (2 ^ nbits - 1)) ++ rest) (2 ^ nbits - 1) 1 0 = _ :=
      readMore_writeMore rest (by omega)
    rw [cons_append, readInt, first_byte hn hfree (by omega), if_neg (lt_irrefl _), hmore,
      length_cons]
    congr 2 <;> omega

theorem readPrefixedMore_ok {bs : Bytes} {value p shift : ℕ} {x : ℕ × ℕ} :
    Http3.readPrefixedMore bs value p shift = .ok x ↔ readMore bs value p shift = .ok x := by
  induction bs generalizing value p shift with
  | nil => simp [Http3.readPrefixedMore, readMore]
  | cons b bs ih =>
    rw [Http3.readPrefixedMore, readMore]
    split_ifs
    · simp
    · rw [Except.ok.injEq, Except.ok.injEq]
    · simp
    · exact ih

/-- The readers differ in their errors only. -/
theorem readPrefixedInt_ok {x : ℕ × ℕ} :
    Http3.readPrefixedInt input nbits = .ok x ↔ readInt input nbits = .ok x := by
  cases input with
  | nil => simp [Http3.readPrefixedInt, readInt]
  | cons b bs =>
    have hle : b.toNat &&& (2 ^ nbits - 1) ≤ 2 ^ nbits - 1 := and_le_right
    rw [Http3.readPrefixedInt, readInt]
    split_ifs with hlt
    · rw [Except.ok.injEq, Except.ok.injEq]
    · rw [le_antisymm hle (not_lt.mp hlt)]
      exact readPrefixedMore_ok

/-- **Prefixed integers** are read back, and as the RFC says exactly where a tenth group fits. -/
theorem prefixed_ints (hn : nbits ≤ 8) :
    (∀ v < 2 ^ 64, ∀ prefixByte : UInt8, prefixByte.toNat % 2 ^ nbits = 0 → ∀ rest,
      readInt (writeInt v nbits prefixByte ++ rest) nbits =
          .ok (v, (writeInt v nbits prefixByte).length) ∧
        Http3.readPrefixedInt (Http3.writePrefixedInt v nbits prefixByte ++ rest) nbits =
          .ok (v, (Http3.writePrefixedInt v nbits prefixByte).length)) ∧
      ∀ input, (ReadsInt nbits input (readInt input nbits) ↔ TenthFits nbits input) ∧
        (ReadsInt nbits input (Http3.readPrefixedInt input nbits) ↔ TenthFits nbits input) := by
  constructor
  · intro v hv prefixByte hfree rest
    have hread := readInt_writeInt hn hfree hv rest
    exact ⟨hread, readPrefixedInt_ok.mpr hread⟩
  · exact fun input => ⟨readsInt_iff fun _ => Iff.rfl, readsInt_iff fun _ => readPrefixedInt_ok⟩

theorem prefixed_ints_seven :
    readInt (writeInt 1337 7 0x80 ++ [5]) 7 = .ok (1337, (writeInt 1337 7 0x80).length) ∧
      ReadsInt 7 [0x7f, 0x82, 0x01] (readInt [0x7f, 0x82, 0x01] 7) := by
  obtain ⟨hwrite, hread⟩ := prefixed_ints (show 7 ≤ 8 by decide)
  refine ⟨(hwrite 1337 (by decide) 0x80 (by decide) [5]).1, (hread _).1.2 ?_⟩
  intro v b h
  cases h

/-- A tenth group of 2: both readers drop it and return 127. -/
theorem tenth_group_lost :
    let input : Bytes := 0x7f :: (replicate 9 0x80 ++ [0x02])
    readInt input 7 = .ok (127, 11) ∧ Http3.readPrefixedInt input 7 = .ok (127, 11) ∧
      decodeInt 7 input = some (127 + 2 ^ 64, 11) := by
  refine ⟨?_, ?_, ?_⟩
  · rfl
  · rfl
  · rfl

end Http2

end Waitless
