import Waitless.QuicWire

/-! # Truncated packet numbers

The model of `encode_packet_number` (`wire.rs`). A number is decoded when it is within half a window
of the expected one (`decode_of_near`), and the length chosen leaves that much for what is not
acknowledged (`unacked_le_half`); hence `packet_number_round_trip`. -/

namespace Waitless.Quic

open Waitless.AesGcm Nat

/-- The bits that tell `pn` from the numbers in flight. -/
def neededBits (pn : UInt64) : Option UInt64 → ℕ
  | none => 64
  | some largest =>
    let numUnacked := max (pn.toNat - largest.toNat) 1
    (min (numUnacked * 2) (2 ^ 64 - 1) - 1).size

def packetNumberLen (bits : ℕ) : ℕ :=
  if bits ≤ 8 then 1 else if bits ≤ 16 then 2 else if bits ≤ 24 then 3 else 4

def truncatedPn (pn : UInt64) (len : ℕ) : UInt32 :=
  pn.toUInt32 &&& (if len = 4 then 0xffffffff else 1 <<< (UInt32.ofNat len * 8) - 1 : UInt32)

/-- The octets written into a buffer of `outLen` octets. -/
def encodePacketNumber (pn : UInt64) (largestAcked : Option UInt64) (outLen : ℕ) :
    Except WireError Bytes :=
  if outLen < 4 then .error .outputTooSmall
  else
    let len := packetNumberLen (neededBits pn largestAcked)
    .ok ((List.range len).map fun i =>
      (truncatedPn pn len >>> UInt32.ofNat (8 * (len - 1 - i))).toUInt8)

theorem packetNumberLen_bounds (bits : ℕ) : 1 ≤ packetNumberLen bits ∧ packetNumberLen bits ≤ 4 := by
  unfold packetNumberLen
  split_ifs <;> simp

theorem le_packetNumberLen {bits : ℕ} (h : bits ≤ 32) : bits ≤ 8 * packetNumberLen bits := by
  unfold packetNumberLen
  split_ifs <;> omega

theorem toNat_shift_or (t : UInt64) (b : UInt8) (ht : t.toNat < 2 ^ 56) :
    (t <<< 8 ||| b.toUInt64).toNat = t.toNat * 256 + b.toNat := by
  have hb := b.toNat_lt
  have h8 : ((8 : UInt64).toNat % 64) = 8 := rfl
  rw [UInt64.toNat_or, UInt64.toNat_shiftLeft, h8, Nat.shiftLeft_eq, Nat.mod_eq_of_lt (by omega),
    UInt8.toNat_toUInt64, Nat.mul_comm, ← Nat.two_pow_add_eq_or_of_lt hb]

theorem toNat_clearLow (e : UInt64) {k : ℕ} (hk : k < 64) :
    (e &&& ~~~(1 <<< UInt64.ofNat k - 1)).toNat = 2 ^ k * (e.toNat / 2 ^ k) := by
  have hpow : 2 ^ k < 2 ^ 64 := Nat.pow_lt_pow_right (by omega) hk
  have hpos := Nat.two_pow_pos k
  have hshift : (1 <<< UInt64.ofNat k : UInt64).toNat = 2 ^ k := by
    rw [UInt64.toNat_shiftLeft, UInt64.toNat_ofNat', Nat.mod_eq_of_lt (by omega : k < 2 ^ 64),
      Nat.mod_eq_of_lt hk, UInt64.toNat_one, Nat.one_shiftLeft, Nat.mod_eq_of_lt hpow]
  have hmask : (1 <<< UInt64.ofNat k - 1 : UInt64).toNat = 2 ^ k - 1 := by
    rw [UInt64.toNat_sub_of_le _ _ (by rw [UInt64.le_iff_toNat_le, hshift]; exact hpos), hshift]
    rfl
  have hlt := e.toNat_lt
  apply Nat.eq_of_testBit_eq
  intro i
  rw [UInt64.toNat_and, UInt64.toNat_not, hmask, Nat.testBit_and, Nat.mul_comm,
    ← Nat.shiftLeft_eq, ← Nat.shiftRight_eq_div_pow, Nat.testBit_shiftLeft, Nat.testBit_shiftRight]
  have hnot : UInt64.size - 1 - (2 ^ k - 1) = 2 ^ 64 - (2 ^ k - 1 + 1) := by
    have : UInt64.size = 2 ^ 64 := rfl
    omega
  rw [hnot, Nat.testBit_two_pow_sub_succ (by omega), Nat.testBit_two_pow_sub_one]
  by_cases hi : k ≤ i
  · rw [Nat.add_sub_cancel' hi]
    by_cases h64 : i < 64
    · simp [hi, h64]
    · have hhigh : e.toNat < 2 ^ i :=
        lt_of_lt_of_le hlt (Nat.pow_le_pow_right (by omega) (by omega))
      simp [Nat.testBit_lt_two_pow hhigh]
  · simp [hi, Nat.lt_of_not_le hi]

theorem readPn_toNat (bytes : Bytes) (hlen : bytes.length ≤ 8) :
    (readPn bytes).toNat = bytes.foldl (fun n b => n * 256 + b.toNat) 0 := by
  have key : ∀ (bytes : Bytes) (t : UInt64), (t.toNat + 1) * 256 ^ bytes.length ≤ 2 ^ 64 →
      (bytes.foldl (fun (t : UInt64) b => t <<< 8 ||| b.toUInt64) t).toNat =
        bytes.foldl (fun n b => n * 256 + b.toNat) t.toNat := by
    intro bytes
    induction bytes with
    | nil => exact fun _ _ => rfl
    | cons b bytes ih =>
      intro t ht
      have hpow := Nat.one_le_pow bytes.length 256 (by omega)
      rw [List.length_cons, Nat.pow_succ', ← Nat.mul_assoc] at ht
      have ht' : t.toNat < 2 ^ 56 := by nlinarith
      have hb := b.toNat_lt
      rw [List.foldl_cons, List.foldl_cons, ← toNat_shift_or t b ht']
      apply ih
      rw [toNat_shift_or t b ht']
      exact le_trans (Nat.mul_le_mul_right _ (by omega)) ht
  refine key bytes 0 ?_
  rw [UInt64.toNat_zero, Nat.zero_add, Nat.one_mul]
  exact Nat.pow_le_pow_right (by omega) hlen

variable {len : ℕ}

theorem truncatedPn_toNat (pn : UInt64) (hpos : 1 ≤ len) (hlen : len ≤ 4) :
    (truncatedPn pn len).toNat = pn.toNat % 2 ^ (8 * len) := by
  have hmask : (if len = 4 then 0xffffffff else 1 <<< (UInt32.ofNat len * 8) - 1 : UInt32).toNat =
      2 ^ (8 * len) - 1 := by
    interval_cases len <;> rfl
  have hdvd : 2 ^ (8 * len) ∣ 2 ^ 32 := pow_dvd_pow 2 (by omega)
  rw [truncatedPn, UInt32.toNat_and, hmask, and_two_pow_sub_one_eq_mod, UInt64.toNat_toUInt32,
    mod_mod_of_dvd _ hdvd]

theorem readPn_octets (x : UInt32) (hpos : 1 ≤ len) (hlen : len ≤ 4)
    (hx : x.toNat < 2 ^ (8 * len)) :
    (readPn ((List.range len).map fun i =>
      (x >>> UInt32.ofNat (8 * (len - 1 - i))).toUInt8)).toNat = x.toNat := by
  rw [readPn_toNat _ (by simp; omega)]
  interval_cases len <;> simp [List.range_succ, shiftRight_eq_div_pow] at hx ⊢ <;> omega

theorem encodePacketNumber_ok (pn : UInt64) (acked : Option UInt64) {outLen : ℕ} (h : 4 ≤ outLen) :
    ∃ bytes, encodePacketNumber pn acked outLen = .ok bytes ∧
      bytes.length = packetNumberLen (neededBits pn acked) ∧
      (readPn bytes).toNat = pn.toNat % 2 ^ (8 * bytes.length) := by
  obtain ⟨hpos, hlen⟩ := packetNumberLen_bounds (neededBits pn acked)
  refine ⟨_, by unfold encodePacketNumber; rw [if_neg (by omega)], by simp, ?_⟩
  rw [List.length_map, List.length_range, ← truncatedPn_toNat pn hpos hlen]
  refine readPn_octets _ hpos hlen ?_
  rw [truncatedPn_toNat pn hpos hlen]
  exact Nat.mod_lt _ (Nat.two_pow_pos _)

/-- **Half a window**: a number that near to the expected one is decoded. -/
theorem decode_of_near {largest truncated pn : UInt64} {e : ℕ} (hpos : 1 ≤ len) (hlen : len ≤ 4)
    (he : (largest + 1).toNat = e) (ht : truncated.toNat = pn.toNat % 2 ^ (8 * len))
    (hpn : pn.toNat < 2 ^ 62) (habove : e < pn.toNat + 2 ^ (8 * len - 1))
    (hbelow : pn.toNat ≤ e + 2 ^ (8 * len - 1)) : decodePacketNumber largest truncated len = pn := by
  have hk : UInt64.ofNat len * 8 = UInt64.ofNat (8 * len) := by
    rw [Nat.mul_comm, UInt64.ofNat_mul]
    rfl
  have hcand : ((largest + 1 &&& ~~~((1 : UInt64) <<< UInt64.ofNat (8 * len) - 1)) |||
      truncated).toNat = 2 ^ (8 * len) * (e / 2 ^ (8 * len)) + pn.toNat % 2 ^ (8 * len) := by
    rw [UInt64.toNat_or, toNat_clearLow _ (by omega), he, ht,
      Nat.two_pow_add_eq_or_of_lt (Nat.mod_lt _ (Nat.two_pow_pos _))]
  have hwin : ((1 : UInt64) <<< UInt64.ofNat (8 * len)).toNat = 2 ^ (8 * len) ∧
      ((1 : UInt64) <<< UInt64.ofNat (8 * len) / 2).toNat = 2 ^ (8 * len - 1) ∧
      ((1 : UInt64) <<< 62 - (1 : UInt64) <<< UInt64.ofNat (8 * len)).toNat = 2 ^ 62 - 2 ^ (8 * len) := by
    interval_cases len <;> exact ⟨rfl, rfl, rfl⟩
  unfold decodePacketNumber
  dsimp only
  rw [hk]
  generalize (largest + 1 &&& ~~~((1 : UInt64) <<< UInt64.ofNat (8 * len) - 1)) ||| truncated = cand
    at hcand ⊢
  obtain ⟨hw, hh, hc⟩ := hwin
  apply UInt64.toNat_inj.1
  simp only [UInt64.le_iff_toNat_le, UInt64.lt_iff_toNat_lt, UInt64.toNat_add, gt_iff_lt, ge_iff_le,
    apply_ite UInt64.toNat, UInt64.toNat_sub, hw, hh, hc, he, hcand]
  clear hw hh hc hcand
  interval_cases len
  · split_ifs <;> omega
  · split_ifs <;> omega
  · split_ifs <;> omega
  · split_ifs <;> omega

theorem unacked_le_half {pn : UInt64} {acked : Option UInt64}
    (hacked : ∀ a ∈ acked, a < pn ∧ pn.toNat - a.toNat ≤ 2 ^ 31)
    (hnone : acked = none → pn.toNat < 2 ^ 31) :
    pn.toNat ≤ acked.elim 0 UInt64.toNat + 2 ^ (8 * packetNumberLen (neededBits pn acked) - 1) := by
  cases acked with
  | none =>
    have hlen : packetNumberLen (neededBits pn none) = 4 := rfl
    rw [hlen]
    exact (hnone rfl).le.trans (le_add_left _ _)
  | some a =>
    obtain ⟨hlt, hnear⟩ := hacked a rfl
    rw [UInt64.lt_iff_toNat_lt] at hlt
    have hbits : neededBits pn (some a) = ((pn.toNat - a.toNat) * 2 - 1).size := by
      simp only [neededBits]
      congr 1
      omega
    have hsmall : neededBits pn (some a) ≤ 32 := by
      rw [hbits, size_le]
      omega
    have hfit := le_packetNumberLen hsmall
    obtain ⟨hpos, -⟩ := packetNumberLen_bounds (neededBits pn (some a))
    generalize packetNumberLen (neededBits pn (some a)) = len at hfit hpos ⊢
    rw [hbits, size_le] at hfit
    have hdouble : 2 ^ (8 * len) = 2 * 2 ^ (8 * len - 1) := by
      rw [← pow_succ']
      congr 1
      omega
    change pn.toNat ≤ a.toNat + _
    omega

/-- **Truncated packet numbers** decode at every receiver less than half a window ahead. -/
theorem packet_number_round_trip {pn : UInt64} (hpn : pn.toNat < 2 ^ 62) {acked : Option UInt64}
    (hacked : ∀ a ∈ acked, a < pn ∧ pn.toNat - a.toNat ≤ 2 ^ 31)
    (hnone : acked = none → pn.toNat < 2 ^ 31) {outLen : ℕ} (hout : 4 ≤ outLen) :
    ∃ bytes, encodePacketNumber pn acked outLen = .ok bytes ∧ ∀ largest : Option UInt64,
      (∀ a ∈ acked, ∃ l ∈ largest, a ≤ l) →
      (∀ l ∈ largest, l.toNat + 1 < pn.toNat + 2 ^ (8 * bytes.length - 1)) →
      decodePacketNumber (largest.getD (0 - 1)) (readPn bytes) bytes.length = pn := by
  obtain ⟨bytes, henc, hlen, hread⟩ := encodePacketNumber_ok pn acked hout
  obtain ⟨hpos, hmax⟩ := packetNumberLen_bounds (neededBits pn acked)
  have hhalf := unacked_le_half hacked hnone
  rw [← hlen] at hpos hmax hhalf
  refine ⟨bytes, henc, fun largest hreach hnear => ?_⟩
  have hpow : 2 ^ (8 * bytes.length - 1) ≤ 2 ^ 31 := Nat.pow_le_pow_right (by omega) (by omega)
  cases largest with
  | none =>
    -- nothing was decoded, so nothing was acknowledged, and the expected number is 0
    have hempty : acked = none := by
      cases acked with
      | none => rfl
      | some a =>
        obtain ⟨l, hl, -⟩ := hreach a rfl
        cases hl
    rw [hempty] at hhalf
    exact decode_of_near hpos hmax (show ((0 : UInt64) - 1 + 1).toNat = 0 from rfl) hread hpn
      (by have := Nat.two_pow_pos (8 * bytes.length - 1); omega) hhalf
  | some l =>
    have hl := hnear l rfl
    have hexp : (l + 1).toNat = l.toNat + 1 := by
      rw [UInt64.toNat_add, UInt64.toNat_one, Nat.mod_eq_of_lt (by omega)]
    refine decode_of_near hpos hmax hexp hread hpn hl ?_
    cases acked with
    | none => exact hhalf.trans (Nat.add_le_add_right (Nat.zero_le _) _)
    | some a =>
      obtain ⟨_, ⟨⟩, hle⟩ := hreach a rfl
      exact hhalf.trans (Nat.add_le_add_right (Nat.le_succ_of_le (UInt64.le_iff_toNat_le.1 hle)) _)

theorem packet_number_round_trip_reordered :
    ∃ bytes, encodePacketNumber 1000 (some 900) 4 = .ok bytes ∧
      decodePacketNumber 1100 (readPn bytes) bytes.length = 1000 := by
  obtain ⟨bytes, henc, hdec⟩ := @packet_number_round_trip 1000 (by decide) (some 900)
    (by rintro a ⟨⟩; decide) nofun 4 (by decide)
  refine ⟨bytes, henc, hdec (some 1100) ?_ ?_⟩
  · rintro a ⟨⟩
    exact ⟨1100, rfl, by decide⟩
  · rintro l ⟨⟩
    have hlen : bytes.length = 1 := by
      cases henc
      rfl
    rw [hlen]
    decide

end Waitless.Quic
