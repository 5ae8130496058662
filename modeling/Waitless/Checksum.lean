import Waitless.TcpTypes

/-! # Internet checksums completed in software

The model of `checksum.rs`, of the completion in `submit_tx` for a device without checksum offload,
and of the UDP header that `fill_udp_frame_headers` puts in front of a payload. -/

namespace Waitless.Net

open Waitless.Tcp
open List hiding Vector

/-- Little-endian words; an odd last byte is a low byte. -/
def sumWords : Bytes → ℕ
  | a :: b :: data => a.toNat + b.toNat * 256 + sumWords data
  | [a] => a.toNat
  | [] => 0

def fold (sum : ℕ) : ℕ :=
  if sum / 2 ^ 16 = 0 then sum else fold (sum % 2 ^ 16 + sum / 2 ^ 16)
decreasing_by omega

def internetChecksum (data : Bytes) : ℕ := 0xFFFF - fold (sumWords data)

def htons (h : ℕ) : ℕ := h % 256 * 256 + h / 256 % 256

def toBe (n : ℕ) : ℕ := htons n * 2 ^ 16 + htons (n / 2 ^ 16)

/-- The accumulator of `l4_pseudo_partial`, an IPv4 address by its words. -/
def pseudoSum (src dst : IpAddr) (proto : UInt8) (l4Len : ℕ) : ℕ :=
  match src, dst with
  | .v4 s, .v4 d =>
    sumWords s.toList + sumWords d.toList + proto.toNat * 256 + htons l4Len
  | .v6 s, .v6 d =>
    sumWords s.toList + sumWords d.toList + (toBe l4Len % 2 ^ 16 + toBe l4Len / 2 ^ 16) +
      proto.toNat * 256
  | _, _ => 0

def l4PseudoPartial (src dst : IpAddr) (proto : UInt8) (l4Len : ℕ) : ℕ :=
  fold (pseudoSum src dst proto l4Len)

def l4ChecksumV6 (src dst : Vector UInt8 16) (proto : UInt8) (data : Bytes) : ℕ :=
  0xFFFF - fold (pseudoSum (.v6 src) (.v6 dst) proto data.length + sumWords data)

/-- A 16-bit field as it lies in memory. -/
def putWord (data : Bytes) (field word : ℕ) : Bytes :=
  (data.set field (UInt8.ofNat word)).set (field + 1) (UInt8.ofNat (word / 256))

/-- For a device that does not finish checksums. -/
def softwareComplete (l4 : Bytes) (offset : ℕ) : Bytes := putWord l4 offset (internetChecksum l4)

def beWord (n : ℕ) : Bytes := [UInt8.ofNat (n / 256), UInt8.ofNat n]

/-- IPv6 has no address configured. -/
def udpSource (configIp : Vector UInt8 4) : IpAddr → IpAddr
  | .v4 _ => .v4 configIp
  | .v6 _ => .v6 (Vector.replicate 16 0)

def fillUdpHeader (configIp : Vector UInt8 4) (dst : IpAddr) (srcPort dstPort : UInt16)
    (payload : Bytes) : Bytes :=
  let udpLen := 8 + payload.length
  let header := beWord srcPort.toNat ++ beWord dstPort.toNat ++ beWord udpLen ++ [0, 0]
  putWord (header ++ payload) 6 (l4PseudoPartial (udpSource configIp dst) dst 17 udpLen)

/-- The pseudo-headers of RFC 793 and RFC 8200. -/
def pseudoHeader (src dst : IpAddr) (proto : UInt8) (len : ℕ) : Bytes :=
  match src, dst with
  | .v4 s, .v4 d => s.toList ++ (d.toList ++ ([0, proto] ++ beWord len))
  | .v6 s, .v6 d =>
    s.toList ++ (d.toList ++ (beWord (len / 2 ^ 16) ++ (beWord len ++ [0, 0, 0, proto])))
  | _, _ => []

/-- Addition with end-around carry. -/
def onesAdd (a b : ℕ) : ℕ := if a + b ≤ 0xFFFF then a + b else a + b - 0xFFFF

def onesSum : Bytes → ℕ
  | a :: b :: data => onesAdd (a.toNat * 256 + b.toNat) (onesSum data)
  | [a] => a.toNat * 256
  | [] => 0

def SameFamily : IpAddr → IpAddr → Prop
  | .v4 _, .v4 _ => True
  | .v6 _, .v6 _ => True
  | _, _ => False

variable {x y field word : ℕ} {data more : Bytes} {src dst : IpAddr}

theorem fold_spec (x : ℕ) :
    fold x ≤ 0xFFFF ∧ fold x % 0xFFFF = x % 0xFFFF ∧ (fold x = 0 ↔ x = 0) := by
  induction x using fold.induct with
  | case1 x hx =>
    rw [fold, if_pos hx]
    omega
  | case2 x hx ih =>
    rw [fold, if_neg hx]
    omega

theorem fold_congr (h : x % 0xFFFF = y % 0xFFFF) (hz : x = 0 ↔ y = 0) : fold x = fold y := by
  have hx := fold_spec x
  have hy := fold_spec y
  omega

theorem onesSum_spec : ∀ data : Bytes, onesSum data ≤ 0xFFFF ∧
    onesSum data % 0xFFFF = sumWords data * 256 % 0xFFFF ∧ (onesSum data = 0 ↔ sumWords data = 0)
  | [] => by decide
  | [a] => by
    have := a.toNat_lt
    simp only [onesSum, sumWords]
    exact ⟨by omega, trivial, by omega⟩
  | a :: b :: data => by
    have ha := a.toNat_lt
    have hb := b.toNat_lt
    have ih := onesSum_spec data
    simp only [onesSum, sumWords, onesAdd]
    split_ifs <;> omega

theorem onesSum_eq_iff :
    onesSum data = 0xFFFF ↔ sumWords data % 0xFFFF = 0 ∧ sumWords data ≠ 0 := by
  have := onesSum_spec data
  omega

theorem sumWords_append (more : Bytes) :
    ∀ {data : Bytes}, data.length % 2 = 0 → sumWords (data ++ more) = sumWords data + sumWords more
  | [], _ => by simp [sumWords]
  | [a], h => by simp at h
  | a :: b :: data, h => by
    rw [length_cons, length_cons] at h
    simp only [cons_append, sumWords]
    rw [sumWords_append more (by omega)]
    omega

theorem sumWords_le : ∀ data : Bytes, sumWords data ≤ 0xFFFF * ((data.length + 1) / 2)
  | [] => by simp [sumWords]
  | [a] => by
    have := a.toNat_lt
    simp only [sumWords, length_singleton]
    omega
  | a :: b :: data => by
    have ha := a.toNat_lt
    have hb := b.toNat_lt
    have ih := sumWords_le data
    simp only [sumWords, length_cons]
    omega

theorem sumWords_beWord (x : ℕ) : sumWords (beWord x) = htons x := by
  simp only [beWord, sumWords, htons, UInt8.toNat_ofNat']
  omega

theorem pseudoSum_eq (hfam : SameFamily src dst) (proto : UInt8) (hx : x ≤ 0xFFFF) :
    pseudoSum src dst proto x = sumWords (pseudoHeader src dst proto x) ∧
      (pseudoHeader src dst proto x).length % 2 = 0 ∧
      (pseudoHeader src dst proto x).length ≤ 40 := by
  cases src <;> cases dst
  case v4.v4 s d =>
    refine ⟨?_, by simp [pseudoHeader, beWord], by simp [pseudoHeader, beWord]⟩
    rw [pseudoHeader, sumWords_append _ (by simp), sumWords_append _ (by simp),
      sumWords_append _ (by simp), sumWords_beWord]
    simp only [pseudoSum, sumWords, UInt8.toNat_zero]
    omega
  case v6.v6 s d =>
    refine ⟨?_, by simp [pseudoHeader, beWord], by simp [pseudoHeader, beWord]⟩
    rw [pseudoHeader, sumWords_append _ (by simp), sumWords_append _ (by simp),
      sumWords_append _ (by simp [beWord]), sumWords_append _ (by simp [beWord]), sumWords_beWord,
      sumWords_beWord]
    simp only [pseudoSum, sumWords, UInt8.toNat_zero, toBe, htons]
    omega
  all_goals exact hfam.elim

theorem putWord_putWord (v : ℕ) : putWord (putWord data field v) field word = putWord data field word := by
  simp only [putWord]
  rw [set_comm _ _ (by omega : field + 1 ≠ field), set_set, set_set]

theorem length_putWord : (putWord data field word).length = data.length := by simp [putWord]

theorem sumWords_putWord (hword : word ≤ 0xFFFF) : ∀ {k : ℕ} {data : Bytes}, 2 * k + 1 < data.length →
    sumWords (putWord data (2 * k) word) = sumWords (putWord data (2 * k) 0) + word
  | k, [], h => by simp at h
  | k, [a], h => by simp at h
  | 0, a :: b :: data, _ => by
    simp only [putWord, Nat.mul_zero, set_cons_zero, set_cons_succ, sumWords, UInt8.toNat_ofNat']
    omega
  | k + 1, a :: b :: data, h => by
    rw [length_cons, length_cons] at h
    have ih : sumWords (putWord data (2 * k) word) = sumWords (putWord data (2 * k) 0) + word :=
      sumWords_putWord hword (by omega)
    simp only [putWord] at ih
    simp only [putWord, Nat.mul_add, Nat.mul_one, set_cons_succ, sumWords, ih]
    omega

/-- The partial sum stands for the pseudo-header. -/
theorem internetChecksum_stamped {k : ℕ} (hk : 2 * k + 1 < data.length) (x : ℕ) :
    internetChecksum (putWord data (2 * k) (fold x)) =
      0xFFFF - fold (x + sumWords (putWord data (2 * k) 0)) := by
  have hx := fold_spec x
  rw [internetChecksum, sumWords_putWord hx.1 hk]
  congr 1
  exact fold_congr (by omega) (by omega)

/-- What a receiver adds up, and when the field it receives is zero. -/
theorem softwareComplete_spec {k : ℕ} (hfam : SameFamily src dst) (proto : UInt8)
    (hlen : data.length ≤ 65535) (hk : 2 * k + 1 < data.length) :
    let sent := softwareComplete
      (putWord data (2 * k) (l4PseudoPartial src dst proto data.length)) (2 * k)
    let header := pseudoHeader src dst proto data.length
    onesSum (header ++ sent) = 0xFFFF ∧ ∃ word, sent = putWord data (2 * k) word ∧ word ≤ 0xFFFF ∧
      (word = 0 ↔ onesSum (header ++ putWord data (2 * k) 0) = 0xFFFF) := by
  intro sent header
  obtain ⟨hsum, heven, -⟩ := pseudoSum_eq hfam proto hlen
  have hsent : sent = putWord data (2 * k)
      (0xFFFF - fold (pseudoSum src dst proto data.length + sumWords (putWord data (2 * k) 0))) := by
    rw [← internetChecksum_stamped hk]
    exact putWord_putWord _
  have hspec := fold_spec (pseudoSum src dst proto data.length + sumWords (putWord data (2 * k) 0))
  refine ⟨?_, _, hsent, by omega, ?_⟩
  · rw [onesSum_eq_iff, sumWords_append _ heven, ← hsum, hsent, sumWords_putWord (by omega) hk]
    omega
  · rw [onesSum_eq_iff, sumWords_append _ heven, ← hsum]
    omega

/-- **Completion in software** of any stamped segment. -/
theorem completed_checksum_verifies (hfam : SameFamily src dst) (proto : UInt8) (seg : Bytes)
    (hlen : seg.length ≤ 65535) (k : ℕ) (hk : 2 * k + 1 < seg.length) :
    let stamped := putWord seg (2 * k) (l4PseudoPartial src dst proto seg.length)
    onesSum (pseudoHeader src dst proto seg.length ++ softwareComplete stamped (2 * k)) = 0xFFFF ∧
      (∀ s d, src = .v6 s → dst = .v6 d →
        internetChecksum stamped = l4ChecksumV6 s d proto (putWord seg (2 * k) 0)) ∧
      ∀ word, pseudoSum src dst proto seg.length + sumWords (putWord seg (2 * k) word) < 2 ^ 32 := by
  refine ⟨(softwareComplete_spec hfam proto hlen hk).1, ?_, ?_⟩
  · rintro s d rfl rfl
    rw [l4ChecksumV6, length_putWord]
    exact internetChecksum_stamped hk _
  · intro word
    obtain ⟨hsum, -, hle⟩ := pseudoSum_eq hfam proto hlen
    have hp := sumWords_le (pseudoHeader src dst proto seg.length)
    have hd := sumWords_le (putWord seg (2 * k) word)
    rw [length_putWord] at hd
    omega

theorem completed_checksum_verifies_odd :
    onesSum (pseudoHeader .v4Any .v4Any 6 3 ++
      softwareComplete (putWord [0, 0, 7] 0 (l4PseudoPartial .v4Any .v4Any 6 3)) 0) = 0xFFFF :=
  (completed_checksum_verifies (show SameFamily .v4Any .v4Any from trivial) 6 [0, 0, 7] (by decide) 0
    (by decide)).1

/-- **A datagram verifies**; its field is zero just when its words add up to `0xFFFF` without it. -/
theorem udp_checksum_sent (configIp : Vector UInt8 4) (dst : IpAddr) (srcPort dstPort : UInt16)
    (payload : Bytes) (hlen : payload.length ≤ 65527) :
    let seg := fillUdpHeader configIp dst srcPort dstPort payload
    let sent := softwareComplete seg 6
    let header := pseudoHeader (udpSource configIp dst) dst 17 (8 + payload.length)
    onesSum (header ++ sent) = 0xFFFF ∧
      ((sent.drop 6).take 2 = [0, 0] ↔ onesSum (header ++ putWord seg 6 0) = 0xFFFF) := by
  intro seg sent header
  let data := beWord srcPort.toNat ++ beWord dstPort.toNat ++ beWord (8 + payload.length) ++
    [0, 0] ++ payload
  have hdata : data.length = 8 + payload.length := by
    simp [data, beWord]
    omega
  have hfam : SameFamily (udpSource configIp dst) dst := by cases dst <;> trivial
  have hroom : 2 * 3 + 1 < data.length := by omega
  obtain ⟨hsum, word, hsent, hword, hzero⟩ := softwareComplete_spec hfam 17 (by omega) hroom
  rw [hdata] at hsum hsent hzero
  refine ⟨hsum, ?_⟩
  have hseg : putWord seg 6 0 = putWord data 6 0 := putWord_putWord _
  rw [hseg, ← hzero]
  have hfield : (sent.drop 6).take 2 = [UInt8.ofNat word, UInt8.ofNat (word / 256)] := by
    rw [show sent = putWord data 6 word from hsent]
    simp [putWord, data, beWord]
  rw [hfield]
  simp only [cons.injEq, and_true, ← UInt8.toNat_inj, UInt8.toNat_ofNat', UInt8.toNat_zero]
  omega

theorem udp_checksum_sent_one :
    onesSum (pseudoHeader .v4Any .v4Any 17 9 ++
      softwareComplete (fillUdpHeader (.replicate 4 0) .v4Any 53 53 [7]) 6) = 0xFFFF :=
  (udp_checksum_sent (.replicate 4 0) .v4Any 53 53 [7] (by decide)).1

/-- A checksum that comes out as zero is sent so. -/
theorem udp_checksum_zero :
    ((softwareComplete (fillUdpHeader #v[10, 0, 0, 2] (.v4 #v[10, 0, 0, 1]) 53 53 [235, 109]) 6).drop
      6).take 2 = [0, 0] := by
  simp [fillUdpHeader, softwareComplete, internetChecksum, l4PseudoPartial, pseudoSum, udpSource,
    putWord, beWord, sumWords, fold, htons]

end Waitless.Net
