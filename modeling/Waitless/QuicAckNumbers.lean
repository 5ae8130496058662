import Waitless.QuicSteps

/-! # Acknowledged packet numbers

`acks_of_sent_packets` is what holds when peers acknowledge sent numbers only: `largestAcked` stays
below `nextSendPn`, and a packet is declared lost by the packet threshold only behind the
acknowledgement of a number sent three later. -/

namespace Waitless.Quic

open Waitless.AesGcm History UInt64
open Waitless.Tcp (CongestionControl LostBy u64Max)

variable {κ τ : Type}

/-- ACK frames name sent numbers, which do not run out. -/
def AcksSent (h : History κ τ) (i : ℕ × Event τ) : Prop :=
  (∀ a ∈ i.2.acknowledges, a.2 < (h.conn.space a.1).nextSendPn.toNat) ∧
  ∀ level, (h.conn.space level).nextSendPn.toNat + 1 < 2 ^ 64

instance (h : History κ τ) (i : ℕ × Event τ) : Decidable (AcksSent h i) :=
  inferInstanceAs (Decidable (_ ∧ _))

/-- Acknowledged numbers were sent and named. -/
def AckedSent (h : History κ τ) : Prop :=
  ∀ level n, (h.conn.space level).largestAcked = some n →
    n < (h.conn.space level).nextSendPn ∧ (level, n.toNat) ∈ h.acknowledged

theorem toNat_add_one {n : UInt64} (h : n.toNat + 1 < 2 ^ 64) : (n + 1).toNat = n.toNat + 1 := by
  rw [UInt64.toNat_add, UInt64.toNat_one, Nat.mod_eq_of_lt h]

theorem ackedUpTo_cases (acked : Option UInt64) (largest : ℕ) :
    acked = some (Conn.ackedUpTo acked largest) ∨ Conn.ackedUpTo acked largest = UInt64.ofNat largest := by
  unfold Conn.ackedUpTo
  cases acked with
  | none => exact .inr rfl
  | some x =>
    have hmax : max x (ofNat largest) =
        if x ≤ ofNat largest then ofNat largest else x := rfl
    rw [Option.elim_some, hmax]
    split_ifs
    · exact .inr rfl
    · exact .inl rfl

theorem largestAcked_of_lost {c : Conn κ τ} {now : ℕ} {level : CryptoLevel} {pn : ℕ}
    (h : (pn, LostBy.packetThreshold) ∈ c.lostPackets now level) :
    ∃ n, (c.space level).largestAcked = some n ∧ (n.toNat < u64Max → pn + 3 ≤ n.toNat) := by
  unfold Conn.lostPackets at h
  cases hacked : (c.space level).largestAcked with
  | none => rw [hacked] at h; cases h
  | some n =>
    rw [hacked] at h
    exact ⟨n, rfl, lost_packetThreshold h⟩

variable [CongestionControl κ] [Tls τ] {P : Primitives}

theorem mem_acknowledged_step {h : History κ τ} {i : ℕ × Event τ} {x : CryptoLevel × ℕ}
    (hx : x ∈ h.acknowledged) : x ∈ (h.step P i).acknowledged := by
  obtain ⟨now, e⟩ := i
  cases e <;> first | exact hx | exact List.mem_append_left _ hx

theorem AckedSent.step (h : History κ τ) (i : ℕ × Event τ) (hsent : AcksSent h i) (hacked : AckedSent h) :
    AckedSent (h.step P i) := by
  obtain ⟨hlargest, hroom⟩ := hsent
  intro level n hn
  rw [step_conn] at hn ⊢
  have hle : ∀ {x y : UInt64}, x < (h.conn.space level).nextSendPn →
      y = (h.conn.space level).nextSendPn ∨ y = (h.conn.space level).nextSendPn + 1 → x < y := by
    rintro x y hx (rfl | rfl)
    · exact hx
    · rw [lt_iff_toNat_lt] at hx ⊢
      rw [toNat_add_one (hroom level)]
      omega
  obtain ⟨hpn, hkept | hnone | ⟨largest, delay, first, ranges, ecn, he, hnew⟩⟩ :=
    (h.conn.step_numbers P i.1 i.2).2 level
  · obtain ⟨hlt, hmem⟩ := hacked level n (hkept.symm.trans hn)
    exact ⟨hle hlt hpn, mem_acknowledged_step hmem⟩
  · exact absurd (hnone.symm.trans hn) nofun
  · obtain rfl := Option.some.inj (hnew.symm.trans hn)
    rcases ackedUpTo_cases (h.conn.view.numbers level).2 largest with hold | hframe
    · obtain ⟨hlt, hmem⟩ := hacked level _ hold
      exact ⟨hle hlt hpn, mem_acknowledged_step hmem⟩
    · have hlt : largest < (h.conn.space level).nextSendPn.toNat := hlargest (level, largest) (by rw [he]; rfl)
      have hnat : (ofNat largest).toNat = largest := by
        rw [toNat_ofNat', Nat.mod_eq_of_lt]
        exact hlt.trans (toNat_lt _)
      rw [hframe, hnat]
      refine ⟨hle ?_ hpn, ?_⟩
      · rw [lt_iff_toNat_lt, hnat]
        exact hlt
      · obtain ⟨now, e⟩ := i
        obtain rfl : e = _ := he
        exact List.mem_append_right _ List.mem_cons_self

/-- **Acknowledgements of sent packets** keep `largestAcked` below `nextSendPn`. -/
theorem acks_of_sent_packets {c : Conn κ τ} (hfresh : c.Fresh) {is : List (ℕ × Event τ)}
    (hrun : Runs.Along (History.step P) AcksSent { conn := c } is) :
    let h := run P { conn := c } is
    (∀ level, (h.conn.space level).largestAcked = none ∨
      ∃ n, (h.conn.space level).largestAcked = some n ∧ n < (h.conn.space level).nextSendPn) ∧
    ∀ now level largest delay first ranges ecn,
      AcksSent h (now, .frame level (.ack largest delay first ranges ecn)) →
      let h' := h.step P (now, .frame level (.ack largest delay first ranges ecn))
      ∀ pn, (pn, LostBy.packetThreshold) ∈
          (h.conn.applyAck now level largest delay first ranges).lostPackets now level →
        ∃ q, (level, q) ∈ h'.acknowledged ∧ pn + 3 ≤ q ∧ q < (h'.conn.space level).nextSendPn.toNat := by
  intro h
  have hacked : AckedSent h := hrun.invariant AckedSent.step fun level n hn => by
    rw [hfresh.space] at hn
    cases hn
  refine ⟨fun level => ?_, ?_⟩
  · cases hn : (h.conn.space level).largestAcked with
    | none => exact .inl rfl
    | some n => exact .inr ⟨n, rfl, (hacked level n hn).1⟩
  · intro now level largest delay first ranges ecn hsent h' pn hpn
    obtain ⟨n, hn, hlt⟩ := largestAcked_of_lost hpn
    have hkept : (h'.conn.space level).largestAcked = some n := by
      rw [step_conn, ← hn]
      exact congrArg (fun v : View => (v.numbers level).2)
        (h.conn.view_processAck now level largest delay first ranges)
    obtain ⟨hbelow, hmem⟩ := (AckedSent.step (P := P) h _ hsent hacked) level n hkept
    have hbelow := lt_iff_toNat_lt.1 hbelow
    exact ⟨n.toNat, hmem, hlt (hbelow.trans_le (Nat.le_sub_one_of_lt (toNat_lt _))), hbelow⟩

/-- A byte of stream data and four probes. -/
def probed : List (ℕ × Event QuietTls) :=
  [(1, .send 0 [1]), (2, .oneRtt none), (3, .probe), (4, .probe), (5, .probe), (6, .probe)]

/-- Packet 0 of five is lost behind an acknowledgement of packet 4. -/
theorem acks_of_sent_packets_probed :
    let h := run samplePrimitives { conn := sampleConn } probed
    let ack : Event QuietTls := .frame .oneRtt (.ack 4 0 0 [] none)
    (0, LostBy.packetThreshold) ∈ (h.conn.applyAck 7 .oneRtt 4 0 0 []).lostPackets 7 .oneRtt ∧
    ∃ q, (.oneRtt, q) ∈ (h.step samplePrimitives (7, ack)).acknowledged ∧ 0 + 3 ≤ q ∧
      q < ((h.step samplePrimitives (7, ack)).conn.space .oneRtt).nextSendPn.toNat := by
  have hlost : (0, LostBy.packetThreshold) ∈
      ((run samplePrimitives { conn := sampleConn } probed).conn.applyAck 7 .oneRtt 4 0 0
        []).lostPackets 7 .oneRtt := by decide +kernel
  exact ⟨hlost, (acks_of_sent_packets fresh_sampleConn (by decide +kernel)).2 7 .oneRtt 4 0 0 [] none
    (by decide +kernel) 0 hlost⟩

/-- A peer acknowledges packet 1000 of five. -/
theorem ack_of_unsent_packet :
    let h := run samplePrimitives { conn := sampleConn } probed
    let c := h.conn.step samplePrimitives 7 (.frame .oneRtt (.ack 1000 0 0 [] none))
    (c.space .oneRtt).largestAcked = some 1000 ∧ (c.space .oneRtt).nextSendPn = 5 ∧
    (4, LostBy.packetThreshold) ∈ (h.conn.applyAck 7 .oneRtt 1000 0 0 []).lostPackets 7 .oneRtt := by
  decide +kernel

end Waitless.Quic
