import Waitless.QuicLoss
import Waitless.QuicWire

/-! # The work of an ACK frame

The removal loop of `process_ack` walks packet numbers, so its turns are the numbers the frame names
(`iterations_ofFrame`). `ack_work_bounded` says that the loop is bounded exactly when these are no
more than slots and ranges together, as they are when the untracked ones among them are no more than
the ranges. `ack_work_unbounded` shows what one frame can cost otherwise. -/

namespace Waitless.Quic

open Waitless.AesGcm
open List

/-- The ranges behind one that ends at `largestSmallest`. -/
def lowerRanges : ℕ → List (ℕ × ℕ) → List (ℕ × ℕ)
  | _, [] => []
  | largestSmallest, (gap, length) :: ranges =>
    if largestSmallest < gap + 2 then []
    else
      let high := largestSmallest - (gap + 2)
      (high - length, high) :: lowerRanges (high - length) ranges

def ackedRanges (largestAcknowledged firstAckRange : ℕ) (ackRanges : List (ℕ × ℕ)) : List (ℕ × ℕ) :=
  (largestAcknowledged - firstAckRange, largestAcknowledged) ::
    lowerRanges (largestAcknowledged - firstAckRange) ackRanges

/-- How many packet numbers a frame acknowledges. -/
def namedNumbers (largestAcknowledged firstAckRange : ℕ) (ackRanges : List (ℕ × ℕ)) : ℕ :=
  ((ackedRanges largestAcknowledged firstAckRange ackRanges).map fun r => r.2 + 1 - r.1).sum

/-- The numbers with a slot in the ring. -/
def slotNumbers (sent : SentPackets) : Finset ℕ :=
  Finset.Ico sent.base (sent.base + sent.slots.length)

/-- The acknowledged numbers without a slot. -/
def untracked (sent : SentPackets) (largestAcknowledged firstAckRange : ℕ)
    (ackRanges : List (ℕ × ℕ)) : ℕ :=
  ((ackedRanges largestAcknowledged firstAckRange ackRanges).map fun r =>
    (Finset.Icc r.1 r.2 \ slotNumbers sent).card).sum

namespace AckRun

theorem iterations_removeOne (a : AckRun) (targetPn pn : ℕ) :
    (a.removeOne targetPn pn).iterations = a.iterations + 1 := by
  unfold removeOne
  simp only
  split <;> rfl

theorem iterations_removeDown (a : AckRun) (targetPn n pn : ℕ) :
    (removeDown targetPn n pn a).iterations = a.iterations + (n + 1) := by
  induction n generalizing pn a with
  | zero => exact a.iterations_removeOne targetPn pn
  | succ n ih =>
    rw [removeDown, ih, iterations_removeOne]
    omega

theorem iterations_ackRemoveRange (a : AckRun) {low high : ℕ} (h : low ≤ high) (targetPn : ℕ) :
    (a.ackRemoveRange low high targetPn).iterations = a.iterations + (high + 1 - low) := by
  rw [ackRemoveRange, if_neg (not_lt.2 h), iterations_removeDown]
  omega

theorem iterations_removeRanges (a : AckRun) (targetPn smallest : ℕ) (ranges : List (ℕ × ℕ)) :
    (removeRanges targetPn smallest ranges a).iterations =
      a.iterations + ((lowerRanges smallest ranges).map fun r => r.2 + 1 - r.1).sum := by
  induction ranges generalizing smallest a with
  | nil => rfl
  | cons r ranges ih =>
    unfold removeRanges lowerRanges
    split_ifs
    · rfl
    · simp only [ih, map_cons, sum_cons]
      rw [iterations_ackRemoveRange _ (Nat.sub_le _ _)]
      omega

theorem iterations_ofFrame (sent : SentPackets) (largest first : ℕ) (ranges : List (ℕ × ℕ)) :
    (ofFrame sent largest first ranges).iterations = namedNumbers largest first ranges := by
  rw [ofFrame, iterations_removeRanges, iterations_ackRemoveRange _ (Nat.sub_le _ _), namedNumbers,
    ackedRanges, map_cons, sum_cons, Nat.zero_add]

end AckRun

theorem card_inter_add_card_filter_le (w : Finset ℕ) {low high s : ℕ} (hlow : low ≤ high)
    (h : high < s) :
    (Finset.Icc low high ∩ w).card + (w.filter (· < low)).card ≤ (w.filter (· < s)).card := by
  have hdisj : Disjoint (Finset.Icc low high ∩ w) (w.filter (· < low)) := by
    rw [Finset.disjoint_left]
    intro n hn hlt
    simp only [Finset.mem_inter, Finset.mem_Icc, Finset.mem_filter] at hn hlt
    omega
  rw [← Finset.card_union_of_disjoint hdisj]
  refine Finset.card_le_card fun n hn => ?_
  simp only [Finset.mem_union, Finset.mem_inter, Finset.mem_Icc, Finset.mem_filter] at hn ⊢
  rcases hn with hn | hn
  · exact ⟨hn.2, by omega⟩
  · exact ⟨hn.1, by omega⟩

theorem tracked_lowerRanges_le (w : Finset ℕ) (smallest : ℕ) (ranges : List (ℕ × ℕ)) :
    ((lowerRanges smallest ranges).map fun r => (Finset.Icc r.1 r.2 ∩ w).card).sum ≤
      (w.filter (· < smallest)).card := by
  induction ranges generalizing smallest with
  | nil => simp [lowerRanges]
  | cons r ranges ih =>
    unfold lowerRanges
    split_ifs with hend
    · simp
    · simp only [map_cons, sum_cons]
      have hrest := ih (smallest - (r.1 + 2) - r.2)
      have hhere := card_inter_add_card_filter_le w (Nat.sub_le (smallest - (r.1 + 2)) r.2)
        (show smallest - (r.1 + 2) < smallest by omega)
      omega

theorem tracked_le (w : Finset ℕ) (largest first : ℕ) (ranges : List (ℕ × ℕ)) :
    ((ackedRanges largest first ranges).map fun r => (Finset.Icc r.1 r.2 ∩ w).card).sum ≤ w.card := by
  simp only [ackedRanges, map_cons, sum_cons]
  have hrest := tracked_lowerRanges_le w (largest - first) ranges
  have hhere := card_inter_add_card_filter_le w (Nat.sub_le largest first)
    (show largest < largest + 1 by omega)
  have hall : (w.filter (· < largest + 1)).card ≤ w.card := Finset.card_filter_le _ _
  omega

theorem iterations_le (sent : SentPackets) (largest first : ℕ) (ranges : List (ℕ × ℕ)) :
    (AckRun.ofFrame sent largest first ranges).iterations ≤
      sent.slots.length + untracked sent largest first ranges := by
  have hsplit : ∀ rs : List (ℕ × ℕ), (rs.map fun r => r.2 + 1 - r.1).sum =
      (rs.map fun r => (Finset.Icc r.1 r.2 ∩ slotNumbers sent).card).sum +
        (rs.map fun r => (Finset.Icc r.1 r.2 \ slotNumbers sent).card).sum := by
    intro rs
    induction rs with
    | nil => rfl
    | cons r rs ih =>
      have hr := Finset.card_inter_add_card_sdiff (Finset.Icc r.1 r.2) (slotNumbers sent)
      rw [Nat.card_Icc] at hr
      simp only [map_cons, sum_cons, ih]
      omega
  have htracked := tracked_le (slotNumbers sent) largest first ranges
  rw [slotNumbers, Nat.card_Ico, Nat.add_sub_cancel_left, ← slotNumbers] at htracked
  rw [AckRun.iterations_ofFrame, namedNumbers, hsplit]
  exact Nat.add_le_add_right htracked _

section

variable {κ τ : Type} (c : Conn κ τ) (level : CryptoLevel)

/-- **Bounded work per ACK frame**, exactly of those that name no more numbers than there are slots
and ranges; in particular where no more than the ranges are absent. -/
theorem ack_work_bounded {data rest : Bytes} {largest delay first : ℕ} {ranges : List (ℕ × ℕ)}
    {ecn : Option EcnCounts}
    (hparse : parseFrame data = .ok (.ack largest delay first ranges ecn, rest)) :
    let sent := c.rest.recovery.sentPackets.get level
    let work := (c.ackRun level largest first ranges).iterations
    (work ≤ sent.slots.length + (ranges.length + 1) ↔
        namedNumbers largest first ranges ≤ sent.slots.length + (ranges.length + 1)) ∧
      (untracked sent largest first ranges ≤ ranges.length + 1 →
        work ≤ sent.slots.length + (ranges.length + 1)) ∧
      (work ≤ sent.slots.length + (ranges.length + 1) →
        work ≤ sent.slots.length + data.length) := by
  intro sent work
  have hwork : work = namedNumbers largest first ranges :=
    AckRun.iterations_ofFrame sent largest first ranges
  have hle := iterations_le sent largest first ranges
  rw [AckRun.iterations_ofFrame, ← hwork] at hle
  have hlen := parseFrame_consumes hparse
  rw [Frame.ackRangeCount] at hlen
  refine ⟨by rw [hwork], fun hout => ?_, fun h => ?_⟩
  · omega
  · omega

end

def fiveInFlight : SentPackets :=
  [5, 6, 7, 8, 9].foldl (fun r pn => r.insert pn ⟨0, true, true, 100, [], [], []⟩) .empty

/-- `sampleConn` with packets in flight. -/
def connWith (sent : SentPackets) : Conn Waitless.Tcp.ConstantWindow QuietTls :=
  sampleConn.setRecovery { sampleConn.rest.recovery with sentPackets := ⟨.empty, .empty, sent⟩ }

/-- Acknowledging 9 and 5 to 7 of the packets 5 to 9 in flight. -/
theorem ack_work_bounded_five :
    parseFrame [0x02, 9, 0, 1, 0, 0, 2] = .ok (.ack 9 0 0 [(0, 2)] none, []) ∧
    ((connWith fiveInFlight).ackRun .oneRtt 9 0 [(0, 2)]).iterations ≤ 5 + 2 := by
  have hparse : parseFrame [0x02, 9, 0, 1, 0, 0, 2] = .ok (.ack 9 0 0 [(0, 2)] none, []) := by
    decide +kernel
  exact ⟨hparse, (ack_work_bounded (connWith fiveInFlight) .oneRtt hparse).1.2 (by decide +kernel)⟩

/-- Twenty octets that acknowledge every packet number: the loop takes `2 ^ 62` turns. -/
theorem ack_work_unbounded :
    parseFrame (0x02 :: (List.replicate 8 0xff ++ [0, 0] ++ List.replicate 8 0xff)) =
      .ok (.ack (2 ^ 62 - 1) 0 (2 ^ 62 - 1) [] none, []) ∧
    ((connWith .empty).rest.recovery.sentPackets.get .oneRtt).slots.length = 0 ∧
    ((connWith .empty).ackRun .oneRtt (2 ^ 62 - 1) (2 ^ 62 - 1) []).iterations = 2 ^ 62 := by
  refine ⟨by decide +kernel, rfl, ?_⟩
  rw [Conn.ackRun, AckRun.iterations_ofFrame]
  decide +kernel

end Waitless.Quic
