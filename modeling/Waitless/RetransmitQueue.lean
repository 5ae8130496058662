import Waitless.ConnectionRun
import Waitless.SerialNumber

/-! # The retransmission queue and the bytes it holds

The send stream is numbered from the initial sequence number `iss`: the SYN has position `0`, the
byte `p` of the stream position `p + 1`. `Spans iss sent lo hi queue` says that the ranges of a
queue are the bytes `lo` to `hi` of the stream `sent`, in order, each with its number and length. -/

namespace Waitless.Tcp

open SerialNumber List

variable {κ : Type} {iss : UInt32} {sent : Bytes} {lo mid hi : ℕ}

def Spans (iss : UInt32) (sent : Bytes) : ℕ → ℕ → List (Bytes × UInt32 × ℕ) → Prop
  | lo, hi, [] => lo = hi
  | lo, hi, (bytes, seq, len) :: rest =>
    seq = number iss (lo + 1) ∧ len = bytes.length ∧ len < 65536 ∧
      bytes = (sent.drop lo).take len ∧ lo + len ≤ sent.length ∧ Spans iss sent (lo + len) hi rest

namespace Spans

variable {q q₁ q₂ : List (Bytes × UInt32 × ℕ)}

theorem lengths (h : Spans iss sent lo hi q) : lo + (q.map fun r => r.2.2).sum = hi := by
  induction q generalizing lo with
  | nil => exact h
  | cons r rest ih =>
    obtain ⟨bytes, seq, len⟩ := r
    have := ih h.2.2.2.2.2
    simp only [map_cons, sum_cons]
    omega

theorem le (h : Spans iss sent lo hi q) : lo ≤ hi := by
  have := h.lengths
  omega

theorem extend (h : Spans iss sent lo hi q) (more : Bytes) : Spans iss (sent ++ more) lo hi q := by
  induction q generalizing lo with
  | nil => exact h
  | cons r rest ih =>
    obtain ⟨hseq, hlen, hsmall, hbytes, hle, hrest⟩ := h
    refine ⟨hseq, hlen, hsmall, ?_, ?_, ih hrest⟩
    · rw [drop_append_of_le_length (by omega), take_append_of_le_length]
      · exact hbytes
      · rw [length_drop]
        omega
    · rw [length_append]
      omega

theorem append (h₁ : Spans iss sent lo mid q₁) (h₂ : Spans iss sent mid hi q₂) :
    Spans iss sent lo hi (q₁ ++ q₂) := by
  induction q₁ generalizing lo with
  | nil =>
    obtain rfl : lo = mid := h₁
    exact h₂
  | cons r rest ih =>
    obtain ⟨hseq, hlen, hsmall, hbytes, hle, hrest⟩ := h₁
    exact ⟨hseq, hlen, hsmall, hbytes, hle, ih hrest⟩

theorem single {bytes : Bytes} (hsmall : bytes.length < 65536)
    (hbytes : bytes = (sent.drop lo).take bytes.length) (hle : lo + bytes.length ≤ sent.length) :
    Spans iss sent lo (lo + bytes.length) [(bytes, number iss (lo + 1), bytes.length)] :=
  ⟨rfl, rfl, hsmall, hbytes, hle, rfl⟩

theorem mem {r : Bytes × UInt32 × ℕ} (h : Spans iss sent lo hi q) (hr : r ∈ q) :
    ∃ p, lo ≤ p ∧ r.2.1 = number iss (p + 1) ∧ p + r.1.length ≤ sent.length ∧
      r.1 = (sent.drop p).take r.1.length := by
  induction q generalizing lo with
  | nil => cases hr
  | cons r' rest ih =>
    obtain ⟨hseq, hlen, hsmall, hbytes, hle, hrest⟩ := h
    rcases mem_cons.1 hr with rfl | hr
    · rw [hlen] at hbytes hle
      exact ⟨lo, le_refl lo, hseq, hle, hbytes⟩
    · obtain ⟨p, hp, hrange⟩ := ih hrest hr
      exact ⟨p, by omega, hrange⟩

end Spans

theorem seqLt_number {base : UInt32} {p q : ℕ} (h : q ≤ p + 2 ^ 31) (h' : p < q + 2 ^ 31) :
    seqLt (number base p) (number base q) = decide (p < q) := by
  unfold seqLt
  rw [decide_eq_decide]
  exact neg_iff h h'

theorem TcpConnection.rtxAckLoop_spans {queue : List RtxEntry} {a : ℕ} (inFlight acked : ℕ)
    (h : Spans iss sent lo hi (queue.map RtxEntry.range)) (hlo : lo ≤ a) (hhi : a ≤ hi + 1)
    (hnear : hi + 1 < lo + 2 ^ 31) :
    Spans iss sent (min a hi) hi
        ((rtxAckLoop (number iss (a + 1)) queue inFlight acked).1.map RtxEntry.range) ∧
      (rtxAckLoop (number iss (a + 1)) queue inFlight acked).2.1 = inFlight - (min a hi - lo) := by
  induction queue generalizing lo inFlight acked with
  | nil =>
    obtain rfl : lo = hi := h
    rw [Nat.min_eq_right hlo]
    exact ⟨rfl, by simp [rtxAckLoop]⟩
  | cons head rest ih =>
    obtain ⟨hseq, hlen, hsmall, hbytes, hle, hrest⟩ := h
    have hup := hrest.le
    have hend : seqLt (number iss (a + 1)) (number iss (lo + 1) + UInt32.ofNat head.len) =
        decide (a + 1 < lo + 1 + head.len) := by
      rw [number_add]
      exact seqLt_number (by omega) (by omega)
    have hstart : seqLt (number iss (lo + 1)) (number iss (a + 1)) = decide (lo + 1 < a + 1) :=
      seqLt_number (by omega) (by omega)
    unfold rtxAckLoop
    rw [hseq, hend, hstart]
    by_cases hcov : a + 1 < lo + 1 + head.len
    · rw [decide_eq_true hcov, Nat.min_eq_left (by omega)]
      simp only [Bool.not_true, Bool.false_eq_true, if_false]
      by_cases hin : lo + 1 < a + 1
      · -- the acknowledged byte falls inside the head
        have hdist : (number iss (a + 1) - number iss (lo + 1)).toNat = a - lo := by
          rw [distance (by omega) (by omega)]
          omega
        rw [hdist, if_pos (decide_eq_true hin), if_pos (by omega), Nat.mod_eq_of_lt (by omega)]
        refine ⟨⟨rfl, ?_, ?_, ?_, ?_, ?_⟩, rfl⟩
        · rw [length_drop, hlen]
        · change head.len - (a - lo) < 65536
          omega
        · rw [hbytes, drop_take, drop_drop, Nat.add_sub_cancel' hlo]
        · change a + (head.len - (a - lo)) ≤ sent.length
          omega
        · have heq : a + (head.len - (a - lo)) = lo + head.len := by omega
          rw [heq]
          exact hrest
      · obtain rfl : a = lo := by omega
        rw [if_neg (by simp), Nat.sub_self, Nat.sub_zero]
        exact ⟨⟨hseq, hlen, hsmall, hbytes, hle, hrest⟩, rfl⟩
    · rw [decide_eq_false hcov]
      simp only [Bool.not_false, if_true]
      obtain ⟨hq, hfl⟩ := ih (inFlight - head.len) (acked + head.len) hrest (by omega) (by omega)
      refine ⟨hq, hfl.trans ?_⟩
      omega

/-- The bytes `lo` to `hi` are covered, or coverage is suspended. -/
def Tracks (iss : UInt32) (sent : Bytes) (lo hi : ℕ) (v : SendView) : Prop :=
  if v.allocFailed then v.queue = [] ∧ v.inFlight = 0
  else Spans iss sent lo hi v.queue ∧ v.inFlight = hi - lo

/-- The pieces in which `n` bytes of a chain enter the queue. -/
def chainPieces : List Bytes → ℕ → List Bytes
  | [], _ => []
  | front :: rest, n =>
    if n = 0 then []
    else if front.length ≤ n then front :: chainPieces rest (n - front.length)
    else [front.take n]

namespace Local

theorem rtxPush_view (l : Local κ) (iobuf : Bytes) (seq : UInt32) (len now : ℕ) :
    (l.rtxPush iobuf seq len now true).1.conn.sendView =
      { l.conn.sendView with
        queue := l.conn.sendView.queue ++ [(iobuf, seq, len)]
        inFlight := satAdd32 l.conn.sendView.inFlight len } := by
  let entry : RtxEntry := { iobuf, seqStart := seq, len, lastTxMs := now, txCount := 1, sacked := false }
  have hentry : (l.queueEntry entry).conn.sendView =
      { l.conn.sendView with
        queue := l.conn.sendView.queue ++ [(iobuf, seq, len)]
        inFlight := satAdd32 l.conn.sendView.inFlight len } := by
    simp [queueEntry, TcpConnection.sendView, RtxEntry.range, entry]
  have harm : ∀ b : Bool, Steady (l.queueEntry entry)
      (if b then (l.queueEntry entry).armRtx now else l.queueEntry entry) := by
    intro b
    cases b with
    | true => exact armRtx_steady _ now
    | false => exact .refl _
  have hst := (harm (l.conn.rtxQueue.isEmpty && (l.queueEntry entry).conn.rtxDeadlineMs == 0)).trans
    (startAnchor_steady _ (seq + UInt32.ofNat len) now)
  exact hst.send.trans hentry

theorem suspended_tracks (l : Local κ) :
    Tracks iss sent lo hi
      { l with conn := { l.conn with rtxAllocFailed := true }.handleRtxPushOom }.conn.sendView :=
  ⟨rfl, rfl⟩

variable {l : Local κ}

theorem rtxPush_tracks {piece : Bytes} (now : ℕ)
    (hok : l.conn.rtxAllocFailed = false) (hq : Tracks iss sent lo mid l.conn.sendView)
    (hsmall : piece.length < 65536) (hpiece : piece = (sent.drop mid).take piece.length)
    (hle : mid + piece.length ≤ sent.length) (hnear : sent.length < lo + 2 ^ 32) :
    Tracks iss sent lo (mid + piece.length)
      (l.rtxPush piece (number iss (mid + 1)) (piece.length % 65536) now true).1.conn.sendView := by
  have hok' : l.conn.sendView.allocFailed = false := hok
  unfold Tracks at hq ⊢
  rw [hok', if_neg (by simp)] at hq
  obtain ⟨hspans, hfl⟩ := hq
  rw [Nat.mod_eq_of_lt hsmall, rtxPush_view l piece _ piece.length now]
  have hlo := hspans.le
  dsimp only
  rw [hok', if_neg (by simp)]
  refine ⟨hspans.append (.single hsmall hpiece hle), ?_⟩
  unfold satAdd32 u32Max
  omega

theorem rtxPush_ok {piece : Bytes} {seq : UInt32} {len now : ℕ}
    (hok : l.conn.rtxAllocFailed = false) :
    (l.rtxPush piece seq len now true).1.conn.rtxAllocFailed = false := by
  have h := congrArg SendView.allocFailed (rtxPush_view l piece seq len now)
  exact h.trans hok

theorem rtxSendLoop_tracks {chain : List Bytes} {total : ℕ} (now : ℕ)
    (reserve : ℕ → Bool) (hok : l.conn.rtxAllocFailed = false)
    (hq : Tracks iss sent lo mid l.conn.sendView)
    (hfit : ∀ piece ∈ chainPieces chain total, piece.length < 65536)
    (htotal : total ≤ chain.flatten.length) (hlen : mid + total = sent.length)
    (hbytes : sent.drop mid = chain.flatten.take total) (hnear : sent.length < lo + 2 ^ 32) :
    Tracks iss sent lo sent.length
      (rtxSendLoop now reserve chain total (number iss (mid + 1)) l).1.conn.sendView := by
  induction chain generalizing l total mid with
  | nil =>
    obtain rfl : total = 0 := by simpa using htotal
    rw [Nat.add_zero] at hlen
    subst hlen
    exact hq
  | cons front rest ih =>
    unfold rtxSendLoop
    unfold chainPieces at hfit
    by_cases hzero : total = 0
    · rw [if_pos hzero]
      obtain rfl : mid = sent.length := by omega
      exact hq
    rw [if_neg hzero] at hfit ⊢
    rw [flatten_cons, length_append] at htotal
    rw [flatten_cons] at hbytes
    by_cases hfront : front.length ≤ total
    · -- a whole buffer
      rw [if_pos hfront] at hfit ⊢
      have hsplit : sent.drop mid = front ++ rest.flatten.take (total - front.length) := by
        rw [hbytes, take_append, take_of_length_le hfront]
      cases hres : reserve l.conn.rtxQueue.length with
      | false => exact suspended_tracks l
      | true =>
        have hpush := rtxPush_tracks now hok hq (hfit front (mem_cons_self ..))
          (by rw [hsplit, take_left']; rfl) (by omega) hnear
        have hrest := ih (rtxPush_ok hok) hpush
          (fun piece hp => hfit piece (mem_cons_of_mem _ hp)) (by omega)
          (by omega) (by rw [← drop_drop, hsplit, drop_left'] ; rfl)
        dsimp only
        rw [if_pos (show (l.rtxPush front _ _ now true).2 = true from rfl), number_add,
          Nat.add_right_comm]
        exact hrest
    · -- the front of the last buffer
      rw [if_neg hfront] at hfit ⊢
      have hlast : sent.drop mid = front.take total := by
        rw [hbytes, take_append_of_le_length (by omega)]
      have hlen' : (front.take total).length = total := by
        rw [length_take]
        omega
      cases hres : reserve l.conn.rtxQueue.length with
      | false => exact suspended_tracks l
      | true =>
        have hpush := rtxPush_tracks now hok hq (hfit _ (mem_singleton_self _))
          (by rw [hlast, take_of_length_le (le_refl _)]) (by omega) hnear
        rwa [hlen', hlen] at hpush

theorem rtxOnDataSentSlice_tracks {payload : Bytes} (now : ℕ) (staged reserved : Bool)
    (hok : l.conn.rtxAllocFailed = false) (hne : payload ≠ [])
    (hq : Tracks iss sent lo mid l.conn.sendView)
    (hnxt : l.conn.sndNxt - UInt32.ofNat payload.length = number iss (mid + 1))
    (hfit : payload.length < 65536) (hlen : mid + payload.length = sent.length)
    (hbytes : sent.drop mid = payload) (hnear : sent.length < lo + 2 ^ 32) :
    Tracks iss sent lo sent.length
      (l.rtxOnDataSentSlice payload now staged reserved).conn.sendView := by
  unfold rtxOnDataSentSlice
  rw [if_neg (by simp [hok, hne]), hnxt]
  cases staged with
  | false => exact suspended_tracks l
  | true =>
    cases reserved with
    | false => exact suspended_tracks l
    | true =>
      have hpush := rtxPush_tracks now hok hq hfit
        (by rw [hbytes, take_of_length_le (le_refl _)]) (by omega) hnear
      rwa [hlen] at hpush

end Local

/-- The frames carry the first `n` bytes, each at its place. -/
structure Emitted (seq : UInt32) (bytes : Bytes) (frames : List TxSegment) (n : ℕ) : Prop where
  le : n ≤ bytes.length
  whole : frames.flatMap TxSegment.payload = bytes.take n
  placed : ∀ f ∈ frames, ∃ k, f.head.seq = seq + UInt32.ofNat k ∧ k + f.payload.length ≤ n ∧
    f.payload = (bytes.drop k).take f.payload.length

theorem Emitted.none (seq : UInt32) (bytes : Bytes) : Emitted seq bytes [] 0 :=
  ⟨Nat.zero_le _, rfl, by simp⟩

theorem Emitted.one (head : SegmentMeta) (bytes : Bytes) :
    Emitted head.seq bytes [⟨head, bytes, []⟩] bytes.length := by
  refine ⟨le_refl _, by simp, fun f hf => ⟨0, ?_, ?_, ?_⟩⟩ <;> obtain rfl := mem_singleton.1 hf
  · simp
  · simp
  · simp

theorem sendPerMssFallback_emitted {mss : ℕ} (hmss : mss ≤ mssMax) (room : ℕ) (head : SegmentMeta)
    (bytes : Bytes) :
    Emitted head.seq bytes (sendPerMssFallback mss room head bytes).1
      (sendPerMssFallback mss room head bytes).2 := by
  induction room generalizing head bytes with
  | zero => exact .none _ _
  | succ room ih =>
    unfold sendPerMssFallback
    split
    · exact .none _ _
    · have hrest := ih { head with seq := head.seq + UInt32.ofNat (min bytes.length mss) }
        (bytes.drop (min bytes.length mss))
      have htrunc : min (min bytes.length mss) mssMax = min bytes.length mss := by omega
      have hlen : (bytes.take (min bytes.length mss)).length = min bytes.length mss := by
        rw [length_take]
        omega
      dsimp only
      rw [htrunc]
      generalize sendPerMssFallback mss room _ _ = r at hrest ⊢
      obtain ⟨frames, n⟩ := r
      generalize min bytes.length mss = chunk at hrest hlen ⊢
      obtain ⟨hle, hwhole, hplaced⟩ := hrest
      rw [length_drop] at hle
      rw [length_take] at hlen
      refine ⟨by omega, ?_, fun f hf => ?_⟩
      · rw [flatMap_cons, hwhole, take_add]
      · rcases mem_cons.1 hf with rfl | hf
        · refine ⟨0, by simp, ?_, ?_⟩
          · rw [length_take]
            omega
          · rw [drop_zero, length_take, hlen]
        · obtain ⟨k, hseq, hk, hpay⟩ := hplaced f hf
          refine ⟨chunk + k, ?_, by omega, ?_⟩
          · rw [hseq, UInt32.ofNat_add, UInt32.add_assoc]
          · rw [← drop_drop]
            exact hpay

theorem Local.emitData_emitted {c : TcpConnection κ} (hmss : c.sndMss ≤ mssMax) (d : Driver)
    (bytes : Bytes) : Emitted c.sndNxt bytes (emitData c d bytes).1 (emitData c d bytes).2 := by
  have hseq : c.sndNxt = (c.header c.sndNxt c.rcvNxt (tcpAck ||| tcpPsh) c.rxFree).seq := rfl
  unfold emitData
  rw [hseq]
  split
  · unfold sendSuperSegment
    split
    · exact .none _ _
    split
    · exact .one _ bytes
    · exact sendPerMssFallback_emitted hmss _ _ bytes
  · exact sendPerMssFallback_emitted hmss _ _ bytes

def TxSegment.Carries (iss : UInt32) (sent : Bytes) (f : TxSegment) : Prop :=
  f.payload = [] ∨ ∃ p, f.head.seq = number iss (p + 1) ∧ p + f.payload.length ≤ sent.length ∧
    f.payload = (sent.drop p).take f.payload.length

namespace TxSegment

variable {f : TxSegment}

theorem Carries.extend (h : f.Carries iss sent) (more : Bytes) : f.Carries iss (sent ++ more) := by
  rcases h with h | ⟨p, hseq, hle, hpay⟩
  · exact .inl h
  · refine .inr ⟨p, hseq, ?_, ?_⟩
    · rw [length_append]
      omega
    · rw [drop_append_of_le_length (by omega), take_append_of_le_length]
      · exact hpay
      · rw [length_drop]
        omega

theorem Resends.carries {v : SendView} (h : f.Resends v.queue) (hq : Tracks iss sent lo hi v) :
    f.Carries iss sent := by
  rcases h with h | ⟨r, hr, hseq, hpay⟩
  · exact .inl h
  · unfold Tracks at hq
    split at hq
    · rw [hq.1] at hr
      cases hr
    · obtain ⟨p, -, hnum, hle, hbytes⟩ := hq.1.mem hr
      have hlen := hpay.length_le
      refine .inr ⟨p, hseq.trans hnum, by omega, ?_⟩
      rw [prefix_iff_eq_take.1 hpay, length_take, Nat.min_eq_left hlen]
      rw [hbytes, take_take, Nat.min_eq_left hlen]

theorem carries_of_emitted {frames : List TxSegment} {bytes : Bytes} {n : ℕ}
    (h : Emitted (number iss (sent.length + 1)) bytes frames n) (hf : f ∈ frames) :
    f.Carries iss (sent ++ bytes.take n) := by
  obtain ⟨k, hseq, hk, hpay⟩ := h.placed f hf
  have hn := h.le
  refine .inr ⟨sent.length + k, ?_, ?_, ?_⟩
  · rw [hseq, number_add, Nat.add_right_comm]
  · rw [length_append, length_take]
    omega
  · rw [drop_append, drop_eq_nil_of_le (by omega), nil_append,
      Nat.add_sub_cancel_left, drop_take, take_take, Nat.min_eq_left (by omega)]
    exact hpay

end TxSegment

end Waitless.Tcp
