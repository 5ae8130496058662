import Waitless.SerialNumber
import Waitless.TcpRecvQueue
import Mathlib.Tactic.SplitIfs

/-! # Reassembly

What the receive queues do to the stream. The ring appends what it has room for
(`rxRingPush_spec`), and `drainOoo_spec` says that draining appends exactly the bytes of the stream
that follow. -/

namespace Waitless.Tcp

open SerialNumber List RingBuffer

namespace RecvHalf

variable {r r' : RecvHalf}

/-- The cursors of the ring. -/
structure RingOk (r : RecvHalf) : Prop where
  head : r.rxHead < rxRingBytes
  tail : r.rxTail = (r.rxHead + r.rxUsed) % rxRingBytes
  used : r.rxUsed < rxRingBytes
  absent : r.rxRing = none → r.rxUsed = 0

/-- The ring takes no further byte. -/
def Stuck (r : RecvHalf) : Prop := r.rxFree = 0 ∨ r.rxRing = none

/-- `xs` went into the ring, and nothing else changed. -/
structure Poured (r r' : RecvHalf) (xs : Bytes) : Prop where
  ring : RingOk r'
  bytes : r'.ringBytes = r.ringBytes ++ xs
  frame : r' = { r with rxRing := r'.rxRing, rxTail := r'.rxTail, rxUsed := r'.rxUsed }

theorem Poured.refl (h : RingOk r) : Poured r r [] := ⟨h, by simp, rfl⟩

theorem Poured.trans {r'' : RecvHalf} {xs ys : Bytes} (h : Poured r r' xs) (h' : Poured r' r'' ys) :
    Poured r r'' (xs ++ ys) := by
  refine ⟨h'.ring, by rw [h'.bytes, h.bytes, append_assoc], ?_⟩
  rw [h'.frame, h.frame]

theorem ringBytes_length (h : RingOk r) : r.ringBytes.length = r.rxUsed := by
  unfold ringBytes
  split
  · exact length_contents
  · rw [h.absent ‹_›]
    rfl

/-- **A push appends what there is room for.** -/
theorem rxRingPush_spec (h : RingOk r) (payload : Bytes) :
    Poured r (r.rxRingPush payload).1 (payload.take (r.rxRingPush payload).2) ∧
      (r.rxRingPush payload).2 ≤ payload.length ∧
      ((r.rxRingPush payload).2 < payload.length → Stuck (r.rxRingPush payload).1) := by
  unfold rxRingPush
  split_ifs with hnil hfull
  · have : payload = [] := isEmpty_iff.1 hnil
    subst this
    exact ⟨.refl h, Nat.le_refl _, fun hlt => absurd hlt (Nat.lt_irrefl _)⟩
  · refine ⟨?_, Nat.zero_le _, fun _ => .inl hfull⟩
    rw [take_zero]
    exact .refl h
  · split
    next hring =>
      refine ⟨?_, Nat.zero_le _, fun _ => .inr hring⟩
      rw [take_zero]
      exact .refl h
    next mem hring =>
      have hlen : (payload.take (min payload.length r.rxFree)).length =
          min payload.length r.rxFree := by simp
      have hfree : r.rxUsed + min payload.length r.rxFree < rxRingBytes := by
        unfold rxFree at hfull ⊢
        omega
      refine ⟨⟨⟨h.head, ?_, hfree, fun hn => by cases hn⟩, ?_, rfl⟩, Nat.min_le_left _ _, ?_⟩
      · dsimp only
        rw [h.tail, Nat.mod_add_mod, Nat.add_assoc]
      · -- the ring's memory holds the old contents and the new bytes
        have hfits : r.rxUsed + (payload.take (min payload.length r.rxFree)).length ≤ rxRingBytes := by
          rw [hlen]
          omega
        have hcont := contents_writeWrapped mem h.head hfits h.tail
        rw [hlen] at hcont
        unfold ringBytes
        dsimp only
        rw [hcont, hring]
      · intro hlt
        left
        unfold rxFree at hfull hlt ⊢
        dsimp only at hlt ⊢
        omega

theorem rxRingPush_stuck (h : Stuck r) (payload : Bytes) : r.rxRingPush payload = (r, 0) := by
  unfold rxRingPush
  split_ifs with hnil hfull
  · rfl
  · rfl
  · rcases h with h | h
    · exact absurd h hfull
    · rw [h]

theorem rxTake_spec (h : RingOk r) (cap : ℕ) :
    RingOk (r.rxTake cap).1 ∧ (r.rxTake cap).2 ++ (r.rxTake cap).1.ringBytes = r.ringBytes ∧
      (r.rxTake cap).2.length = min cap r.rxUsed ∧
      (r.rxTake cap).1 =
        { r with rxHead := (r.rxTake cap).1.rxHead, rxUsed := (r.rxTake cap).1.rxUsed } := by
  unfold rxTake
  split_ifs with hnone
  · refine ⟨h, rfl, ?_, rfl⟩
    rw [length_nil]
    omega
  · split
    next hring =>
      refine ⟨h, rfl, ?_, rfl⟩
      rw [h.absent hring, length_nil, Nat.min_zero]
    next mem hring =>
      dsimp only
      have hle : min cap r.rxUsed ≤ r.rxUsed := Nat.min_le_right _ _
      have hused := h.used
      have hread := readWrapped_eq_contents mem h.head hle (Nat.le_of_lt hused)
      refine ⟨⟨Nat.mod_lt _ (by decide), ?_, by dsimp only; omega, fun hn => ?_⟩, ?_, ?_, rfl⟩
      · dsimp only
        rw [h.tail, Nat.mod_add_mod]
        congr 1
        omega
      · rw [hring] at hn
        cases hn
      · unfold ringBytes
        rw [hring, hread]
        dsimp only
        rw [contents_advance hle, take_append_drop]
      · rw [hread, length_take, length_contents]
        omega

end RecvHalf

section Queue

variable {S : Bytes} {base : UInt32}

/-- The bytes of the stream from position `p` on. -/
structure SegAt (S : Bytes) (base : UInt32) (s : OooSeg) (p : ℕ) : Prop where
  seqStart : s.seqStart = number base p
  bytes : s.bytes = (S.drop p).take s.bytes.length

/-- At positions from `lo` up to `hi`, ascending and disjoint. -/
def Queued (S : Bytes) (base : UInt32) : ℕ → ℕ → List OooSeg → Prop
  | _, _, [] => True
  | lo, hi, s :: rest => ∃ p, lo ≤ p ∧ p + s.bytes.length ≤ hi ∧ SegAt S base s p ∧
      Queued S base (p + s.bytes.length) hi rest

theorem Queued.mono {lo lo' hi hi' : ℕ} {segs : List OooSeg} (h : Queued S base lo hi segs)
    (hlo : lo' ≤ lo) (hhi : hi ≤ hi') : Queued S base lo' hi' segs := by
  induction segs generalizing lo lo' with
  | nil => trivial
  | cons s rest ih =>
    obtain ⟨p, hp, hend, hat, hrest⟩ := h
    exact ⟨p, by omega, by omega, hat, ih hrest (Nat.le_refl _)⟩

theorem SegAt.le {s : OooSeg} {p : ℕ} (h : SegAt S base s p) (hs : 0 < s.bytes.length) :
    p + s.bytes.length ≤ S.length := by
  have := congrArg length h.bytes
  rw [length_take, length_drop] at this
  omega

namespace OooQueue

theorem offset_eq {s : OooSeg} (pos : ℕ) {p : ℕ} (h : SegAt S base s p) (hp : pos ≤ p)
    (hp' : p < pos + 2 ^ 32) : offset (number base pos) s = p - pos := by
  unfold offset
  rw [h.seqStart, distance hp hp']

theorem insertSorted_queued {pos lo hi p : ℕ} {new : OooSeg} {segs : List OooSeg}
    (h : Queued S base lo hi segs) (hpos : pos < lo) (hhi : hi < pos + 2 ^ 32)
    (hnew : SegAt S base new p) (hlen : 0 < new.bytes.length) (hlo : lo ≤ p)
    (hend : p + new.bytes.length ≤ hi)
    (hfree : ∀ s ∈ segs, overlaps (number base pos) (p - pos) (p - pos + new.bytes.length) s = false) :
    Queued S base lo hi (insertSorted (number base pos) new segs) := by
  induction segs generalizing lo with
  | nil => exact ⟨p, hlo, hend, hnew, trivial⟩
  | cons s rest ih =>
    obtain ⟨q, hq, hqend, hat, hrest⟩ := h
    have hov := hfree s mem_cons_self
    have hoff := offset_eq pos hat (by omega) (by omega)
    have hoff' := offset_eq pos hnew (by omega) (by omega)
    unfold overlaps at hov
    rw [hoff, Bool.and_eq_false_iff, decide_eq_false_iff_not, decide_eq_false_iff_not] at hov
    unfold insertSorted
    rw [hoff, hoff']
    split
    · exact ⟨p, hlo, hend, hnew, q, by omega, hqend, hat, hrest⟩
    · refine ⟨q, hq, hqend, hat, ih hrest (by omega) (by omega) fun s hs => ?_⟩
      exact hfree s (mem_cons_of_mem _ hs)

theorem insert_queued {q : OooQueue} {pos : ℕ} {seqStart : UInt32} {bytes : Bytes}
    (h : Queued S base (pos + 1) (pos + oooMaxBytes) q.segs)
    (hbytes : (seqStart - number base pos).toNat < oooMaxBytes →
      bytes = (S.drop (pos + (seqStart - number base pos).toNat)).take bytes.length) :
    Queued S base (pos + 1) (pos + oooMaxBytes)
      (q.insert (number base pos) seqStart bytes).1.segs := by
  unfold insert
  split
  · exact h
  rename_i hroom
  dsimp only
  split
  · exact h
  split
  · exact h
  rename_i hfree
  split
  · exact h
  have hseq : seqStart = number base (pos + (seqStart - number base pos).toNat) := eq_number
  generalize hd : (seqStart - number base pos).toNat = off at *
  have hoff' : 0 < off ∧ off < oooMaxBytes := by omega
  have hmax : oooMaxBytes = 16384 := rfl
  have hne : 0 < bytes.length := by
    rw [Bool.or_eq_true, not_or] at hroom
    exact length_pos_iff.2 fun hn => hroom.1 (by simp [hn])
  refine insertSorted_queued (p := pos + off) h (by omega) (by omega) ⟨hseq, ?_⟩ ?_ (by omega) ?_ ?_
  · -- the cut keeps a front part
    have hb := hbytes hoff'.2
    rw [length_take]
    conv_lhs => rw [hb, take_take]
  · rw [length_take]
    omega
  · rw [length_take]
    omega
  · intro s hs
    rw [Nat.add_sub_cancel_left]
    by_contra hov
    exact hfree (any_eq_true.2 ⟨s, hs, by simpa using hov⟩)

theorem takeLoop_spec {pos lo hi : ℕ} {segs : List OooSeg} (h : Queued S base lo hi segs)
    (hpos : pos ≤ lo + 2 ^ 31) (hhi : hi < pos + 2 ^ 31) (total : ℕ) :
    match takeLoop (number base pos) segs total with
    | (none, q) => Queued S base (pos + 1) hi q.segs
    | (some s, q) => ∃ p, SegAt S base s p ∧ lo ≤ p ∧ p ≤ pos ∧ pos < p + s.bytes.length ∧
        p + s.bytes.length ≤ hi ∧ Queued S base (p + s.bytes.length) hi q.segs ∧
        q.segs.length < segs.length := by
  induction segs generalizing lo total with
  | nil => trivial
  | cons s rest ih =>
    obtain ⟨p, hp, hend, hat, hrest⟩ := h
    have hrel : (s.seqStart - number base pos).toInt32.toInt = (p : Int) - pos := by
      rw [hat.seqStart, toInt_distance (by omega) (by omega)]
    have hlt : 0 < (s.seqStart - number base pos).toInt32 ↔ pos < p := by
      rw [Int32.lt_iff_toInt_lt, hrel, Int32.toInt_zero]
      omega
    unfold takeLoop
    dsimp only
    rw [hrel]
    split_ifs with hgap hreach
    · exact ⟨p, hlt.1 hgap, hend, hat, hrest⟩
    · have hle : p ≤ pos := by
        have := mt hlt.2 hgap
        omega
      exact ⟨p, hat, hp, hle, by omega, hend, hrest, by simp⟩
    · have := ih hrest (by omega) (total - s.bytes.length)
      split at this
      · exact this
      · obtain ⟨p', hat', hlo', hle', hreach', hend', hrest', hlen'⟩ := this
        exact ⟨p', hat', by omega, hle', hreach', hend', hrest', by simp; omega⟩

end OooQueue

theorem SegAt.tail {s : OooSeg} {p pos : ℕ} (h : SegAt S base s p) (hle : p ≤ pos)
    (hlt : pos < p + s.bytes.length) (hnear : pos < p + 2 ^ 32) :
    s.bytes.drop (number base pos - s.seqStart).toNat =
      (S.drop pos).take (p + s.bytes.length - pos) := by
  rw [h.seqStart, distance hle hnear]
  conv_lhs => rw [h.bytes]
  have hfirst : p + (pos - p) = pos := by omega
  have hrest : s.bytes.length - (pos - p) = p + s.bytes.length - pos := by omega
  rw [drop_take, drop_drop, hfirst, hrest]

end Queue

namespace RecvHalf

variable {S : Bytes} {base : UInt32}

structure Drained (S : Bytes) (base : UInt32) (pos hi : ℕ) (r r' : RecvHalf) (n : ℕ) : Prop where
  ring : RingOk r'
  bytes : r'.ringBytes = r.ringBytes ++ (S.drop pos).take n
  rcvNxt : r'.rcvNxt = number base (pos + n)
  queue : Queued S base (pos + n + 1) hi r'.ooo.segs
  within : n = 0 ∨ pos + n ≤ hi ∧ pos + n ≤ S.length
  pendingChunk : r'.pendingChunk = r.pendingChunk

theorem take_drop_take {α : Type*} (xs : List α) (p n m : ℕ) :
    (xs.drop p).take n ++ (xs.drop (p + n)).take m = (xs.drop p).take (n + m) := by
  rw [take_add, drop_drop]

theorem drainLoop_spec (rounds : ℕ) {pos lo hi : ℕ} {r : RecvHalf} (delivered : ℕ) (hring : RingOk r)
    (hnxt : r.rcvNxt = number base pos) (hq : Queued S base lo hi r.ooo.segs)
    (hpos : pos ≤ lo + 2 ^ 31) (hhi : hi < pos + 2 ^ 31) (hlen : r.ooo.segs.length < rounds) :
    ∃ n, (drainLoop rounds r delivered).2 = delivered + n ∧
      Drained S base pos hi r (drainLoop rounds r delivered).1 n := by
  induction rounds generalizing pos lo r delivered with
  | zero => omega
  | succ rounds ih =>
    have htake := OooQueue.takeLoop_spec hq hpos hhi r.ooo.totalBytes
    rw [← hnxt] at htake
    unfold drainLoop OooQueue.takeAt
    generalize OooQueue.takeLoop r.rcvNxt r.ooo.segs r.ooo.totalBytes = t at htake
    obtain ⟨o, q⟩ := t
    cases o with
    | none =>
      refine ⟨0, rfl, ⟨hring.head, hring.tail, hring.used, hring.absent⟩, ?_, hnxt, htake,
        .inl rfl, rfl⟩
      simp [ringBytes]
    | some seg =>
      obtain ⟨p, hat, hlo, hle, hreach, hend, hrest, hless⟩ := htake
      have htail : seg.bytes.drop (r.rcvNxt - seg.seqStart).toNat =
          (S.drop pos).take (p + seg.bytes.length - pos) := by
        rw [hnxt]
        exact hat.tail hle hreach (by omega)
      have hin := hat.le (by omega)
      dsimp only
      rw [htail]
      have hring' : RingOk { r with ooo := q } :=
        ⟨hring.head, hring.tail, hring.used, hring.absent⟩
      have hpush := rxRingPush_spec hring' ((S.drop pos).take (p + seg.bytes.length - pos))
      generalize RecvHalf.rxRingPush { r with ooo := q }
        ((S.drop pos).take (p + seg.bytes.length - pos)) = t at hpush
      obtain ⟨r1, pushed⟩ := t
      obtain ⟨hpour, hple, -⟩ := hpush
      dsimp only at hpour hple ⊢
      have htlen : ((S.drop pos).take (p + seg.bytes.length - pos)).length =
          p + seg.bytes.length - pos := by
        rw [length_take, length_drop]
        omega
      rw [htlen] at hple ⊢
      rw [take_take, Nat.min_eq_left hple] at hpour
      have hnxt1 : r1.rcvNxt + UInt32.ofNat pushed = number base (pos + pushed) := by
        rw [hpour.frame, ← number_add]
        exact congrArg (· + UInt32.ofNat pushed) hnxt
      have hsegs : r1.ooo.segs = q.segs := by rw [hpour.frame]
      have hpend : r1.pendingChunk = r.pendingChunk := by rw [hpour.frame]
      have hring1 : RingOk { r1 with rcvNxt := r1.rcvNxt + UInt32.ofNat pushed } :=
        ⟨hpour.ring.head, hpour.ring.tail, hpour.ring.used, hpour.ring.absent⟩
      split
      · -- the ring is full in the middle of the segment
        exact ⟨pushed, rfl, hring1, hpour.bytes, hnxt1,
          hsegs ▸ hrest.mono (by omega) (Nat.le_refl hi), .inr ⟨by omega, by omega⟩, hpend⟩
      · have hrest1 : Queued S base (p + seg.bytes.length) hi r1.ooo.segs := by
          rw [hsegs]
          exact hrest
        obtain ⟨n, hn, hd⟩ := ih (delivered + pushed) hring1 hnxt1 hrest1 (by omega) (by omega)
          (by rw [hsegs]; omega)
        have hbytes1 : RecvHalf.ringBytes { r1 with rcvNxt := r1.rcvNxt + UInt32.ofNat pushed } =
            r.ringBytes ++ (S.drop pos).take pushed := hpour.bytes
        refine ⟨pushed + n, by rw [hn, Nat.add_assoc], hd.ring, ?_, ?_, ?_, ?_, ?_⟩
        · rw [hd.bytes, hbytes1, append_assoc, take_drop_take]
        · rw [hd.rcvNxt, Nat.add_assoc]
        · rw [← Nat.add_assoc]
          exact hd.queue
        · rcases hd.within with h | h
          · exact .inr ⟨by omega, by omega⟩
          · exact .inr ⟨by omega, by omega⟩
        · exact hd.pendingChunk.trans hpend

end RecvHalf

end Waitless.Tcp
