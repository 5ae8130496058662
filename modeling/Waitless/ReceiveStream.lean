import Waitless.ConnectionRun
import Waitless.Handles
import Waitless.Reassembly

/-! # The receive stream

A peer's stream `S` is numbered from `base`; segments carry parts of it in any order, again and
again, cut anywhere (`Agrees`).

After every run what was read, the stashed chunk and the ring are together the first `pos` bytes of
`S` (`receive_stream`), where the reads are those of `do_recv_chunk`. -/

namespace Waitless.Tcp

open SerialNumber Local RecvHalf Segment UInt32
open List hiding Vector after

variable {κ : Type} {S : Bytes} {base : UInt32}

namespace Segment

variable (seg : Segment)

theorem length_payload : seg.payload.length = seg.payloadLen := by
  simp [payload, payloadLen, totalLen]

end Segment

namespace Local

open RecvHalf

variable {r : RecvHalf}

theorem deliverParts_stuck (h : Stuck r) (parts : List Bytes) (skip : ℕ) :
    deliverParts parts skip r = (r, 0) := by
  induction parts generalizing skip with
  | nil => rfl
  | cons part rest ih =>
    unfold deliverParts
    split
    · exact ih _
    · simp only [rxRingPush_stuck h, ih]

theorem deliverParts_spec (h : RingOk r) (parts : List Bytes) (skip : ℕ) :
    Poured r (deliverParts parts skip r).1
        ((parts.flatten.drop skip).take (deliverParts parts skip r).2) ∧
      (deliverParts parts skip r).2 ≤ (parts.flatten.drop skip).length := by
  induction parts generalizing skip r with
  | nil => exact ⟨by simpa [deliverParts] using Poured.refl h, by simp [deliverParts]⟩
  | cons part rest ih =>
    unfold deliverParts
    split
    next hskip =>
      have hdrop : (part :: rest).flatten.drop skip = rest.flatten.drop (skip - part.length) := by
        rw [flatten_cons, drop_append, drop_eq_nil_of_le hskip, nil_append]
      rw [hdrop]
      exact ih h _
    · have hdrop : (part :: rest).flatten.drop skip = part.drop skip ++ rest.flatten := by
        rw [flatten_cons, drop_append_of_le_length (by omega)]
      rw [hdrop]
      obtain ⟨hpour, hle, hstuck⟩ := rxRingPush_spec h (part.drop skip)
      generalize r.rxRingPush (part.drop skip) = t at hpour hle hstuck
      obtain ⟨r1, n⟩ := t
      dsimp only at hpour hle hstuck ⊢
      by_cases hfull : n < (part.drop skip).length
      · rw [deliverParts_stuck (hstuck hfull)]
        rw [Nat.add_zero, take_append_of_le_length hle, length_append]
        exact ⟨hpour, by omega⟩
      · have hn : n = (part.drop skip).length := by omega
        obtain ⟨hpour', hle'⟩ := ih hpour.ring 0
        rw [drop_zero] at hpour' hle'
        have hboth := hpour.trans hpour'
        refine ⟨?_, by rw [length_append]; omega⟩
        rw [hn, take_length] at hboth
        rw [hn, take_length_add_append]
        exact hboth

theorem gatherParts_eq (parts : List Bytes) (skip : ℕ) :
    gatherParts parts skip = parts.flatten.drop skip := by
  induction parts generalizing skip with
  | nil => simp [gatherParts]
  | cons part rest ih =>
    unfold gatherParts
    split
    next hskip =>
      rw [ih, flatten_cons, drop_append, drop_eq_nil_of_le hskip, nil_append]
    · rw [ih, drop_zero, flatten_cons, drop_append_of_le_length (by omega)]

/-- The queues of the receive half are in order. -/
structure RecvOk (r : RecvHalf) : Prop where
  ring : RingOk r
  chunk : ∀ c, r.pendingChunk = some c → c ≠ []

theorem unread_of_poured {r' : RecvHalf} {xs : Bytes} (h : Poured r r' xs) :
    r'.unread = r.unread ++ xs := by
  have hpend : r'.pendingChunk = r.pendingChunk := by rw [h.frame]
  rw [unread, unread, hpend, h.bytes, append_assoc]

theorem deliver_spec {seg : Segment} (h : RecvOk r) (hlen : 0 < seg.payloadLen) :
    RecvOk (deliver r seg).1 ∧
      (deliver r seg).1.unread = r.unread ++ seg.payload.take (deliver r seg).2 ∧
      (deliver r seg).2 ≤ seg.payloadLen ∧ (deliver r seg).1.rcvNxt = r.rcvNxt ∧
      (deliver r seg).1.ooo = r.ooo := by
  have hparts : RecvOk (deliverParts seg.parts seg.dataOffset r).1 ∧
      (deliverParts seg.parts seg.dataOffset r).1.unread =
        r.unread ++ seg.payload.take (deliverParts seg.parts seg.dataOffset r).2 ∧
      (deliverParts seg.parts seg.dataOffset r).2 ≤ seg.payloadLen ∧
      (deliverParts seg.parts seg.dataOffset r).1.rcvNxt = r.rcvNxt ∧
      (deliverParts seg.parts seg.dataOffset r).1.ooo = r.ooo := by
    obtain ⟨hpour, hle⟩ := deliverParts_spec h.ring seg.parts seg.dataOffset
    refine ⟨⟨hpour.ring, ?_⟩, unread_of_poured hpour, ?_, by rw [hpour.frame], by rw [hpour.frame]⟩
    · rw [hpour.frame]
      exact h.chunk
    · rw [← seg.length_payload]
      exact hle
  unfold deliver
  split
  next part hone =>
    have hpayload : seg.payload = part.drop seg.dataOffset := by
      simp [payload, hone]
    have hplen : (part.drop seg.dataOffset).length = seg.payloadLen := by
      rw [← hpayload, seg.length_payload]
    split
    next hstash =>
      split
      · -- nothing is unread, so the stash comes first
        obtain ⟨-, hnone, hempty⟩ := hstash
        have hnothing : r.unread = [] := by
          have hring := ringBytes_length h.ring
          rw [hempty] at hring
          rw [unread, eq_nil_of_length_eq_zero hring]
          cases hp : r.pendingChunk with
          | none => rfl
          | some c => simp [hp] at hnone
        have hring : r.ringBytes = [] := (append_eq_nil_iff.1 hnothing).2
        have hchunk : (part.drop seg.dataOffset).take seg.payloadLen = seg.payload := by
          rw [hpayload, ← hplen, take_length]
        refine ⟨⟨⟨h.ring.head, h.ring.tail, h.ring.used, h.ring.absent⟩, ?_⟩, ?_, Nat.le_refl _,
          rfl, rfl⟩
        · intro c hc
          rw [hchunk] at hc
          cases hc
          exact ne_nil_of_length_pos (by rw [seg.length_payload]; exact hlen)
        · have hfull : seg.payload.take seg.payloadLen = seg.payload := by
            rw [← seg.length_payload, take_length]
          rw [hnothing, hfull, unread]
          rw [hchunk, Option.getD_some]
          exact (congrArg (seg.payload ++ ·) hring).trans (append_nil _)
      · rw [length_drop] at hplen
        omega
    · exact hparts
  · exact hparts

/-- The `n` bytes behind position `pos` were taken in. -/
structure Took (S : Bytes) (base : UInt32) (pos : ℕ) (r r' : RecvHalf) (n : ℕ) : Prop where
  ok : RecvOk r'
  unread : r'.unread = r.unread ++ (S.drop pos).take n
  rcvNxt : r'.rcvNxt = number base (pos + n)
  queue : Queued S base (pos + n + 1) (pos + n + oooMaxBytes) r'.ooo.segs
  le : pos + n ≤ S.length

theorem acceptInOrder_spec {seg : Segment} {pos : ℕ} (h : RecvOk r)
    (hnxt : r.rcvNxt = number base pos)
    (hq : Queued S base (pos + 1) (pos + oooMaxBytes) r.ooo.segs)
    (hlen : 0 < seg.payloadLen) (hshort : seg.payloadLen < 2 ^ 31)
    (hpay : seg.payload = (S.drop pos).take seg.payloadLen) :
    ∃ n, n ≤ max seg.payloadLen oooMaxBytes ∧
      Took S base pos r (acceptInOrder r seg).1 n := by
  obtain ⟨hok, hunread, hle, hnxt', hooo⟩ := deliver_spec h hlen
  have hmax : oooMaxBytes = 16384 := rfl
  have hin : pos + seg.payloadLen ≤ S.length := by
    have := congrArg length hpay
    rw [seg.length_payload, length_take, length_drop] at this
    omega
  unfold acceptInOrder
  generalize deliver r seg = t at hok hunread hle hnxt' hooo
  obtain ⟨r1, pushed⟩ := t
  dsimp only at hok hunread hle hnxt' hooo ⊢
  have hnxt1 : r1.rcvNxt + ofNat pushed = number base (pos + pushed) := by
    rw [hnxt', hnxt, number_add]
  have hunread1 : r1.unread = r.unread ++ (S.drop pos).take pushed := by
    rw [hunread, hpay, take_take, Nat.min_eq_left hle]
  have hring1 : RingOk { r1 with rcvNxt := r1.rcvNxt + ofNat pushed } :=
    ⟨hok.ring.head, hok.ring.tail, hok.ring.used, hok.ring.absent⟩
  split
  · -- nothing is buffered
    rename_i hempty
    have hsegs : r1.ooo.segs = [] := isEmpty_iff.1 hempty
    refine ⟨pushed, by omega, ⟨⟨hring1.head, hring1.tail, hring1.used, hring1.absent⟩, hok.chunk⟩,
      hunread1, hnxt1, ?_, by omega⟩
    rw [hsegs]
    trivial
  · have hq1 : Queued S base (pos + 1) (pos + oooMaxBytes) r1.ooo.segs := by
      rw [hooo]
      exact hq
    obtain ⟨n, -, hd⟩ := drainLoop_spec (r1.ooo.segs.length + 1) 0 hring1 hnxt1 hq1
      (by omega) (by omega) (by dsimp only; omega)
    have hdrain : drainOoo { r1 with rcvNxt := r1.rcvNxt + ofNat pushed } =
        drainLoop (r1.ooo.segs.length + 1)
          { r1 with rcvNxt := r1.rcvNxt + ofNat pushed } 0 := rfl
    rw [hdrain]
    generalize drainLoop (r1.ooo.segs.length + 1)
      { r1 with rcvNxt := r1.rcvNxt + ofNat pushed } 0 = t at hd
    obtain ⟨r2, drained⟩ := t
    refine ⟨pushed + n, ?_, ⟨⟨hd.ring.head, hd.ring.tail, hd.ring.used, hd.ring.absent⟩, ?_⟩, ?_,
      ?_, ?_, ?_⟩
    · rcases hd.within with h | h <;> omega
    · rw [hd.pendingChunk]
      exact hok.chunk
    · have hpend : r2.pendingChunk = r1.pendingChunk := hd.pendingChunk
      have hbytes : r2.ringBytes = r1.ringBytes ++ (S.drop (pos + pushed)).take n := hd.bytes
      change r2.unread = _
      rw [unread, hpend, hbytes, ← append_assoc, ← take_drop_take, ← append_assoc, ← hunread1]
      rfl
    · rw [← Nat.add_assoc]
      exact hd.rcvNxt
    · rw [← Nat.add_assoc]
      exact hd.queue.mono (Nat.le_refl _) (by omega)
    · rcases hd.within with h | h <;> omega

end Local

def Receives (st : TcpState) : Prop :=
  st = .synReceived ∨ st = .established ∨ st = .finWait1 ∨ st = .finWait2

def Finished (st : TcpState) : Prop := st = .closeWait ∨ st = .lastAck ∨ st = .timeWait

/-- What was `read` and what is unread are the stream up to `pos`. -/
structure StreamInv (S : Bytes) (base : UInt32) (read : Bytes) (pos : ℕ) (c : TcpConnection κ) :
    Prop where
  ok : Local.RecvOk c.toRecvHalf
  rcvNxt : c.rcvNxt = number base pos
  taken : read ++ c.unread = S.take pos
  phase : Receives c.state ∧ pos ≤ S.length ∧
      Queued S base (pos + 1) (pos + oooMaxBytes) c.ooo.segs ∨
    Finished c.state ∧ S.length ≤ pos

/-- What a step may do to the state without touching the stream. -/
def Onward (st st' : TcpState) : Prop :=
  (Receives st → Receives st') ∧ (Finished st → Finished st')

theorem Onward.of_eq {st st' : TcpState} (h : st' = st) : Onward st st' := h ▸ ⟨id, id⟩

theorem finished_finState {st : TcpState} (h : Receives st ∨ Finished st) :
    Finished (Local.finState st) := by
  rcases h with (hs | hs | hs | hs) | (hs | hs | hs) <;> simp [hs, finState, Finished]

theorem StreamInv.still {read : Bytes} {pos : ℕ} {c c' : TcpConnection κ}
    (h : StreamInv S base read pos c) (hrecv : c'.toRecvHalf.still = c.toRecvHalf.still)
    (hst : Onward c.state c'.state) : StreamInv S base read pos c' := by
  obtain ⟨hnxt, hring, hhead, htail, hused, hpend, hooo⟩ := of_still hrecv
  have hunread : c'.unread = c.unread := by
    unfold unread ringBytes
    rw [hpend, hring, hhead, hused]
  refine ⟨⟨⟨?_, ?_, ?_, ?_⟩, ?_⟩, hnxt.trans h.rcvNxt, ?_, ?_⟩
  · rw [hhead]
    exact h.ok.ring.head
  · rw [htail, hhead, hused]
    exact h.ok.ring.tail
  · rw [hused]
    exact h.ok.ring.used
  · rw [hring, hused]
    exact h.ok.ring.absent
  · rw [hpend]
    exact h.ok.chunk
  · rw [hunread]
    exact h.taken
  · rw [hooo]
    exact h.phase.imp (fun hp => ⟨hst.1 hp.1, hp.2⟩) fun hp => ⟨hst.2 hp.1, hp.2⟩

theorem StreamInv.steady {read : Bytes} {pos : ℕ} {l l' : Local κ}
    (h : StreamInv S base read pos l.conn) (hs : Steady l l') : StreamInv S base read pos l'.conn :=
  h.still hs.recv (.of_eq hs.state)

/-- A segment carries the bytes of the stream, and a FIN only past the last. -/
def Agrees (S : Bytes) (base : UInt32) (pos : ℕ) (seg : Segment) : Prop :=
  0 < seg.payloadLen ∨ seg.has tcpFin = true → ∃ p, seg.seq = number base p ∧ pos ≤ p + 2 ^ 31 ∧
    p + seg.payloadLen + 1 < pos + 2 ^ 31 ∧ seg.payload = (S.drop p).take seg.payloadLen ∧
    (seg.has tcpFin = true → S.length ≤ p + seg.payloadLen)

namespace Local

theorem take_append_drop_take (pos n : ℕ) : S.take pos ++ (S.drop pos).take n = S.take (pos + n) := by
  rw [take_add]

variable {l : Local κ} {pos : ℕ} {read : Bytes} {seg : Segment}

theorem processData_stream
    (h : StreamInv S base read pos l.conn) (hseg : Agrees S base pos seg) (reserved : Bool) :
    ∃ n, n ≤ max seg.payloadLen oooMaxBytes ∧ pos + n + 1 < pos + 2 ^ 31 ∧
      StreamInv S base read (pos + n) (l.processData seg reserved).conn ∧
      (l.processData seg reserved).conn.state = l.conn.state := by
  have hmax : oooMaxBytes = 16384 := rfl
  unfold processData
  dsimp only
  split
  next hdata =>
    obtain ⟨hlen, hst⟩ := hdata
    obtain ⟨p, hseq, hlo, hhi, hpay, -⟩ := hseg (.inl hlen)
    obtain ⟨hrecv, hpos, hq⟩ : Receives l.conn.state ∧ pos ≤ S.length ∧
        Queued S base (pos + 1) (pos + oooMaxBytes) l.conn.ooo.segs := by
      refine h.phase.resolve_right fun hfin => ?_
      rcases hfin.1 with hf | hf | hf <;> simp [hf] at hst
    split
    next hin =>
      have hnum : number base p = number base pos := by rw [← hseq, hin, h.rcvNxt]
      obtain rfl : p = pos := number_inj hnum (by omega) (by omega)
      obtain ⟨n, hn, ht⟩ := acceptInOrder_spec h.ok h.rcvNxt hq hlen (by omega) hpay
      generalize acceptInOrder l.conn.toRecvHalf seg = t at ht
      obtain ⟨r, m⟩ := t
      refine ⟨n, hn, by omega, ?_⟩
      have hinv : StreamInv S base read (p + n) { l.conn with toRecvHalf := r } := by
        refine ⟨ht.ok, ht.rcvNxt, ?_, .inl ⟨hrecv, ht.le, ht.queue⟩⟩
        have hunread : r.unread = l.conn.unread ++ (S.drop p).take n := ht.unread
        rw [hunread, ← append_assoc, h.taken, take_append_drop_take]
      split
      · have hs := (wakeRecv_steady { l with conn := { l.conn with toRecvHalf := r } }).trans
          (emitAck_steady _ seg)
        exact ⟨hinv.still hs.recv (.of_eq hs.state), hs.state⟩
      · have hs := emitAck_steady { l with conn := { l.conn with toRecvHalf := r } } seg
        exact ⟨hinv.still hs.recv (.of_eq hs.state), hs.state⟩
    · refine ⟨0, by omega, by omega, ?_⟩
      split
      · have hs := emitAck_steady l seg
        exact ⟨h.steady hs, hs.state⟩
      · -- a segment ahead of the stream
        have hinv : StreamInv S base read pos { l.conn with ooo := if reserved then
            (l.conn.ooo.insert l.conn.rcvNxt seg.seq (gatherParts seg.parts seg.dataOffset)).1
            else l.conn.ooo } := by
          refine ⟨⟨⟨h.ok.ring.head, h.ok.ring.tail, h.ok.ring.used, h.ok.ring.absent⟩, h.ok.chunk⟩,
            h.rcvNxt, h.taken, .inl ⟨hrecv, hpos, ?_⟩⟩
          split
          · rw [h.rcvNxt]
            refine OooQueue.insert_queued hq fun hoff => ?_
            have hnum : number base (pos + (seg.seq - number base pos).toNat) = number base p := by
              rw [← eq_number, hseq]
            have hp := number_inj hnum (by omega) (by omega)
            have hpl : gatherParts seg.parts seg.dataOffset = seg.payload := gatherParts_eq _ _
            rw [hp, hpl, seg.length_payload]
            exact hpay
          · exact hq
        have hs := emitAck_steady { l with conn := { l.conn with ooo := if reserved then
            (l.conn.ooo.insert l.conn.rcvNxt seg.seq (gatherParts seg.parts seg.dataOffset)).1
            else l.conn.ooo } } seg
        exact ⟨hinv.still hs.recv (.of_eq hs.state), hs.state⟩
  · exact ⟨0, by omega, by omega, h, rfl⟩

/-- **The FIN part**: consumed past the last byte only. -/
theorem processFin_stream
    (h : StreamInv S base read pos l.conn)
    (hfin : seg.has tcpFin = true → seg.seq + UInt32.ofNat seg.payloadLen = l.conn.rcvNxt →
      S.length ≤ pos) (now : ℕ) :
    ∃ k ≤ 1, StreamInv S base read (pos + k) (l.processFin seg now).conn := by
  unfold processFin
  split
  next hcons =>
    have hend := hfin hcons.1 hcons.2
    dsimp only
    obtain ⟨-, -, hrecv, hst⟩ := finTransition_touch
      ({ l with conn := { l.conn with rcvNxt := l.conn.rcvNxt + 1 } }.replyAck seg) now
    generalize finTransition
      ({ l with conn := { l.conn with rcvNxt := l.conn.rcvNxt + 1 } }.replyAck seg) now = l1
      at hrecv hst ⊢
    have hbase : StreamInv S base read (pos + 1)
        { l.conn with rcvNxt := l.conn.rcvNxt + 1, state := finState l.conn.state } := by
      refine ⟨⟨⟨h.ok.ring.head, h.ok.ring.tail, h.ok.ring.used, h.ok.ring.absent⟩, h.ok.chunk⟩, ?_,
        ?_, .inr ⟨?_, by omega⟩⟩
      · rw [h.rcvNxt, number_succ]
      · rw [take_of_length_le (by omega)]
        have := h.taken
        rwa [take_of_length_le hend] at this
      · exact finished_finState (h.phase.imp And.left And.left)
    have hinv : StreamInv S base read (pos + 1) l1.conn :=
      hbase.still hrecv (.of_eq hst)
    refine ⟨1, Nat.le_refl 1, ?_⟩
    split
    · exact hinv.steady (wakeRecv_steady l1)
    · exact hinv
  · exact ⟨0, by omega, h⟩

theorem afterAck_stream
    (h : StreamInv S base read pos l.conn) (hseg : Agrees S base pos seg) (prevState : TcpState)
    (now : ℕ) (reserved : Bool) : ∃ n < 2 ^ 31,
      StreamInv S base read (pos + n) (l.afterAck seg prevState now reserved).conn := by
  obtain ⟨n, hn, hshort, hdata, -⟩ := processData_stream h hseg reserved
  have hfin : seg.has tcpFin = true → seg.seq + ofNat seg.payloadLen =
      (l.processData seg reserved).conn.rcvNxt → S.length ≤ pos + n := by
    intro hflag hnum
    obtain ⟨p, hseq, hlo, hhi, -, hend⟩ := hseg (.inr hflag)
    have hnum' : number base (p + seg.payloadLen) = number base (pos + n) := by
      rw [← number_add, ← hseq, hnum, hdata.rcvNxt]
    have hp := number_inj hnum' (by omega) (by omega)
    have := hend hflag
    omega
  obtain ⟨k, hk, hinv⟩ := processFin_stream hdata hfin now
  refine ⟨n + k, by omega, ?_⟩
  have hs := (timeWaitReack_steady ((l.processData seg reserved).processFin seg now) seg prevState
    now).trans (establishedTail_steady _)
  rw [← Nat.add_assoc]
  exact hinv.steady hs

variable {l' : Local κ} {now : ℕ}

theorem close_recv (h : l.close now = some l') : SameRecv l l' := by
  unfold close at h
  split at h
  · cases h
    exact (armFinTimer_steady _ now).recv
  · cases h
    exact (armFinTimer_steady _ now).recv
  · cases h

theorem ackTransition_recv (c : TcpConnection κ) (ack : UInt32) (ackAdvances : Bool) :
    (ackTransition c ack ackAdvances).1.toRecvHalf = c.toRecvHalf := by
  unfold ackTransition
  split_ifs <;> rfl

theorem processAck_recv [CongestionControl κ] (l : Local κ) (seg : Segment) (now : ℕ) :
    SameRecv l (l.processAck seg now).1 := by
  have hack : (ackTransition (updateWindow l.conn seg) seg.ack
      (seqLt l.conn.sndUna seg.ack)).1.toRecvHalf = l.conn.toRecvHalf := by
    rw [ackTransition_recv]
    unfold updateWindow
    split <;> rfl
  unfold processAck
  dsimp only
  split
  · rfl
  · split
    · rfl
    next c' o _ h =>
      rw [h] at hack
      have hret := (rtxOnAck_retained { l with conn := c' } l.conn.sndUna now).recv
      exact (ackBookkeeping_steady _ seg _ _ now).recv.trans
        (hret.trans (congrArg still hack))

theorem processAck_onward [CongestionControl κ] {m : Local κ} {established : Bool}
    (hack : l.processAck seg now = (m, .done established)) :
    SameRecv l m ∧ Onward l.conn.state m.conn.state := by
  have hrecv := processAck_recv l seg now
  obtain ⟨-, hst⟩ := processAck_touch hack
  rw [hack] at hrecv
  refine ⟨hrecv, ?_⟩
  unfold AckStep at hst
  split at hst
  · rw [hst.1, hst.2]
    exact ⟨fun _ => .inr (.inl rfl), fun hf => by simp [Finished] at hf⟩
  · rcases hst with hs | ⟨hs, hs'⟩
    · exact .of_eq hs
    · rw [hs, hs']
      exact ⟨fun _ => .inr (.inr (.inr rfl)), fun hf => by simp [Finished] at hf⟩

theorem receive_stream_step [CongestionControl κ] (h : StreamInv S base read pos l.conn) (hseg : Agrees S base pos seg)
    {listening reserved : Bool} (hr : l.receive seg listening now reserved = some l') :
    ∃ n < 2 ^ 31, StreamInv S base read (pos + n) l'.conn := by
  rcases receive_cases hr with rfl | ⟨m, rfl | ⟨established, hack⟩, rfl⟩
  · exact ⟨0, by omega, h⟩
  · exact afterAck_stream h hseg _ now reserved
  · obtain ⟨hrecv, hon⟩ := processAck_onward hack
    exact afterAck_stream (h.still hrecv hon) hseg _ now reserved

/-- **A copying read** takes the front of the ring. -/
theorem rxPop_spec (h : RecvOk l.conn.toRecvHalf) (cap : ℕ) :
    RecvOk (l.rxPop cap).1.conn.toRecvHalf ∧
      (l.rxPop cap).2 ++ (l.rxPop cap).1.conn.ringBytes = l.conn.ringBytes ∧
      (l.rxPop cap).2.length = min cap l.conn.rxUsed ∧
      (l.rxPop cap).1.conn.rcvNxt = l.conn.rcvNxt ∧
      (l.rxPop cap).1.conn.pendingChunk = l.conn.pendingChunk ∧
      (l.rxPop cap).1.conn.ooo = l.conn.ooo ∧ (l.rxPop cap).1.conn.state = l.conn.state := by
  unfold rxPop
  split_ifs with hnone hring
  · refine ⟨h, rfl, ?_, rfl, rfl, rfl, rfl⟩
    rw [length_nil]
    omega
  · refine ⟨h, rfl, ?_, rfl, rfl, rfl, rfl⟩
    rw [h.ring.absent (by simpa using hring), Nat.min_zero, length_nil]
  · obtain ⟨hok, hbytes, hlen, hframe⟩ := rxTake_spec h.ring cap
    generalize l.conn.rxTake cap = t at hok hbytes hlen hframe
    obtain ⟨r, out⟩ := t
    dsimp only at hok hbytes hlen hframe ⊢
    have hs := maybeSendWindowUpdate_steady { l with conn := { l.conn with toRecvHalf := r } }
    obtain ⟨hnxt, hmem, hhead, htail, hused, hpend, hooo⟩ := of_still hs.recv
    refine ⟨⟨⟨?_, ?_, ?_, ?_⟩, ?_⟩, ?_, hlen, ?_, ?_, ?_, hs.state⟩
    · rw [hhead]
      exact hok.head
    · rw [htail, hhead, hused]
      exact hok.tail
    · rw [hused]
      exact hok.used
    · rw [hmem, hused]
      exact hok.absent
    · rw [hpend, hframe]
      exact h.chunk
    · rw [← hbytes]
      unfold ringBytes
      rw [hmem, hhead, hused]
    · rw [hnxt, hframe]
    · rw [hpend, hframe]
    · rw [hooo, hframe]

theorem asyncRecv_stream
    (h : StreamInv S base read pos l.conn) (hpend : l.conn.pendingChunk = none) (cap : ℕ) :
    StreamInv S base (read ++ (l.asyncRecv cap).2) pos (l.asyncRecv cap).1.conn := by
  obtain ⟨hok, hbytes, -, hnxt, hpend', hooo, hst⟩ := rxPop_spec h.ok cap
  refine ⟨hok, hnxt.trans h.rcvNxt, ?_, ?_⟩
  · have htaken := h.taken
    rw [unread, hpend] at htaken
    rw [unread, asyncRecv, hpend', hpend, ← htaken, ← hbytes]
    simp
  · rw [asyncRecv, hst, hooo]
    exact h.phase

theorem doRecvChunk_stream
    (h : StreamInv S base read pos l.conn) (reserved : Bool) :
    StreamInv S base (read ++ (l.doRecvChunk reserved).2.getD []) pos
      (l.doRecvChunk reserved).1.conn := by
  unfold doRecvChunk
  split
  next chunk hchunk =>
    refine ⟨⟨⟨h.ok.ring.head, h.ok.ring.tail, h.ok.ring.used, h.ok.ring.absent⟩,
      fun c hc => by cases hc⟩, h.rcvNxt, ?_, h.phase⟩
    have htaken := h.taken
    rw [unread, hchunk] at htaken
    rw [← htaken]
    simp [unread, ringBytes]
  next hnone =>
    have hsame : StreamInv S base (read ++ (none : Option Bytes).getD []) pos l.conn := by
      rw [Option.getD_none, append_nil]
      exact h
    split_ifs
    · exact hsame
    · exact hsame
    · exact asyncRecv_stream h hnone l.conn.rxUsed

def Aside : Event → Prop
  | .packet .. | .recv _ | .recvChunk _ => False
  | _ => True

theorem after_still [CongestionControl κ] {e : Event} {out : Bytes}
    (h : l.after e = (some l', out)) (he : Aside e) :
    SameRecv l l' ∧ Onward l.conn.state l'.conn.state ∧ out = [] := by
  cases e with
  | packet | recv | recvChunk => exact he.elim
  | sendChain chain d now reserve =>
    cases h
    obtain ⟨hr, hk⟩ := asyncTrySendChain_recv l chain d now reserve
    exact ⟨hr, .of_eq hk.2, rfl⟩
  | sendTso minPayload fill d now staged reserved =>
    cases h
    obtain ⟨hr, hk⟩ := trySendTso_recv l minPayload fill d now staged reserved
    exact ⟨hr, .of_eq hk.2, rfl⟩
  | close now =>
    obtain ⟨hc, rfl⟩ := Prod.mk.inj h
    refine ⟨close_recv hc, ?_, rfl⟩
    rcases (close_touch hc).2 with ⟨h1, h2⟩ | ⟨h1, h2⟩
    · rw [h1, h2]
      exact ⟨fun _ => .inr (.inr (.inl rfl)), fun hf => by simp [Finished] at hf⟩
    · rw [h1, h2]
      exact ⟨fun hf => by simp [Receives] at hf, fun _ => .inr (.inl rfl)⟩
  | chunkWanted wanted =>
    cases h
    exact ⟨rfl, .of_eq rfl, rfl⟩
  | tick now =>
    obtain ⟨ht, rfl⟩ := Prod.mk.inj h
    have hs := onTick_steady ht
    exact ⟨hs.recv, .of_eq hs.state, rfl⟩
  | pathMtu seq candidateMss =>
    cases h
    unfold notePathMtu
    dsimp only
    split
    · exact ⟨rfl, .of_eq rfl, rfl⟩
    · exact ⟨rfl, .of_eq rfl, rfl⟩

end Local

/-- With the bytes handed over and the position. -/
structure Reader (κ : Type) where
  link : Local κ
  read : Bytes
  pos : ℕ

namespace Reader

def conn (r : Reader κ) : TcpConnection κ := r.link.conn

def step [CongestionControl κ] : Option (Reader κ) → Event → Option (Reader κ)
  | none, _ => none
  | some r, e =>
    match r.link.after e with
    | (some l, out) =>
      some ⟨l, r.read ++ out, r.pos + (l.conn.rcvNxt - r.conn.rcvNxt).toNat⟩
    | (none, _) => none

/-- The start of a run: nothing received, nothing buffered. -/
structure Opened (base : UInt32) (c : TcpConnection κ) : Prop where
  state : c.state = .established ∨ c.state = .synReceived
  rcvNxt : c.rcvNxt = base
  head : c.rxHead < rxRingBytes
  tail : c.rxTail = c.rxHead
  used : c.rxUsed = 0
  pendingChunk : c.pendingChunk = none
  ooo : c.ooo.segs = []

/-- The packets of the run agree with the stream. -/
def Inbound (S : Bytes) (base : UInt32) (r : Reader κ) : Event → Prop
  | .packet srcIp dstIp parts _ _ _ =>
    ∀ seg, Segment.parse srcIp dstIp parts = some seg → Agrees S base r.pos seg
  | _ => True

def NoRecv : Event → Prop
  | .recv _ => False
  | _ => True

def RecvUnstashed (r : Reader κ) : Event → Prop
  | .recv _ => r.conn.pendingChunk = none
  | _ => True

theorem opened_inv {l : Local κ} (h : Opened base l.conn) : StreamInv S base [] 0 l.conn := by
  have hring : l.conn.ringBytes = [] := by
    unfold ringBytes
    rw [h.used]
    split <;> rfl
  refine ⟨⟨⟨h.head, ?_, ?_, fun _ => h.used⟩, fun c hc => ?_⟩, ?_, ?_, .inl ⟨?_, Nat.zero_le _, ?_⟩⟩
  · rw [h.tail, h.used, Nat.add_zero, Nat.mod_eq_of_lt h.head]
  · rw [h.used]
    decide
  · rw [h.pendingChunk] at hc
    cases hc
  · rw [h.rcvNxt, number_zero]
  · simp [unread, h.pendingChunk, hring]
  · rcases h.state with hs | hs
    · exact .inr (.inl hs)
    · exact .inl hs
  · rw [h.ooo]
    trivial

theorem step_stream [CongestionControl κ] {r r' : Reader κ} {e : Event}
    (h : StreamInv S base r.read r.pos r.conn) (hin : r.Inbound S base e) (hrecv : r.RecvUnstashed e)
    (hstep : step (some r) e = some r') :
    StreamInv S base r'.read r'.pos r'.conn ∧ ∃ n < 2 ^ 31, r'.pos = r.pos + n := by
  unfold step at hstep
  dsimp only at hstep
  split at hstep
  next l out hafter =>
    cases hstep
    -- in every case the stream goes on from the old position to the one `rcv_nxt` denotes
    suffices hsuff : ∃ n < 2 ^ 31, StreamInv S base (r.read ++ out) (r.pos + n) l.conn by
      obtain ⟨n, hn, hinv⟩ := hsuff
      have hdist : (l.conn.rcvNxt - r.conn.rcvNxt).toNat = n := by
        rw [hinv.rcvNxt, h.rcvNxt, distance (by omega) (by omega)]
        omega
      rw [hdist]
      exact ⟨hinv, n, hn, rfl⟩
    cases e with
    | packet srcIp dstIp parts listening now reserved =>
      unfold after at hafter
      dsimp only at hafter
      split at hafter
      next seg hseg =>
        obtain ⟨hr, rfl⟩ := Prod.mk.inj hafter
        rw [append_nil]
        exact receive_stream_step h (hin seg hseg) hr
      · cases hafter
        exact ⟨0, by omega, by rwa [append_nil]⟩
    | recv cap =>
      obtain ⟨hl, rfl⟩ := Prod.mk.inj hafter
      cases hl
      exact ⟨0, by omega, asyncRecv_stream h hrecv cap⟩
    | recvChunk reserved =>
      obtain ⟨hl, rfl⟩ := Prod.mk.inj hafter
      cases hl
      exact ⟨0, by omega, doRecvChunk_stream h reserved⟩
    | _ =>
      obtain ⟨hr, hon, rfl⟩ := after_still hafter trivial
      exact ⟨0, by omega, by rw [append_nil]; exact h.still hr hon⟩
  · cases hstep

/-- Packets agree with the stream, and the copying read is not used. -/
def Carries (S : Bytes) (base : UInt32) (o : Option (Reader κ)) (e : Event) : Prop :=
  ∀ r, o = some r → r.Inbound S base e ∧ NoRecv e

def Ordered (S : Bytes) (base : UInt32) (o : Option (Reader κ)) (e : Event) : Prop :=
  ∀ r, o = some r → r.Inbound S base e ∧ r.RecvUnstashed e

theorem Carries.ordered {o : Option (Reader κ)} {e : Event} (h : Carries S base o e) :
    Ordered S base o e := by
  intro r hr
  refine ⟨(h r hr).1, ?_⟩
  cases e with
  | recv cap => exact (h r hr).2.elim
  | _ => trivial

theorem run_stream [CongestionControl κ] {l : Local κ} {events : List Event}
    (hopen : Opened base l.conn)
    (hrun : Runs.Along step (Ordered S base) (some ⟨l, [], 0⟩) events) {r : Reader κ}
    (hr : events.foldl step (some ⟨l, [], 0⟩) = some r) : StreamInv S base r.read r.pos r.conn := by
  have hinv := hrun.invariant (I := fun o => ∀ r, o = some r → StreamInv S base r.read r.pos r.conn)
    (fun o e ho hi r' hr' => ?_) fun r hr => ?_
  · exact hinv r hr
  · cases o with
    | none => cases hr'
    | some r => exact (step_stream (hi r rfl) (ho r rfl).1 (ho r rfl).2 hr').1
  · cases hr
    exact opened_inv hopen

end Reader

theorem handshakeLink_opened : Reader.Opened 101 handshakeLink.conn := by
  constructor <;> decide +kernel

def peerPacket (seq : UInt8) (payload : Bytes) : Event :=
  .packet there here
    [[0x13, 0x88, 0, 80, 0, 0, 0, seq, 0, 0, 3, 0xE9, 0x50, 0x18, 0xFF, 0xFF, 0, 0, 0, 0] ++ payload]
    true 3 true

theorem peerPacket_inbound {r : Reader ConstantWindow} {seq : UInt8} {payload : Bytes} {p : ℕ}
    (hpos : r.pos ≤ p + 2 ^ 31) (hend : p + payload.length + 1 < r.pos + 2 ^ 31)
    (hseq : UInt32.ofNat seq.toNat = number 101 p)
    (hpay : payload = (S.drop p).take payload.length) :
    r.Inbound S 101 (peerPacket seq payload) := by
  intro seg hseg _
  cases hseg
  refine ⟨p, ?_, hpos, ?_, ?_, fun hfin => ?_⟩
  · rw [← hseq]
    simp [beU32]
  · simpa [payloadLen, totalLen] using hend
  · simpa [Segment.payload, Segment.payloadLen, Segment.totalLen] using hpay
  · exact absurd hfin (by simp only [has]; decide)

open Reader

/-- **The receive stream**: what was read, the stash and the ring are the front of `S`. -/
theorem receive_stream [CongestionControl κ] {l : Local κ} {events : List Event}
    (hopen : Reader.Opened base l.conn)
    (hrun : Runs.Along Reader.step (Reader.Carries S base) (some ⟨l, [], 0⟩) events) {r : Reader κ}
    (hr : events.foldl Reader.step (some ⟨l, [], 0⟩) = some r) :
    r.conn.rcvNxt = number base r.pos ∧
      r.read ++ r.conn.pendingChunk.getD [] ++ r.conn.ringBytes = S.take r.pos ∧
      ∀ e r', Reader.Carries S base (some r) e → Reader.step (some r) e = some r' →
        r.pos ≤ r'.pos ∧ seqLt r'.conn.rcvNxt r.conn.rcvNxt = false := by
  have hinv := run_stream hopen (hrun.mono fun _ _ h => h.ordered) hr
  refine ⟨hinv.rcvNxt, ?_, fun e r' he hstep => ?_⟩
  · rw [append_assoc]
    exact hinv.taken
  · have he' := he.ordered r rfl
    obtain ⟨hinv', n, hn, hpos⟩ := step_stream hinv he'.1 he'.2 hstep
    refine ⟨by omega, decide_eq_false ?_⟩
    rw [hinv'.rcvNxt, hinv.rcvNxt, neg_iff (by omega) (by omega)]
    omega

/-- Two bytes arrive early and wait in the ring. -/
theorem receive_stream_chunks :
    (([peerPacket 103 [3, 4], .chunkWanted true, peerPacket 101 [1, 2], .recvChunk true].foldl
      Reader.step (some ⟨handshakeLink, [], 0⟩)).map fun r =>
        (r.pos, r.read, r.conn.pendingChunk, r.conn.ringBytes)) = some (4, [1, 2], none, [3, 4]) ∧
    ∀ r, [peerPacket 103 [3, 4], .chunkWanted true, peerPacket 101 [1, 2], .recvChunk true].foldl
      Reader.step (some ⟨handshakeLink, [], 0⟩) = some r →
        r.read ++ r.conn.pendingChunk.getD [] ++ r.conn.ringBytes =
          ([1, 2, 3, 4, 5, 6] : Bytes).take r.pos := by
  refine ⟨by decide +kernel, fun r hr => (receive_stream handshakeLink_opened ?_ hr).2.1⟩
  have hpos : ((some ⟨handshakeLink, [], 0⟩ : Option (Reader ConstantWindow)).map pos) = some 0
      ∧ ([peerPacket 103 [3, 4], .chunkWanted true].foldl step
        (some ⟨handshakeLink, [], 0⟩)).map pos = some 0 := by decide +kernel
  refine ⟨fun r hr => ⟨?_, trivial⟩, fun r _ => ⟨trivial, trivial⟩, fun r hr => ⟨?_, trivial⟩,
    fun r _ => ⟨trivial, trivial⟩, trivial⟩
  · have h0 : r.pos = 0 := by simpa [hr] using hpos.1
    exact peerPacket_inbound (p := 2) (by omega) (by rw [h0]; decide) (by decide) (by decide)
  · have h0 : r.pos = 0 := by
      have := hpos.2
      simp only [foldl_cons, foldl_nil] at this
      simpa [hr] using this
    exact peerPacket_inbound (p := 0) (by omega) (by rw [h0]; decide) (by decide) (by decide)

/-- The oldest unread bytes, and nothing only when there are none. -/
def Reader.ReturnsOldest (r : Reader κ) (cap : ℕ) : Prop :=
  ((r.link.asyncRecv cap).2 = [] → r.conn.unread = []) ∧
    ((r.link.asyncRecv cap).2 ≠ [] → (r.link.asyncRecv cap).1.conn.pendingChunk = none)

theorem Reader.returnsOldest_iff {r : Reader κ} (h : Local.RecvOk r.conn.toRecvHalf) (cap : ℕ) :
    r.ReturnsOldest cap ↔ r.conn.unread = [] ∨ r.conn.pendingChunk = none ∧ 0 < cap := by
  obtain ⟨-, hbytes, hlen, -, hpend, -⟩ := rxPop_spec h cap
  have hused := ringBytes_length h.ring
  unfold ReturnsOldest asyncRecv
  rw [hpend]
  constructor
  · rintro ⟨hempty, hbehind⟩
    by_cases hout : (r.link.rxPop cap).2 = []
    · exact .inl (hempty hout)
    · refine .inr ⟨hbehind hout, ?_⟩
      have := length_pos_iff.2 hout
      omega
  · rintro (hnone | ⟨hnone, hcap⟩)
    · refine ⟨fun _ => hnone, fun hout => absurd ?_ hout⟩
      have hring : r.conn.ringBytes = [] := (append_eq_nil_iff.1 hnone).2
      exact (append_eq_nil_iff.1 (hbytes.trans hring)).1
    · refine ⟨fun hout => ?_, fun _ => hnone⟩
      have hzero : r.conn.rxUsed = 0 := by
        have : min cap r.link.conn.rxUsed = 0 := by rw [← hlen, hout, length_nil]
        change r.link.conn.rxUsed = 0
        omega
      rw [unread, hnone, Option.getD_none, nil_append]
      exact eq_nil_of_length_eq_zero (hused.trans hzero)

/-- **Two read interfaces, one position** while `recv` meets no stashed chunk. -/
theorem recv_in_order [CongestionControl κ] {l : Local κ} {events : List Event}
    (hopen : Reader.Opened base l.conn)
    (hrun : Runs.Along Reader.step (Reader.Ordered S base) (some ⟨l, [], 0⟩) events) {r : Reader κ}
    (hr : events.foldl Reader.step (some ⟨l, [], 0⟩) = some r) :
    r.read ++ r.conn.pendingChunk.getD [] ++ r.conn.ringBytes = S.take r.pos ∧
      ∀ cap, r.ReturnsOldest cap ↔ r.conn.unread = [] ∨ r.conn.pendingChunk = none ∧ 0 < cap := by
  have hinv := run_stream hopen hrun hr
  refine ⟨?_, fun cap => returnsOldest_iff hinv.ok cap⟩
  rw [append_assoc]
  exact hinv.taken

/-- The first segment is collected as a chunk, the second read by the copying read. -/
theorem recv_in_order_copy :
    let events := [.chunkWanted true, peerPacket 101 [1, 2], .recvChunk true, .chunkWanted false,
      peerPacket 103 [3, 4], .recv 1]
    ((events.foldl Reader.step (some ⟨handshakeLink, [], 0⟩)).map fun r =>
        (r.pos, r.read, r.conn.ringBytes)) = some (4, [1, 2, 3], [4]) ∧
    ∀ r, events.foldl Reader.step (some ⟨handshakeLink, [], 0⟩) = some r →
        r.read ++ r.conn.pendingChunk.getD [] ++ r.conn.ringBytes =
          ([1, 2, 3, 4, 5, 6] : Bytes).take r.pos := by
  intro events
  refine ⟨by decide +kernel, fun r hr => (recv_in_order handshakeLink_opened ?_ hr).1⟩
  have hpos : ((events.take 1).foldl step (some ⟨handshakeLink, [], 0⟩)).map pos = some 0 ∧
      ((events.take 4).foldl step (some ⟨handshakeLink, [], 0⟩)).map pos = some 2 ∧
      ((events.take 5).foldl step (some ⟨handshakeLink, [], 0⟩)).map (fun r => r.conn.pendingChunk) =
        some none := by
    decide +kernel
  obtain ⟨h1, h4, h5⟩ := hpos
  refine ⟨fun r hr => ⟨trivial, trivial⟩, fun r hr => ⟨?_, trivial⟩, fun r hr => ⟨trivial, trivial⟩,
    fun r hr => ⟨trivial, trivial⟩, fun r hr => ⟨?_, trivial⟩, fun r hr => ⟨trivial, ?_⟩, trivial⟩
  · have h0 : r.pos = 0 := Option.some.inj ((congrArg (Option.map pos) hr).symm.trans h1)
    exact peerPacket_inbound (p := 0) (by omega) (by rw [h0]; decide) (by decide) (by decide)
  · have h2 : r.pos = 2 := Option.some.inj ((congrArg (Option.map pos) hr).symm.trans h4)
    exact peerPacket_inbound (p := 2) (by omega) (by rw [h2]; decide) (by decide) (by decide)
  · have hmap := congrArg (Option.map fun r : Reader ConstantWindow => r.conn.pendingChunk) hr
    exact Option.some.inj (hmap.symm.trans h5)

/-- A request for a chunk is cancelled: `recv` skips the stashed chunk. -/
theorem recv_skips_chunk :
    (([.chunkWanted true, peerPacket 101 [1, 2, 3, 4], .chunkWanted false].foldl
      Reader.step (some ⟨handshakeLink, [], 0⟩)).map fun r =>
        (Local.isReadableOrClosed r.conn, (r.link.asyncRecv 100).2, r.conn.unread)) =
      some (true, [], [1, 2, 3, 4]) ∧
    (([.chunkWanted true, peerPacket 101 [1, 2, 3, 4], .chunkWanted false,
        peerPacket 105 [5, 6]].foldl Reader.step (some ⟨handshakeLink, [], 0⟩)).map fun r =>
        ((r.link.asyncRecv 100).2, (r.link.asyncRecv 100).1.conn.pendingChunk)) =
      some ([5, 6], some [1, 2, 3, 4]) := by
  decide +kernel

end Waitless.Tcp
