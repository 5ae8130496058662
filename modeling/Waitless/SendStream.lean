import Waitless.Handles
import Waitless.RetransmitQueue

/-! # The send stream of one connection

Every byte a send puts on the wire is recorded (`Sender.sent`). Entry lengths have sixteen bits, so
a buffer of `65536` bytes or more is miscounted (`rtx_len_wraps`); while buffers are shorter, the
queue holds what is not acknowledged in every run, and every frame carries the recorded bytes at
their numbers (`rtx_covers`). -/

namespace Waitless.Tcp

open SerialNumber Local SendView TcpConnection TcpState List

variable {κ : Type} {iss : UInt32} {sent : Bytes} {u fin : ℕ}

def TcpState.finLen : TcpState → ℕ
  | .finWait1 | .finWait2 | .lastAck | .timeWait => 1
  | _ => 0

theorem TcpState.finLen_le (st : TcpState) : st.finLen ≤ 1 := by
  cases st <;> decide

def maxWindow : ℕ := 65535 * 2 ^ 14

/-- `sent` has gone out and the positions below `u` are acknowledged. -/
structure SendInv (iss : UInt32) (sent : Bytes) (fin u : ℕ) (v : SendView) : Prop where
  nxt : v.sndNxt = number iss (1 + sent.length + fin)
  una : v.sndUna = number iss u
  le : u ≤ 1 + sent.length + fin
  near : 1 + sent.length ≤ u + (maxWindow + 65535)
  window : v.sndWnd ≤ maxWindow
  scale : v.sndWscale ≤ 14
  mss : v.sndMss ≤ mssMax
  queue : Tracks iss sent (min (u - 1) sent.length) sent.length v

/-- The connection with its wire. -/
structure SenderOk (iss : UInt32) (sent : Bytes) (l : Local κ) : Prop where
  inv : ∃ u, SendInv iss sent l.conn.state.finLen u l.conn.sendView
  wire : ∀ f ∈ l.tx, f.Carries iss sent

theorem SenderOk.steady {l l' : Local κ} (h : SenderOk iss sent l) (hs : SendSteady l l')
    (hfin : l'.conn.state.finLen = l.conn.state.finLen) : SenderOk iss sent l' := by
  obtain ⟨u, hinv⟩ := h.inv
  obtain ⟨frames, htx, hframes⟩ := hs.wire
  refine ⟨⟨u, ?_⟩, fun f hf => ?_⟩
  · rw [hs.send, hfin]
    exact hinv
  · rw [htx] at hf
    rcases mem_append.1 hf with hf | hf
    · exact h.wire f hf
    · exact (hframes f hf).carries hinv.queue

/-! ### Acknowledgements -/

theorem SendInv.topLt {v : SendView} (h : SendInv iss sent fin u v) (hfin : fin ≤ 1) :
    sent.length + fin + 2 < u + 2 ^ 31 := by
  have := h.near
  unfold maxWindow at this
  omega

theorem SendInv.ack_position {v : SendView} (h : SendInv iss sent fin u v)
    {ack : UInt32} (hle : seqLt v.sndNxt ack = false) (hadv : seqLt v.sndUna ack = true) :
    ∃ u', u ≤ u' ∧ u' ≤ 1 + sent.length + fin ∧ ack = number iss u' := by
  have hle' := h.le
  obtain ⟨n, hn, hack⟩ : ∃ n < 2 ^ 32, ack = number iss (u + n) :=
    ⟨_, (ack - number iss u).toNat_lt, eq_number⟩
  subst hack
  refine ⟨u + n, Nat.le_add_right u n, ?_, rfl⟩
  by_contra hgt
  -- past `snd_nxt` by less than half the numbers: refused; by more: not an advance
  by_cases hfar : u + n ≤ 1 + sent.length + fin + 2 ^ 31
  · rw [h.nxt, seqLt_number (by omega) (by omega)] at hle
    simp only [decide_eq_false_iff_not] at hle
    omega
  · have hneg : (number iss u - number iss (u + n)).toNat = 2 ^ 32 - n := by
      rw [toNat_sub_number]
      omega
    rw [h.una] at hadv
    have := (neg_iff_toNat _).1 (of_decide_eq_true hadv)
    omega

theorem Segment.parse_window {srcIp dstIp : IpAddr} {parts : List Bytes} {seg : Segment}
    (h : Segment.parse srcIp dstIp parts = some seg) : seg.window < 65536 := by
  unfold Segment.parse at h
  split at h
  · cases h
    exact UInt16.toNat_lt _
  · cases h

namespace Local

variable {frames : List TxSegment} {l l' : Local κ} {n : ℕ} {seg : Segment}

theorem rtxOnAck_inv [CongestionControl κ] {u' : ℕ} (now : ℕ)
    (h : SendInv iss sent fin u { l.conn.sendView with sndUna := number iss u }) (hfin : fin ≤ 1)
    (huna : l.conn.sndUna = number iss u') (hle : u ≤ u') (htop : u' ≤ 1 + sent.length + fin) :
    SendInv iss sent fin u' (l.rtxOnAck (number iss u) now).conn.sendView ∧
      (l.rtxOnAck (number iss u) now).conn.state = l.conn.state ∧
      (l.rtxOnAck (number iss u) now).tx = l.tx := by
  have hnear := h.topLt hfin
  obtain ⟨hnxt, -, -, hnear', hwin, hscale, hmss, hqueue⟩ := h
  have hbase : ∀ v : SendView, v.outline = l.conn.sendView.outline →
      Tracks iss sent (min (u' - 1) sent.length) sent.length v → SendInv iss sent fin u' v := by
    intro v hv hq
    have hv' : v.sndNxt = l.conn.sendView.sndNxt ∧ v.sndUna = l.conn.sendView.sndUna ∧
        v.sndWnd = l.conn.sendView.sndWnd ∧ v.sndWscale = l.conn.sendView.sndWscale ∧
        v.sndMss = l.conn.sendView.sndMss := by
      simpa [SendView.outline] using hv
    obtain ⟨h1, h2, h3, h4, h5⟩ := hv'
    refine ⟨h1.trans hnxt, h2.trans huna, htop, le_trans hnear' (Nat.add_le_add_right hle _), ?_, ?_,
      ?_, hq⟩
    · rwa [h3]
    · rwa [h4]
    · rwa [h5]
  unfold Tracks at hqueue
  cases hfail : l.conn.rtxAllocFailed with
  | true =>
    rw [if_pos (show l.conn.sendView.allocFailed = true from hfail)] at hqueue
    unfold rtxOnAck
    rw [if_pos hfail]
    split
    · -- everything is acknowledged: coverage resumes with an empty queue
      rename_i hall
      have hnum : number iss u' = number iss (1 + sent.length + fin) := by
        rw [← huna, ← hnxt]
        exact hall
      have hall' : u' = 1 + sent.length + fin := number_inj hnum (by omega) (by omega)
      refine ⟨hbase _ rfl ?_, rfl, rfl⟩
      have hend : min (u' - 1) sent.length = sent.length := by omega
      rw [hend]
      have hq0 : l.conn.rtxQueue.map RtxEntry.range = [] := hqueue.1
      have hf0 : l.conn.rtxBytesInFlight = 0 := hqueue.2
      refine ⟨?_, ?_⟩
      · change Spans iss sent sent.length sent.length (l.conn.rtxQueue.map RtxEntry.range)
        rw [hq0]
        rfl
      · change l.conn.rtxBytesInFlight = sent.length - sent.length
        omega
    · refine ⟨hbase _ rfl ?_, rfl, rfl⟩
      unfold Tracks
      rw [if_pos (show l.conn.sendView.allocFailed = true from hfail)]
      exact hqueue
  | false =>
    rw [if_neg (by simp [sendView, hfail])] at hqueue
    by_cases hsame : l.conn.sndUna = number iss u
    · obtain rfl : u' = u := number_inj (huna.symm.trans hsame) (by omega) (by omega)
      unfold rtxOnAck
      rw [if_neg (by simp [hfail]), if_pos hsame]
      refine ⟨hbase _ rfl ?_, rfl, rfl⟩
      unfold Tracks
      rw [if_neg (by simp [sendView, hfail])]
      exact hqueue
    · have hne : u' ≠ u := fun heq => hsame (by rw [huna, heq])
      have hst := rtxOnAck_steady now hfail hsame
      have hack := rtxAckLoop_spans (a := u' - 1) l.conn.rtxBytesInFlight 0 hqueue.1
        (by omega) (by omega) (by omega)
      have hpos : number iss (u' - 1 + 1) = l.conn.sndUna := by
        rw [huna]
        congr 1
        omega
      rw [hpos] at hack
      refine ⟨?_, hst.state, rtxOnAck_tx l _ now⟩
      rw [hst.send]
      refine hbase _ rfl ?_
      unfold Tracks
      rw [if_neg (by simp [sendView, rtxAck, hfail])]
      refine ⟨hack.1, hack.2.trans ?_⟩
      have hfl : l.conn.rtxBytesInFlight = sent.length - min (u - 1) sent.length := hqueue.2
      omega

theorem ackTransition_view (c : TcpConnection κ) (ack : UInt32) (adv : Bool) :
    (ackTransition c ack adv).2 = .free ∨
      ∃ una, (ackTransition c ack adv).1.sendView = { c.sendView with sndUna := una } ∧
        (ackTransition c ack adv).1.state.finLen = c.state.finLen ∧
        (una = c.sndUna ∨ una = ack ∧ (adv = true ∨ ack = c.sndNxt)) := by
  unfold ackTransition
  split_ifs with h1 h2 h3 h4
  · exact .inr ⟨ack, rfl, by simp [h1.1, finLen], .inr ⟨rfl, .inl h1.2⟩⟩
  · exact .inl rfl
  · exact .inr ⟨ack, rfl, by simp [h3.1, finLen], .inr ⟨rfl, .inr h3.2⟩⟩
  · exact .inr ⟨ack, rfl, rfl, .inr ⟨rfl, .inl h4⟩⟩
  · exact .inr ⟨c.sndUna, rfl, rfl, .inl rfl⟩

theorem updateWindow_view {c : TcpConnection κ} (hscale : c.sndWscale ≤ 14)
    (hold : c.sndWnd ≤ maxWindow) (hwin : seg.window < 65536) :
    (updateWindow c seg).sendView = { c.sendView with sndWnd := (updateWindow c seg).sndWnd } ∧
      (updateWindow c seg).sndWnd ≤ maxWindow ∧ (updateWindow c seg).state = c.state := by
  unfold updateWindow
  split
  · refine ⟨rfl, ?_, rfl⟩
    dsimp only
    have hshift : seg.window <<< c.sndWscale ≤ maxWindow := by
      rw [Nat.shiftLeft_eq]
      exact Nat.mul_le_mul (by omega) (Nat.pow_le_pow_right (by omega) hscale)
    split
    · exact hshift
    · unfold maxWindow
      omega
  · exact ⟨rfl, hold, rfl⟩

theorem processAck_cases [CongestionControl κ] (now : ℕ) (hscale : l.conn.sndWscale ≤ 14)
    (hold : l.conn.sndWnd ≤ maxWindow) (hwin : seg.window < 65536) :
    (l.processAck seg now).1 = l ∨ ∃ c' isDupAck, seqLt l.conn.sndNxt seg.ack = false ∧
      c'.sendView = { l.conn.sendView with sndWnd := c'.sndWnd, sndUna := c'.sndUna } ∧
      c'.sndWnd ≤ maxWindow ∧ c'.state.finLen = l.conn.state.finLen ∧
      (c'.sndUna = l.conn.sndUna ∨
        c'.sndUna = seg.ack ∧ (seqLt l.conn.sndUna seg.ack = true ∨ seg.ack = l.conn.sndNxt)) ∧
      (l.processAck seg now).1 =
        ackBookkeeping { l with conn := c' } seg l.conn.sndUna isDupAck now := by
  unfold processAck
  dsimp only
  by_cases hchal : seqLt l.conn.sndNxt seg.ack = true
  · rw [if_pos hchal]
    exact .inl rfl
  rw [if_neg hchal]
  have hview := ackTransition_view (updateWindow l.conn seg) seg.ack (seqLt l.conn.sndUna seg.ack)
  generalize ackTransition (updateWindow l.conn seg) seg.ack (seqLt l.conn.sndUna seg.ack) = t
    at hview ⊢
  obtain ⟨c', o⟩ := t
  rcases hview with rfl | ⟨una, hview, hstate, huna⟩
  · exact .inl rfl
  split
  · exact .inl rfl
  rename_i heq
  obtain ⟨rfl, rfl⟩ := Prod.mk.inj heq
  obtain ⟨hwv, hwle, hws⟩ := updateWindow_view hscale hold hwin
  obtain rfl : c'.sndUna = una := congrArg SendView.sndUna hview
  have hu : (updateWindow l.conn seg).sndUna = l.conn.sndUna := congrArg sndUna hwv
  have hn : (updateWindow l.conn seg).sndNxt = l.conn.sndNxt := congrArg sndNxt hwv
  have hw : c'.sndWnd = (updateWindow l.conn seg).sndWnd := congrArg sndWnd hview
  rw [hu, hn] at huna
  rw [hws] at hstate
  rw [hwv, ← hw] at hview
  exact .inr ⟨c', _, eq_false_of_ne_true hchal, hview, hw.trans_le hwle, hstate, huna, rfl⟩

theorem processAck_sender [CongestionControl κ] (now : ℕ)
    (h : SenderOk iss sent l) (hwin : seg.window < 65536) :
    SenderOk iss sent (l.processAck seg now).1 := by
  obtain ⟨u, hinv⟩ := h.inv
  have hfin := l.conn.state.finLen_le
  rcases processAck_cases now hinv.scale hinv.window hwin with
    hsame | ⟨c', isDupAck, hchal, hview, hwle, hstate, huna, hdone⟩
  · rwa [hsame]
  rw [hdone]
  have hold : SendInv iss sent l.conn.state.finLen u
      { c'.sendView with sndUna := number iss u } := by
    rw [hview]
    exact ⟨hinv.nxt, rfl, hinv.le, hinv.near, hwle, hinv.scale, hinv.mss, hinv.queue⟩
  obtain ⟨u', hle, htop, hu'⟩ : ∃ u', u ≤ u' ∧ u' ≤ 1 + sent.length + l.conn.state.finLen ∧
      c'.sndUna = number iss u' := by
    rcases huna with hsame | ⟨hsame, hadv | htop⟩
    · exact ⟨u, le_refl u, hinv.le, hsame.trans hinv.una⟩
    · obtain ⟨u', h1, h2, h3⟩ := hinv.ack_position hchal hadv
      exact ⟨u', h1, h2, hsame.trans h3⟩
    · exact ⟨_, hinv.le, le_refl _, hsame.trans (htop.trans hinv.nxt)⟩
  have hu : l.conn.sndUna = number iss u := hinv.una
  obtain ⟨hack, hst, htx⟩ :=
    rtxOnAck_inv (l := { l with conn := c' }) now hold hfin hu' hle htop
  have hbook : SenderOk iss sent ({ l with conn := c' }.rtxOnAck (number iss u) now) := by
    refine ⟨⟨u', ?_⟩, fun f hf => h.wire f ?_⟩
    · rw [hst]
      rw [hstate]
      exact hack
    · rwa [htx] at hf
  have hrest := ackBookkeeping_steady { l with conn := c' } seg l.conn.sndUna isDupAck now
  rw [← hu] at hbook
  exact hbook.steady hrest.toSendSteady (congrArg finLen hrest.state)

/-! ### Data and FIN of the peer -/

theorem afterAck_steady (l : Local κ) (seg : Segment) (prevState : TcpState) (now : ℕ)
    (reserved : Bool) :
    SendSteady l (l.afterAck seg prevState now reserved) ∧
      (l.afterAck seg prevState now reserved).conn.state.finLen = l.conn.state.finLen := by
  obtain ⟨-, hs, hst⟩ := afterAck_touch l seg prevState now reserved
  refine ⟨hs, ?_⟩
  rcases hst with hst | hst
  · rw [hst]
  · rw [hst]
    cases l.conn.state <;> rfl

theorem afterAck_sender (prevState : TcpState) (now : ℕ)
    (reserved : Bool) (h : SenderOk iss sent l) :
    SenderOk iss sent (l.afterAck seg prevState now reserved) := by
  obtain ⟨hs, hlen⟩ := afterAck_steady l seg prevState now reserved
  exact h.steady hs hlen

theorem receive_sender [CongestionControl κ] {listening : Bool}
    {now : ℕ} {reserved : Bool} (h : SenderOk iss sent l) (hwin : seg.window < 65536)
    (hr : l.receive seg listening now reserved = some l') : SenderOk iss sent l' := by
  rcases receive_cases hr with rfl | ⟨m, rfl | ⟨established, hp⟩, rfl⟩
  · exact h
  · exact afterAck_sender _ now reserved h
  · have hm := processAck_sender now h hwin
    rw [hp] at hm
    exact afterAck_sender _ now reserved hm

/-! ### Sends -/

def putOut (l l' : Local κ) : Bytes := (l'.tx.drop l.tx.length).flatMap TxSegment.payload

theorem putOut_append (h : l'.tx = l.tx ++ frames) :
    putOut l l' = frames.flatMap TxSegment.payload := by
  unfold putOut
  rw [h, drop_left]

theorem putOut_same (h : l'.tx = l.tx) : putOut l l' = [] := by
  have h' : l'.tx = l.tx ++ [] := by rw [h, append_nil]
  exact putOut_append h'

theorem advance_sender {bytes : Bytes}
    (h : SenderOk iss sent l) (hinv : SendInv iss sent 0 u l.conn.sendView)
    (hfin : l.conn.state.finLen = 0) (hem : Emitted l.conn.sndNxt bytes frames n)
    (hroom : 1 + sent.length + n ≤ u + (maxWindow + 65535))
    (hkeep : Retained (l.advanceSnd n frames) l')
    (hq : Tracks iss (sent ++ bytes.take n) (u - 1) (sent ++ bytes.take n).length
      l'.conn.sendView) :
    SenderOk iss (sent ++ putOut l l') l' := by
  have hout : putOut l l' = bytes.take n := (putOut_append hkeep.tx).trans hem.whole
  have hlen : (sent ++ bytes.take n).length = sent.length + n := by
    rw [length_append, length_take, Nat.min_eq_left hem.le]
  have hview : l'.conn.sndNxt = l.conn.sndNxt + UInt32.ofNat n ∧ l'.conn.sndUna = l.conn.sndUna ∧
      l'.conn.sndWnd = l.conn.sndWnd ∧ l'.conn.sndWscale = l.conn.sndWscale ∧
      l'.conn.sndMss = l.conn.sndMss := by
    simpa [SendView.outline, sendView, advanceSnd] using hkeep.outline
  obtain ⟨h1, h2, h3, h4, h5⟩ := hview
  have hle := hinv.le
  have hstart : l.conn.sndNxt = number iss (sent.length + 1) := by
    have := hinv.nxt
    rwa [Nat.add_zero, Nat.add_comm] at this
  rw [hout]
  refine ⟨⟨u, ?_⟩, fun f hf => ?_⟩
  · have hst : l'.conn.state.finLen = 0 := (congrArg finLen hkeep.state).trans hfin
    refine ⟨?_, h2.trans hinv.una, ?_, ?_, Nat.le_trans (Nat.le_of_eq h3) hinv.window,
      Nat.le_trans (Nat.le_of_eq h4) hinv.scale, Nat.le_trans (Nat.le_of_eq h5) hinv.mss, ?_⟩
    · refine h1.trans ?_
      rw [hstart, number_add, hlen]
      congr 1
      omega
    · omega
    · rw [hlen, ← Nat.add_assoc]
      exact hroom
    · rw [Nat.min_eq_left (by omega)]
      exact hq
  · rw [hkeep.tx] at hf
    rcases mem_append.1 hf with hf | hf
    · exact (h.wire f hf).extend _
    · rw [hstart] at hem
      exact TxSegment.carries_of_emitted hem hf

theorem queue_before_send (more : Bytes)
    (hinv : SendInv iss sent 0 u l.conn.sendView) (hok : l.conn.rtxAllocFailed = false) :
    Tracks iss (sent ++ more) (u - 1) sent.length (l.advanceSnd n frames).conn.sendView := by
  have hle := hinv.le
  have hq := hinv.queue
  have hok' : l.conn.sendView.allocFailed = false := hok
  unfold Tracks at hq ⊢
  rw [hok', if_neg (by simp), Nat.min_eq_left (by omega)] at hq
  rw [if_neg (by simp [advanceSnd, sendView, hok])]
  exact ⟨hq.1.extend more, hq.2⟩

theorem queue_suspended {lo hi : ℕ} {sent' : Bytes}
    (hinv : SendInv iss sent 0 u l.conn.sendView) (hfail : l.conn.rtxAllocFailed = true) :
    Tracks iss sent' lo hi (l.advanceSnd n frames).conn.sendView := by
  have hq := hinv.queue
  have hfail' : l.conn.sendView.allocFailed = true := hfail
  unfold Tracks at hq ⊢
  rw [hfail', if_pos rfl] at hq
  rw [if_pos (show (l.advanceSnd n frames).conn.sendView.allocFailed = true from hfail)]
  exact hq

theorem sndNxt_back
    (hinv : SendInv iss sent 0 u l.conn.sendView) :
    (l.advanceSnd n frames).conn.sndNxt - UInt32.ofNat n = number iss (sent.length + 1) := by
  have hnxt : l.conn.sndNxt = number iss (1 + sent.length + 0) := hinv.nxt
  change l.conn.sndNxt + UInt32.ofNat n - UInt32.ofNat n = _
  rw [UInt32.add_sub_cancel, hnxt, Nat.add_zero, Nat.add_comm]

theorem flight_eq (hinv : SendInv iss sent 0 u l.conn.sendView) :
    u + l.conn.flight = 1 + sent.length := by
  have hnxt : l.conn.sndNxt = number iss (1 + sent.length + 0) := hinv.nxt
  have huna : l.conn.sndUna = number iss u := hinv.una
  have htop := hinv.topLt (by omega)
  have hle := hinv.le
  unfold flight
  rw [hnxt, huna, distance hle (by omega)]
  omega

theorem sender_same (h : SenderOk iss sent l) : SenderOk iss (sent ++ putOut l l) l := by
  rw [putOut_same rfl, append_nil]
  exact h

theorem asyncTrySendChain_sender {chain : List Bytes} (d : Driver) (now : ℕ)
    (reserve : ℕ → Bool) (h : SenderOk iss sent l)
    (hfit : ∀ n, (l.asyncTrySendChain chain d now reserve).2.2 = .sent n →
      ∀ piece ∈ chainPieces chain n, piece.length < 65536) :
    SenderOk iss (sent ++ putOut l (l.asyncTrySendChain chain d now reserve).1)
      (l.asyncTrySendChain chain d now reserve).1 := by
  obtain ⟨u, hinv⟩ := h.inv
  unfold asyncTrySendChain at hfit ⊢
  by_cases hst : l.conn.state ≠ .established
  · rw [if_pos hst]
    exact sender_same h
  rw [if_neg hst] at hfit ⊢
  by_cases hempty : chain.flatten.length = 0
  · rw [if_pos hempty]
    exact sender_same h
  rw [if_neg hempty] at hfit ⊢
  by_cases hroom : min chain.flatten.length l.conn.usableWindow = 0
  · rw [if_pos hroom]
    split
    · have htx : (l.armPersist now).tx = l.tx := by
        unfold armPersist armForTick
        split <;> rfl
      rw [putOut_same htx, append_nil]
      exact h.steady (armPersist_steady l now).toSendSteady
        (congrArg finLen (armPersist_steady l now).state)
    · exact sender_same h
  rw [if_neg hroom] at hfit ⊢
  have hfin : l.conn.state.finLen = 0 := by
    rw [not_not.1 hst]
    rfl
  rw [hfin] at hinv
  have hem := emitData_emitted hinv.mss d (chain.flatten.take (min chain.flatten.length
    l.conn.usableWindow))
  generalize emitData l.conn d (chain.flatten.take (min chain.flatten.length
    l.conn.usableWindow)) = t at hfit hem ⊢
  obtain ⟨frames, n⟩ := t
  have hn : n ≤ min chain.flatten.length l.conn.usableWindow := by
    have := hem.le
    rw [length_take] at this
    omega
  have htake : (chain.flatten.take (min chain.flatten.length l.conn.usableWindow)).take n =
      chain.flatten.take n := by
    rw [take_take, Nat.min_eq_left hn]
  have hlen : (sent ++ chain.flatten.take n).length = sent.length + n := by
    rw [length_append, length_take]
    omega
  have hflight := flight_eq hinv
  have hbound : 1 + sent.length + n ≤ u + maxWindow := by
    have hwin : l.conn.sndWnd ≤ maxWindow := hinv.window
    unfold usableWindow at hn hroom
    omega
  have hnear : 1 + sent.length + n < u + 2 ^ 31 := by
    unfold maxWindow at hbound
    omega
  suffices hq : Tracks iss (sent ++ chain.flatten.take n) (u - 1)
      (sent ++ chain.flatten.take n).length
      ((l.advanceSnd n frames).rtxOnDataSent chain n now reserve).1.conn.sendView by
    refine advance_sender h hinv hfin hem ?_ (rtxOnDataSent_retained _ chain n now reserve) ?_
    · rw [← Nat.add_assoc]
      exact le_trans hbound (Nat.le_add_right _ _)
    · rw [htake]
      exact hq
  unfold rtxOnDataSent
  split
  next hzero =>
    subst hzero
    cases hfail : l.conn.rtxAllocFailed with
    | true => exact queue_suspended hinv hfail
    | false =>
      have hq : Tracks iss (sent ++ []) (u - 1) sent.length (l.advanceSnd 0 frames).conn.sendView :=
        queue_before_send [] hinv hfail
      simpa using hq
  split
  · exact queue_suspended hinv ‹_›
  next hok =>
    rw [sndNxt_back hinv]
    have hok' : l.conn.rtxAllocFailed = false := eq_false_of_ne_true hok
    exact rtxSendLoop_tracks now reserve hok' (queue_before_send _ hinv hok') (hfit n rfl)
      (by omega) hlen.symm (drop_left ..) (by omega)

theorem trySendTso_sender {minPayload : ℕ} {fill : Option Bytes} (d : Driver)
    (now : ℕ) (staged reserved : Bool) (h : SenderOk iss sent l)
    (hfit : ∀ payload, fill = some payload → payload.length < 65536) :
    SenderOk iss (sent ++ putOut l (l.trySendTso minPayload fill d now staged reserved).1)
      (l.trySendTso minPayload fill d now staged reserved).1 := by
  obtain ⟨u, hinv⟩ := h.inv
  unfold trySendTso
  by_cases hst : l.conn.state ≠ .established
  · rw [if_pos hst]
    exact sender_same h
  rw [if_neg hst]
  split
  · exact sender_same h
  split
  · exact sender_same h
  rename_i husable
  split
  · exact sender_same h
  split
  · exact sender_same h
  rename_i payload
  split
  · exact sender_same h
  rename_i hne
  split
  · exact sender_same h
  have hfin : l.conn.state.finLen = 0 := by
    rw [not_not.1 hst]
    rfl
  rw [hfin] at hinv
  have hsmall := hfit payload rfl
  have hflight := flight_eq hinv
  have hbound : 1 + sent.length + payload.length ≤ u + (maxWindow + 65535) := by
    have hwin : l.conn.sndWnd ≤ maxWindow := hinv.window
    unfold usableWindow at husable
    omega
  have hnear : 1 + sent.length + payload.length < u + 2 ^ 31 := by
    unfold maxWindow at hbound
    omega
  have hwhole : payload.take payload.length = payload := take_of_length_le (le_refl _)
  have hne' : payload ≠ [] := by simpa using hne
  suffices hq : Tracks iss (sent ++ payload) (u - 1) (sent ++ payload).length
        ((l.advanceSnd payload.length [⟨l.conn.header l.conn.sndNxt l.conn.rcvNxt
          (tcpAck ||| tcpPsh) l.conn.rxFree, payload, []⟩]).rtxOnDataSentSlice payload now staged
          reserved).conn.sendView by
    have hem := Emitted.one (l.conn.header l.conn.sndNxt l.conn.rcvNxt (tcpAck ||| tcpPsh)
      l.conn.rxFree) payload
    refine advance_sender h hinv hfin hem hbound
      (rtxOnDataSentSlice_retained _ payload now staged reserved) ?_
    rw [hwhole]
    exact hq
  cases hfail : l.conn.rtxAllocFailed with
  | true =>
    unfold rtxOnDataSentSlice
    rw [if_pos (by simp [advanceSnd, hfail])]
    exact queue_suspended hinv hfail
  | false =>
    exact rtxOnDataSentSlice_tracks now staged reserved hfail hne'
      (queue_before_send _ hinv hfail) (sndNxt_back hinv) hsmall
      (by rw [length_append]) (drop_left ..) (by rw [length_append]; omega)

theorem sendFin_sender {state : TcpState} (now : ℕ) (h : SenderOk iss sent l)
    (hfin : l.conn.state.finLen = 0) (hstate : state.finLen = 1) :
    SenderOk iss sent (l.sendFin state now) := by
  obtain ⟨u, hinv⟩ := h.inv
  rw [hfin] at hinv
  unfold sendFin
  refine SenderOk.steady ⟨⟨u, ?_⟩, fun f hf => ?_⟩ (armFinTimer_steady _ now).toSendSteady
    (congrArg finLen (armFinTimer_steady _ now).state)
  · rw [hstate]
    have hle := hinv.le
    refine ⟨?_, hinv.una, by omega, hinv.near, hinv.window, hinv.scale, hinv.mss, hinv.queue⟩
    have hnxt : l.conn.sndNxt = number iss (1 + sent.length + 0) := hinv.nxt
    change l.conn.sndNxt + 1 = _
    rw [hnxt, number_succ]
  · rcases mem_append.1 hf with hf | hf
    · exact h.wire f hf
    · obtain rfl := mem_singleton.1 hf
      exact .inl rfl

theorem close_sender {now : ℕ} (h : SenderOk iss sent l)
    (hc : l.close now = some l') : SenderOk iss sent l' := by
  unfold close at hc
  split at hc
  next hst =>
    cases hc
    exact sendFin_sender now h (by rw [hst]; rfl) rfl
  next hst =>
    cases hc
    exact sendFin_sender now h (by rw [hst]; rfl) rfl
  · cases hc

/-! ### Reads and path MTU reports -/

theorem rxPop_steady (l : Local κ) (cap : ℕ) :
    SendSteady l (l.rxPop cap).1 ∧ (l.rxPop cap).1.conn.state = l.conn.state := by
  unfold rxPop
  split
  · exact ⟨.quiet rfl rfl, rfl⟩
  split
  · exact ⟨.quiet rfl rfl, rfl⟩
  · generalize l.conn.rxTake cap = t
    obtain ⟨r, out⟩ := t
    have hr : SendSteady l { l with conn := { l.conn with toRecvHalf := r } } := .quiet rfl rfl
    have hw := maybeSendWindowUpdate_steady { l with conn := { l.conn with toRecvHalf := r } }
    exact ⟨hr.trans hw.toSendSteady, hw.state⟩

theorem doRecvChunk_steady (l : Local κ) (reserved : Bool) :
    SendSteady l (l.doRecvChunk reserved).1 ∧
      (l.doRecvChunk reserved).1.conn.state = l.conn.state := by
  unfold doRecvChunk
  split
  · exact ⟨.quiet rfl rfl, rfl⟩
  split
  · exact ⟨.quiet rfl rfl, rfl⟩
  split
  · exact ⟨.quiet rfl rfl, rfl⟩
  · exact rxPop_steady l _

theorem notePathMtu_sender (seq : UInt32) (candidateMss : ℕ)
    (h : SenderOk iss sent l) : SenderOk iss sent (l.notePathMtu seq candidateMss) := by
  unfold notePathMtu
  dsimp only
  split
  next hsmaller =>
    obtain ⟨u, hinv⟩ := h.inv
    refine ⟨⟨u, hinv.nxt, hinv.una, hinv.le, hinv.near, hinv.window, hinv.scale, ?_, hinv.queue⟩,
      h.wire⟩
    have hmss : l.conn.sndMss ≤ mssMax := hinv.mss
    exact Nat.le_of_lt (Nat.lt_of_lt_of_le hsmaller.2.2 hmss)
  · exact h

end Local

/-! ### Runs -/

/-- With every byte put on the wire. -/
structure Sender (κ : Type) where
  link : Local κ
  sent : Bytes

namespace Sender

def conn (s : Sender κ) : TcpConnection κ := s.link.conn

def firstSent (l l' : Local κ) : Event → Bytes
  | .sendChain .. => Local.putOut l l'
  | .sendTso .. => Local.putOut l l'
  | _ => []

def step [CongestionControl κ] : Option (Sender κ) → Event → Option (Sender κ)
  | none, _ => none
  | some s, e =>
    match s.link.after e with
    | (some l, _) => some ⟨l, s.sent ++ firstSent s.link l e⟩
    | (none, _) => none

theorem step_sendChain [CongestionControl κ] (s : Sender κ) (chain : List Bytes) (d : Driver)
    (now : ℕ) (reserve : ℕ → Bool) :
    step (some s) (.sendChain chain d now reserve) =
      some ⟨(s.link.asyncTrySendChain chain d now reserve).1,
        s.sent ++ Local.putOut s.link (s.link.asyncTrySendChain chain d now reserve).1⟩ := rfl

/-- Just opened with initial number `iss`, by a peer or by us. -/
structure Fresh (iss : UInt32) (c : TcpConnection κ) : Prop where
  state : c.state = .synReceived ∧ c.sndUna = iss ∨ c.state = .established ∧ c.sndUna = iss + 1
  sndNxt : c.sndNxt = iss + 1
  window : c.sndWnd ≤ 65535
  scale : c.sndWscale ≤ 14
  mss : c.sndMss ≤ mssMax
  queue : c.rtxQueue = []
  inFlight : c.rtxBytesInFlight = 0
  allocFailed : c.rtxAllocFailed = false

/-- The buffers given to a send are shorter than `65536` bytes. -/
def Fits : Event → Prop
  | .sendChain chain _ _ _ => ∀ part ∈ chain, part.length < 65536
  | .sendTso _ fill _ _ _ _ => ∀ payload, fill = some payload → payload.length < 65536
  | _ => True

theorem chainPieces_length {chain : List Bytes} {n : ℕ} {piece : Bytes}
    (h : piece ∈ chainPieces chain n) : ∃ part ∈ chain, piece.length ≤ part.length := by
  induction chain generalizing n with
  | nil => cases h
  | cons front rest ih =>
    unfold chainPieces at h
    split_ifs at h
    · cases h
    · rcases mem_cons.1 h with rfl | h
      · exact ⟨piece, mem_cons_self .., le_refl _⟩
      · obtain ⟨part, hpart, hle⟩ := ih h
        exact ⟨part, mem_cons_of_mem _ hpart, hle⟩
    · obtain rfl := mem_singleton.1 h
      exact ⟨front, mem_cons_self .., length_take_le' ..⟩

theorem fresh_sender {c : TcpConnection κ} (h : Fresh iss c) (tickHead : ℕ) :
    SenderOk iss [] (⟨c, tickHead, []⟩ : Local κ) := by
  have hview : c.sendView =
      ⟨iss + 1, c.sndUna, c.sndWnd, c.sndWscale, c.sndMss, [], 0, false⟩ := by
    simp [sendView, h.sndNxt, h.queue, h.inFlight, h.allocFailed]
  have hwin : c.sndWnd ≤ maxWindow := by
    have := h.window
    unfold maxWindow
    omega
  have hopen : ∀ u ≤ 1, c.state.finLen = 0 → c.sndUna = number iss u →
      SenderOk iss [] (⟨c, tickHead, []⟩ : Local κ) := by
    intro u hu hfin huna
    refine ⟨⟨u, ?_⟩, by simp⟩
    rw [hview, hfin]
    refine ⟨rfl, huna, hu, ?_, hwin, h.scale, h.mss, ?_⟩
    · unfold maxWindow
      simp
    · exact ⟨by simp [Spans], by simp⟩
  rcases h.state with ⟨hst, huna⟩ | ⟨hst, huna⟩
  · exact hopen 0 (by omega) (by rw [hst]; rfl) (by rw [huna, number_zero])
  · exact hopen 1 (by omega) (by rw [hst]; rfl) huna

theorem step_sender [CongestionControl κ] {s s' : Sender κ} {e : Event}
    (h : SenderOk iss s.sent s.link) (hfit : Fits e) (hstep : step (some s) e = some s') :
    SenderOk iss s'.sent s'.link := by
  unfold step at hstep
  dsimp only at hstep
  split at hstep
  next l out hafter =>
    cases hstep
    have hquiet : SenderOk iss s.sent l → SenderOk iss (s.sent ++ []) l := by
      intro hl
      rwa [append_nil]
    cases e with
    | packet srcIp dstIp parts listening now reserved =>
      apply hquiet
      unfold Local.after at hafter
      dsimp only at hafter
      split at hafter
      next seg hseg =>
        exact receive_sender h (Segment.parse_window hseg) (Prod.mk.inj hafter).1
      · cases hafter
        exact h
    | sendChain chain d now reserve =>
      cases hafter
      refine asyncTrySendChain_sender d now reserve h fun n _ piece hp => ?_
      obtain ⟨part, hpart, hle⟩ := chainPieces_length hp
      exact Nat.lt_of_le_of_lt hle (hfit part hpart)
    | sendTso minPayload fill d now staged reserved =>
      cases hafter
      exact trySendTso_sender d now staged reserved h hfit
    | close now => exact hquiet (close_sender h (Prod.mk.inj hafter).1)
    | recv cap =>
      cases hafter
      obtain ⟨hs, hst⟩ := rxPop_steady s.link cap
      exact hquiet (h.steady hs (congrArg finLen hst))
    | recvChunk reserved =>
      cases hafter
      obtain ⟨hs, hst⟩ := doRecvChunk_steady s.link reserved
      exact hquiet (h.steady hs (congrArg finLen hst))
    | chunkWanted wanted =>
      cases hafter
      exact hquiet (h.steady (.quiet rfl rfl) rfl)
    | tick now =>
      have hs := onTick_steady (Prod.mk.inj hafter).1
      exact hquiet (h.steady hs.toSendSteady (congrArg finLen hs.state))
    | pathMtu seq candidateMss =>
      cases hafter
      exact hquiet (notePathMtu_sender seq candidateMss h)
  · cases hstep

theorem run_sender [CongestionControl κ] {c : TcpConnection κ} {tickHead : ℕ} {events : List Event}
    (hopen : Fresh iss c) (hfits : ∀ e ∈ events, Fits e) {s : Sender κ}
    (hs : events.foldl step (some ⟨⟨c, tickHead, []⟩, []⟩) = some s) :
    SenderOk iss s.sent s.link := by
  have hrun : Runs.Along step (fun _ e => Fits e) (some ⟨⟨c, tickHead, []⟩, []⟩) events :=
    Runs.along_of_forall hfits
  have hinv := hrun.invariant (I := fun o => ∀ s, o = some s → SenderOk iss s.sent s.link)
    (fun o e ho hi s' hs' => ?_) fun s hs => ?_
  · exact hinv s hs
  · cases o with
    | none => cases hs'
    | some s => exact step_sender (hi s rfl) ho hs'
  · cases hs
    exact fresh_sender hopen tickHead

/-- Byte `p` of the stream has position `p + 1`, the FIN the last one. -/
structure Covered (iss : UInt32) (sent : Bytes) (c : TcpConnection κ) (u : ℕ) : Prop where
  sndUna : c.sndUna = number iss u
  unaLe : u ≤ 1 + sent.length + c.state.finLen
  near : sent.length + 2 < u + 2 ^ 31
  sndNxt : c.sndNxt = number iss (1 + sent.length + c.state.finLen)
  queue : Spans iss sent (min (u - 1) sent.length) sent.length (c.rtxQueue.map RtxEntry.range)
  inFlight : c.rtxBytesInFlight = (c.rtxQueue.map RtxEntry.len).sum

end Sender

open Sender

/-- **Coverage**: the queue holds the bytes not acknowledged. -/
theorem rtx_covers [CongestionControl κ] {c : TcpConnection κ} {tickHead : ℕ} {events : List Event}
    (hopen : Sender.Fresh iss c) (hfits : ∀ e ∈ events, Sender.Fits e) {s : Sender κ}
    (hs : events.foldl Sender.step (some ⟨⟨c, tickHead, []⟩, []⟩) = some s) :
    (s.conn.rtxAllocFailed = false → ∃ u, Sender.Covered iss s.sent s.conn u) ∧
      ∀ f ∈ s.link.tx, f.Carries iss s.sent := by
  have h := run_sender hopen hfits hs
  refine ⟨fun hok => ?_, h.wire⟩
  obtain ⟨u, hinv⟩ := h.inv
  have hq := hinv.queue
  have htop := hinv.topLt s.link.conn.state.finLen_le
  have hok' : s.link.conn.sendView.allocFailed = false := hok
  unfold Tracks at hq
  rw [hok', if_neg (by simp)] at hq
  refine ⟨u, hinv.una, hinv.le, by omega, hinv.nxt, hq.1, ?_⟩
  have hsum := hq.1.lengths
  have hfl : s.conn.rtxBytesInFlight = s.sent.length - min (u - 1) s.sent.length := hq.2
  have hmap : (s.link.conn.sendView.queue.map fun r => r.2.2) =
      s.conn.rtxQueue.map RtxEntry.len := by
    unfold sendView
    rw [map_map]
    rfl
  rw [hmap] at hsum
  omega

variable {bytes : Bytes} {d : Driver} {l : Local κ}

/-- Two buffers are sent and the peer acknowledges two bytes. -/
theorem rtx_covers_partial :
    let d : Driver := ⟨false, true, false, 1, 2048⟩
    let ack : Bytes :=
      [0x13, 0x88, 0, 80, 0, 0, 0, 101, 0, 0, 3, 0xEB, 0x50, 0x10, 0, 4, 0, 0, 0, 0]
    let start : Sender ConstantWindow := ⟨⟨handshakeLink.conn, handshakeLink.tickHead, []⟩, []⟩
    let events : List Event :=
      [.sendChain [[1, 2, 3], [4, 5]] d 5 (fun _ => true),
        .packet (.v4 #v[10, 0, 0, 1]) (.v4 #v[10, 0, 0, 2]) [ack] true 6 true]
    ((events.foldl step (some start)).map fun s => (s.sent, s.conn.rtxAllocFailed)) =
      some ([1, 2, 3, 4, 5], false) ∧
    ((events.foldl step (some start)).map fun s => s.conn.rtxQueue.map RtxEntry.range) =
      some [([3], 1003, 1), ([4, 5], 1004, 2)] ∧
    ∀ s, events.foldl step (some start) = some s →
      (s.conn.rtxAllocFailed = false → ∃ u, Sender.Covered 1000 s.sent s.conn u) ∧
        ∀ f ∈ s.link.tx, f.Carries 1000 s.sent := by
  intro d ack start events
  refine ⟨by decide +kernel, by decide +kernel, fun s hs => rtx_covers ?_ ?_ hs⟩
  · constructor <;> decide +kernel
  · exact forall_mem_cons.mpr ⟨by simp [Fits], forall_mem_singleton.mpr trivial⟩

/-! ### How connections are opened -/

theorem SynOptions.record_wscale {out : SynOptions} (h : out.wscale.getD 0 ≤ 14) (kind : UInt8)
    (len : ℕ) (body : Bytes) : (out.record kind len body).wscale.getD 0 ≤ 14 := by
  unfold SynOptions.record
  split_ifs
  · split
    · exact h
    · exact h
  · split
    · cases hw : out.wscale with
      | none =>
        rename_i s _
        exact Nat.min_le_right s.toNat 14
      | some w =>
        rw [hw] at h
        exact h
    · exact h
  · exact h
  · exact h

theorem parseSynOptions_wscale (opts : Bytes) : (parseSynOptions opts).wscale.getD 0 ≤ 14 := by
  have hgo : ∀ (rounds : ℕ) (bytes : Bytes) (out : SynOptions), out.wscale.getD 0 ≤ 14 →
      (parseSynOptions.go rounds bytes out).wscale.getD 0 ≤ 14 := by
    intro rounds bytes out h
    fun_induction parseSynOptions.go rounds bytes out with
    | case1 => exact h
    | case2 => exact h
    | case3 => exact h
    | case4 _ _ _ _ ih => exact ih h
    | case5 => exact h
    | case6 => exact h
    | case7 _ _ _ _ _ _ _ _ ih => exact ih (SynOptions.record_wscale h _ _ _)
  exact hgo _ _ _ (by decide)

theorem Segment.synOptions_wscale (seg : Segment) : seg.synOptions.wscale.getD 0 ≤ 14 := by
  unfold Segment.synOptions
  split
  · cases seg.optionBytes with
    | none => decide
    | some opts => exact parseSynOptions_wscale opts
  · decide

theorem negotiatedMss_le (ip : IpAddr) (mss : Option ℕ) : negotiatedMss ip mss ≤ mssMax := by
  have hfor : mssFor ip ≤ mssMax := by
    cases ip with
    | v4 => exact le_refl mssMax
    | v6 => exact (by decide : mssV6 ≤ mssMax)
  have hmin : 536 ≤ mssMax := by decide
  cases mss with
  | none => exact hfor
  | some peer =>
    unfold negotiatedMss
    dsimp only
    omega

theorem openPassive_fresh [CongestionControl κ] {c : TcpConnection κ} {seg : Segment}
    (isn : UInt32) (tickHead : ℕ) (tx : List TxSegment) (hq : c.rtxQueue = [])
    (hfl : c.rtxBytesInFlight = 0) (hok : c.rtxAllocFailed = false) (hwin : seg.window < 65536) :
    Sender.Fresh isn (Core.sendSynAck ⟨Core.openPassive c seg isn, tickHead, tx⟩ seg).conn :=
  ⟨.inl ⟨rfl, rfl⟩, rfl, Nat.le_of_lt_succ hwin, seg.synOptions_wscale, negotiatedMss_le _ _, hq, hfl,
    hok⟩

/-- An active open is fresh once the answer to its SYN has been taken. -/
theorem handleSynSent_fresh [CongestionControl κ] {seg : Segment} {iss : UInt32}
    (now : ℕ) (hst : l.conn.state = .synSent) (hnxt : l.conn.sndNxt = iss + 1)
    (hq : l.conn.rtxQueue = []) (hfl : l.conn.rtxBytesInFlight = 0)
    (hok : l.conn.rtxAllocFailed = false) (hwin : seg.window < 65536)
    (hest : (l.handleSynSent seg now).conn.state = .established) :
    Sender.Fresh iss (l.handleSynSent seg now).conn := by
  unfold handleSynSent at hest ⊢
  dsimp only at hest ⊢
  split at hest
  · rw [show (l.sendSegment _ []).conn.state = l.conn.state from rfl, hst] at hest
    cases hest
  rename_i hack
  rw [if_neg hack]
  split at hest
  · rw [hst] at hest
    cases hest
  rename_i hsyn
  rw [if_neg hsyn]
  split at hest
  · rw [hst] at hest
    cases hest
  rename_i hflag
  rw [if_neg hflag]
  have hseg : seg.ack = iss + 1 := by
    have hflag' : seg.has tcpAck = true := by simpa using hflag
    rw [hflag', hnxt] at hack
    simpa using hack
  split
  · generalize hc : (congestionInit _ : TcpConnection κ) = c
    obtain ⟨r, hr⟩ := sampleAnchor_eq c now
    rw [hr, ← hc]
    exact ⟨.inr ⟨rfl, hseg⟩, hnxt, Nat.le_of_lt_succ hwin, seg.synOptions_wscale,
      negotiatedMss_le _ _, hq, hfl, hok⟩
  · exact ⟨.inr ⟨rfl, hseg⟩, hnxt, Nat.le_of_lt_succ hwin, seg.synOptions_wscale,
      negotiatedMss_le _ _, hq, hfl, hok⟩

/-! ### A buffer of 65536 bytes -/

theorem sendPerMssFallback_all {mss room : ℕ} (head : SegmentMeta) (hroom : bytes.length ≤ room * mss) :
    (sendPerMssFallback mss room head bytes).2 = bytes.length := by
  induction room generalizing head bytes with
  | zero =>
    rw [Nat.zero_mul] at hroom
    exact (Nat.le_zero.1 hroom).symm
  | succ room ih =>
    unfold sendPerMssFallback
    split
    next hempty =>
      rw [isEmpty_iff.1 hempty]
      rfl
    · dsimp only
      rw [ih]
      · rw [length_drop]
        omega
      · rw [length_drop]
        rw [Nat.succ_mul] at hroom
        omega

theorem asyncTrySendChain_whole (now : ℕ)
    (hst : l.conn.state = .established) (hne : 0 < bytes.length)
    (hwin : bytes.length ≤ l.conn.usableWindow) (htso : d.tsoAvailable = false)
    (hmac : d.macResolves = true) (hroom : bytes.length ≤ d.txRoom * l.conn.sndMss)
    (hok : l.conn.rtxAllocFailed = false) :
    (l.asyncTrySendChain [bytes] d now fun _ => true).1.conn.sendView =
      { l.conn.sendView with
        sndNxt := l.conn.sndNxt + UInt32.ofNat bytes.length
        queue := l.conn.sendView.queue ++ [(bytes, l.conn.sndNxt, bytes.length % 65536)]
        inFlight := satAdd32 l.conn.rtxBytesInFlight (bytes.length % 65536) } := by
  have hflat : [bytes].flatten = bytes := by simp
  unfold asyncTrySendChain
  rw [hflat, if_neg (not_not.2 hst), if_neg (by omega), Nat.min_eq_left hwin, if_neg (by omega),
    take_of_length_le (le_refl _)]
  have hall : (emitData l.conn d bytes).2 = bytes.length := by
    unfold emitData
    rw [if_neg (by simp [htso]), if_pos hmac]
    exact sendPerMssFallback_all _ hroom
  generalize emitData l.conn d bytes = t at hall ⊢
  obtain ⟨frames, n⟩ := t
  dsimp only at hall ⊢
  subst hall
  have hback : (l.advanceSnd bytes.length frames).conn.sndNxt - UInt32.ofNat bytes.length =
      l.conn.sndNxt := UInt32.add_sub_cancel _ _
  unfold rtxOnDataSent
  rw [if_neg (by omega), if_neg (by simp [advanceSnd, hok]), hback]
  unfold rtxSendLoop
  rw [if_neg (by omega), if_pos (le_refl _)]
  dsimp only
  exact rtxPush_view _ bytes l.conn.sndNxt (bytes.length % 65536) now

theorem sendChain_wraps [CongestionControl κ] (now : ℕ)
    (hlen : bytes.length = 65536) (hst : l.conn.state = .established)
    (hwin : 65536 ≤ l.conn.usableWindow) (htso : d.tsoAvailable = false)
    (hmac : d.macResolves = true) (hroom : 65536 ≤ d.txRoom * l.conn.sndMss)
    (hok : l.conn.rtxAllocFailed = false) (hq : l.conn.rtxQueue = [])
    (hfl : l.conn.rtxBytesInFlight = 0) (hnxt : l.conn.sndNxt = l.conn.sndUna) :
    ∃ s, Sender.step (some ⟨l, []⟩) (.sendChain [bytes] d now fun _ => true) = some s ∧
      s.conn.rtxAllocFailed = false ∧
      s.conn.rtxQueue.map (fun e => (e.iobuf.length, e.len)) = [(65536, 0)] ∧
      s.conn.rtxBytesInFlight = 0 ∧ s.conn.flight = 65536 := by
  have hne : 0 < bytes.length := by omega
  have hview := asyncTrySendChain_whole now hst hne (by omega) htso hmac (by omega) hok
  rw [hlen] at hview
  refine ⟨_, step_sendChain _ _ _ _ _, ?_⟩
  generalize (l.asyncTrySendChain [bytes] d now fun _ => true).1 = l' at hview ⊢
  have hnone : l.conn.sendView.queue = [] := by
    unfold sendView
    rw [hq]
    rfl
  have hqueue : l'.conn.rtxQueue.map (fun e => (e.iobuf.length, e.len)) =
      l'.conn.sendView.queue.map fun r => (r.1.length, r.2.2) := by
    unfold sendView
    rw [map_map]
    rfl
  refine ⟨(congrArg allocFailed hview).trans hok, hqueue.trans ?_, ?_, ?_⟩
  · rw [hview, hnone]
    simp only [nil_append, map_cons, map_nil, hlen]
  · refine (congrArg inFlight hview).trans ?_
    rw [hfl]
    rfl
  · have h1 : l'.conn.sndNxt = _ := congrArg sndNxt hview
    have h2 : l'.conn.sndUna = l.conn.sndUna := congrArg sndUna hview
    unfold flight Sender.conn
    rw [h1, h2, hnxt, UInt32.add_comm, UInt32.add_sub_cancel]
    rfl

/-- A controller with a window past 64 KiB, for concrete runs. -/
structure WideWindow where
  bytes : ℕ

instance : CongestionControl WideWindow where
  new := fun _ => ⟨131072⟩
  withDefaultMss := ⟨131072⟩
  setSlowStartCap := fun k _ => k
  onAck := fun k _ _ _ _ _ => k
  onLoss := fun k _ _ => k
  onRto := id
  window := WideWindow.bytes

/-- The peer scales its window by `2 ^ 7`. -/
def scaledLink : Local WideWindow :=
  let syn : Bytes :=
    [0x13, 0x88, 0, 80, 0, 0, 0, 100, 0, 0, 0, 0, 0x60, 0x02, 0xFF, 0xFF, 0, 0, 0, 0, 3, 3, 7, 0]
  let ack : Bytes :=
    [0x13, 0x88, 0, 80, 0, 0, 0, 101, 0, 0, 3, 0xE9, 0x50, 0x10, 0xFF, 0xFF, 0, 0, 0, 0]
  let ops : List Op := [.listen 80 (.granting 0), .receive there here [syn] (.granting 1),
    .receive there here [ack] (.granting 2)]
  (ops.foldl Audit.step (Audit.init : Audit WideWindow)).core.localAt 1

/-- A buffer of `65536` bytes enters the queue with length `0`. -/
theorem rtx_len_wraps :
    ∃ s, [Event.sendChain [List.replicate 65536 0] ⟨false, true, false, 64, 2048⟩ 5
          (fun _ => true)].foldl Sender.step (some ⟨scaledLink, []⟩) = some s ∧
      s.conn.rtxAllocFailed = false ∧
      s.conn.rtxQueue.map (fun e => (e.iobuf.length, e.len)) = [(65536, 0)] ∧
      s.conn.rtxBytesInFlight = 0 ∧ s.conn.flight = 65536 := by
  have hlink : scaledLink.conn.state = .established ∧ 65536 ≤ scaledLink.conn.usableWindow ∧
      65536 ≤ 64 * scaledLink.conn.sndMss ∧ scaledLink.conn.rtxAllocFailed = false ∧
      scaledLink.conn.rtxQueue.length = 0 ∧ scaledLink.conn.rtxBytesInFlight = 0 ∧
      scaledLink.conn.sndNxt = scaledLink.conn.sndUna := by
    decide +kernel
  obtain ⟨hst, hwin, hroom, hok, hq, hfl, hnxt⟩ := hlink
  exact sendChain_wraps 5 length_replicate hst hwin rfl rfl hroom hok
    (length_eq_zero_iff.1 hq) hfl hnxt

end Waitless.Tcp
