import Waitless.TcpEngine

/-! # What a connection method leaves alone

Every method of a connection is a `Keep` step: it moves neither the slot's place in the pool nor
its identity, and touches the armed-timer list only by linking its own slot at the head, which it
does whenever it sets a deadline. -/

namespace Waitless.Tcp

open List TcpConnection TickLink

variable {κ : Type}

/-! ### The relations -/

/-- What the pool knows, the links of the armed list included. -/
structure Frame where
  slotLink : SlotLink
  endpoints : Endpoints
  accepted : Bool
  connectFailure : ConnectFailure
  state : TcpState
  tickLink : TickLink
  tickHead : ℕ

def Local.frame (l : Local κ) : Frame :=
  ⟨l.conn.toSlotLink, l.conn.toEndpoints, l.conn.accepted, l.conn.connectFailure, l.conn.state,
    l.conn.toTickLink, l.tickHead⟩

/-- The step sets no deadline and nothing the pool knows. -/
def Quiet (l l' : Local κ) : Prop :=
  l'.frame = l.frame ∧ l'.conn.toDeadlines = l.conn.toDeadlines

/-- The armed list is unchanged, or has the slot newly in front. -/
def Links (l l' : Local κ) : Prop :=
  (l'.conn.toTickLink = l.conn.toTickLink ∧ l'.tickHead = l.tickHead) ∨
    (l.conn.tickInList = false ∧ l'.conn.toTickLink = ⟨l.tickHead, true⟩ ∧
      l'.tickHead = l.conn.slotIndex)

/-- What the pool sees of a method, the state apart. -/
structure Touch (l l' : Local κ) : Prop where
  slotLink : l'.conn.toSlotLink = l.conn.toSlotLink
  endpoints : l'.conn.toEndpoints = l.conn.toEndpoints
  accepted : l'.conn.accepted = l.conn.accepted
  connectFailure : l'.conn.connectFailure = l.conn.connectFailure
  links : Links l l'
  armed : (l.conn.Armed → l.conn.tickInList = true) → l'.conn.Armed → l'.conn.tickInList = true

def Keep (l l' : Local κ) : Prop := Touch l l' ∧ l'.conn.state = l.conn.state

variable {l l₁ l₂ : Local κ}

namespace Quiet

theorem refl (l : Local κ) : Quiet l l := ⟨rfl, rfl⟩

theorem trans (h : Quiet l l₁) (h' : Quiet l₁ l₂) : Quiet l l₂ :=
  ⟨h'.1.trans h.1, h'.2.trans h.2⟩

end Quiet

theorem Links.trans (h : Links l l₁) (h' : Links l₁ l₂)
    (hs : l₁.conn.toSlotLink = l.conn.toSlotLink) : Links l l₂ := by
  rcases h with ⟨h1, h2⟩ | ⟨h1, h2, h3⟩ <;> rcases h' with ⟨h1', h2'⟩ | ⟨h1', h2', h3'⟩
  · exact .inl ⟨h1'.trans h1, h2'.trans h2⟩
  · refine .inr ⟨?_, by rw [h2', h2], ?_⟩
    · rw [← h1', ← congrArg tickInList h1]
    · rw [h3', congrArg SlotLink.slotIndex hs]
  · exact .inr ⟨h1, h1'.trans h2, h2'.trans h3⟩
  · -- the slot is linked after the first step, so the second cannot link it again
    rw [congrArg tickInList h2] at h1'
    exact absurd h1' (by simp)

namespace Touch

theorem trans (h : Touch l l₁) (h' : Touch l₁ l₂) : Touch l l₂ where
  slotLink := h'.slotLink.trans h.slotLink
  endpoints := h'.endpoints.trans h.endpoints
  accepted := h'.accepted.trans h.accepted
  connectFailure := h'.connectFailure.trans h.connectFailure
  links := h.links.trans h'.links h.slotLink
  armed := fun ha => h'.armed (h.armed ha)

end Touch

namespace Keep

theorem of_frame (h : l₁.frame = l.frame) (ha : l₁.conn.Armed → l.conn.Armed) : Keep l l₁ := by
  simp only [Local.frame, Frame.mk.injEq] at h
  obtain ⟨h1, h2, h3, h4, h5, h6, h7⟩ := h
  refine ⟨⟨h1, h2, h3, h4, .inl ⟨h6, h7⟩, fun hal harm => ?_⟩, h5⟩
  rw [congrArg tickInList h6]
  exact hal (ha harm)

theorem refl (l : Local κ) : Keep l l := of_frame rfl id

theorem of_quiet (h : Quiet l l₁) : Keep l l₁ :=
  of_frame h.1 fun ha => by rwa [TcpConnection.Armed, h.2] at ha

theorem trans (h : Keep l l₁) (h' : Keep l₁ l₂) : Keep l l₂ :=
  ⟨h.1.trans h'.1, h'.2.trans h.2⟩

theorem armForTick (h : l₁.frame = l.frame) : Keep l l₁.armForTick := by
  simp only [Local.frame, Frame.mk.injEq] at h
  obtain ⟨h1, h2, h3, h4, h5, h6, h7⟩ := h
  unfold Local.armForTick
  split
  case isTrue hin =>
    exact ⟨⟨h1, h2, h3, h4, .inl ⟨h6, h7⟩, fun _ _ => hin⟩, h5⟩
  case isFalse hout =>
    refine ⟨⟨h1, h2, h3, h4, .inr ⟨?_, ?_, ?_⟩, fun _ _ => rfl⟩, h5⟩
    · rw [← congrArg tickInList h6]
      simpa using hout
    · simp [h7]
    · exact congrArg SlotLink.slotIndex h1

end Keep

theorem armed_iff (c : TcpConnection κ) :
    c.Armed ↔ c.rtxDeadlineMs ≠ 0 ∨ c.tlpDeadlineMs ≠ 0 ∨ c.rackDeadlineMs ≠ 0 ∨
      c.persistDeadlineMs ≠ 0 ∨ c.lifecycleDeadlineMs ≠ 0 := by
  unfold TcpConnection.Armed Deadlines.none
  cases c.toDeadlines
  simp only [ne_eq, Deadlines.mk.injEq]
  tauto

/-! ### The byte streams -/

/-- Without the advertised window and the chunk request. -/
def RecvHalf.still (r : RecvHalf) : RecvHalf := { r with rcvWnd := 0, chunkWanted := false }

theorem RecvHalf.of_still {r r' : RecvHalf} (h : r'.still = r.still) :
    r'.rcvNxt = r.rcvNxt ∧ r'.rxRing = r.rxRing ∧ r'.rxHead = r.rxHead ∧ r'.rxTail = r.rxTail ∧
      r'.rxUsed = r.rxUsed ∧ r'.pendingChunk = r.pendingChunk ∧ r'.ooo = r.ooo := by
  simpa [RecvHalf.still] using h

def SameRecv (l l' : Local κ) : Prop := l'.conn.toRecvHalf.still = l.conn.toRecvHalf.still

/-- A queue entry without its transmission record. -/
def RtxEntry.range (e : RtxEntry) : Bytes × UInt32 × ℕ := (e.iobuf, e.seqStart, e.len)

/-- What the send stream rests on. -/
structure SendView where
  sndNxt : UInt32
  sndUna : UInt32
  sndWnd : ℕ
  sndWscale : ℕ
  sndMss : ℕ
  queue : List (Bytes × UInt32 × ℕ)
  inFlight : ℕ
  allocFailed : Bool

def SendView.outline (v : SendView) : SendView :=
  { v with queue := [], inFlight := 0, allocFailed := false }

def TcpConnection.sendView (c : TcpConnection κ) : SendView :=
  ⟨c.sndNxt, c.sndUna, c.sndWnd, c.sndWscale, c.sndMss, c.rtxQueue.map RtxEntry.range,
    c.rtxBytesInFlight, c.rtxAllocFailed⟩

/-- The frame carries no data, or the front of a queued range. -/
def TxSegment.Resends (queue : List (Bytes × UInt32 × ℕ)) (f : TxSegment) : Prop :=
  f.payload = [] ∨ ∃ r ∈ queue, f.head.seq = r.2.1 ∧ f.payload <+: r.1

structure SendSteady (l l' : Local κ) : Prop where
  send : l'.conn.sendView = l.conn.sendView
  wire : ∃ frames, l'.tx = l.tx ++ frames ∧ ∀ f ∈ frames, f.Resends l.conn.sendView.queue

namespace SendSteady

theorem quiet (hs : l₁.conn.sendView = l.conn.sendView) (htx : l₁.tx = l.tx) : SendSteady l l₁ :=
  ⟨hs, [], by simp [htx], by simp⟩

theorem control {f : TxSegment} (hs : l₁.conn.sendView = l.conn.sendView)
    (htx : l₁.tx = l.tx ++ [f]) (hf : f.payload = []) : SendSteady l l₁ :=
  ⟨hs, [f], htx, by simp [TxSegment.Resends, hf]⟩

theorem trans (h : SendSteady l l₁) (h' : SendSteady l₁ l₂) : SendSteady l l₂ := by
  obtain ⟨frames, htx, hframes⟩ := h.wire
  obtain ⟨frames', htx', hframes'⟩ := h'.wire
  refine ⟨h'.send.trans h.send, frames ++ frames', by rw [htx', htx, append_assoc], ?_⟩
  intro f hf
  rcases mem_append.1 hf with hf | hf
  · exact hframes f hf
  · rw [← h.send]
    exact hframes' f hf

end SendSteady

/-- The method moves neither stream, and keeps the slot's place. -/
structure Steady (l l' : Local κ) : Prop extends SendSteady l l' where
  recv : SameRecv l l'
  keep : Keep l l'

namespace Steady

theorem state (h : Steady l l₁) : l₁.conn.state = l.conn.state := h.keep.2

theorem quiet (hk : l₁.frame = l.frame) (ha : l₁.conn.Armed → l.conn.Armed) (hr : SameRecv l l₁)
    (hs : l₁.conn.sendView = l.conn.sendView) (htx : l₁.tx = l.tx) : Steady l l₁ :=
  ⟨.quiet hs htx, hr, .of_frame hk ha⟩

theorem refl (l : Local κ) : Steady l l := .quiet rfl id rfl rfl rfl

theorem trans (h : Steady l l₁) (h' : Steady l₁ l₂) : Steady l l₂ :=
  ⟨h.toSendSteady.trans h'.toSendSteady, h'.recv.trans h.recv, h.keep.trans h'.keep⟩

theorem armForTick (hk : l₁.frame = l.frame) (hr : SameRecv l l₁) (h : SendSteady l l₁) :
    Steady l l₁.armForTick := by
  refine ⟨h.trans ?_, ?_, .armForTick hk⟩
  · unfold Local.armForTick
    split
    · exact .quiet rfl rfl
    · exact .quiet rfl rfl
  · unfold Local.armForTick
    split
    · exact hr
    · exact hr

end Steady

/-- Only the retransmission queue and its timers move. -/
structure Retained (l l' : Local κ) : Prop where
  outline : l'.conn.sendView.outline = l.conn.sendView.outline
  tx : l'.tx = l.tx
  recv : SameRecv l l'
  keep : Keep l l'

namespace Retained

theorem state (h : Retained l l₁) : l₁.conn.state = l.conn.state := h.keep.2

theorem of_frame (hk : l₁.frame = l.frame) (ha : l₁.conn.Armed → l.conn.Armed) (hr : SameRecv l l₁)
    (hs : l₁.conn.sendView.outline = l.conn.sendView.outline) (htx : l₁.tx = l.tx) :
    Retained l l₁ :=
  ⟨hs, htx, hr, .of_frame hk ha⟩

theorem refl (l : Local κ) : Retained l l := .of_frame rfl id rfl rfl rfl

theorem trans (h : Retained l l₁) (h' : Retained l₁ l₂) : Retained l l₂ :=
  ⟨h'.outline.trans h.outline, h'.tx.trans h.tx, h'.recv.trans h.recv, h.keep.trans h'.keep⟩

theorem of_steady (h : Steady l l₁) (htx : l₁.tx = l.tx) : Retained l l₁ :=
  ⟨congrArg SendView.outline h.send, htx, h.recv, h.keep⟩

end Retained

/-! ### Segments, wakeups and timers -/

namespace Local

variable (l)

theorem sendSyn_quiet : Quiet l l.sendSyn := ⟨rfl, rfl⟩

theorem maybeSendWindowUpdate_quiet : Quiet l l.maybeSendWindowUpdate := by
  unfold maybeSendWindowUpdate
  split
  · exact .refl l
  · dsimp only
    split
    · exact ⟨rfl, rfl⟩
    · exact .refl l

theorem rxPop_quiet (cap : ℕ) : Quiet l (l.rxPop cap).1 := by
  unfold rxPop
  split_ifs
  · exact .refl l
  · exact .refl l
  · exact Quiet.trans ⟨rfl, rfl⟩ (maybeSendWindowUpdate_quiet _)

theorem doRecvChunk_quiet (reserved : Bool) : Quiet l (l.doRecvChunk reserved).1 := by
  unfold doRecvChunk
  split
  · exact ⟨rfl, rfl⟩
  · split_ifs
    · exact .refl l
    · exact .refl l
    · exact rxPop_quiet l _

theorem sendSegmentOpts_steady (head : SegmentMeta) (options : Bytes) :
    Steady l (l.sendSegmentOpts head [] options) := ⟨.control rfl rfl rfl, rfl, .of_frame rfl id⟩

theorem sendSegment_steady {l : Local κ} {head : SegmentMeta} {payload : Bytes}
    {r : Bytes × UInt32 × ℕ} (hr : r ∈ l.conn.sendView.queue) (hseq : head.seq = r.2.1)
    (hpay : payload <+: r.1) : Steady l (l.sendSegment head payload) := by
  refine ⟨⟨rfl, _, rfl, ?_⟩, rfl, .of_frame rfl id⟩
  intro f hf
  obtain rfl := mem_singleton.1 hf
  exact .inr ⟨r, hr, hseq, (List.take_prefix _ _).trans hpay⟩

theorem wakeRecv_steady : Steady l l.wakeRecv := .quiet rfl id rfl rfl rfl

theorem replyAck_steady (seg : Segment) : Steady l (l.replyAck seg) :=
  sendSegmentOpts_steady l _ _

theorem emitAck_steady (seg : Segment) : Steady l (l.emitAck seg) := by
  unfold emitAck
  dsimp only
  split
  · exact sendSegmentOpts_steady l _ _
  · exact replyAck_steady l seg

theorem maybeSendWindowUpdate_steady : Steady l l.maybeSendWindowUpdate := by
  unfold maybeSendWindowUpdate
  split
  · exact .refl l
  · dsimp only
    split
    · exact ⟨.control rfl rfl rfl, rfl, .of_frame rfl id⟩
    · exact .refl l

theorem armRtx_steady (now : ℕ) : Steady l (l.armRtx now) :=
  .armForTick rfl rfl (.quiet rfl rfl)

theorem armRtx_tx (now : ℕ) : (l.armRtx now).tx = l.tx := by
  unfold armRtx armForTick
  split <;> rfl

theorem armFinTimer_steady (now : ℕ) : Steady l (l.armFinTimer now) :=
  .armForTick rfl rfl (.quiet rfl rfl)

theorem armTimeWait_steady (now : ℕ) : Steady l (l.armTimeWait now) :=
  .armForTick rfl rfl (.quiet rfl rfl)

theorem armPersist_steady (now : ℕ) : Steady l (l.armPersist now) :=
  .armForTick rfl rfl (.quiet rfl rfl)

theorem retransmitFin_steady (now : ℕ) : Steady l (l.retransmitFin now) :=
  .armForTick rfl rfl (.control rfl rfl rfl)

theorem sendWindowProbe_steady (now : ℕ) : Steady l (l.sendWindowProbe now) :=
  .armForTick rfl rfl (.control rfl rfl rfl)

theorem retransmitSyn_keep (now : ℕ) : Keep l (l.retransmitSyn now) :=
  Keep.armForTick rfl

theorem startAnchor_tx (seq : UInt32) (now : ℕ) : (l.startAnchor seq now).tx = l.tx := by
  unfold startAnchor
  split <;> rfl

theorem startAnchor_steady (seq : UInt32) (now : ℕ) :
    Steady l (l.startAnchor seq now) := by
  unfold startAnchor
  split
  · exact .refl l
  · exact .quiet rfl id rfl rfl rfl

theorem establishedTail_steady : Steady l l.establishedTail := by
  unfold establishedTail
  split
  · dsimp only
    split
    · exact (maybeSendWindowUpdate_steady l).trans (wakeRecv_steady _)
    · exact maybeSendWindowUpdate_steady l
  · exact .refl l

theorem timeWaitReack_steady (seg : Segment) (prevState : TcpState) (now : ℕ) :
    Steady l (l.timeWaitReack seg prevState now) := by
  unfold timeWaitReack
  split
  · exact (replyAck_steady l seg).trans (armTimeWait_steady _ now)
  · exact .refl l

/-! ### Retransmission -/

theorem steady_of_ranges {l : Local κ} {queue : List RtxEntry}
    (hq : queue.map RtxEntry.range = l.conn.rtxQueue.map RtxEntry.range) :
    Steady l { l with conn := { l.conn with rtxQueue := queue } } := by
  refine .quiet rfl id rfl ?_ rfl
  simp only [sendView, hq]

theorem map_range_set {queue : List RtxEntry} {idx : ℕ} {e e' : RtxEntry}
    (h : queue[idx]? = some e) (he : e'.range = e.range) :
    (queue.set idx e').map RtxEntry.range = queue.map RtxEntry.range := by
  apply ext_getElem?
  intro j
  rw [getElem?_map, getElem?_set, getElem?_map]
  split_ifs with hj hlt
  · rw [← hj, h, Option.map_some, Option.map_some, he]
  · rw [← hj, getElem?_eq_none (by omega)]
  · rfl

theorem emitRtxEntry_steady (idx now : ℕ) : Steady l (l.emitRtxEntry idx now) := by
  unfold emitRtxEntry
  split
  · exact .refl l
  next e he =>
    dsimp only
    split
    · exact .refl l
    · have he' : ({ e with txCount := satSucc8 e.txCount, lastTxMs := now } : RtxEntry).range =
          e.range := rfl
      have hmem : e.range ∈ l.conn.sendView.queue :=
        mem_map_of_mem (mem_of_getElem? he)
      have hsend : Steady l (l.sendSegment
          (l.conn.header e.seqStart l.conn.rcvNxt (tcpAck ||| tcpPsh) l.conn.rxFree)
          (e.iobuf.take (min e.len l.conn.sndMss))) :=
        sendSegment_steady hmem rfl (List.take_prefix _ _)
      have hq := map_range_set he he'
      exact hsend.trans (Steady.trans (steady_of_ranges hq) (.quiet rfl id rfl rfl rfl))

theorem foldl_steady {α : Type*} (f : Local κ → α → Local κ) (hf : ∀ l a, Steady l (f l a))
    (as : List α) (l : Local κ) : Steady l (as.foldl f l) := by
  induction as generalizing l with
  | nil => exact .refl l
  | cons a as ih => exact (hf l a).trans (ih _)

theorem sackRetransmitHoles_steady (now : ℕ) :
    Steady l (l.sackRetransmitHoles now) := by
  unfold sackRetransmitHoles
  split
  · exact .refl l
  · refine foldl_steady _ (fun l i => ?_) _ l
    split
    · exact emitRtxEntry_steady l i now
    · exact .refl l

theorem emitLost_steady (base : UInt32) (now : ℕ) (is lost : List ℕ) (l : Local κ) :
    Steady l (emitLost base now is lost l) := by
  fun_induction emitLost base now is lost l with
  | case1 => exact .refl _
  | case2 => exact .refl _
  | case3 _ _ _ _ _ _ ih => exact (emitRtxEntry_steady _ _ now).trans ih
  | case4 _ _ _ _ _ _ _ _ ih => exact ih
  | case5 _ _ _ _ _ _ ih => exact ih

theorem sendTlpProbe_steady (now : ℕ) : Steady l (l.sendTlpProbe now) := by
  unfold sendTlpProbe
  split
  · exact .quiet rfl (by simp [armed_iff]; tauto) rfl rfl rfl
  · have hcount : Steady l { l with conn := { l.conn with tlpCount := satSucc8 l.conn.tlpCount } } :=
      .quiet rfl id rfl rfl rfl
    refine (hcount.trans (emitRtxEntry_steady _ 0 now)).trans ?_
    exact .armForTick rfl rfl (.quiet rfl rfl)

/-! ### Sends -/

theorem handleRtxPushOom_retained :
    Retained l { l with conn := l.conn.handleRtxPushOom } :=
  .of_frame rfl (by simp [armed_iff, handleRtxPushOom]; tauto) rfl rfl rfl

theorem rtxPush_retained (iobuf : Bytes) (seqStart : UInt32) (len now : ℕ)
    (reserved : Bool) : Retained l (l.rtxPush iobuf seqStart len now reserved).1 := by
  unfold rtxPush
  split
  · exact .of_frame rfl id rfl rfl rfl
  · refine Retained.trans ?_ (.of_steady (startAnchor_steady _ _ now) (startAnchor_tx _ _ now))
    split
    · refine Retained.trans ?_ (.of_steady (armRtx_steady _ now) (armRtx_tx _ now))
      exact .of_frame rfl id rfl rfl rfl
    · exact .of_frame rfl id rfl rfl rfl

theorem pushed_retained {l l' : Local κ} (ok : Bool) (h : Retained l l') :
    Retained l (if ok then l' else { l' with conn := l'.conn.handleRtxPushOom }) := by
  cases ok with
  | true => exact h
  | false => exact h.trans (handleRtxPushOom_retained l')

theorem rtxSendLoop_retained (now : ℕ) (reserve : ℕ → Bool) (chain : List Bytes) (total : ℕ)
    (seq : UInt32) (l : Local κ) : Retained l (rtxSendLoop now reserve chain total seq l).1 := by
  induction chain generalizing total seq l with
  | nil => exact .refl l
  | cons front rest ih =>
    unfold rtxSendLoop
    split
    · exact .refl l
    split
    · have hp := rtxPush_retained l front seq (front.length % 65536) now
        (reserve l.conn.rtxQueue.length)
      dsimp only
      split
      · exact hp.trans (ih _ _ _)
      · exact hp.trans (handleRtxPushOom_retained _)
    · exact pushed_retained _ (rtxPush_retained l _ seq _ now _)

theorem rtxOnDataSent_retained (chain : List Bytes) (total now : ℕ)
    (reserve : ℕ → Bool) : Retained l (l.rtxOnDataSent chain total now reserve).1 := by
  unfold rtxOnDataSent
  split_ifs
  · exact .refl l
  · exact .refl l
  · exact rtxSendLoop_retained now reserve chain _ _ _

theorem rtxOnDataSentSlice_retained (bytes : Bytes) (now : ℕ)
    (staged reserved : Bool) : Retained l (l.rtxOnDataSentSlice bytes now staged reserved) := by
  unfold rtxOnDataSentSlice
  split
  · exact .refl l
  split
  · have hflag : Retained l { l with conn := { l.conn with rtxAllocFailed := true } } :=
      .of_frame rfl id rfl rfl rfl
    exact hflag.trans (handleRtxPushOom_retained _)
  · exact pushed_retained _ (rtxPush_retained l bytes _ _ now reserved)

theorem advanceSnd_keep (n : ℕ) (frames : List TxSegment) :
    Keep l (l.advanceSnd n frames) := .of_frame rfl id

theorem asyncTrySendChain_cases (chain : List Bytes) (d : Driver) (now : ℕ)
    (reserve : ℕ → Bool) :
    Steady l (l.asyncTrySendChain chain d now reserve).1 ∨
      ∃ n frames, (frames, n) = emitData l.conn d
          (chain.flatten.take (min chain.flatten.length l.conn.usableWindow)) ∧
        Retained (l.advanceSnd n frames) (l.asyncTrySendChain chain d now reserve).1 := by
  unfold asyncTrySendChain
  dsimp only
  split
  · exact .inl (.refl l)
  split
  · exact .inl (.refl l)
  split
  · split
    · exact .inl (armPersist_steady l now)
    · exact .inl (.refl l)
  · exact .inr ⟨_, _, rfl, rtxOnDataSent_retained _ chain _ now reserve⟩

theorem trySendTso_cases (minPayload : ℕ) (fill : Option Bytes) (d : Driver)
    (now : ℕ) (staged reserved : Bool) :
    Steady l (l.trySendTso minPayload fill d now staged reserved).1 ∨
      ∃ payload frames, fill = some payload ∧ l.conn.sndMss < minPayload ∧
        minPayload ≤ l.conn.usableWindow ∧
        Retained (l.advanceSnd payload.length frames)
          (l.trySendTso minPayload fill d now staged reserved).1 := by
  unfold trySendTso
  dsimp only
  split_ifs with h1 h2 h3 h4
  · exact .inl (.refl l)
  · exact .inl (.refl l)
  · exact .inl (.refl l)
  · exact .inl (.refl l)
  · split
    · exact .inl (.refl l)
    · split_ifs
      · exact .inl (.refl l)
      · exact .inl (.refl l)
      · exact .inr ⟨_, _, rfl, Nat.lt_of_not_le h2, Nat.le_of_not_lt h3,
          rtxOnDataSentSlice_retained _ _ now staged reserved⟩

theorem asyncTrySendChain_recv (chain : List Bytes) (d : Driver) (now : ℕ)
    (reserve : ℕ → Bool) : SameRecv l (l.asyncTrySendChain chain d now reserve).1 ∧
      Keep l (l.asyncTrySendChain chain d now reserve).1 := by
  obtain hs | ⟨n, frames, -, hr⟩ := asyncTrySendChain_cases l chain d now reserve
  · exact ⟨hs.recv, hs.keep⟩
  · exact ⟨hr.recv, (advanceSnd_keep l n frames).trans hr.keep⟩

theorem trySendTso_recv (minPayload : ℕ) (fill : Option Bytes) (d : Driver)
    (now : ℕ) (staged reserved : Bool) :
    SameRecv l (l.trySendTso minPayload fill d now staged reserved).1 ∧
      Keep l (l.trySendTso minPayload fill d now staged reserved).1 := by
  obtain hs | ⟨payload, frames, -, -, -, hr⟩ :=
    trySendTso_cases l minPayload fill d now staged reserved
  · exact ⟨hs.recv, hs.keep⟩
  · exact ⟨hr.recv, (advanceSnd_keep l _ frames).trans hr.keep⟩

theorem processData_keep (seg : Segment) (reserved : Bool) :
    SendSteady l (l.processData seg reserved) ∧ Keep l (l.processData seg reserved) := by
  have after : ∀ {r : RecvHalf} {l' : Local κ},
      Steady { l with conn := { l.conn with toRecvHalf := r } } l' →
        SendSteady l l' ∧ Keep l l' := by
    intro r l' hs
    have hq : SendSteady l { l with conn := { l.conn with toRecvHalf := r } } := .quiet rfl rfl
    have hk : Keep l { l with conn := { l.conn with toRecvHalf := r } } := .of_frame rfl id
    exact ⟨hq.trans hs.toSendSteady, hk.trans hs.keep⟩
  unfold processData
  dsimp only
  split
  · split
    · split
      · exact after ((wakeRecv_steady _).trans (emitAck_steady _ seg))
      · exact after (emitAck_steady _ seg)
    · split
      · exact ⟨(emitAck_steady l seg).toSendSteady, (emitAck_steady l seg).keep⟩
      · exact after (r := { l.conn.toRecvHalf with ooo := _ }) (emitAck_steady _ seg)
  · exact ⟨.quiet rfl rfl, .refl l⟩

/-! ### Acknowledgements and timers -/

theorem sampleAnchor_eq (c : TcpConnection κ) (now : ℕ) :
    ∃ r, c.sampleAnchor now = { c with toRttState := r } := by
  unfold sampleAnchor sampleRtt
  split
  · split
    · exact ⟨_, rfl⟩
    · exact ⟨_, rfl⟩
  · exact ⟨_, rfl⟩

theorem ackSack_steady (seg : Segment) : Steady l (l.ackSack seg) := by
  unfold ackSack
  dsimp only
  split
  · exact .refl l
  · have hq : (l.conn.rtxQueue.map fun e => { e with
        sacked := e.sacked || (seg.sackBlocks l.conn.sackOk).any (coveredBy e) }).map
        RtxEntry.range = l.conn.rtxQueue.map RtxEntry.range := by
      rw [map_map]
      rfl
    exact (steady_of_ranges hq).trans (.quiet rfl id rfl rfl rfl)

theorem ackPersist_steady : Steady l l.ackPersist := by
  unfold ackPersist
  split
  · exact .quiet rfl (by simp [armed_iff]; tauto) rfl rfl rfl
  · exact .refl l

theorem ackWake_steady : Steady l l.ackWake := by
  unfold ackWake
  split
  · exact .quiet rfl id rfl rfl rfl
  · exact .refl l

def finState : TcpState → TcpState
  | .established | .synReceived => .closeWait
  | .finWait1 | .finWait2 => .timeWait
  | st => st

/-- The flag says that the handshake completed. -/
def AckStep (established : Bool) (st st' : TcpState) : Prop :=
  if established then st = .synReceived ∧ st' = .established
  else st' = st ∨ (st = .finWait1 ∧ st' = .finWait2)

theorem touch_of_frame {l l' : Local κ} (st : TcpState)
    (h : l'.frame = { l.frame with state := st }) (ha : l'.conn.Armed → l.conn.Armed) :
    Touch l l' := by
  simp only [frame, Frame.mk.injEq] at h
  obtain ⟨h1, h2, h3, h4, -, h6, h7⟩ := h
  refine ⟨h1, h2, h3, h4, .inl ⟨h6, h7⟩, fun hal harm => ?_⟩
  rw [congrArg tickInList h6]
  exact hal (ha harm)

theorem ackTransition_touch {l : Local κ} {seg : Segment} {ackAdvances established : Bool}
    {c' : TcpConnection κ}
    (h : ackTransition (updateWindow l.conn seg) seg.ack ackAdvances = (c', .done established)) :
    Touch l { l with conn := c' } ∧ AckStep established l.conn.state c'.state := by
  obtain ⟨sh, hw⟩ : ∃ sh, updateWindow l.conn seg = { l.conn with toSendHalf := sh } := by
    unfold updateWindow
    split
    · exact ⟨_, rfl⟩
    · exact ⟨_, rfl⟩
  rw [hw] at h
  unfold ackTransition at h
  split_ifs at h with h1 h2 h3 h4
  · cases h
    exact ⟨touch_of_frame .established rfl id, h1.1, rfl⟩
  · cases h
  · cases h
    refine ⟨touch_of_frame .finWait2 rfl ?_, .inr ⟨h3.1, rfl⟩⟩
    simp only [armed_iff]
    tauto
  · cases h
    exact ⟨touch_of_frame l.conn.state rfl id, .inl rfl⟩
  · cases h
    exact ⟨touch_of_frame l.conn.state rfl id, .inl rfl⟩

theorem finTransition_touch (now : ℕ) :
    Touch l (l.finTransition now) ∧ SendSteady l (l.finTransition now) ∧
      SameRecv l (l.finTransition now) ∧
      (l.finTransition now).conn.state = finState l.conn.state := by
  have hwait : Touch l { l with conn := { l.conn with state := .timeWait, finRetxCount := 0 } } :=
    touch_of_frame .timeWait rfl id
  have hs := armTimeWait_steady
    { l with conn := { l.conn with state := .timeWait, finRetxCount := 0 } } now
  have hsend : SendSteady l { l with conn :=
      { l.conn with state := .timeWait, finRetxCount := 0 } } := .quiet rfl rfl
  unfold finTransition
  cases hst : l.conn.state <;> dsimp only
  case established => exact ⟨touch_of_frame .closeWait rfl id, .quiet rfl rfl, rfl, rfl⟩
  case synReceived => exact ⟨touch_of_frame .closeWait rfl id, .quiet rfl rfl, rfl, rfl⟩
  case finWait1 => exact ⟨hwait.trans hs.keep.1, hsend.trans hs.toSendSteady, hs.recv, hs.state⟩
  case finWait2 => exact ⟨hwait.trans hs.keep.1, hsend.trans hs.toSendSteady, hs.recv, hs.state⟩
  all_goals exact ⟨(Keep.refl l).1, .quiet rfl rfl, rfl, hst⟩

theorem processFin_touch (seg : Segment) (now : ℕ) :
    Touch l (l.processFin seg now) ∧ SendSteady l (l.processFin seg now) ∧
      ((l.processFin seg now).conn.state = l.conn.state ∨
        (l.processFin seg now).conn.state = finState l.conn.state) := by
  have hnext : SendSteady l { l with conn := { l.conn with rcvNxt := l.conn.rcvNxt + 1 } } :=
    .quiet rfl rfl
  have hk : Keep l { l with conn := { l.conn with rcvNxt := l.conn.rcvNxt + 1 } } :=
    .of_frame rfl id
  unfold processFin
  split
  · dsimp only
    have hack := replyAck_steady { l with conn := { l.conn with rcvNxt := l.conn.rcvNxt + 1 } } seg
    generalize replyAck _ seg = l₁ at hack ⊢
    have hst : l₁.conn.state = l.conn.state := hack.state
    obtain ⟨ht, hsend, -, hs⟩ := finTransition_touch l₁ now
    rw [hst] at hs
    have ht' := (hk.trans hack.keep).1.trans ht
    have hsend' := (hnext.trans hack.toSendSteady).trans hsend
    split
    · have hw := wakeRecv_steady (l₁.finTransition now)
      exact ⟨ht'.trans hw.keep.1, hsend'.trans hw.toSendSteady, .inr hs⟩
    · exact ⟨ht', hsend', .inr hs⟩
  · exact ⟨(Keep.refl l).1, .quiet rfl rfl, .inl rfl⟩

theorem afterAck_touch (seg : Segment) (prevState : TcpState) (now : ℕ)
    (reserved : Bool) :
    Touch l (l.afterAck seg prevState now reserved) ∧
      SendSteady l (l.afterAck seg prevState now reserved) ∧
      ((l.afterAck seg prevState now reserved).conn.state = l.conn.state ∨
        (l.afterAck seg prevState now reserved).conn.state = finState l.conn.state) := by
  unfold afterAck
  dsimp only
  obtain ⟨hsend, hd⟩ := processData_keep l seg reserved
  obtain ⟨hf, hfin, hs⟩ := processFin_touch (l.processData seg reserved) seg now
  have htail := (timeWaitReack_steady ((l.processData seg reserved).processFin seg now) seg
    prevState now).trans (establishedTail_steady _)
  refine ⟨(hd.1.trans hf).trans htail.keep.1, (hsend.trans hfin).trans htail.toSendSteady, ?_⟩
  rw [htail.state, ← hd.2]
  exact hs

theorem close_touch {l l' : Local κ} {now : ℕ} (h : l.close now = some l') :
    Touch l l' ∧ ((l.conn.state = .established ∧ l'.conn.state = .finWait1) ∨
      (l.conn.state = .closeWait ∧ l'.conn.state = .lastAck)) := by
  have hfin : ∀ st, Touch l (l.sendFin st now) ∧ (l.sendFin st now).conn.state = st := by
    intro st
    have hk := armFinTimer_steady { l.sendControl l.conn.sndNxt l.conn.rcvNxt (tcpFin ||| tcpAck)
      l.conn.rxFree with conn := { l.conn with sndNxt := l.conn.sndNxt + 1, state := st } } now
    exact ⟨Touch.trans (by exact touch_of_frame st rfl id) hk.keep.1, hk.state⟩
  unfold close at h
  split at h
  · cases h
    exact ⟨(hfin _).1, .inl ⟨‹_›, (hfin _).2⟩⟩
  · cases h
    exact ⟨(hfin _).1, .inr ⟨‹_›, (hfin _).2⟩⟩
  · cases h

variable [CongestionControl κ]

theorem fastRetransmit_steady (now : ℕ) : Steady l (l.fastRetransmit now) := by
  unfold fastRetransmit
  dsimp only
  have hloss : Steady l { l with conn :=
      { l.conn with cc := CongestionControl.onLoss l.conn.cc 0 false } } :=
    .quiet rfl id rfl rfl rfl
  refine hloss.trans ?_
  split
  · exact (sackRetransmitHoles_steady _ now).trans (.quiet rfl id rfl rfl rfl)
  · exact (emitRtxEntry_steady _ 0 now).trans (.quiet rfl id rfl rfl rfl)

theorem ackCount_steady (oldUna : UInt32) (isDupAck : Bool) (now : ℕ) :
    Steady l (l.ackCount oldUna isDupAck now) := by
  unfold ackCount
  split_ifs
  · have hcount : Steady l { l with conn := { l.conn with dupAcks := satSucc8 l.conn.dupAcks } } :=
      .quiet rfl id rfl rfl rfl
    unfold onDupAck
    dsimp only
    split
    · exact hcount.trans (fastRetransmit_steady _ now)
    · exact hcount
  · exact .quiet rfl id rfl rfl rfl
  · exact .refl l

theorem resendLost_steady (lost : List ℕ) (now : ℕ) :
    Steady l (l.resendLost lost now) := by
  unfold resendLost
  split
  · exact .refl l
  · have hloss : Steady l { l with conn :=
        { l.conn with cc := CongestionControl.onLoss l.conn.cc 0 false } } :=
      .quiet rfl id rfl rfl rfl
    exact (hloss.trans (emitLost_steady _ now _ lost _)).trans (.quiet rfl id rfl rfl rfl)

theorem rackDetect_steady (now : ℕ) : Steady l (l.rackDetect now) := by
  have hrearm : ∀ (l : Local κ) (deadline : Option ℕ), Steady l (l.rearmRack deadline) := by
    intro l deadline
    cases deadline with
    | none => exact .refl l
    | some d => exact .armForTick rfl rfl (.quiet rfl rfl)
  have hclear : Steady l { l with conn := { l.conn with rackDeadlineMs := 0 } } :=
    .quiet rfl (by simp [armed_iff]; tauto) rfl rfl rfl
  unfold rackDetect
  dsimp only
  split
  · exact hclear
  · split
    · exact hclear.trans (.quiet rfl id rfl rfl rfl)
    · exact (hclear.trans (resendLost_steady _ _ now)).trans (hrearm _ _)

theorem retransmitOldest_steady (now : ℕ) : Steady l (l.retransmitOldest now) := by
  unfold retransmitOldest
  split
  · exact .quiet rfl (by simp [armed_iff]; tauto) rfl rfl rfl
  · have hcc : Steady l { l with conn := l.conn.congestionOnRto } := .quiet rfl id rfl rfl rfl
    have hq : (l.conn.rtxQueue.map fun e => { e with sacked := false }).map RtxEntry.range =
        l.conn.rtxQueue.map RtxEntry.range := by
      rw [map_map]
      rfl
    have hsack := hcc.trans (steady_of_ranges hq)
    refine (hsack.trans (emitRtxEntry_steady _ 0 now)).trans ?_
    exact .armForTick rfl rfl (.quiet rfl rfl)

theorem rtxOnAck_steady {l : Local κ} {oldUna : UInt32} (now : ℕ)
    (hok : l.conn.rtxAllocFailed = false) (huna : l.conn.sndUna ≠ oldUna) :
    Steady { l with conn := (l.conn.rtxAck l.conn.sndUna).1 } (l.rtxOnAck oldUna now) := by
  unfold rtxOnAck
  rw [if_neg (by simp [hok]), if_neg huna]
  generalize l.conn.rtxAck l.conn.sndUna = t
  obtain ⟨c, acked⟩ := t
  dsimp only
  have hcc : Steady { l with conn := c }
      { l with conn := if 0 < acked then c.cwndOnAck acked now else c } := by
    split
    · exact .quiet rfl id rfl rfl rfl
    · exact .refl _
  generalize (if 0 < acked then c.cwndOnAck acked now else c) = c1 at hcc ⊢
  obtain ⟨r, hr⟩ := sampleAnchor_eq c1 now
  rw [hr]
  refine hcc.trans ?_
  split
  · exact .quiet rfl (by simp [armed_iff]; tauto) rfl rfl rfl
  · exact .armForTick rfl rfl (.quiet rfl rfl)

theorem rtxOnAck_tx (oldUna : UInt32) (now : ℕ) :
    (l.rtxOnAck oldUna now).tx = l.tx := by
  unfold rtxOnAck
  dsimp only
  split
  · split <;> rfl
  split
  · rfl
  generalize sampleAnchor _ now = c
  split
  · rfl
  · exact armRtx_tx _ now

theorem rtxOnAck_retained (oldUna : UInt32) (now : ℕ) :
    Retained l (l.rtxOnAck oldUna now) := by
  cases hfail : l.conn.rtxAllocFailed with
  | true =>
    unfold rtxOnAck
    rw [if_pos hfail]
    split
    · exact .of_frame rfl id rfl rfl rfl
    · exact .refl l
  | false =>
    by_cases hsame : l.conn.sndUna = oldUna
    · unfold rtxOnAck
      rw [if_neg (by simp [hfail]), if_pos hsame]
      exact .refl l
    · have hst := rtxOnAck_steady now hfail hsame
      refine ⟨(congrArg SendView.outline hst.send).trans rfl, rtxOnAck_tx l oldUna now,
        hst.recv.trans rfl, Keep.trans ?_ hst.keep⟩
      exact .of_frame rfl id

theorem ackBookkeeping_steady (seg : Segment) (oldUna : UInt32) (isDupAck : Bool)
    (now : ℕ) : Steady (l.rtxOnAck oldUna now) (l.ackBookkeeping seg oldUna isDupAck now) :=
  ((((ackSack_steady _ seg).trans (ackCount_steady _ oldUna isDupAck now)).trans
    (rackDetect_steady _ now)).trans (ackPersist_steady _)).trans (ackWake_steady _)

/-! ### State transitions -/

theorem processAck_touch {l l' : Local κ} {seg : Segment} {now : ℕ} {established : Bool}
    (h : l.processAck seg now = (l', .done established)) :
    Touch l l' ∧ AckStep established l.conn.state l'.conn.state := by
  unfold processAck at h
  dsimp only at h
  split at h
  · cases h
  split at h
  · cases h
  next c' outcome _ hack =>
    obtain ⟨rfl, rfl⟩ := Prod.mk.inj h
    obtain ⟨ht, hs⟩ := ackTransition_touch hack
    have hk := (rtxOnAck_retained { l with conn := c' } l.conn.sndUna now).keep.trans
      (ackBookkeeping_steady { l with conn := c' } seg l.conn.sndUna
        (seg.ack == l.conn.sndUna && seg.payloadLen == 0 &&
          seg.flags &&& (tcpSyn ||| tcpFin) == 0 && seqLt l.conn.sndUna l.conn.sndNxt) now).keep
    refine ⟨ht.trans hk.1, ?_⟩
    rwa [hk.2]

theorem segmentArrives_touch {l l' : Local κ} {seg : Segment} {now : ℕ}
    {reserved established : Bool}
    (h : l.segmentArrives seg now reserved = (l', .done established)) :
    Touch l l' ∧ ∃ mid, AckStep established l.conn.state mid ∧
      (l'.conn.state = mid ∨ l'.conn.state = finState mid) := by
  unfold segmentArrives at h
  split at h
  · split at h
    next l₁ est hack =>
      obtain ⟨rfl, hest⟩ := Prod.mk.inj h
      cases hest
      obtain ⟨ht, hs⟩ := processAck_touch hack
      obtain ⟨ht', -, hs'⟩ := afterAck_touch l₁ seg l.conn.state now reserved
      exact ⟨ht.trans ht', _, hs, hs'⟩
    next hne _ =>
      obtain ⟨rfl, rfl⟩ := Prod.mk.inj h
      exact absurd rfl (hne _)
  · obtain ⟨rfl, hest⟩ := Prod.mk.inj h
    cases hest
    obtain ⟨ht', -, hs'⟩ := afterAck_touch l seg l.conn.state now reserved
    exact ⟨ht', _, .inl rfl, hs'⟩

theorem handleSynSent_touch (seg : Segment) (now : ℕ) :
    Touch l (l.handleSynSent seg now) ∧
      ((l.handleSynSent seg now).conn.state = l.conn.state ∨
        (l.handleSynSent seg now).conn.state = .established) := by
  unfold handleSynSent
  dsimp only
  split
  · exact ⟨(sendSegmentOpts_steady l _ _).keep.1, .inl rfl⟩
  split
  · exact ⟨(Keep.refl l).1, .inl rfl⟩
  split
  · exact ⟨(Keep.refl l).1, .inl rfl⟩
  split
  · obtain ⟨r, hr⟩ := sampleAnchor_eq (congestionInit { l.conn with
      rcvNxt := seg.seq + 1, sndUna := seg.ack, sndWnd := seg.window, sndWl1 := seg.seq,
      sndWl2 := seg.ack, wscaleOk := seg.synOptions.wscale.isSome,
      sndWscale := seg.synOptions.wscale.getD 0, sackOk := seg.synOptions.sackPermitted,
      sndMss := negotiatedMss l.conn.localIp seg.synOptions.mss, state := .established,
      lifecycleDeadlineMs := 0, finRetxCount := 0 }) now
    rw [hr]
    refine ⟨touch_of_frame .established rfl ?_, .inr rfl⟩
    simp only [armed_iff, wakeRecv, wakeSend, replyAck, sendSegment, sendSegmentOpts,
      congestionInit]
    tauto
  · refine ⟨touch_of_frame .established rfl ?_, .inr rfl⟩
    simp only [armed_iff, wakeRecv, wakeSend, replyAck, sendSegment, sendSegmentOpts,
      congestionInit]
    tauto

end Local

end Waitless.Tcp
