import Waitless.SendStream

/-! # The send window

`WindowOk` bounds the flight by the largest window a peer can announce, which is less than half of
the numbers, so the two comparisons of an acknowledgement place it in the flight (`ack_in_flight`).
`send_window_safe` puts these together along every run. -/

namespace Waitless.Tcp

open SerialNumber Local SendView TcpConnection

variable {κ : Type}

/-- `x` lies in the circular interval from `a` to `b`. -/
def Between (a x b : UInt32) : Prop := (x - a).toNat ≤ (b - a).toNat

theorem Between.left (a b : UInt32) : Between a a b := by
  unfold Between
  simp

theorem Between.right (a b : UInt32) : Between a b b := le_refl _

theorem Between.sub_le {a x b : UInt32} (h : Between a x b) : (b - x).toNat ≤ (b - a).toNat := by
  unfold Between at h
  simp only [UInt32.toNat_sub] at h ⊢
  have := x.toNat_lt
  omega

/-- **Which acknowledgements** are of the flight. -/
theorem ack_in_flight {una ack nxt : UInt32} (hflight : (nxt - una).toNat < 2 ^ 31)
    (hle : seqLt nxt ack = false) (hadv : seqLt una ack = true) : Between una ack nxt := by
  have hle' : ¬ 2 ^ 31 ≤ (nxt - ack).toNat := fun h =>
    of_decide_eq_false hle ((neg_iff_toNat _).2 h)
  have hadv' := (neg_iff_toNat _).1 (of_decide_eq_true hadv)
  unfold Between
  simp only [UInt32.toNat_sub] at hflight hle' hadv' ⊢
  have := una.toNat_lt
  have := ack.toNat_lt
  omega

/-- At most a window and one super-segment in flight; the FIN counts beside it. -/
structure WindowOk (c : TcpConnection κ) : Prop where
  flight : c.flight ≤ maxWindow + 65535 + c.state.finLen
  window : c.sndWnd ≤ maxWindow
  scale : c.sndWscale ≤ 14
  mss : c.sndMss ≤ mssMax

variable {c : TcpConnection κ} {l l' : Local κ}

theorem WindowOk.half (h : WindowOk c) : c.flight < 2 ^ 31 := by
  have := h.flight
  have := c.state.finLen_le
  unfold maxWindow at *
  omega

/-- The send side stays as it is but for the queue. -/
structure Kept (c c' : TcpConnection κ) : Prop where
  outline : c'.sendView.outline = c.sendView.outline
  finLen : c'.state.finLen = c.state.finLen

theorem Kept.trans {c₁ c₂ : TcpConnection κ} (h : Kept c c₁) (h' : Kept c₁ c₂) : Kept c c₂ :=
  ⟨h'.outline.trans h.outline, h'.finLen.trans h.finLen⟩

theorem Kept.flight {c' : TcpConnection κ} (h : Kept c c') : c'.flight = c.flight := by
  have hn : c'.sndNxt = c.sndNxt := congrArg sndNxt h.outline
  have hu : c'.sndUna = c.sndUna := congrArg sndUna h.outline
  unfold TcpConnection.flight
  rw [hn, hu]

theorem Retained.kept (h : Retained l l') : Kept l.conn l'.conn :=
  ⟨h.outline, congrArg TcpState.finLen h.state⟩

theorem SendSteady.kept (h : SendSteady l l')
    (hfin : l'.conn.state.finLen = l.conn.state.finLen) : Kept l.conn l'.conn :=
  ⟨congrArg outline h.send, hfin⟩

theorem Steady.kept (h : Steady l l') : Kept l.conn l'.conn :=
  h.toSendSteady.kept (congrArg TcpState.finLen h.state)

structure Moved (c c' : TcpConnection κ) : Prop where
  ok : WindowOk c'
  una : Between c.sndUna c'.sndUna c'.sndNxt

theorem Moved.kept {c₁ c₂ : TcpConnection κ} (h : Moved c c₁) (hk : Kept c₁ c₂) : Moved c c₂ := by
  have hn : c₂.sndNxt = c₁.sndNxt := congrArg sndNxt hk.outline
  have hu : c₂.sndUna = c₁.sndUna := congrArg sndUna hk.outline
  have hw : c₂.sndWnd = c₁.sndWnd := congrArg sndWnd hk.outline
  have hs : c₂.sndWscale = c₁.sndWscale := congrArg sndWscale hk.outline
  have hm : c₂.sndMss = c₁.sndMss := congrArg sndMss hk.outline
  refine ⟨⟨?_, hw ▸ h.ok.window, hs ▸ h.ok.scale, hm ▸ h.ok.mss⟩, ?_⟩
  · rw [hk.flight, hk.finLen]
    exact h.ok.flight
  · rw [hn, hu]
    exact h.una

theorem WindowOk.still (h : WindowOk c) : Moved c c := ⟨h, .left _ _⟩

namespace Local

variable {l l' : Local κ} {n : ℕ}

theorem processAck_moved [CongestionControl κ] {seg : Segment} (now : ℕ)
    (h : WindowOk l.conn) (hwin : seg.window < 65536) :
    Moved l.conn (l.processAck seg now).1.conn := by
  rcases processAck_cases now h.scale h.window hwin with
    hsame | ⟨c', isDupAck, hchal, hview, hwle, hstate, huna, hdone⟩
  · rw [hsame]
    exact h.still
  have hcn : c'.sndNxt = l.conn.sndNxt := congrArg sndNxt hview
  have hbetween : Between l.conn.sndUna c'.sndUna l.conn.sndNxt := by
    rcases huna with hsame | ⟨hsame, hadv | htop⟩
    · rw [hsame]
      exact .left _ _
    · rw [hsame]
      exact ack_in_flight h.half hchal hadv
    · rw [hsame, htop]
      exact .right _ _
  have hmoved : Moved l.conn c' := by
    refine ⟨⟨?_, hwle, ?_, ?_⟩, ?_⟩
    · have hfl : c'.flight ≤ l.conn.flight := by
        unfold flight
        rw [hcn]
        exact hbetween.sub_le
      rw [hstate]
      exact le_trans hfl h.flight
    · exact (congrArg sndWscale hview).trans_le h.scale
    · exact (congrArg sndMss hview).trans_le h.mss
    · rw [hcn]
      exact hbetween
  have hbook := (rtxOnAck_retained { l with conn := c' } l.conn.sndUna now).kept
  have hrest := ackBookkeeping_steady { l with conn := c' } seg l.conn.sndUna isDupAck now
  rw [hdone]
  exact hmoved.kept (hbook.trans hrest.kept)

theorem afterAck_kept (l : Local κ) (seg : Segment) (prevState : TcpState) (now : ℕ)
    (reserved : Bool) : Kept l.conn (l.afterAck seg prevState now reserved).conn := by
  obtain ⟨hs, hlen⟩ := afterAck_steady l seg prevState now reserved
  exact hs.kept hlen

theorem receive_moved [CongestionControl κ] {seg : Segment} {listening : Bool}
    {now : ℕ} {reserved : Bool} (h : WindowOk l.conn) (hwin : seg.window < 65536)
    (hr : l.receive seg listening now reserved = some l') : Moved l.conn l'.conn := by
  rcases receive_cases hr with rfl | ⟨m, rfl | ⟨established, hp⟩, rfl⟩
  · exact h.still
  · exact h.still.kept (afterAck_kept m seg _ now reserved)
  · have hm := processAck_moved now h hwin
    rw [hp] at hm
    exact hm.kept (afterAck_kept m seg _ now reserved)

theorem advanceSnd_flight (frames : List TxSegment)
    (h : l.conn.flight + n < 2 ^ 32) : (l.advanceSnd n frames).conn.flight = l.conn.flight + n := by
  unfold TcpConnection.flight advanceSnd at *
  simp only [UInt32.toNat_sub, UInt32.toNat_add, UInt32.toNat_ofNat'] at h ⊢
  omega

theorem advanceSnd_window (frames : List TxSegment) (h : WindowOk l.conn)
    (hn : n ≤ l.conn.usableWindow) :
    (l.advanceSnd n frames).conn.flight = l.conn.flight + n ∧
      l.conn.flight + n ≤ max l.conn.flight (min l.conn.cwnd l.conn.sndWnd) := by
  have hwin := h.window
  have hhalf := h.half
  unfold usableWindow at hn
  have hmax : l.conn.flight + n ≤ max l.conn.flight (min l.conn.cwnd l.conn.sndWnd) := by omega
  refine ⟨advanceSnd_flight frames ?_, hmax⟩
  unfold maxWindow at hwin
  omega

theorem advanceSnd_moved {frames : List TxSegment} (h : WindowOk l.conn)
    (hflight : (l.advanceSnd n frames).conn.flight ≤ maxWindow + 65535 + l.conn.state.finLen)
    (hret : Retained (l.advanceSnd n frames) l') : Moved l.conn l'.conn := by
  have hsent : Moved l.conn (l.advanceSnd n frames).conn :=
    ⟨⟨hflight, h.window, h.scale, h.mss⟩, .left _ _⟩
  exact hsent.kept hret.kept

theorem emitData_le (h : WindowOk l.conn) {chain : List Bytes} {d : Driver}
    {frames : List TxSegment} (he : (frames, n) = emitData l.conn d
      (chain.flatten.take (min chain.flatten.length l.conn.usableWindow))) :
    n ≤ l.conn.usableWindow := by
  have hle := (emitData_emitted h.mss d
    (chain.flatten.take (min chain.flatten.length l.conn.usableWindow))).le
  rw [← he, List.length_take] at hle
  omega

theorem asyncTrySendChain_flight (h : WindowOk l.conn) (chain : List Bytes)
    (d : Driver) (now : ℕ) (reserve : ℕ → Bool) :
    (l.asyncTrySendChain chain d now reserve).1.conn.flight ≤
        max l.conn.flight (min l.conn.cwnd l.conn.sndWnd) ∧
      Moved l.conn (l.asyncTrySendChain chain d now reserve).1.conn := by
  rcases asyncTrySendChain_cases l chain d now reserve with hs | ⟨n, frames, he, hret⟩
  · refine ⟨?_, h.still.kept hs.kept⟩
    rw [hs.kept.flight]
    exact le_max_left _ _
  · obtain ⟨heq, hle⟩ := advanceSnd_window frames h (emitData_le h he)
    refine ⟨?_, advanceSnd_moved h ?_ hret⟩
    · rw [hret.kept.flight, heq]
      exact hle
    · have := h.flight
      have := h.window
      rw [heq]
      omega

theorem trySendTso_flight (h : WindowOk l.conn) {minPayload : ℕ}
    {fill : Option Bytes} (d : Driver) (now : ℕ) (staged reserved : Bool)
    (hfill : ∀ payload, fill = some payload → payload.length ≤ minPayload) :
    (l.trySendTso minPayload fill d now staged reserved).1.conn.flight ≤
      max l.conn.flight (min l.conn.cwnd l.conn.sndWnd) := by
  rcases trySendTso_cases l minPayload fill d now staged reserved with
    hs | ⟨payload, frames, hp, -, hroom, hret⟩
  · rw [hs.kept.flight]
    exact le_max_left _ _
  · obtain ⟨heq, hle⟩ := advanceSnd_window frames h (le_trans (hfill payload hp) hroom)
    rw [hret.kept.flight, heq]
    exact hle

theorem trySendTso_moved (h : WindowOk l.conn) {minPayload : ℕ}
    {fill : Option Bytes} (d : Driver) (now : ℕ) (staged reserved : Bool)
    (hfill : ∀ payload, fill = some payload → payload.length ≤ max minPayload 65535) :
    Moved l.conn (l.trySendTso minPayload fill d now staged reserved).1.conn := by
  rcases trySendTso_cases l minPayload fill d now staged reserved with
    hs | ⟨payload, frames, hp, hmss, hroom, hret⟩
  · exact h.still.kept hs.kept
  · -- the window had room for `min_payload`, so the flight before was inside it
    have hlen := hfill payload hp
    have hwin := h.window
    have hinside : l.conn.flight + minPayload ≤ maxWindow := by
      unfold usableWindow at hroom
      omega
    have hbound : l.conn.flight + payload.length ≤ maxWindow + 65535 := by omega
    have hword : l.conn.flight + payload.length < 2 ^ 32 := by
      unfold maxWindow at hbound
      omega
    refine advanceSnd_moved h ?_ hret
    rw [advanceSnd_flight frames hword]
    exact le_trans hbound (Nat.le_add_right _ _)

theorem sendFin_moved {state : TcpState} (now : ℕ) (h : WindowOk l.conn)
    (hfin : l.conn.state.finLen = 0) (hstate : state.finLen = 1) :
    Moved l.conn (l.sendFin state now).conn := by
  have hbound := h.flight
  have hhalf := h.half
  have hsent : Moved l.conn { (l.advanceSnd 1 []).conn with state := state } := by
    refine ⟨⟨?_, h.window, h.scale, h.mss⟩, .left _ _⟩
    change (l.advanceSnd 1 []).conn.flight ≤ maxWindow + 65535 + state.finLen
    rw [advanceSnd_flight [] (by omega), hstate]
    omega
  let m := l.sendControl l.conn.sndNxt l.conn.rcvNxt (tcpFin ||| tcpAck) l.conn.rxFree
  have harm := armFinTimer_steady
    { m with conn := { m.conn with sndNxt := m.conn.sndNxt + 1, state := state } } now
  exact hsent.kept harm.kept

theorem close_moved {now : ℕ} (h : WindowOk l.conn) (hc : l.close now = some l') :
    Moved l.conn l'.conn := by
  unfold close at hc
  split at hc
  next hst =>
    cases hc
    exact sendFin_moved now h (by rw [hst]; rfl) rfl
  next hst =>
    cases hc
    exact sendFin_moved now h (by rw [hst]; rfl) rfl
  · cases hc

theorem notePathMtu_moved (seq : UInt32) (candidateMss : ℕ) (h : WindowOk l.conn) :
    Moved l.conn (l.notePathMtu seq candidateMss).conn := by
  unfold notePathMtu
  dsimp only
  split
  next hsmaller =>
    exact ⟨⟨h.flight, h.window, h.scale, Nat.le_of_lt (Nat.lt_of_lt_of_le hsmaller.2.2 h.mss)⟩,
      .left _ _⟩
  · exact h.still

theorem handleSynSent_between [CongestionControl κ] (l : Local κ) (seg : Segment) (now : ℕ) :
    Between l.conn.sndUna (l.handleSynSent seg now).conn.sndUna
      (l.handleSynSent seg now).conn.sndNxt := by
  unfold handleSynSent
  dsimp only
  split
  · exact .left _ _
  rename_i hack
  split
  · exact .left _ _
  split
  · exact .left _ _
  rename_i hflag
  have hseg : seg.ack = l.conn.sndNxt := by
    have hflag' : seg.has tcpAck = true := by simpa using hflag
    rw [hflag'] at hack
    simpa using hack
  split
  · generalize hc : (congestionInit _ : TcpConnection κ) = c
    obtain ⟨r, hr⟩ := sampleAnchor_eq c now
    rw [hr, ← hc]
    change Between l.conn.sndUna seg.ack l.conn.sndNxt
    rw [hseg]
    exact .right _ _
  · rw [hseg]
    exact .right _ _

end Local

/-- As long as promised, or at least no longer than a slot. -/
def Event.SlotSized : Event → Prop
  | .sendTso minPayload fill _ _ _ _ =>
    ∀ payload, fill = some payload → payload.length ≤ max minPayload 65535
  | _ => True

namespace Sender

theorem fresh_windowOk {iss : UInt32} {c : TcpConnection κ} (h : Fresh iss c) : WindowOk c := by
  refine ⟨?_, ?_, h.scale, h.mss⟩
  · have hflight : c.flight ≤ 1 := by
      unfold flight
      rw [h.sndNxt]
      rcases h.state with ⟨-, huna⟩ | ⟨-, huna⟩
      · rw [huna, UInt32.add_comm, UInt32.add_sub_cancel]
        decide
      · simp [huna]
    omega
  · have := h.window
    unfold maxWindow
    omega

theorem step_moved [CongestionControl κ] {s s' : Sender κ} {e : Event} (h : WindowOk s.conn)
    (hslot : e.SlotSized) (hstep : step (some s) e = some s') : Moved s.conn s'.conn := by
  unfold step at hstep
  dsimp only at hstep
  split at hstep
  next l out hafter =>
    cases hstep
    cases e with
    | packet srcIp dstIp parts listening now reserved =>
      unfold after at hafter
      dsimp only at hafter
      split at hafter
      next seg hseg =>
        exact receive_moved h (Segment.parse_window hseg) (Prod.mk.inj hafter).1
      · cases hafter
        exact h.still
    | sendChain chain d now reserve =>
      cases hafter
      exact (asyncTrySendChain_flight h chain d now reserve).2
    | sendTso minPayload fill d now staged reserved =>
      cases hafter
      exact trySendTso_moved h d now staged reserved hslot
    | close now => exact close_moved h (Prod.mk.inj hafter).1
    | recv cap =>
      cases hafter
      obtain ⟨hs, hst⟩ := rxPop_steady s.link cap
      exact h.still.kept (hs.kept (congrArg TcpState.finLen hst))
    | recvChunk reserved =>
      cases hafter
      obtain ⟨hs, hst⟩ := doRecvChunk_steady s.link reserved
      exact h.still.kept (hs.kept (congrArg TcpState.finLen hst))
    | chunkWanted wanted =>
      cases hafter
      exact h.still.kept ⟨rfl, rfl⟩
    | tick now => exact h.still.kept (onTick_steady (Prod.mk.inj hafter).1).kept
    | pathMtu seq candidateMss =>
      cases hafter
      exact notePathMtu_moved seq candidateMss h
  · cases hstep

theorem run_windowOk [CongestionControl κ] {events : List Event} {o : Option (Sender κ)}
    (hopen : ∀ s, o = some s → WindowOk s.conn) (hslots : ∀ e ∈ events, e.SlotSized) {s : Sender κ}
    (hs : events.foldl step o = some s) : WindowOk s.conn := by
  induction events generalizing o with
  | nil => exact hopen s hs
  | cons e rest ih =>
    refine ih (fun s' hs' => ?_) (fun e' he' => hslots e' (List.mem_cons_of_mem _ he')) hs
    cases o with
    | none => cases hs'
    | some s0 => exact (step_moved (hopen s0 rfl) (hslots e List.mem_cons_self) hs').ok

end Sender

/-- **Send-window safety**: no send exceeds the window, and `snd_una` moves forward. -/
theorem send_window_safe [CongestionControl κ] {iss : UInt32} {c : TcpConnection κ} {tickHead : ℕ}
    {events : List Event} (hopen : Sender.Fresh iss c) (hslots : ∀ e ∈ events, e.SlotSized)
    {s : Sender κ} (hs : events.foldl Sender.step (some ⟨⟨c, tickHead, []⟩, []⟩) = some s) :
    (∀ (chain : List Bytes) (d : Driver) (now : ℕ) (reserve : ℕ → Bool),
      (s.link.asyncTrySendChain chain d now reserve).1.conn.flight ≤
        max s.conn.flight (min s.conn.cwnd s.conn.sndWnd)) ∧
    (∀ (minPayload : ℕ) (fill : Option Bytes) (d : Driver) (now : ℕ) (staged reserved : Bool),
      (∀ payload, fill = some payload → payload.length ≤ minPayload) →
      (s.link.trySendTso minPayload fill d now staged reserved).1.conn.flight ≤
        max s.conn.flight (min s.conn.cwnd s.conn.sndWnd)) ∧
    (∀ (e : Event) (s' : Sender κ), e.SlotSized → Sender.step (some s) e = some s' →
      Between s.conn.sndUna s'.conn.sndUna s'.conn.sndNxt ∧
        (s'.conn.sndNxt - s'.conn.sndUna).toNat < 2 ^ 31) ∧
    ∀ (l : Local κ) (seg : Segment) (now : ℕ),
      Between l.conn.sndUna (l.handleSynSent seg now).conn.sndUna
        (l.handleSynSent seg now).conn.sndNxt := by
  have hok : WindowOk s.conn := by
    refine Sender.run_windowOk (fun s0 hs0 => ?_) hslots hs
    cases hs0
    exact Sender.fresh_windowOk hopen
  refine ⟨?_, ?_, ?_, handleSynSent_between⟩
  · intro chain d now reserve
    exact (asyncTrySendChain_flight hok chain d now reserve).1
  · intro minPayload fill d now staged reserved hfill
    exact trySendTso_flight hok d now staged reserved hfill
  · intro e s' hslot hstep
    have hmoved := Sender.step_moved hok hslot hstep
    exact ⟨hmoved.una, hmoved.ok.half⟩

/-- Only the acknowledgement of two bytes counts. -/
theorem send_window_safe_acks :
    let d : Driver := ⟨false, true, false, 1, 2048⟩
    let ack (hi lo : UInt8) : Bytes :=
      [0x13, 0x88, 0, 80, 0, 0, 0, 101, 0, 0, hi, lo, 0x50, 0x10, 0, 4, 0, 0, 0, 0]
    let packet (bytes : Bytes) : Event :=
      .packet (.v4 #v[10, 0, 0, 1]) (.v4 #v[10, 0, 0, 2]) [bytes] true 6 true
    let start : Sender ConstantWindow := ⟨⟨handshakeLink.conn, handshakeLink.tickHead, []⟩, []⟩
    let events : List Event :=
      [.sendChain [[1, 2, 3], [4, 5]] d 5 (fun _ => true), packet (ack 7 0), packet (ack 0 1),
        packet (ack 3 0xEB)]
    ((events.foldl Sender.step (some start)).map fun s =>
        (s.conn.sndUna, s.conn.sndNxt, s.conn.sndWnd)) = some (1003, 1006, 4) ∧
    ∀ s, events.foldl Sender.step (some start) = some s →
      (s.link.asyncTrySendChain [[6, 7, 8]] d 7 (fun _ => true)).1.conn.flight ≤
        max s.conn.flight (min s.conn.cwnd s.conn.sndWnd) := by
  intro d ack packet start events
  have hopen : Sender.Fresh 1000 handshakeLink.conn := by
    constructor <;> decide +kernel
  have hslots : ∀ e ∈ events, e.SlotSized := by
    simp [events, packet, Event.SlotSized]
  exact ⟨by decide +kernel, fun s hs => (send_window_safe hopen hslots hs).1 _ _ _ _⟩

end Waitless.Tcp
