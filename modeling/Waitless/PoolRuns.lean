import Waitless.PoolMoves

/-! # Operations as sequences of moves

Each entry point of the engine is a sequence of moves (`step_steps`). The only demand on the
caller is the one the handle type makes: `close` is called with a handle whose slot, if its
generation still matches, is held. -/

namespace Waitless.Tcp

open List Local

variable {κ : Type}

namespace Core

variable {ok : Bool} {i newHead now : ℕ} {l : Local κ} {s s' : Core κ}

/-! ### What single functions return -/

theorem popFree_eq {s' : Core κ} (h : s.popFree = some (i, s')) :
    s.freeHead ≠ nullSlot ∧ i = s.freeHead ∧
      s' = { s with freeHead := (s.slots s.freeHead).nextFree } := by
  unfold popFree at h
  split at h
  · cases h
  · cases h
    exact ⟨‹_›, rfl, rfl⟩

theorem mem_indices : i ∈ s.indices ↔ i < s.capacity := mem_range

theorem reclaimSlot_spec (h : s.reclaimSlot = some i) :
    i < s.capacity ∧ (s.slots i).state ∈ reclaimOrder ∧ (s.slots i).Live := by
  obtain ⟨st, hst, hfind⟩ := exists_of_findSome?_eq_some h
  have hi := mem_of_find?_eq_some hfind
  have hs := of_decide_eq_true (find?_some (p := fun i => decide ((s.slots i).state = st)) hfind)
  refine ⟨mem_indices.1 hi, hs ▸ hst, ?_⟩
  unfold TcpConnection.Live
  rw [hs]
  simp only [reclaimOrder, mem_cons, not_mem_nil, or_false] at hst
  rcases hst with rfl | rfl | rfl | rfl | rfl <;> simp

theorem ensureRxRing_eq {c c' : TcpConnection κ} (h : ensureRxRing c ok = some c') :
    ∃ ring, c' = { c with rxRing := ring } := by
  unfold ensureRxRing at h
  split_ifs at h
  · cases h
    exact ⟨c.rxRing, rfl⟩
  · cases h
    exact ⟨_, rfl⟩

theorem sendSynAck_quiet (l : Local κ) (seg : Segment) : Quiet l (sendSynAck l seg) := ⟨rfl, rfl⟩

theorem acceptRingPop_eq (s : Core κ) (port : UInt16) :
    ∃ t, (s.acceptRingPop port).2 = { s with acceptRings := t } := by
  unfold acceptRingPop
  split
  · exact ⟨_, rfl⟩
  · dsimp only
    split
    · exact ⟨_, rfl⟩
    · exact ⟨_, rfl⟩

theorem acceptRingPush_slots (s : Core κ) (port : UInt16) (slot : ℕ) :
    (s.acceptRingPush port slot).slots = s.slots := by
  unfold acceptRingPush
  split
  · rfl
  · dsimp only
    split <;> rfl

theorem acceptLoop_eq (port : UInt16) (rounds : ℕ) (s : Core κ) :
    ∃ t, (acceptLoop port rounds s).2 = { s with acceptRings := t } ∧
      ∀ i, (acceptLoop port rounds s).1 = some i → Acceptable (s.slots i) port := by
  induction rounds generalizing s with
  | zero => exact ⟨s.acceptRings, rfl, fun i h => by cases h⟩
  | succ rounds ih =>
    unfold acceptLoop
    obtain ⟨t, ht⟩ := acceptRingPop_eq s port
    split
    next s' hpop =>
      rw [hpop] at ht
      exact ⟨t, ht, fun i h => by cases h⟩
    next i s' hpop =>
      rw [hpop] at ht
      cases ht
      split
      · exact ⟨t, rfl, fun j h => by cases h; assumption⟩
      · exact ih { s with acceptRings := t }

theorem tcpLinearFind_spec {srcIp : IpAddr} {srcPort dstPort : UInt16}
    (h : s.tcpLinearFind srcIp srcPort dstPort = some i) :
    i < s.capacity ∧ (s.slots i).Live ∧ Matches (s.slots i) srcIp srcPort dstPort := by
  have hi := mem_of_find?_eq_some h
  have hp := of_decide_eq_true (find?_some
    (p := fun i => decide ((s.slots i).Live ∧ Matches (s.slots i) srcIp srcPort dstPort)) h)
  exact ⟨mem_indices.1 hi, hp⟩

theorem tcpHashFind_lt (hs : s.PoolInv none) {key : UInt64}
    (h : s.tcpHashFind key = some i) : i < s.capacity := hs.hash.find h

theorem dispatch_spec (hs : s.PoolInv none) {seg : Segment}
    (h : s.dispatch seg = some i) : i < s.capacity ∧ (s.slots i).Live := by
  obtain ⟨hl, hlive⟩ := Option.filter_eq_some_iff.1 h
  refine ⟨?_, of_decide_eq_true hlive⟩
  unfold lookup at hl
  split at hl
  · cases hl
    exact tcpHashFind_lt hs ‹_›
  · exact (tcpLinearFind_spec hl).1

theorem PoolInv.owned_of_armed (hs : s.PoolInv none) (hi : i < s.capacity)
    (ha : (s.slots i).Armed) : (s.slots i).Owned := by
  by_contra hno
  exact (hs.clean i hi hno).1 ha

theorem persistPhase_none (h : persistPhase l now = none) :
    l.conn.state = .established := by
  unfold persistPhase at h
  dsimp only at h
  split_ifs at h with _ h2
  exact h2

theorem persistPhase_steady {l' : Local κ} (h : persistPhase l now = some l') :
    Steady l l' := by
  unfold persistPhase at h
  dsimp only at h
  split_ifs at h
  · cases h
    exact sendWindowProbe_steady l now
  · cases h
    exact .quiet rfl (by simp [armed_iff]; tauto) rfl rfl rfl
  · cases h
    exact .refl l

/-! ### The links of the tick list -/

theorem Relink.head (s : Core κ) {head : ℕ} (hs : s.PoolInv none) (h : s.Link head) :
    Relinks s { s with tickHead := head } := by
  refine ⟨0, (s.slots 0).toTickLink, id, fun h0 => hs.tickNext 0 h0, ?_, h, rfl, rfl, rfl⟩
  exact (Function.update_eq_self 0 s.slots).symm

theorem relink_relinks (hs : s.PoolInv none) (hn : s.Link newHead) :
    Relinks s (s.relink i newHead).1 := by
  unfold relink
  split
  · exact ⟨i, ⟨newHead, (s.slots i).tickInList⟩, id, fun _ => hn, rfl, hs.tickHead, rfl, rfl, rfl⟩
  · exact ⟨i, ⟨(s.slots i).tickNext, false⟩, by simp, fun hi => hs.tickNext i hi, rfl, hs.tickHead,
      rfl, rfl, rfl⟩

theorem Relinks.segments_le (h : Relinks s s') : s.segments ≤ s'.segments := by
  obtain ⟨i, tick, h⟩ := h
  exact Nat.le_of_eq h.segments.symm

theorem Relinks.poolInv (h : Relinks s s') (hs : s.PoolInv none) :
    s'.PoolInv none := by
  obtain ⟨i, tick, h⟩ := h
  exact h.poolInv hs

theorem tickHeadPublish_relinks (hs : s.PoolInv none)
    (hn : s.Link newHead) : Relinks s (s.tickHeadPublish newHead) := by
  unfold tickHeadPublish
  split
  · exact Relink.head s hs hn
  · exact ⟨_, ⟨newHead, (s.slots _).tickInList⟩, id, fun _ => hn, rfl, hs.tickHead, rfl, rfl, rfl⟩

variable [CongestionControl κ] {slot : ℕ}

/-! ### Slots are taken -/

theorem alloc_steps {s' : Core κ} (h : s.alloc ok = some (slot, s')) :
    ∃ s₀, Steps NoExtra 0 s s₀ ∧ s₀.freeHead ≠ nullSlot ∧ slot = s₀.freeHead ∧
      s' = { s₀ with freeHead := (s₀.slots s₀.freeHead).nextFree } := by
  unfold alloc at h
  split at h
  next hpop =>
    cases h
    exact ⟨s, .refl s, popFree_eq hpop⟩
  · obtain ⟨s₀, hgrow, hpop⟩ := Option.bind_eq_some_iff.1 h
    exact ⟨s₀, .of_move (.grow hgrow), popFree_eq hpop⟩

theorem freeHead_of_alloc_none
    (h : s.alloc ok = none) : s.freeHead = nullSlot := by
  by_contra hne
  unfold alloc popFree at h
  rw [if_neg hne] at h
  cases h

/-- **The reclaim path** frees a closing connection. -/
theorem reclaim_spec {s' : Core κ} {i : ℕ} (hs : s.PoolInv none)
    (hnone : s.alloc ok = none) (hrec : s.reclaimSlot = some i)
    (h : (s.freeConnection i).alloc ok = some (slot, s')) :
    slot = i ∧ (s.freeConnection i).freeHead = i ∧ i ≠ nullSlot ∧ s' = (s.freeConnection i).take := by
  obtain ⟨hi, -, hlive⟩ := reclaimSlot_spec hrec
  have hf := freeConnection_freed (s := s) (i := i) fun hc => absurd hc hlive.1
  generalize s.freeConnection i = s0 at h hf ⊢
  have hne : i ≠ nullSlot := by
    have := capacity_lt_nullSlot s hs.segments
    omega
  unfold alloc popFree at h
  rw [if_neg (hf.freeHead ▸ hne)] at h
  cases h
  refine ⟨hf.freeHead, hf.freeHead, hne, ?_⟩
  have hreset : (s0.slots s0.freeHead).resetPreserving (s0.slots s0.freeHead).generation =
      s0.slots s0.freeHead := by
    rw [hf.freeHead, hf.self, freeHead_of_alloc_none hnone]
    rfl
  unfold take
  rw [hreset, Function.update_eq_self]

theorem allocConnection_steps {s₁ : Core κ} (hs : s.PoolInv none)
    (h : s.allocConnection ok = some (slot, s₁)) :
    ∃ n s₀, n ≤ 1 ∧ Steps NoExtra n s s₀ ∧ s₀.freeHead ≠ nullSlot ∧ slot = s₀.freeHead ∧
      s₁ = s₀.take := by
  unfold allocConnection at h
  split at h
  next slot' s' halloc =>
    obtain ⟨s₀, hst, hne, rfl, rfl⟩ := alloc_steps halloc
    cases h
    exact ⟨0, s₀, by omega, hst, hne, rfl, rfl⟩
  next hnone =>
    split at h
    next i hrec =>
      obtain ⟨hi, -, hlive⟩ := reclaimSlot_spec hrec
      obtain ⟨rfl, hhead, hne, rfl⟩ := reclaim_spec hs hnone hrec h
      exact ⟨1, _, Nat.le_refl 1, .of_move (.free hi hlive.owned), fun h => hne (hhead.symm.trans h),
        hhead.symm, rfl⟩
    · cases h

theorem Steps.house {s₁ s₂ : Core κ} {n : ℕ} {A : Core κ → Core κ → Prop} (h : Steps A n s s₁)
    (slots : s₂.slots = s₁.slots) (segments : s₂.segments = s₁.segments)
    (freeHead : s₂.freeHead = s₁.freeHead) (hash : s₂.hash = s₁.hash)
    (tickHead : s₂.tickHead = s₁.tickHead) : Steps A n s s₂ :=
  h.move (.house slots segments freeHead hash tickHead)

open Steps

theorem listenerRegister_steps (s : Core κ) (port : UInt16) (slot : ℕ) :
    Steps NoExtra 0 s (s.listenerRegister port slot) := by
  unfold listenerRegister
  dsimp only
  split
  · exact (refl s).house rfl rfl rfl rfl rfl
  · exact .refl s

theorem listenOnCore_steps (hs : s.PoolInv none) (port : UInt16) (env : Env) :
    ∃ n ≤ 1, Steps NoExtra n s (s.listenOnCore port env).1 := by
  unfold listenOnCore
  split
  · exact ⟨0, by omega, .refl s⟩
  next slot s1 h =>
    obtain ⟨n, s0, hn, hst, hne, rfl, rfl⟩ := allocConnection_steps hs h
    exact ⟨n, hn, (hst.move (@Move.listen _ _ _ port hne)).trans (listenerRegister_steps _ port _)⟩

theorem take_deadlines (s : Core κ) : (s.take.slots s.freeHead).toDeadlines = .none := by
  simp [take, TcpConnection.resetPreserving, TcpConnection.new]

theorem admitSyn_steps (hs : s.PoolInv none) (seg : Segment) (env : Env) :
    (∃ n ≤ 2, Steps NoExtra n s (s.admitSyn seg env)) ∨
      ∃ n s₀ s₁ c, n ≤ 1 ∧ Steps NoExtra n s s₀ ∧ Claim s₀ s₁ c ∧
        c.remoteIp = seg.srcIp ∧ c.remotePort = seg.srcPort ∧ c.localPort = seg.dstPort ∧
        c.listenerPort = seg.dstPort ∧ c.state = .synReceived ∧
        Steps NoExtra 0 s₁ (s.admitSyn seg env) := by
  unfold admitSyn
  split
  · exact .inl ⟨0, by omega, .refl s⟩
  next slot s₁ h =>
    obtain ⟨n, s₀, hn, hst, hne, rfl, rfl⟩ := allocConnection_steps hs h
    split
    · refine .inl ⟨n + 1, by omega, ?_⟩
      have hrst : Steps NoExtra n s
          (s₀.sendRst seg.dstIp seg.srcIp seg.dstPort seg.srcPort 0 (seg.seq + 1)) :=
        hst.house rfl rfl rfl rfl rfl
      exact hrst.move (.giveBack hne)
    next c' hring =>
      obtain ⟨ring, rfl⟩ := ensureRxRing_eq hring
      refine .inr ⟨n, s₀, _, openPassive { s₀.take.slots s₀.freeHead with rxRing := ring } seg
        env.isn, hn, hst, ⟨hne, rfl, rfl, take_deadlines s₀, .inl ⟨rfl, rfl⟩, rfl⟩, rfl, rfl, rfl,
        rfl, rfl, ?_⟩
      exact .of_move (.quiet (sendSynAck_quiet _ seg))

theorem connectOnCore_steps (hs : s.PoolInv none) (localIp remoteIp : IpAddr)
    (remotePort : UInt16) (p : Placement) (env : Env) :
    (∃ n ≤ 2, Steps NoExtra n s (s.connectOnCore localIp remoteIp remotePort p env).1 ∧
        (s.connectOnCore localIp remoteIp remotePort p env).2 = none) ∨
      ∃ n s₀ s₁ c port, n ≤ 1 ∧ (s.allocEphemeralPort remoteIp remotePort p).1 = some port ∧
        Steps NoExtra n s s₀ ∧ Claim s₀ s₁ c ∧
        c.remoteIp = remoteIp ∧ c.remotePort = remotePort ∧ c.localPort = port ∧
        c.state = .synSent ∧ c.accepted = true ∧
        Steps NoExtra 0 s₁ (s.connectOnCore localIp remoteIp remotePort p env).1 ∧
        (s.connectOnCore localIp remoteIp remotePort p env).2 =
          some (s₀.freeHead, (s₁.slots s₀.freeHead).generation) := by
  unfold connectOnCore
  have hport : ∃ off, (s.allocEphemeralPort remoteIp remotePort p).2 = { s with nextOffset := off } := by
    unfold allocEphemeralPort
    dsimp only
    split
    · exact ⟨_, rfl⟩
    · split
      · exact ⟨_, rfl⟩
      · exact ⟨_, rfl⟩
  obtain ⟨off, hoff⟩ := hport
  have hcur : Steps NoExtra 0 s { s with nextOffset := off } := (refl s).house rfl rfl rfl rfl rfl
  split
  next s' hal =>
    rw [hal] at hoff
    cases hoff
    exact .inl ⟨0, by omega, hcur, rfl⟩
  next port s' hal =>
    rw [hal] at hoff
    cases hoff
    split
    · exact .inl ⟨0, by omega, hcur, rfl⟩
    next slot s₁ h =>
      obtain ⟨n, s₀, hn, hst, hne, rfl, rfl⟩ := allocConnection_steps (hcur.poolInv hs) h
      have hst' := hcur.trans hst
      rw [Nat.zero_add] at hst'
      split
      · exact .inl ⟨n + 1, by omega, hst'.move (.giveBack hne), rfl⟩
      next c' hring =>
        obtain ⟨ring, rfl⟩ := ensureRxRing_eq hring
        have hcl : Claim s₀ _ (openActive { s₀.take.slots s₀.freeHead with rxRing := ring } localIp
            remoteIp port remotePort env) :=
          ⟨hne, rfl, rfl, take_deadlines s₀, .inr ⟨rfl, rfl⟩, rfl⟩
        refine .inr ⟨n, s₀, _, _, port, hn, by rw [hal], hst', hcl, rfl, rfl, rfl, rfl, rfl, ?_, rfl⟩
        refine .of_move (.keep ?_ ?_ ?_)
        · exact ((hst.poolInv (hcur.poolInv hs)).head hne).1
        · exact .inl (by simp [tcpHashInsert, openActive])
        · exact (Keep.of_quiet (sendSyn_quiet _)).trans (armFinTimer_steady _ _).keep

theorem acceptRingPush_steps (s : Core κ) (port : UInt16) (slot : ℕ) :
    Steps NoExtra 0 s (s.acceptRingPush port slot) := by
  unfold acceptRingPush
  split
  · exact (refl s).house rfl rfl rfl rfl rfl
  · dsimp only
    split
    · exact (refl s).house rfl rfl rfl rfl rfl
    · exact (refl s).house rfl rfl rfl rfl rfl

theorem acceptOnPortCore_steps (s : Core κ) (port : UInt16) :
    Steps NoExtra 0 s (s.acceptOnPortCore port).1 := by
  obtain ⟨t, ht, hacc⟩ := acceptLoop_eq port (2 ^ 32) s
  unfold acceptOnPortCore
  generalize acceptLoop port (2 ^ 32) s = r at ht hacc ⊢
  obtain ⟨o, s'⟩ := r
  subst ht
  have hring : Steps NoExtra 0 s { s with acceptRings := t } :=
    (refl s).house rfl rfl rfl rfl rfl
  cases o with
  | some i => exact hring.move (.accept (hacc i rfl))
  | none =>
    dsimp only
    split
    next i hfind =>
      exact hring.move (.accept (of_decide_eq_true (find?_some
        (p := fun i => decide (Acceptable (s.slots i) port)) hfind)))
    · exact hring

/-! ### Calls on a handle -/

theorem onHandle_steps {α : Type} {slot : ℕ} {generation : UInt16} {stale : α}
    {f : Local κ → Local κ × α}
    (h : Quiet (s.localAt slot) (f (s.localAt slot)).1 ∨
      (s.slots slot).Owned ∧ Keep (s.localAt slot) (f (s.localAt slot)).1) :
    Steps NoExtra 0 s (s.onHandle slot generation stale f).1 := by
  unfold onHandle
  split
  next hv =>
    rcases h with h | ⟨ho, h⟩
    · exact .of_move (.quiet h)
    · exact .of_move (.keep hv.1 ho h)
  · exact .refl s

/-- A matching generation means a slot that is held. -/
def CloseOk (s : Core κ) (slot : ℕ) (generation : UInt16) : Prop :=
  s.Valid slot generation → (s.slots slot).Held

theorem closeHandle_steps {slot : ℕ} {generation : UInt16}
    (h : s.CloseOk slot generation) (now : ℕ) :
    ∃ n ≤ 1, Steps NoExtra n s (s.closeHandle slot generation now) := by
  unfold closeHandle
  split
  next hv =>
    split
    next l hl =>
      exact ⟨0, by omega, .of_move (.fin hv.1 (h hv) hl)⟩
    · exact ⟨1, by omega, .of_move (.free hv.1 (h hv).1)⟩
  · exact ⟨0, by omega, .refl s⟩

theorem setSlot_steps {c : TcpConnection κ}
    (h : Quiet (s.localAt i) ⟨c, s.tickHead, s.tx⟩) : Steps NoExtra 0 s (s.setSlot i c) :=
  .of_move (.quiet h)

theorem notePathMtu_steps (s : Core κ) (remoteIp : IpAddr) (remotePort localPort : UInt16)
    (seq : UInt32) (mss : ℕ) : Steps NoExtra 0 s (s.notePathMtu remoteIp remotePort localPort seq mss) := by
  unfold notePathMtu
  split
  · exact .refl s
  · dsimp only
    split
    · exact setSlot_steps ⟨rfl, rfl⟩
    · exact .refl s

/-! ### Segments arrive -/

theorem sendChallengeAck_steps (s : Core κ) (slot : ℕ) (seg : Segment) (now : ℕ) :
    Steps NoExtra 0 s (s.sendChallengeAck slot seg now) := by
  have hall : ∃ k t, (s.challengeAckAllowed now).2 =
      { s with challengeTokens := k, challengeLastMs := t } :=
    ⟨_, _, rfl⟩
  obtain ⟨k, t, hk⟩ := hall
  unfold sendChallengeAck
  split
  next h =>
    rw [h] at hk
    cases hk
    exact (refl s).house rfl rfl rfl rfl rfl
  next h =>
    rw [h] at hk
    cases hk
    exact (refl s).house rfl rfl rfl rfl rfl

theorem receiveRst_steps (s : Core κ) (seg : Segment) :
    ∃ n ≤ 1, Steps NoExtra n s (s.receiveRst seg) := by
  unfold receiveRst
  split
  · exact ⟨0, by omega, .refl s⟩
  next i hfind =>
    obtain ⟨hi, hlive, -⟩ := tcpLinearFind_spec hfind
    dsimp only
    split_ifs with h1 h2 h3
    · exact ⟨0, by omega, .of_move (.failConnect hi h1 (by simp))⟩
    · exact ⟨0, by omega, .refl s⟩
    · exact ⟨1, by omega, .of_move (.free hi hlive.owned)⟩
    · exact ⟨0, by omega, .refl s⟩

theorem receiveAt_steps (hi : i < s.capacity) (hlive : (s.slots i).Live)
    (seg : Segment) (env : Env) :
    (∃ n ≤ 1, Steps NoExtra n s (s.receiveAt i seg env)) ∨
      ∃ s₁ l' established, Arrival s s₁ i seg l' established ∧
        (s.slots i).state ≠ .synSent ∧ Steps NoExtra 0 s₁ (s.receiveAt i seg env) ∧
        (s.receiveAt i seg env).slots = s₁.slots := by
  unfold receiveAt
  split
  · exact .inl ⟨0, by omega, .of_move (.synAnswer hi ‹_›)⟩
  rename_i hsyn
  split
  · exact .inl ⟨0, by omega, sendChallengeAck_steps s i seg env.now⟩
  · exact .inl ⟨1, by omega, .of_move (.free hi hlive.owned)⟩
  next l established h =>
    refine .inr ⟨s.putLocal i l, l, established, ⟨hi, hlive, ⟨_, _, h⟩, rfl⟩, hsyn, ?_⟩
    split
    · exact ⟨acceptRingPush_steps _ _ i, acceptRingPush_slots _ _ i⟩
    · exact ⟨.refl _, rfl⟩

def extraMoves : Op → Core κ → Core κ → Prop
  | .connect .. => Claims
  | .receive .. => fun s s' => Claims s s' ∨ Arrivals s s'
  | .tick _ => Relinks
  | _ => NoExtra

theorem receiveSyn_steps (hs : s.PoolInv none) (seg : Segment) (env : Env) :
    ∃ n ≤ 3, Steps Claims n s (s.receiveSyn seg env) := by
  have hadmit : ∀ {s1 : Core κ} {m : ℕ}, m ≤ 1 → Steps NoExtra m s s1 →
      ∃ n ≤ 3, Steps Claims n s (s1.admitSyn seg env) := by
    intro s1 m hm hst
    rcases admitSyn_steps (hst.poolInv hs) seg env with
      ⟨n, hn, h⟩ | ⟨n, s0, s2, c, hn, h, hc, -, -, -, -, -, h'⟩
    · exact ⟨m + n, by omega, (hst.trans h).of_noExtra⟩
    · have := ((hst.trans h).of_noExtra (A := Claims)).extra ⟨c, hc⟩
      exact ⟨m + n, by omega, this.trans h'.of_noExtra⟩
  have hrst : Steps Claims 0 s
      (s.sendRst seg.dstIp seg.srcIp seg.dstPort seg.srcPort 0 (seg.seq + 1)) :=
    (refl s).house rfl rfl rfl rfl rfl
  unfold receiveSyn
  split
  next i hit =>
    obtain ⟨hfind, -⟩ := Option.filter_eq_some_iff.1 hit
    dsimp only
    split_ifs with h1 h2 h3 h4
    · exact ⟨0, by omega, (sendChallengeAck_steps s i seg env.now).of_noExtra⟩
    · exact ⟨0, by omega, .refl s⟩
    · exact ⟨0, by omega, hrst⟩
    · exact hadmit (Nat.le_refl 1) (.of_move (.free (tcpHashFind_lt hs hfind) h4.owned))
    · exact hadmit (Nat.zero_le 1) (.refl s)
  · split_ifs
    · exact ⟨0, by omega, hrst⟩
    · exact hadmit (Nat.zero_le 1) (.refl s)

/-- A segment that asks for a new connection. -/
def BareSyn (seg : Segment) : Prop :=
  seg.has tcpRst = false ∧ seg.has tcpSyn = true ∧ seg.has tcpAck = false

instance (seg : Segment) : Decidable (BareSyn seg) := inferInstanceAs (Decidable (_ ∧ _ ∧ _))

def ForConnection (seg : Segment) : Prop := seg.has tcpRst = false ∧ ¬BareSyn seg

instance (seg : Segment) : Decidable (ForConnection seg) := inferInstanceAs (Decidable (_ ∧ _))

theorem tcpReceive_steps (hs : s.PoolInv none) (srcIp dstIp : IpAddr)
    (parts : List Bytes) (env : Env) :
    (∃ n ≤ 3, Steps Claims n s (s.tcpReceive srcIp dstIp parts env)) ∨
      ∃ seg i s₁ l' established, Segment.parse srcIp dstIp parts = some seg ∧ ForConnection seg ∧
        s.dispatch seg = some i ∧ Arrival s s₁ i seg l' established ∧
        (s.slots i).state ≠ .synSent ∧
        Steps NoExtra 0 s₁ (s.tcpReceive srcIp dstIp parts env) ∧
        (s.tcpReceive srcIp dstIp parts env).slots = s₁.slots := by
  unfold tcpReceive
  split
  next seg hseg =>
    unfold receiveSegment
    split_ifs with hrst hsyn
    · obtain ⟨n, hn, h⟩ := receiveRst_steps s seg
      exact .inl ⟨n, by omega, h.of_noExtra⟩
    · exact .inl (receiveSyn_steps hs seg env)
    · split
      next i hdis =>
        obtain ⟨hi, hlive⟩ := dispatch_spec hs hdis
        rcases receiveAt_steps hi hlive seg env with ⟨n, hn, h⟩ | ⟨s₁, l', est, harr, hst, h, hsl⟩
        · exact .inl ⟨n, by omega, h.of_noExtra⟩
        · refine .inr ⟨seg, i, s₁, l', est, hseg, ⟨by simpa using hrst, ?_⟩, hdis, harr, hst, h, hsl⟩
          rintro ⟨-, h1, h2⟩
          simp [h1, h2] at hsyn
      · exact .inl ⟨0, by omega, .refl s⟩
  · exact .inl ⟨0, by omega, .refl s⟩

/-! ### The tick -/

theorem rtxPhase_steady {l' : Local κ} (h : rtxPhase l now = some l') :
    Steady l l' := by
  unfold rtxPhase at h
  dsimp only at h
  split_ifs at h
  · cases h
    exact retransmitOldest_steady l now
  · cases h
    exact sendTlpProbe_steady l now
  · cases h
    exact .quiet rfl (by simp [armed_iff]; tauto) rfl rfl rfl
  · cases h
    exact .refl l

theorem rackPhase_steady (l : Local κ) (now : ℕ) : Steady l (rackPhase l now) := by
  unfold rackPhase
  split
  · exact rackDetect_steady l now
  · exact .refl l

theorem phases_of_not_armed (h : ¬l.conn.Armed) (now : ℕ) :
    rtxPhase l now = some l ∧ rackPhase l now = l ∧ persistPhase l now = some l := by
  rw [armed_iff] at h
  simp only [not_or, not_not] at h
  obtain ⟨h1, h2, h3, h4, -⟩ := h
  simp [rtxPhase, rackPhase, persistPhase, h1, h2, h3, h4]

theorem lifecyclePhase_steps (hs : s.PoolInv none) (hi : i < s.capacity)
    (now : ℕ) : ∃ n ≤ 1, Steps NoExtra n s (s.lifecyclePhase i now) := by
  unfold lifecyclePhase
  dsimp only
  split
  next hdue =>
    have hown : (s.slots i).Owned := hs.owned_of_armed hi
      ((armed_iff _).2 (.inr (.inr (.inr (.inr hdue.1)))))
    have hfin : ∃ n ≤ 1, Steps NoExtra n s (if finRetxMax ≤ (s.slots i).finRetxCount then
        s.freeConnection i else s.withLocal i fun l => l.retransmitFin now) := by
      split
      · exact ⟨1, by omega, .of_move (.free hi hown)⟩
      · exact ⟨0, by omega, .of_move (.keep hi hown (retransmitFin_steady _ now).keep)⟩
    split
    · exact hfin
    · exact hfin
    · exact ⟨1, by omega, .of_move (.free hi hown)⟩
    next hst =>
      split
      · exact ⟨0, by omega, .of_move (.failConnect hi hst (by simp))⟩
      · exact ⟨0, by omega, .of_move (.keep hi hown (retransmitSyn_keep _ now))⟩
    · have hk : Keep (s.localAt i) ⟨{ s.slots i with lifecycleDeadlineMs := 0 }, s.tickHead, s.tx⟩ :=
        Keep.of_frame rfl (by simp [armed_iff]; tauto)
      exact ⟨0, by omega, .of_move (.keep hi hown hk)⟩
  · exact ⟨0, by omega, .refl s⟩

theorem visit_steps (hs : s.PoolInv none) (hi : i < s.capacity) (now : ℕ) :
    ∃ n ≤ 1, Steps NoExtra n s (s.visit i now).1 := by
  by_cases hown : (s.slots i).Owned
  · unfold visit
    split
    · exact ⟨1, by omega, .of_move (.free hi hown)⟩
    next l hrtx =>
      have hk := (rtxPhase_steady hrtx).trans (rackPhase_steady l now)
      dsimp only
      split
      next hper =>
        have hm : Move 0 s (s.putLocal i (rackPhase l now)) := .keep hi hown hk.keep
        refine ⟨1, by omega, (of_move hm).move (.free hi (.inl ?_))⟩
        rw [putLocal_slots_self, persistPhase_none hper]
        simp
      next l' hper =>
        have hm : Move 0 s (s.putLocal i l') :=
          .keep hi hown (hk.trans (persistPhase_steady hper)).keep
        obtain ⟨n, hn, h⟩ := lifecyclePhase_steps (hm.poolInv hs) (i := i) hi now
        exact ⟨0 + n, by omega, (of_move hm).trans h⟩
  · obtain ⟨h1, h2, h3⟩ := phases_of_not_armed (l := s.localAt i) (hs.clean i hi hown).1 now
    unfold visit
    rw [h1]
    dsimp only
    rw [h2, h3]
    have hm : Move 0 s (s.putLocal i (s.localAt i)) := .quiet (.refl _)
    obtain ⟨n, hn, h⟩ := lifecyclePhase_steps (hm.poolInv hs) (i := i) hi now
    exact ⟨0 + n, by omega, (of_move hm).trans h⟩

theorem freeConnection_segments (s : Core κ) (i : ℕ) : (s.freeConnection i).segments = s.segments := by
  by_cases h : (s.slots i).state = .closed ∧ (s.slots i).nextFree ≠ nullSlot
  · unfold freeConnection
    rw [if_pos h]
  · exact (freeConnection_freed fun hc => by_contra fun hn => h ⟨hc, hn⟩).segments

theorem Move.segments_le {w : ℕ} (h : Move w s s') : s.segments ≤ s'.segments := by
  cases h with
  | house slots segments freeHead hash tickHead => exact Nat.le_of_eq segments.symm
  | grow h =>
    unfold growSegment at h
    split_ifs at h
    cases h
    have : ∀ (js : List ℕ) (s : Core κ), (js.foldr (fun i s => s.freeSlot i) s).segments = s.segments := by
      intro js s
      induction js with
      | nil => rfl
      | cons j js ih => exact ih
    rw [this]
    exact Nat.le_succ _
  | free hi hown => exact Nat.le_of_eq (freeConnection_segments s _).symm
  | giveBack h => exact Nat.le_of_eq (freeConnection_segments s.take _).symm
  | _ => exact Nat.le_refl _

theorem Steps.capacity_le {A : Core κ → Core κ → Prop} {n : ℕ}
    (h : Steps A n s s') (hA : ∀ s s', A s s' → s.segments ≤ s'.segments) :
    s.capacity ≤ s'.capacity := by
  refine Nat.mul_le_mul_right _ ?_
  induction h with
  | refl => exact Nat.le_refl _
  | move _ hm ih => exact Nat.le_trans ih hm.segments_le
  | extra _ ha ih => exact Nat.le_trans ih (hA _ _ ha)

theorem Steps.link {A : Core κ → Core κ → Prop} {n : ℕ} (h : Steps A n s s')
    (hA : ∀ s s', A s s' → s.segments ≤ s'.segments) (hi : s.Link i) : s'.Link i :=
  hi.imp id fun hlt => Nat.lt_of_lt_of_le hlt (h.capacity_le hA)

theorem tickLoop_steps (now rounds : ℕ) {walker : ℕ} (hs : s.PoolInv none)
    (hw : s.Link walker) (hn : s.Link newHead) :
    ∃ n ≤ rounds, Steps Relinks n s (tickLoop now rounds s walker newHead).1 ∧
      (tickLoop now rounds s walker newHead).1.Link (tickLoop now rounds s walker newHead).2.1 := by
  induction rounds generalizing s walker newHead with
  | zero => exact ⟨0, Nat.le_refl 0, .refl s, hn⟩
  | succ rounds ih =>
    unfold tickLoop
    split
    · exact ⟨0, Nat.zero_le _, .refl s, hn⟩
    rename_i hne
    have hlt : walker < s.capacity := hw.resolve_left hne
    obtain ⟨n, hn1, hst⟩ := visit_steps hs hlt now
    have hinv := hst.poolInv hs
    have hlink : ∀ {j}, s.Link j → (s.visit walker now).1.Link j :=
      fun h => hst.link (fun _ _ ha => ha.elim) h
    split
    next s1 hv =>
      rw [hv] at hst hinv hlink
      obtain ⟨m, hm, hst', hl⟩ := ih hinv (hlink hw) (hlink hn)
      exact ⟨n + m, by omega, hst.of_noExtra.trans hst', hl⟩
    next s1 hv =>
      rw [hv] at hst hinv hlink
      have hre := relink_relinks (i := walker) hinv (hlink hn)
      have hst2 := (hst.of_noExtra (A := Relinks)).extra hre
      have hlink2 : ∀ {j}, s1.Link j → (s1.relink walker newHead).1.Link j :=
        fun h => (extra (.refl s1) hre).link (fun _ _ => Relinks.segments_le) h
      have hhead : s1.Link (s1.relink walker newHead).2 := by
        unfold relink
        split
        · exact hlink hw
        · exact hlink hn
      obtain ⟨m, hm, hst', hl⟩ := ih (hre.poolInv hinv) (hlink2 (hlink (hs.tickNext walker hlt)))
        (hlink2 hhead)
      exact ⟨n + m, by omega, hst2.trans hst', hl⟩

theorem onTcpTick_steps (hs : s.PoolInv none) (now : ℕ) :
    ∃ n < 65536, Steps Relinks n s (s.onTcpTick now) := by
  have hdet : Relinks s { s with tickHead := nullSlot } := Relink.head s hs (.inl rfl)
  have hlinks : Link { s with tickHead := nullSlot } s.tickHead ∧
      Link { s with tickHead := nullSlot } nullSlot := ⟨hs.tickHead, .inl rfl⟩
  obtain ⟨n, hn, hst, hl⟩ := tickLoop_steps now (s.capacity + 2) (hdet.poolInv hs) hlinks.1 hlinks.2
  have hst' := ((refl s).extra hdet).trans hst
  have hinv := (hst'.invariant (P := fun _ => True) (fun _ _ h => h.poolInv)
    (fun _ _ _ _ _ _ => trivial) (fun _ _ _ _ _ => trivial) hs trivial).1
  have hseg := hs.segments
  refine ⟨0 + n, ?_, hst'.extra (tickHeadPublish_relinks hinv hl)⟩
  unfold capacity segmentSize at hn
  unfold maxSegments at hseg
  omega

variable {op : Op}

/-! ### Every operation -/

theorem shutdownSlot_steps (hi : i < s.capacity) :
    ∃ n ≤ 1, Steps NoExtra n s (s.shutdownSlot i) := by
  unfold shutdownSlot
  dsimp only
  split
  next hlive =>
    have hrst : Steps NoExtra 0 s (s.sendRst (s.slots i).localIp (s.slots i).remoteIp
        (s.slots i).localPort (s.slots i).remotePort (s.slots i).sndNxt (s.slots i).rcvNxt) :=
      (refl s).house rfl rfl rfl rfl rfl
    have hfree := hrst.move (.free (i := i) hi hlive.owned)
    refine ⟨0 + 1 + 0, Nat.le_refl 1, hfree.trans ?_⟩
    exact setSlot_steps ⟨rfl, rfl⟩
  · exact ⟨0, by omega, setSlot_steps ⟨rfl, rfl⟩⟩

theorem shutdownAll_steps (hs : s.PoolInv none) :
    ∃ n < 65536, Steps NoExtra n s s.shutdownAll := by
  have hfold : ∀ (is : List ℕ) {s : Core κ}, (∀ i ∈ is, i < s.capacity) →
      ∃ n ≤ is.length, Steps NoExtra n s (is.foldl shutdownSlot s) := by
    intro is
    induction is with
    | nil => exact fun {s} _ => ⟨0, Nat.le_refl 0, .refl s⟩
    | cons i is ih =>
      intro s hlt
      obtain ⟨n, hn, hst⟩ := shutdownSlot_steps (hlt i (by simp))
      have hcap := hst.capacity_le fun _ _ ha => ha.elim
      obtain ⟨m, hm, hst'⟩ := ih fun j hj => Nat.lt_of_lt_of_le (hlt j (by simp [hj])) hcap
      exact ⟨n + m, by simp; omega, hst.trans hst'⟩
  obtain ⟨n, hn, hst⟩ := hfold s.indices fun i hi => mem_indices.1 hi
  have hcap := capacity_lt_nullSlot s hs.segments
  simp only [indices, length_range] at hn
  unfold nullSlot at hcap
  exact ⟨n, by omega, hst⟩

/-- What an operation needs of its caller. -/
def OpOk (s : Core κ) : Op → Prop
  | .close slot generation _ => s.CloseOk slot generation
  | _ => True

theorem step_steps (hs : s.PoolInv none) (hop : s.OpOk op) :
    ∃ n < 65536, Steps (extraMoves op) n s (s.step op) := by
  cases op with
  | listen port env =>
    obtain ⟨n, hn, h⟩ := listenOnCore_steps hs port env
    exact ⟨n, by omega, h⟩
  | connect localIp remoteIp remotePort place env =>
    rcases connectOnCore_steps hs localIp remoteIp remotePort place env with
      ⟨n, hn, h, -⟩ | ⟨n, s0, s1, c, port, hn, -, h, hc, -, -, -, -, -, h', -⟩
    · exact ⟨n, by omega, h.of_noExtra⟩
    · have := (h.of_noExtra (A := Claims)).extra ⟨c, hc⟩
      exact ⟨n + 0, by omega, this.trans h'.of_noExtra⟩
  | receive srcIp dstIp parts env =>
    rcases tcpReceive_steps hs srcIp dstIp parts env with
      ⟨n, hn, h⟩ | ⟨seg, i, s1, l', est, -, -, -, harr, -, h, -⟩
    · exact ⟨n, by omega, h.mono fun _ _ hc => .inl hc⟩
    · have hst : Steps (extraMoves (.receive srcIp dstIp parts env)) 0 s s1 :=
        (refl s).extra (.inr ⟨i, seg, l', est, harr⟩)
      exact ⟨0 + 0, by omega, hst.trans h.of_noExtra⟩
  | accept port => exact ⟨0, by omega, acceptOnPortCore_steps s port⟩
  | close slot generation env =>
    obtain ⟨n, hn, h⟩ := closeHandle_steps hop env.now
    exact ⟨n, by omega, h⟩
  | sendChain slot generation chain env =>
    refine ⟨0, by omega, onHandle_steps ?_⟩
    by_cases hst : (s.slots slot).state = .established
    · exact .inr ⟨.inl (by simp [hst]), (asyncTrySendChain_recv _ _ _ _ _).2⟩
    · refine .inl ?_
      unfold Local.asyncTrySendChain
      rw [localAt_conn, if_pos hst]
      exact .refl _
  | sendTso slot generation minPayload fill env =>
    refine ⟨0, by omega, onHandle_steps ?_⟩
    by_cases hst : (s.slots slot).state = .established
    · exact .inr ⟨.inl (by simp [hst]), (trySendTso_recv _ _ _ _ _ _ _).2⟩
    · refine .inl ?_
      unfold Local.trySendTso
      rw [localAt_conn, if_pos hst]
      exact .refl _
  | recv slot generation cap =>
    exact ⟨0, by omega, onHandle_steps (.inl (rxPop_quiet _ cap))⟩
  | recvChunk slot generation env =>
    exact ⟨0, by omega, onHandle_steps (.inl (doRecvChunk_quiet _ env.reserved))⟩
  | chunkWanted slot generation wanted =>
    exact ⟨0, by omega, onHandle_steps (.inl ⟨rfl, rfl⟩)⟩
  | recvWaker slot generation parked =>
    exact ⟨0, by omega, onHandle_steps (.inl ⟨rfl, rfl⟩)⟩
  | sendWaker slot generation parked =>
    exact ⟨0, by omega, onHandle_steps (.inl ⟨rfl, rfl⟩)⟩
  | pathMtu remoteIp remotePort localPort seq mss =>
    exact ⟨0, by omega, notePathMtu_steps s remoteIp remotePort localPort seq mss⟩
  | tick now => exact onTcpTick_steps hs now
  | shutdownAll => exact shutdownAll_steps hs

theorem extraMoves_poolInv (h : extraMoves op s s') (hs : s.PoolInv none) :
    s'.PoolInv none := by
  have hclaims : ∀ {s s' : Core κ}, Claims s s' → s.PoolInv none → s'.PoolInv none := by
    rintro s s' ⟨c, hc⟩ hs
    exact hc.poolInv hs
  cases op with
  | connect => exact hclaims h hs
  | receive =>
    rcases h with h | ⟨i, seg, l', est, h⟩
    · exact hclaims h hs
    · exact h.poolInv hs
  | tick => exact Relinks.poolInv h hs
  | _ => exact h.elim

theorem step_poolInv (hs : s.PoolInv none) (hop : s.OpOk op) :
    (s.step op).PoolInv none := by
  obtain ⟨n, -, h⟩ := step_steps hs hop
  exact (h.invariant (P := fun _ => True) (fun _ _ => extraMoves_poolInv)
    (fun _ _ _ _ _ _ => trivial) (fun _ _ _ _ _ => trivial) hs trivial).1

theorem init_poolInv : (init : Core κ).PoolInv none where
  freeList := ⟨[], rfl, fun i => by simp [init, capacity]⟩
  unlinked := fun i hi => by simp [init, capacity] at hi
  transit_lt := by simp
  outside := fun i _ => ⟨by simp [init, TcpConnection.Owned, TcpConnection.new], rfl⟩
  slotIndex := fun i hi => by simp [init, capacity] at hi
  clean := fun i hi => by simp [init, capacity] at hi
  tickHead := .inl rfl
  tickNext := fun i hi => by simp [init, capacity] at hi
  hash := fun j hj => absurd rfl hj
  segments := Nat.zero_le _

end Core

end Waitless.Tcp
