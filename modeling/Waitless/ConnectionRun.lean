import Waitless.SlotHistory

/-! # One connection, event by event

The engine seen from a single connection past its opening handshake messages. `after` runs the
connection's own part of an event; `none` means that the engine frees the slot. `receiveSegment_at`,
`visit_at` and `notePathMtu_at` say that this is what the engine does to the slot (`Holds`). -/

namespace Waitless.Tcp

variable {κ : Type} [CongestionControl κ]

/-- `listening`: the port has a listener. -/
inductive Event where
  | packet (srcIp dstIp : IpAddr) (parts : List Bytes) (listening : Bool) (now : ℕ) (reserved : Bool)
  | sendChain (chain : List Bytes) (d : Driver) (now : ℕ) (reserve : ℕ → Bool)
  | sendTso (minPayload : ℕ) (fill : Option Bytes) (d : Driver) (now : ℕ) (staged reserved : Bool)
  | close (now : ℕ)
  | recv (cap : ℕ)
  | recvChunk (reserved : Bool)
  | chunkWanted (wanted : Bool)
  | tick (now : ℕ)
  | pathMtu (seq : UInt32) (candidateMss : ℕ)

namespace Local

def receive (l : Local κ) (seg : Segment) (listening : Bool) (now : ℕ) (reserved : Bool) :
    Option (Local κ) :=
  if seg.has tcpRst then if seg.seq = l.conn.rcvNxt then none else some l
  else if seg.has tcpSyn && !seg.has tcpAck then
    if l.conn.state ≠ .established ∧ listening then none else some l
  else
    match l.segmentArrives seg now reserved with
    | (_, .challenge) => some l
    | (_, .free) => none
    | (l, .done _) => some l

def lifecycle (l : Local κ) (now : ℕ) : Option (Local κ) :=
  if l.conn.lifecycleDeadlineMs ≠ 0 ∧ l.conn.lifecycleDeadlineMs ≤ now then
    match l.conn.state with
    | .finWait1 | .lastAck =>
      if finRetxMax ≤ l.conn.finRetxCount then none else some (l.retransmitFin now)
    | .timeWait => none
    | _ => some { l with conn := { l.conn with lifecycleDeadlineMs := 0 } }
  else some l

def onTick (l : Local κ) (now : ℕ) : Option (Local κ) :=
  match Core.rtxPhase l now with
  | none => none
  | some l =>
    match Core.persistPhase (Core.rackPhase l now) now with
    | none => none
    | some l => l.lifecycle now

def notePathMtu (l : Local κ) (seq : UInt32) (candidateMss : ℕ) : Local κ :=
  let newMss := max candidateMss (Core.pmtuFloor l.conn.localIp)
  if l.conn.state = .established ∧ (seq - l.conn.sndUna).toNat < l.conn.flight ∧
      newMss < l.conn.sndMss then
    { l with conn := { l.conn with sndMss := newMss } }
  else l

def after (l : Local κ) : Event → Option (Local κ) × Bytes
  | .packet srcIp dstIp parts listening now reserved =>
    match Segment.parse srcIp dstIp parts with
    | some seg => (l.receive seg listening now reserved, [])
    | none => (some l, [])
  | .sendChain chain d now reserve => (some (l.asyncTrySendChain chain d now reserve).1, [])
  | .sendTso minPayload fill d now staged reserved =>
    (some (l.trySendTso minPayload fill d now staged reserved).1, [])
  | .close now => (l.close now, [])
  | .recv cap => (some (l.asyncRecv cap).1, (l.asyncRecv cap).2)
  | .recvChunk reserved => (some (l.doRecvChunk reserved).1, (l.doRecvChunk reserved).2.getD [])
  | .chunkWanted wanted => (some (l.setChunkWanted wanted), [])
  | .tick now => (l.onTick now, [])
  | .pathMtu seq candidateMss => (some (l.notePathMtu seq candidateMss), [])

/-- **What a segment does to a connection that stays.** -/
theorem receive_cases {l l' : Local κ} {seg : Segment} {listening reserved : Bool} {now : ℕ}
    (hr : l.receive seg listening now reserved = some l') :
    l' = l ∨ ∃ m, (m = l ∨ ∃ established, l.processAck seg now = (m, .done established)) ∧
      l' = m.afterAck seg l.conn.state now reserved := by
  unfold receive at hr
  split_ifs at hr
  · exact .inl (Option.some.inj hr).symm
  · exact .inl (Option.some.inj hr).symm
  · unfold segmentArrives at hr
    by_cases hack : seg.has tcpAck = true
    · rw [if_pos hack] at hr
      generalize hp : l.processAck seg now = t at hr
      obtain ⟨m, o⟩ := t
      cases o with
      | challenge => exact .inl (Option.some.inj hr).symm
      | free => cases hr
      | done established => exact .inr ⟨m, .inr ⟨established, rfl⟩, (Option.some.inj hr).symm⟩
    · rw [if_neg hack] at hr
      exact .inr ⟨l, .inl rfl, (Option.some.inj hr).symm⟩

end Local

namespace Core

def route (s : Core κ) (seg : Segment) : Option ℕ :=
  if seg.has tcpRst then s.tcpLinearFind seg.srcIp seg.srcPort seg.dstPort
  else if seg.has tcpSyn && !seg.has tcpAck then s.synHit seg
  else s.dispatch seg

omit [CongestionControl κ] in
theorem sendChallengeAck_slots (s : Core κ) (i : ℕ) (seg : Segment) (now : ℕ) :
    (s.sendChallengeAck i seg now).slots = s.slots := by
  have hall : (s.challengeAckAllowed now).2.slots = s.slots := rfl
  unfold sendChallengeAck
  split
  next s' h =>
    rw [h] at hall
    exact hall
  next s' h =>
    rw [h] at hall
    exact hall

/-- Freed: its generation has moved on. -/
def Gone (s s' : Core κ) (i : ℕ) : Prop :=
  ∃ n, 0 < n ∧ n < 65536 ∧ (s'.slots i).generation = (s.slots i).generation + UInt16.ofNat n

/-- It holds the given connection, or was freed. -/
def Holds (s s' : Core κ) (i : ℕ) : Option (Local κ) → Prop
  | some l => s'.slots i = l.conn
  | none => Gone s s' i

variable {i : ℕ} {s : Core κ}

theorem freeConnection_gone (hlive : (s.slots i).Live) :
    Gone s (s.freeConnection i) i := by
  have hf := freeConnection_freed (s := s) (i := i) fun h => absurd h hlive.1
  refine ⟨1, by omega, by omega, ?_⟩
  rw [hf.self]
  rfl

theorem admitSyn_gone (hs : s.PoolInv none) (hi : i < s.capacity)
    (hlive : (s.slots i).Live) (seg : Segment) (env : Env) :
    Gone s ((s.freeConnection i).admitSyn seg env) i := by
  obtain ⟨n, -, -, hg⟩ := freeConnection_gone hlive
  have hf : ((s.freeConnection i).slots i).generation = (s.slots i).generation + 1 := by
    rw [(freeConnection_freed fun h => absurd h hlive.1).self]
    rfl
  have hs' : (s.freeConnection i).PoolInv none := (Move.free hi hlive.owned).poolInv hs
  obtain ⟨m, hm, hst⟩ : ∃ m ≤ 2, Steps Claims m (s.freeConnection i)
      ((s.freeConnection i).admitSyn seg env) := by
    rcases admitSyn_steps hs' seg env with ⟨m, hm, h⟩ | ⟨m, s0, s1, c, hm, h, hc, -, -, -, -, -, h'⟩
    · exact ⟨m, hm, h.of_noExtra⟩
    · exact ⟨m + 0, by omega, (h.of_noExtra.extra ⟨c, hc⟩).trans h'.of_noExtra⟩
  obtain ⟨-, k, hk, hp⟩ := hst.slotPath claims_traced hs' i
  refine ⟨k + 1, by omega, by omega, ?_⟩
  rw [hp.generation.1, hf, UInt16.ofNat_add, UInt16.add_assoc, UInt16.add_comm 1]
  rfl

theorem receiveSegment_at (hs : s.PoolInv none) {seg : Segment}
    (hroute : s.route seg = some i) (hi : i < s.capacity) (hlive : (s.slots i).Live)
    (hsyn : (s.slots i).state ≠ .synSent) (env : Env) :
    Holds s (s.receiveSegment seg env) i
      ((s.localAt i).receive seg (s.hasListener seg.dstPort) env.now env.reserved) := by
  unfold route at hroute
  unfold receiveSegment Local.receive
  split_ifs at hroute with hrst hbare
  · rw [if_pos hrst, if_pos hrst]
    unfold receiveRst
    simp only [hroute, if_neg hsyn]
    split
    · rw [if_pos ‹_›]
      exact freeConnection_gone hlive
    · rw [if_neg ‹_›]
      rfl
  · rw [if_neg hrst, if_neg hrst, if_pos hbare, if_pos hbare]
    unfold receiveSyn
    simp only [hroute]
    split
    next hest =>
      rw [if_neg fun h => h.1 hest]
      exact congrFun (sendChallengeAck_slots s i seg env.now) i
    rename_i hest
    split
    next hno =>
      rw [if_neg fun h => by simp [h.2] at hno]
      rfl
    · -- a SYN that finds the connection closing
      rename_i hlisten
      rw [if_pos ⟨hest, by simpa using hlisten⟩]
      exact admitSyn_gone hs hi hlive seg env
  · rw [if_neg hrst, if_neg hrst, if_neg hbare, if_neg hbare, hroute]
    dsimp only
    unfold receiveAt
    rw [if_neg hsyn]
    generalize (s.localAt i).segmentArrives seg env.now env.reserved = r
    obtain ⟨l, o⟩ := r
    cases o with
    | challenge => exact congrFun (sendChallengeAck_slots s i seg env.now) i
    | free => exact freeConnection_gone hlive
    | done established =>
      dsimp only
      split
      · exact (congrFun (acceptRingPush_slots _ _ i) i).trans (putLocal_slots_self _ _ _)
      · exact putLocal_slots_self _ _ _

theorem lifecyclePhase_at (hlive : (s.slots i).Live)
    (hsyn : (s.slots i).state ≠ .synSent) (now : ℕ) :
    Holds s (s.lifecyclePhase i now) i ((s.localAt i).lifecycle now) := by
  have hfin : Holds s (if finRetxMax ≤ (s.slots i).finRetxCount then s.freeConnection i
        else s.withLocal i fun l => l.retransmitFin now) i
      (if finRetxMax ≤ (s.slots i).finRetxCount then none
        else some ((s.localAt i).retransmitFin now)) := by
    split_ifs
    · exact freeConnection_gone hlive
    · exact putLocal_slots_self _ _ _
  unfold Local.lifecycle lifecyclePhase
  by_cases hdue : (s.slots i).lifecycleDeadlineMs ≠ 0 ∧ (s.slots i).lifecycleDeadlineMs ≤ now
  · have hdue' : (s.localAt i).conn.lifecycleDeadlineMs ≠ 0 ∧
        (s.localAt i).conn.lifecycleDeadlineMs ≤ now := hdue
    rw [if_pos hdue']
    rw [if_pos hdue]
    cases hst : (s.slots i).state with
    | finWait1 =>
      simp only [localAt_conn, hst]
      exact hfin
    | lastAck =>
      simp only [localAt_conn, hst]
      exact hfin
    | timeWait =>
      simp only [localAt_conn, hst]
      exact freeConnection_gone hlive
    | synSent => exact absurd hst hsyn
    | _ =>
      simp only [localAt_conn, hst]
      exact setSlot_slots_self _ _ _
  · have hdue' : ¬((s.localAt i).conn.lifecycleDeadlineMs ≠ 0 ∧
        (s.localAt i).conn.lifecycleDeadlineMs ≤ now) := hdue
    rw [if_neg hdue']
    rw [if_neg hdue]
    rfl

omit [CongestionControl κ] in
@[simp] theorem localAt_putLocal (s : Core κ) (i : ℕ) (l : Local κ) :
    (s.putLocal i l).localAt i = l := by
  simp [localAt, putLocal]

omit [CongestionControl κ] in
theorem Holds.of_putLocal {s s' : Core κ} {i : ℕ} {l : Local κ} {o : Option (Local κ)}
    (h : Holds (s.putLocal i l) s' i o) (hk : Keep (s.localAt i) l) : Holds s s' i o := by
  cases o with
  | some l' => exact h
  | none =>
    obtain ⟨n, h0, hn, hg⟩ := h
    refine ⟨n, h0, hn, hg.trans ?_⟩
    rw [putLocal_slots_self, congrArg SlotLink.generation hk.1.slotLink]
    rfl

theorem visit_at {s : Core κ} {i : ℕ} (hlive : (s.slots i).Live)
    (hsyn : (s.slots i).state ≠ .synSent) (now : ℕ) :
    Holds s (s.visit i now).1 i ((s.localAt i).onTick now) := by
  have hlocal : ∀ l, Keep (s.localAt i) l → ((s.putLocal i l).slots i).Live ∧
      ((s.putLocal i l).slots i).state ≠ .synSent := by
    intro l hk
    unfold TcpConnection.Live
    rw [putLocal_slots_self, hk.2]
    exact ⟨hlive, hsyn⟩
  unfold Local.onTick visit
  cases hrtx : rtxPhase (s.localAt i) now with
  | none => exact freeConnection_gone hlive
  | some l =>
    have hk := (rtxPhase_steady hrtx).keep.trans (rackPhase_steady l now).keep
    dsimp only
    cases hper : persistPhase (rackPhase l now) now with
    | none =>
      have hgone : Holds _ _ i none := freeConnection_gone (hlocal _ hk).1
      exact hgone.of_putLocal hk
    | some l' =>
      have hk' := hk.trans (persistPhase_steady hper).keep
      obtain ⟨hlive', hsyn'⟩ := hlocal l' hk'
      have hlc := (lifecyclePhase_at hlive' hsyn' now).of_putLocal hk'
      rwa [localAt_putLocal] at hlc

omit [CongestionControl κ] in
theorem notePathMtu_at {s : Core κ} {i : ℕ} {remoteIp : IpAddr} {remotePort localPort : UInt16}
    (hfind : s.tcpHashFind (tcpHashKey remoteIp remotePort localPort) = some i)
    (hid : Matches (s.slots i) remoteIp remotePort localPort) (seq : UInt32) (candidateMss : ℕ) :
    (s.notePathMtu remoteIp remotePort localPort seq candidateMss).slots i =
      ((s.localAt i).notePathMtu seq candidateMss).conn := by
  unfold notePathMtu Local.notePathMtu
  rw [hfind]
  dsimp only
  by_cases hfits : (s.slots i).state = .established ∧
      (seq - (s.slots i).sndUna).toNat < (s.slots i).flight ∧
      max candidateMss (pmtuFloor (s.slots i).localIp) < (s.slots i).sndMss
  · have hl : (s.localAt i).conn.state = .established ∧
        (seq - (s.localAt i).conn.sndUna).toNat < (s.localAt i).conn.flight ∧
        max candidateMss (pmtuFloor (s.localAt i).conn.localIp) < (s.localAt i).conn.sndMss := hfits
    rw [if_pos ⟨hid, hfits⟩, if_pos hl]
    exact setSlot_slots_self _ _ _
  · have hl : ¬((s.localAt i).conn.state = .established ∧
        (seq - (s.localAt i).conn.sndUna).toNat < (s.localAt i).conn.flight ∧
        max candidateMss (pmtuFloor (s.localAt i).conn.localIp) < (s.localAt i).conn.sndMss) := hfits
    rw [if_neg fun h => hfits h.2, if_neg hl]
    rfl

end Core

theorem Local.onTick_steady {l l' : Local κ} {now : ℕ}
    (h : l.onTick now = some l') : Steady l l' := by
  have hlife : ∀ {l l' : Local κ}, l.lifecycle now = some l' → Steady l l' := by
    intro l l' h
    unfold lifecycle at h
    split at h
    · split at h
      · split at h
        · cases h
        · cases h
          exact retransmitFin_steady l now
      · split at h
        · cases h
        · cases h
          exact retransmitFin_steady l now
      · cases h
      · cases h
        exact .quiet rfl (by simp [armed_iff]; tauto) rfl rfl rfl
    · cases h
      exact .refl l
  unfold onTick at h
  split at h
  · cases h
  next l1 h1 =>
    split at h
    · cases h
    next l2 h2 =>
      exact (((Core.rtxPhase_steady h1).trans (Core.rackPhase_steady l1 now)).trans
        (Core.persistPhase_steady h2)).trans (hlife h)

end Waitless.Tcp
