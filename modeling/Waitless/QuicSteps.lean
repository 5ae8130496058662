import Waitless.QuicBuildSpec
import Waitless.QuicEvents

/-! # What one event does

The invariants of a connection are about its `View`. For every event other than a 1-RTT build,
`stepped` says what it does to the view: which receive side and which limits are left, which packet
numbers are taken or acknowledged, and that no STREAM frame is newly kept for retransmission. -/

namespace Waitless.Quic

open Waitless.AesGcm HoleRing List
open Waitless.Tcp (CongestionControl LostBy)

/-- The parts of a connection that invariants are about. -/
structure View where
  recv : RecvSide
  data : DataSide
  sent : Levels SentPackets
  isClient : Bool
  /-- Per level, the next number and the largest acknowledged one. -/
  numbers : CryptoLevel → UInt64 × Option UInt64

/-- The data side without what is kept for retransmission. -/
def DataSide.limits (d : DataSide) : DataSide := { d with retxQueue := [], retxBytes := 0, staged := [] }

theorem Levels.set_set {α : Type} (l : Levels α) (level : CryptoLevel) (x y : α) :
    (l.set level x).set level y = l.set level y := by
  cases level <;> rfl

namespace View

/-- The frame is queued, staged in the packet or in flight. -/
def Retains (v : View) (f : StreamRetx) : Prop :=
  f ∈ v.data.retxQueue ∨ f ∈ v.data.staged ∨
    ∃ level pkt, (v.sent.get level).Holds pkt ∧ f ∈ pkt.streamFrames

def took (v : View) (level : CryptoLevel) : View :=
  { v with numbers := fun l => if l = level then ((v.numbers l).1 + 1, (v.numbers l).2) else v.numbers l }

/-- Building a packet without stream data. -/
inductive Sends (v : View) : View → Prop where
  | same : Sends v v
  | took (level : CryptoLevel) : Sends v (v.took level)
  | recorded (level : CryptoLevel) (pn : ℕ) {pkt : SentPacket} (h : pkt.streamFrames = v.data.staged) :
      Sends v { v.took level with
        data := { v.data with staged := [] }
        sent := v.sent.set level ((v.sent.get level).insert pn pkt) }

variable {v v' : View}

theorem Sends.recv (h : Sends v v') : v'.recv = v.recv := by cases h <;> rfl

theorem Sends.isClient (h : Sends v v') : v'.isClient = v.isClient := by cases h <;> rfl

theorem Sends.limits (h : Sends v v') : v'.data.limits = v.data.limits := by cases h <;> rfl

theorem Sends.numbers (h : Sends v v') (l : CryptoLevel) :
    ((v'.numbers l).1 = (v.numbers l).1 ∨ (v'.numbers l).1 = (v.numbers l).1 + 1) ∧
      (v'.numbers l).2 = (v.numbers l).2 := by
  have htook : ∀ level, (((v.took level).numbers l).1 = (v.numbers l).1 ∨
      ((v.took level).numbers l).1 = (v.numbers l).1 + 1) ∧
      ((v.took level).numbers l).2 = (v.numbers l).2 := by
    intro level
    simp only [View.took]
    split_ifs
    · exact ⟨.inr rfl, rfl⟩
    · exact ⟨.inl rfl, rfl⟩
  cases h with
  | same => exact ⟨.inl rfl, rfl⟩
  | took level => exact htook level
  | recorded level pn h => exact htook level

theorem Retains.of_set {level : CryptoLevel} {ring : SentPackets} {f : StreamRetx}
    (h : v'.Retains f) (hsent : v'.sent = v.sent.set level ring)
    (hqueue : f ∈ v'.data.retxQueue → v.Retains f) (hstaged : f ∈ v'.data.staged → v.Retains f)
    (hring : ∀ pkt, ring.Holds pkt → f ∈ pkt.streamFrames → v.Retains f) : v.Retains f := by
  rcases h with h | h | ⟨l, pkt, hpkt, hf⟩
  · exact hqueue h
  · exact hstaged h
  · rw [hsent, Levels.get_set] at hpkt
    split_ifs at hpkt
    · exact hring pkt hpkt hf
    · exact .inr (.inr ⟨l, pkt, hpkt, hf⟩)

theorem Sends.retained (h : Sends v v') {f : StreamRetx} (hf : v'.Retains f) : v.Retains f := by
  cases h with
  | same => exact hf
  | took level => exact hf
  | recorded level pn h =>
    refine hf.of_set rfl .inl nofun fun pkt' hpkt hmem => ?_
    rcases holds_insert hpkt with rfl | hpkt
    · exact .inr (.inl (h ▸ hmem))
    · exact .inr (.inr ⟨level, pkt', hpkt, hmem⟩)

end View

theorem AckRun.removeOne_sentPackets (a : AckRun) (targetPn pn : ℕ) :
    (a.removeOne targetPn pn).sentPackets = (a.sentPackets.remove pn).2 := by
  unfold removeOne
  simp only
  split <;> rename_i heq <;> rw [heq]

variable {a : AckRun} {pkt : SentPacket} {targetPn : ℕ}

theorem AckRun.holds_removeDown {n pn : ℕ}
    (h : (removeDown targetPn n pn a).sentPackets.Holds pkt) : a.sentPackets.Holds pkt := by
  induction n generalizing pn a with
  | zero =>
    rw [removeDown, removeOne_sentPackets] at h
    exact holds_remove h
  | succ n ih =>
    have hone := ih h
    rw [removeOne_sentPackets] at hone
    exact holds_remove hone

theorem AckRun.holds_ackRemoveRange {low high : ℕ}
    (h : (a.ackRemoveRange low high targetPn).sentPackets.Holds pkt) : a.sentPackets.Holds pkt := by
  unfold ackRemoveRange at h
  split_ifs at h
  · exact h
  · exact holds_removeDown h

theorem AckRun.holds_removeRanges {smallest : ℕ} {ranges : List (ℕ × ℕ)} (h : (removeRanges targetPn smallest ranges a).sentPackets.Holds pkt) :
    a.sentPackets.Holds pkt := by
  induction ranges generalizing smallest a with
  | nil => exact h
  | cons r ranges ih =>
    unfold removeRanges at h
    split_ifs at h
    · exact h
    · exact holds_ackRemoveRange (ih h)

/-- What the walk leaves was in the ring. -/
structure LossRun.From (sent : SentPackets) (a : LossRun) : Prop where
  sentPackets : ∀ pkt, a.sentPackets.Holds pkt → sent.Holds pkt
  lostFrames : ∀ f ∈ a.lostFrames, ∃ pkt, sent.Holds pkt ∧ f ∈ pkt.streamFrames

theorem LossRun.From.removeOne {sent : SentPackets} {a : LossRun} (h : From sent a) (pn : ℕ) :
    From sent (a.removeOne pn) := by
  unfold LossRun.removeOne
  have hrest : ∀ pkt, (a.sentPackets.remove pn).2.Holds pkt → sent.Holds pkt :=
    fun pkt hpkt => h.sentPackets pkt (holds_remove hpkt)
  split
  next ring heq =>
    rw [heq] at hrest
    exact ⟨hrest, h.lostFrames⟩
  next pkt ring heq =>
    have htaken := h.sentPackets pkt (holds_of_remove (congrArg Prod.fst heq))
    rw [heq] at hrest
    refine ⟨hrest, fun f hf => ?_⟩
    rcases mem_append.1 hf with hf | hf
    · exact h.lostFrames f hf
    · exact ⟨pkt, htaken, hf⟩

theorem holds_of_drained {ring : SentPackets} {pns : List ℕ}
    (h : (pns.foldl (fun s pn => (s.remove pn).2) ring).Holds pkt) : ring.Holds pkt := by
  induction pns generalizing ring with
  | nil => exact h
  | cons pn pns ih => exact holds_remove (ih h)

namespace Conn

variable {κ τ : Type}

/-! ### The view of a connection -/

def view (c : Conn κ τ) : View where
  recv := c.rest.recv
  data := c.rest.send.data
  sent := c.rest.recovery.sentPackets
  isClient := c.isClient
  numbers l := ((c.space l).nextSendPn, (c.space l).largestAcked)

variable {c c₁ c' : Conn κ τ}

variable (c)

@[simp] theorem view_setMisc (m : Misc τ) : (c.setMisc m).view = c.view := rfl

@[simp] theorem view_setRecovery (r : Recovery κ) :
    (c.setRecovery r).view = { c.view with sent := r.sentPackets } := rfl

theorem view_setSpace (level : CryptoLevel) (s : SpaceState) :
    (c.setSpace level s).view = { c.view with
      numbers := fun l => if l = level then (s.nextSendPn, s.largestAcked) else c.view.numbers l } := by
  simp only [view, isClient, setSpace_rest, setSpace_space, View.mk.injEq, true_and]
  funext l
  split_ifs <;> rfl

@[simp] theorem view_noteAppAckEliciting : view c.noteAppAckEliciting = c.view := by
  simp only [view, isClient, noteAppAckEliciting_rest, View.mk.injEq, true_and]
  funext l
  cases l <;> rfl

@[simp] theorem view_closeWithError (code : ℕ) (reason : String) :
    (c.closeWithError code reason).view = c.view := by
  unfold closeWithError
  split_ifs <;> rfl

theorem view_setOthers (o : Others τ) : (c.setOthers o).view = c.view := by
  simp only [view, setOthers, isClient, Option.isSome_map, View.mk.injEq, true_and]
  refine ⟨rfl, ?_⟩
  funext l
  cases l <;> rfl

/-- Only streams and what no invariant is about may differ. -/
def SendOnly (c c' : Conn κ τ) : Prop := c'.view = { c.view with data := c'.rest.send.data }

variable {c}

theorem SendOnly.trans (h₁ : SendOnly c c₁) (h₂ : SendOnly c₁ c') : SendOnly c c' := by
  unfold SendOnly at *
  rw [h₂, h₁]

section

variable [Tls τ] (c)

theorem sendOnly_applyPeerFlowControl : SendOnly c c.applyPeerFlowControl := by
  unfold applyPeerFlowControl
  by_cases happlied : c.rest.send.peerFcApplied
  · rw [if_pos happlied]
    rfl
  · rw [if_neg happlied]
    split <;> rfl

variable (sid code : ℕ)

theorem sendOnly_ensureSendStream : SendOnly c (c.ensureSendStream sid) := by
  unfold ensureSendStream
  split_ifs
  · rfl
  · exact c.sendOnly_applyPeerFlowControl.trans rfl

theorem sendOnly_modifySendStream (f : SendStream → SendStream) :
    SendOnly c (c.modifySendStream sid f) := by
  unfold modifySendStream
  simp only
  split
  · exact c.sendOnly_ensureSendStream sid
  · exact (c.sendOnly_ensureSendStream sid).trans rfl

theorem sendOnly_resetStream : SendOnly c (c.resetStream sid code) := by
  unfold resetStream
  have h := c.sendOnly_ensureSendStream sid
  simp only
  split
  · exact h
  · split_ifs
    · exact h
    · exact h.trans rfl

theorem processStopSending_cases :
    (c.processStopSending sid code).1 = c.noteAppAckEliciting ∨
    (∃ error reason, (c.processStopSending sid code).1 = c.closeWithError error reason) ∨
    (c.rest.recv.isReaped sid = false ∧
      (c.processStopSending sid code).1 = (c.resetStream sid code).noteAppAckEliciting) := by
  unfold processStopSending
  by_cases hreaped : c.rest.recv.isReaped sid
  · rw [if_pos hreaped]
    exact .inl rfl
  rw [if_neg hreaped]
  extract_lets peerUni localInitBit terminal
  split_ifs with huni hunopened hterminal
  · exact .inr (.inl ⟨_, _, rfl⟩)
  · exact .inr (.inl ⟨_, _, rfl⟩)
  · exact .inl rfl
  · exact .inr (.inr ⟨Bool.eq_false_iff.2 hreaped, rfl⟩)

/-- What is kept stays, or goes with its stream. -/
def Sheds (d d' : DataSide) : Prop := d'.retxQueue.Sublist d.retxQueue ∧ d'.staged = d.staged

theorem Sheds.refl (d : DataSide) : Sheds d d := ⟨.refl _, rfl⟩

theorem sheds_applyPeerFlowControl : Sheds c.rest.send.data c.applyPeerFlowControl.rest.send.data := by
  unfold applyPeerFlowControl
  by_cases happlied : c.rest.send.peerFcApplied
  · rw [if_pos happlied]
    exact .refl _
  · rw [if_neg happlied]
    split <;> exact .refl _

theorem sheds_ensureSendStream :
    Sheds c.rest.send.data (c.ensureSendStream sid).rest.send.data := by
  unfold ensureSendStream
  split_ifs
  · exact .refl _
  · exact c.sheds_applyPeerFlowControl

theorem sheds_modifySendStream (f : SendStream → SendStream) :
    Sheds c.rest.send.data (c.modifySendStream sid f).rest.send.data := by
  unfold modifySendStream
  simp only
  split <;> exact c.sheds_ensureSendStream sid

theorem sheds_resetStream :
    Sheds c.rest.send.data (c.resetStream sid code).rest.send.data := by
  have h := c.sheds_ensureSendStream sid
  unfold resetStream
  simp only
  split
  · exact h
  · split_ifs
    · exact h
    · exact ⟨filter_sublist.trans h.1, h.2⟩

theorem view_processStopSending : (c.processStopSending sid code).1.view = c.view ∨
    (c.processStopSending sid code).1.view = (c.resetStream sid code).view := by
  rcases c.processStopSending_cases sid code with h | ⟨error, reason, h⟩ | ⟨-, h⟩
  · rw [h]
    exact .inl c.view_noteAppAckEliciting
  · rw [h]
    exact .inl (c.view_closeWithError _ _)
  · rw [h]
    exact .inr (view_noteAppAckEliciting _)

theorem sendOnly_processStopSending : SendOnly c (c.processStopSending sid code).1 := by
  show (c.processStopSending sid code).1.view =
    { c.view with data := (c.processStopSending sid code).1.view.data }
  rcases c.view_processStopSending sid code with h | h
  · rw [h]
  · rw [h]
    exact c.sendOnly_resetStream sid code

theorem sheds_processStopSending :
    Sheds c.rest.send.data (c.processStopSending sid code).1.rest.send.data := by
  show Sheds _ (c.processStopSending sid code).1.view.data
  rcases c.view_processStopSending sid code with h | h
  · rw [h]
    exact .refl _
  · rw [h]
    exact c.sheds_resetStream sid code

end

variable (c)

theorem view_takePnAt (level : CryptoLevel) :
    (c.takePnAt level).2.view = c.view.took level := by
  simp only [takePnAt, view_setSpace, View.took, View.mk.injEq, true_and]
  funext l
  split_ifs with h
  · rw [h]
    rfl
  · rfl

theorem view_takePn : view (Connection.takePn c).2 = c.view.took .oneRtt :=
  c.view_takePnAt .oneRtt

@[simp] theorem view_stageCrypto (level : CryptoLevel) (offset : ℕ) (crypto : Bytes) :
    (c.stageCrypto level offset crypto).view = c.view := by
  unfold stageCrypto
  split_ifs <;> rfl

variable {c}

theorem sends_recordSentPacket {v : View} {level : CryptoLevel} (h : c.view = v.took level)
    (now pn : ℕ) (ackEliciting : Bool) (byteCount : ℕ) :
    v.Sends (recordSentPacket now level c pn ackEliciting byteCount).view := by
  have hrecorded : (recordSentPacket now level c pn ackEliciting byteCount).view = { c.view with
      data := { c.view.data with staged := [] }
      sent := c.view.sent.set level ((c.view.sent.get level).insert pn
        (c.stagedPacket now ackEliciting byteCount)) } := by
    cases ackEliciting <;> rfl
  rw [hrecorded, h]
  exact .recorded level pn (congrArg (fun v : View => v.data.staged) h)

theorem sends_recordLong {v : View} {level : CryptoLevel} (h : c.view = v.took level) (now : ℕ)
    (pn : UInt64) (ackEliciting : Bool) (out : Bytes) (sealed : Except ConnError Bytes) :
    v.Sends (c.recordLong now level pn ackEliciting out sealed).1.view := by
  unfold Conn.recordLong
  split
  · rw [h]
    exact .took level
  · exact sends_recordSentPacket h now _ ackEliciting _

/-! ### Packets sent -/

section

variable (c) (P : Primitives) (now : ℕ)

theorem sends_encodeInitialPacket (crypto : Bytes) (emitAck : Bool) (out : Bytes) :
    c.view.Sends (c.encodeInitialPacket P now crypto emitAck out).1.view := by
  have h := c.view_takePnAt .initial
  unfold encodeInitialPacket
  split
  · exact .same
  · simp only
    split
    · rw [h]
      exact .took _
    · split
      · rw [view_stageCrypto, h]
        exact .took _
      · exact sends_recordLong ((view_stageCrypto _ _ _ _).trans h) now _ _ out _

theorem sends_encodeHandshakePacket (crypto : Bytes) (emitAck : Bool) (out : Bytes) :
    c.view.Sends (c.encodeHandshakePacket P now crypto emitAck out).1.view := by
  have h := c.view_takePnAt .handshake
  unfold encodeHandshakePacket
  split
  · exact .same
  · simp only
    split
    · rw [h]
      exact .took _
    · refine sends_recordLong ?_ now _ _ out _
      rw [view_stageCrypto, view_setMisc, h]

variable [CongestionControl κ] [Tls τ]

theorem sends_encodePingProbeAt (level : CryptoLevel) (out : Bytes) :
    c.view.Sends (c.encodePingProbeAt now P level out).1.view := by
  unfold encodePingProbeAt
  split
  · unfold encodePingProbe
    split
    · exact .same
    · simp only
      split
      · rw [view_takePn]
        exact .took _
      · exact sends_recordSentPacket c.view_takePn now _ true _
  · split
    · exact .same
    · exact sends_recordLong (c.view_takePnAt .handshake) now _ true out _
  · split
    · exact .same
    · exact sends_recordLong (c.view_takePnAt .initial) now _ true out _

theorem sends_encodeClose (code : ℕ) (reason : String) (out : Bytes) :
    c.view.Sends (c.encodeClose now P code reason out).1.view := by
  have htook : ∀ level, c.view.Sends (c.takePnAt level).2.view := by
    intro level
    rw [view_takePnAt]
    exact .took level
  unfold encodeClose
  split
  · exact .same
  · split_ifs
    · unfold encodeClosePacket
      split
      · exact .same
      · split
        · exact .same
        · exact htook .oneRtt
    · split
      · exact htook .handshake
      · exact htook .initial
      · exact .same

theorem sends_sendPtoProbe : c.view.Sends (c.sendPtoProbe now P).1.view := by
  unfold sendPtoProbe
  split
  · exact .same
  next level _ =>
    have h := c.sends_encodePingProbeAt P now level []
    split
    next c₁ b bs heq =>
      rw [heq] at h
      exact h
    next c₁ res _ heq =>
      rw [heq] at h
      exact h

theorem sends_flushClose : c.view.Sends (c.flushClose now P).view := by
  unfold flushClose
  split
  · exact .same
  next code reason _ =>
    simp only
    have h := sends_encodeClose (c.setMisc { c.rest.misc with closePending := none }) P now code reason []
    split
    next c₁ b bs heq =>
      rw [heq] at h
      exact h
    next c₁ res _ heq =>
      rw [heq] at h
      exact h

end

/-! ### Acknowledgements and losses -/

def ackedUpTo (acked : Option UInt64) (largest : ℕ) : UInt64 :=
  acked.elim (UInt64.ofNat largest) fun x => max x (UInt64.ofNat largest)

section

variable [CongestionControl κ] (c) (now : ℕ) (level : CryptoLevel)

theorem view_detectLoss : (c.detectLoss now level).view = { c.view with
    data := (c.requeue (c.lossRun now level)).data
    sent := c.view.sent.set level (c.lossRun now level).sentPackets } := rfl

omit [CongestionControl κ] in
theorem sampleRtt_sentPackets (pkt : Option SentPacket) (delay : ℕ) :
    (c.sampleRtt now pkt delay).sentPackets = c.rest.recovery.sentPackets := by
  unfold sampleRtt
  split
  · split_ifs
    · unfold Recovery.updateRtt
      simp only
      split <;> rfl
    · rfl
  · rfl

theorem view_applyAck (largest delay first : ℕ) (ranges : List (ℕ × ℕ)) :
    (c.applyAck now level largest delay first ranges).view = { c.view with
      sent := c.view.sent.set level (c.ackRun level largest first ranges).sentPackets
      numbers := fun l => if l = level then
        ((c.view.numbers l).1, some (ackedUpTo (c.view.numbers l).2 largest)) else c.view.numbers l } := by
  simp only [applyAck, view_setRecovery, view_setSpace, View.mk.injEq, true_and]
  refine ⟨?_, ?_⟩
  · split_ifs
    · simp only [sampleRtt_sentPackets, setSpace_rest]
      rfl
    · simp only [sampleRtt_sentPackets, setSpace_rest]
      rfl
  · funext l
    split_ifs with h
    · rw [h]
      rfl
    · rfl

theorem view_processAck (largest delay first : ℕ) (ranges : List (ℕ × ℕ)) :
    (c.processAck now level largest delay first ranges).view =
      ((c.applyAck now level largest delay first ranges).detectLoss now level).view := by
  unfold processAck
  simp only
  split_ifs <;> rfl

omit [CongestionControl κ] in
theorem view_discardSentPackets : (discardSentPackets level c).view = { c.view with
    sent := c.view.sent.set level .empty
    numbers := fun l => if l = level then ((c.view.numbers l).1, none) else c.view.numbers l } := by
  simp only [discardSentPackets, view_setSpace, view_setRecovery, View.mk.injEq, true_and]
  refine ⟨rfl, ?_⟩
  funext l
  split_ifs with h
  · rw [h]
    rfl
  · rfl

omit [CongestionControl κ] in
theorem from_lossRun : LossRun.From (c.rest.recovery.sentPackets.get level) (c.lossRun now level) := by
  have hfold : ∀ (lost : List (ℕ × LostBy)) (a : LossRun),
      LossRun.From (c.rest.recovery.sentPackets.get level) a →
      LossRun.From (c.rest.recovery.sentPackets.get level) (lost.foldl (fun a e => a.removeOne e.1) a) := by
    intro lost
    induction lost with
    | nil => exact fun a h => h
    | cons e lost ih => exact fun a h => ih _ (h.removeOne e.1)
  exact hfold _ _ ⟨fun _ h => h, nofun⟩

end

section

variable [CongestionControl κ] [Tls τ]

theorem encodeOneRtt_cases (c : Conn κ τ) (P : Primitives) (now : ℕ) (padToWire : Option ℕ)
    (out : Bytes) :
    (c.keys.applicationSend = none ∧ c.encodeOneRtt now P padToWire out = (c, .ok out)) ∨
    (∃ k c₁ e, c.keys.applicationSend = some k ∧ c.appendFrames now = (c₁, .error e) ∧
      c.encodeOneRtt now P padToWire out = (c₁, .error e)) ∨
    (∃ k c₁ body, c.keys.applicationSend = some k ∧ c.appendFrames now = (c₁, .ok body) ∧
      body.bytes = [] ∧ c.encodeOneRtt now P padToWire out = (c₁, .ok out)) ∨
    ∃ k c₁ body byteCount out', c.keys.applicationSend = some k ∧
      c.appendFrames now = (c₁, .ok body) ∧ body.bytes ≠ [] ∧ body.bytes.length ≤ byteCount ∧
      c.encodeOneRtt now P padToWire out =
        (recordSentPacket now .oneRtt (Connection.takePn c₁).2 (c₁.space .oneRtt).nextSendPn.toNat
          c₁.rest.send.pendingAckEliciting byteCount, .ok out') := by
  unfold encodeOneRtt encodeOneRttPacketPadded
  cases hk : c.keys.applicationSend with
  | none => exact .inl ⟨rfl, rfl⟩
  | some k =>
    simp only [sendHooks]
    rcases happ : c.appendFrames now with ⟨c₁, e | body⟩
    · exact .inr (.inl ⟨k, c₁, e, rfl, rfl, rfl⟩)
    · rcases hbytes : body.bytes with _ | ⟨b, bs⟩
      · refine .inr (.inr (.inl ⟨k, c₁, body, rfl, rfl, hbytes, ?_⟩))
        simp [Except.map, hbytes]
      · set first := fixedBit ||| c.keys.sendKeyPhase <<< 2 ||| pnLengthBits
        set pn := (Connection.takePn c₁).1
        obtain ⟨j, hj⟩ := shortPacket_eq P k first c.peerCid pn (b :: bs) padToWire out
        set pkt := protectPacket P k first c.peerCid (pnBytes pn 4) pn ((b :: bs) ++ replicate j 0)
          with hpkt
        have hlen : (b :: bs).length ≤ (out ++ pkt).length - out.length := by
          rw [length_append, Nat.add_sub_cancel_left, hpkt, length_protectPacket,
            length_append]
          omega
        refine .inr (.inr (.inr ⟨k, c₁, body, (out ++ pkt).length - out.length, out ++ pkt, rfl, rfl,
          by simp [hbytes], by rw [hbytes]; exact hlen, ?_⟩))
        simp only [Except.map, hbytes]
        rw [hj]
        rfl

theorem step_oneRtt_cases (c : Conn κ τ) (P : Primitives) (now : ℕ) (padToWire : Option ℕ) :
    ∃ c₁, c₁.view.Sends (c.step P now (.oneRtt padToWire)).view ∧
      (Building c c₁ ∧ c.rest.send.data.Drawn c₁.rest.send.data ∧ History.builtBody c now = {} ∨
        ∃ retx handed, Built c c₁ (History.builtBody c now) retx handed) := by
  have hsat := sat_appendFrames c now
  simp only [step, History.builtBody]
  rcases c.encodeOneRtt_cases P now padToWire [] with ⟨hk, heq⟩ | ⟨k, c₁, e, hk, happ, heq⟩ |
    ⟨k, c₁, body, hk, happ, hbytes, heq⟩ | ⟨k, c₁, body, n, out, hk, happ, hbytes, hn, heq⟩
  · rw [heq, hk]
    exact ⟨c, .same, .inl ⟨⟨rfl, .refl⟩, .refl _, rfl⟩⟩
  · rw [happ] at hsat
    rw [heq, hk, happ]
    obtain ⟨hbuilding, hdrawn⟩ := hsat.error e rfl
    exact ⟨c₁, .same, .inl ⟨hbuilding, hdrawn, rfl⟩⟩
  · rw [happ] at hsat
    rw [heq, hk, happ]
    exact ⟨c₁, .same, .inr (hsat.ok body rfl)⟩
  · rw [happ] at hsat
    rw [heq, hk, happ]
    exact ⟨c₁, sends_recordSentPacket c₁.view_takePn now _ _ n, .inr (hsat.ok body rfl)⟩

end

/-! ### One event -/

def forgetRecv (r : RecvSide) (sid : ℕ) : RecvSide :=
  { r with recvStreams := r.recvStreams.erase sid }.markReaped sid

def forgetSend (s : SendSide) (sid : ℕ) : SendSide :=
  { s with sendStreams := s.sendStreams.erase sid }

theorem reapStreams_eq (c : Conn κ τ) (sids : List ℕ) : sids.foldl reapStream c =
    (c.setRecv (sids.foldl forgetRecv c.rest.recv)).setSend (sids.foldl forgetSend c.rest.send) := by
  induction sids generalizing c with
  | nil => rfl
  | cons sid sids ih => exact ih (c.reapStream sid)

theorem data_forgetSend (s : SendSide) (sids : List ℕ) : (sids.foldl forgetSend s).data =
    { s.data with streams := (sids.foldl forgetSend s).sendStreams } := by
  induction sids generalizing s with
  | nil => rfl
  | cons sid sids ih => exact ih (forgetSend s sid)

section

variable [CongestionControl κ] [Tls τ] (P : Primitives) (c) (now : ℕ)

def recvAfter : Event τ → RecvSide
  | .recv sid room => (c.rest.recv.streamRecv sid room).1
  | .discardRecv sid => c.rest.recv.discardRecv sid
  | .stopSending sid _ => c.rest.recv.discardRecv sid
  | .accept => c.rest.recv.popAcceptedStream.1
  | .frame .oneRtt (.stream sid offset data fin) =>
    if c.rest.recv.isReaped sid then c.rest.recv
    else (c.rest.recv.receiveStream c.isClient c.rest.misc.curRxUs sid offset data fin).1
  | .frame .oneRtt (.resetStream sid code finalSize) =>
    if c.rest.recv.isReaped sid then c.rest.recv
    else (c.rest.recv.receiveReset c.isClient sid code finalSize).1
  | .frame _ (.skipped kind) => c.rest.recv.noteBlocked kind
  | .reap => c.reapCandidates.foldl forgetRecv c.rest.recv
  | _ => c.rest.recv

/-- The data side after an event other than a 1-RTT build. -/
def dataAfter : Event τ → DataSide
  | .send sid data => (c.streamSend sid data).rest.send.data
  | .close sid => (c.streamClose sid).rest.send.data
  | .reset sid code => (c.resetStream sid code).rest.send.data
  | .applyPeerFlowControl => c.applyPeerFlowControl.rest.send.data
  | .frame .oneRtt (.stopSending sid code) => (c.processStopSending sid code).1.rest.send.data
  | .frame _ (.maxData maximum) => { c.rest.send.data with peerMaxData := max c.rest.send.peerMaxData maximum }
  | .frame _ (.maxStreamData sid maximum) => (c.raiseStreamLimit sid maximum).rest.send.data
  | .reap => (c.reapCandidates.foldl forgetSend c.rest.send).data
  | _ => c.rest.send.data

omit [CongestionControl κ] [Tls τ] in
theorem view_settle (res : RecvSide × Option CloseError) :
    (c.settle res).1.view = { c.view with recv := res.1 } := by
  unfold settle
  split
  · exact view_noteAppAckEliciting _
  · exact view_closeWithError _ _ _

omit [CongestionControl κ] [Tls τ] in
theorem settle_recv (res : RecvSide × Option CloseError) : (c.settle res).1.rest.recv = res.1 :=
  congrArg View.recv (c.view_settle res)

def Numbered (e : Event τ) (l : CryptoLevel) (n n' : UInt64 × Option UInt64) : Prop :=
  (n'.1 = n.1 ∨ n'.1 = n.1 + 1) ∧ (n'.2 = n.2 ∨ n'.2 = none ∨
    ∃ largest delay first ranges ecn, e = .frame l (.ack largest delay first ranges ecn) ∧
      n'.2 = some (ackedUpTo n.2 largest))

/-- What an event other than a 1-RTT build does, part by part. -/
structure Stepped (e : Event τ) (v' : View) : Prop where
  recv : v'.recv = c.recvAfter e
  isClient : v'.isClient = c.isClient
  numbers : ∀ l, Numbered e l (c.view.numbers l) (v'.numbers l)
  limits : v'.data.limits = (c.dataAfter e).limits
  retained : ∀ f, v'.Retains f → c.view.Retains f

variable {c now} {e : Event τ} {v' : View}

omit [Tls τ] in
theorem numbered_refl (n : UInt64 × Option UInt64) (l : CryptoLevel) : Numbered e l n n :=
  ⟨.inl rfl, .inl rfl⟩

omit [CongestionControl κ] in
theorem Stepped.of_view (h : v' = { c.view with recv := c.recvAfter e, data := c.dataAfter e })
    (hd : Sheds c.rest.send.data (c.dataAfter e)) : Stepped c e v' := by
  subst h
  refine ⟨rfl, rfl, fun l => numbered_refl _ l, rfl, fun f hf => ?_⟩
  rcases hf with hf | hf | hf
  · exact .inl (hd.1.subset hf)
  · exact .inr (.inl (hd.2 ▸ hf))
  · exact .inr (.inr hf)

omit [CongestionControl κ] in
theorem Stepped.of_sends (h : c.view.Sends v') (hr : c.recvAfter e = c.rest.recv)
    (hd : c.dataAfter e = c.rest.send.data) : Stepped c e v' :=
  ⟨h.recv.trans hr.symm, h.isClient, fun l => ⟨(h.numbers l).1, .inl (h.numbers l).2⟩,
    by rw [h.limits, hd]; rfl, fun _ => h.retained⟩

theorem stepped_ack (level : CryptoLevel) (largest delay first : ℕ) (ranges : List (ℕ × ℕ))
    (ecn : Option EcnCounts) : Stepped c (.frame level (.ack largest delay first ranges ecn))
      (c.processAck now level largest delay first ranges).view := by
  have hview := c.view_applyAck now level largest delay first ranges
  have hlost := (c.applyAck now level largest delay first ranges).from_lossRun now level
  have hring : (c.applyAck now level largest delay first ranges).rest.recovery.sentPackets.get level =
      (c.ackRun level largest first ranges).sentPackets := by
    rw [show Recovery.sentPackets _ = _ from congrArg View.sent hview, Levels.get_set_self]
  rw [hring] at hlost
  have hkept : ∀ pkt, (c.ackRun level largest first ranges).sentPackets.Holds pkt →
      (c.rest.recovery.sentPackets.get level).Holds pkt :=
    fun pkt hpkt => AckRun.holds_ackRemoveRange (AckRun.holds_removeRanges hpkt)
  rw [view_processAck, view_detectLoss, hview]
  refine ⟨by cases level <;> rfl, rfl, fun l => ?_, by cases level <;> rfl, fun f hf => ?_⟩
  · simp only
    split_ifs with h
    · subst h
      exact ⟨.inl rfl, .inr (.inr ⟨largest, delay, first, ranges, ecn, rfl, rfl⟩)⟩
    · exact numbered_refl _ l
  · have hsend : (c.applyAck now level largest delay first ranges).rest.send.data = c.rest.send.data :=
      congrArg View.data hview
    refine hf.of_set (c.view.sent.set_set level _ _) (fun hq => ?_) (fun hs => ?_) fun pkt hpkt hmem => ?_
    · rcases mem_append.1 hq with hq | hq
      · exact .inl ((congrArg DataSide.retxQueue hsend) ▸ hq)
      · obtain ⟨pkt, hpkt, hmem⟩ := hlost.lostFrames f (mem_filter.1 hq).1
        exact .inr (.inr ⟨level, pkt, hkept pkt hpkt, hmem⟩)
    · exact .inr (.inl ((congrArg DataSide.staged hsend) ▸ hs))
    · exact .inr (.inr ⟨level, pkt, hkept pkt (hlost.sentPackets pkt hpkt), hmem⟩)

omit [CongestionControl κ] in
theorem stepped_discard (level : CryptoLevel) (h : c₁.view = c.view) (hr : c.recvAfter e = c.rest.recv)
    (hd : c.dataAfter e = c.rest.send.data) : Stepped c e (discardSentPackets level c₁).view := by
  rw [view_discardSentPackets, h]
  refine ⟨hr.symm, rfl, fun l => ?_, by rw [hd]; rfl, fun f hf => ?_⟩
  · simp only
    split_ifs
    · exact ⟨.inl rfl, .inr (.inl rfl)⟩
    · exact numbered_refl _ l
  · exact hf.of_set rfl .inl (fun hf => .inr (.inl hf)) fun pkt hpkt => absurd hpkt not_mem_nil

theorem stepped (he : ∀ padToWire, e ≠ .oneRtt padToWire) : Stepped c e (c.step P now e).view := by
  cases e with
  | send sid data => exact .of_view (c.sendOnly_modifySendStream sid _) (c.sheds_modifySendStream sid _)
  | close sid => exact .of_view (c.sendOnly_modifySendStream sid _) (c.sheds_modifySendStream sid _)
  | reset sid code => exact .of_view (c.sendOnly_resetStream sid code) (c.sheds_resetStream sid code)
  | applyPeerFlowControl => exact .of_view c.sendOnly_applyPeerFlowControl c.sheds_applyPeerFlowControl
  | frame level f =>
    cases f with
    | ack largest delay first ranges ecn => exact stepped_ack level largest delay first ranges ecn
    | handshakeDone =>
      have hr : c.recvAfter (.frame level .handshakeDone) = c.rest.recv := by cases level <;> rfl
      have hd : c.dataAfter (.frame level .handshakeDone) = c.rest.send.data := by cases level <;> rfl
      simp only [step, dispatchFrame, confirmHandshake]
      split_ifs
      · exact .of_sends .same hr hd
      · refine stepped_discard .handshake ?_ hr hd
        simp only [view, View.mk.injEq, true_and]
        refine ⟨rfl, ?_⟩
        funext l
        cases l <;> rfl
      · exact .of_sends .same hr hd
    | stream sid offset data fin =>
      cases level with
      | oneRtt =>
        refine .of_view ?_ (.refl _)
        simp only [step, dispatchFrame, processStream, recvAfter, if_true]
        split_ifs
        · exact view_noteAppAckEliciting c
        · exact c.view_settle _
      | initial => exact .of_view rfl (.refl _)
      | handshake => exact .of_view rfl (.refl _)
    | resetStream sid code finalSize =>
      cases level with
      | oneRtt =>
        refine .of_view ?_ (.refl _)
        simp only [step, dispatchFrame, processResetStream, recvAfter, if_true]
        split_ifs
        · exact view_noteAppAckEliciting c
        · exact c.view_settle _
      | initial => exact .of_view rfl (.refl _)
      | handshake => exact .of_view rfl (.refl _)
    | stopSending sid code =>
      cases level with
      | oneRtt =>
        exact .of_view (c.sendOnly_processStopSending sid code) (c.sheds_processStopSending sid code)
      | initial => exact .of_view rfl (.refl _)
      | handshake => exact .of_view rfl (.refl _)
    | maxStreamData sid maximum =>
      have h : SendOnly c (c.raiseStreamLimit sid maximum) := by
        unfold raiseStreamLimit
        split <;> rfl
      have hsheds : Sheds c.rest.send.data (c.raiseStreamLimit sid maximum).rest.send.data := by
        unfold raiseStreamLimit
        split <;> exact .refl _
      cases level <;> exact .of_view h hsheds
    | _ => cases level <;> exact .of_view rfl (.refl _)
  | oneRtt padToWire => exact absurd rfl (he padToWire)
  | initial crypto emitAck => exact .of_sends (c.sends_encodeInitialPacket P now crypto emitAck []) rfl rfl
  | handshake crypto emitAck =>
    exact .of_sends (c.sends_encodeHandshakePacket P now crypto emitAck []) rfl rfl
  | probe => exact .of_sends (c.sends_sendPtoProbe P now) rfl rfl
  | flushClose => exact .of_sends (c.sends_flushClose P now) rfl rfl
  | discardInitial => exact stepped_discard .initial rfl rfl rfl
  | discardHandshake => exact stepped_discard .handshake rfl rfl rfl
  | retry =>
    refine ⟨rfl, rfl, fun l => numbered_refl _ l, rfl, fun f hf => ?_⟩
    refine hf.of_set (show _ = c.view.sent.set .initial _ from rfl) .inl (fun hs => .inr (.inl hs))
      fun pkt hpkt hmem => ?_
    exact .inr (.inr ⟨.initial, pkt, holds_of_drained hpkt, hmem⟩)
  | reap =>
    refine .of_view (congrArg view (reapStreams_eq c c.reapCandidates)) ?_
    rw [dataAfter, data_forgetSend]
    exact .refl _
  | other o => exact .of_view (c.view_setOthers o) (.refl _)
  | _ => exact .of_view rfl (.refl _)

variable (c)

theorem step_recv (P : Primitives) (now : ℕ) (he : ∀ padToWire, e ≠ .oneRtt padToWire) :
    (c.step P now e).rest.recv = c.recvAfter e := (stepped P he).recv

theorem step_oneRtt_recv (P : Primitives) (now : ℕ) (padToWire : Option ℕ)
    (h : c.rest.recv.Limited) :
    let r' := (c.step P now (.oneRtt padToWire)).rest.recv
    c.rest.recv.Raised r' ∧ ∀ f ∈ (History.builtBody c now).frames, r'.Told f := by
  obtain ⟨c₁, hsends, ⟨hbuilding, -, hempty⟩ | ⟨retx, handed, hbuilt⟩⟩ :=
    c.step_oneRtt_cases P now padToWire
  · rw [show Transport.recv _ = _ from hsends.recv, hempty]
    exact ⟨hbuilding.recv h, fun f hf => absurd hf not_mem_nil⟩
  · rw [show Transport.recv _ = _ from hsends.recv]
    exact ⟨hbuilt.recv h, hbuilt.told h⟩

theorem step_numbers (P : Primitives) (now : ℕ) (e : Event τ) :
    (c.step P now e).isClient = c.isClient ∧
      ∀ l, Numbered e l (c.view.numbers l) ((c.step P now e).view.numbers l) := by
  by_cases he : ∃ padToWire, e = .oneRtt padToWire
  · obtain ⟨padToWire, rfl⟩ := he
    obtain ⟨c₁, hsends, h⟩ := c.step_oneRtt_cases P now padToWire
    have hfixed : c₁.fixed = c.fixed := by
      rcases h with ⟨hbuilding, -⟩ | ⟨retx, handed, hbuilt⟩
      · exact hbuilding.fixed
      · exact hbuilt.fixed
    have hnumbers : c₁.view.numbers = c.view.numbers := congrArg (fun x => x.2.2) hfixed
    refine ⟨hsends.isClient.trans (congrArg (fun x => x.2.1) hfixed), fun l => ?_⟩
    rw [← hnumbers]
    exact ⟨(hsends.numbers l).1, .inl (hsends.numbers l).2⟩
  · have hstepped : Stepped c e (c.step P now e).view := stepped P fun padToWire hp => he ⟨padToWire, hp⟩
    exact ⟨hstepped.isClient, hstepped.numbers⟩

end

end Conn

end Waitless.Quic
