import Waitless.Handles

/-! # Accept

`accept_on_port_core` returns distinct connections whose handshake completed on that port; when it
returns nothing, every completed connection still waiting has been half-closed by its peer: the pool
scan looks for `Established` only (`accept_of_completed`). Such a connection is never returned
(`half_closed_stranded`). -/

namespace Waitless.Tcp

open List Local Option

variable {κ : Type}

namespace Core

def HandshakeAck (c : TcpConnection κ) (seg : Segment) : Prop :=
  c.state = .synReceived ∧ seg.has tcpAck = true ∧ seqLt c.sndUna seg.ack = true ∧
    seqLt c.sndNxt seg.ack = false

instance (c : TcpConnection κ) (seg : Segment) : Decidable (HandshakeAck c seg) :=
  inferInstanceAs (Decidable (_ ∧ _ ∧ _ ∧ _))

def completes (s : Core κ) : Op → Option ℕ
  | .receive srcIp dstIp parts _ =>
    match Segment.parse srcIp dstIp parts with
    | some seg =>
      if ForConnection seg then
        (s.dispatch seg).filter fun i => decide (HandshakeAck (s.slots i) seg)
      else none
    | none => none
  | _ => none

theorem updateWindow_state (c : TcpConnection κ) (seg : Segment) :
    (Local.updateWindow c seg).state = c.state := by
  unfold updateWindow
  split <;> rfl

theorem ackTransition_established (c : TcpConnection κ) (ack : UInt32) (ackAdvances : Bool) :
    (Local.ackTransition c ack ackAdvances).2 = .done true ↔
      c.state = .synReceived ∧ ackAdvances = true := by
  unfold ackTransition
  split_ifs with h1 h2 h3 h4 <;> simp_all

section

variable [CongestionControl κ]

/-- **A completed handshake is reported exactly for such a segment.** -/
theorem segmentArrives_established (l : Local κ) (seg : Segment) (now : ℕ) (reserved : Bool) :
    (l.segmentArrives seg now reserved).2 = .done true ↔ HandshakeAck l.conn seg := by
  have hproc : (l.processAck seg now).2 = .done true ↔ l.conn.state = .synReceived ∧
      seqLt l.conn.sndUna seg.ack = true ∧ seqLt l.conn.sndNxt seg.ack = false := by
    have hack := ackTransition_established (updateWindow l.conn seg) seg.ack
      (seqLt l.conn.sndUna seg.ack)
    rw [updateWindow_state] at hack
    unfold processAck
    dsimp only
    split
    · simp_all
    · split
      next c' h =>
        rw [h] at hack
        simp_all
      next c' o _ h =>
        rw [h] at hack
        simp_all
  unfold segmentArrives
  split
  · unfold HandshakeAck
    generalize l.processAck seg now = r at hproc
    obtain ⟨l', o⟩ := r
    cases o <;> simp_all
  next hflag =>
    simp [HandshakeAck, hflag]

theorem completes_arrival {s : Core κ} (hs : s.PoolInv none) {op : Op} {i : ℕ}
    (h : s.completes op = some i) :
    ∃ seg l', Arrival s (s.putLocal i l') i seg l' true ∧
      (s.step op).slots = (s.putLocal i l').slots := by
  cases op with
  | receive srcIp dstIp parts env =>
    unfold completes at h
    dsimp only at h
    split at h
    next seg hseg =>
      split at h
      next hfor =>
        obtain ⟨hdis, hack⟩ := filter_eq_some_iff.1 h
        have hack : HandshakeAck (s.slots i) seg := of_decide_eq_true hack
        obtain ⟨hi, hlive⟩ := dispatch_spec hs hdis
        have hest := (segmentArrives_established (s.localAt i) seg env.now env.reserved).2 hack
        obtain ⟨l', harr⟩ : ∃ l',
            (s.localAt i).segmentArrives seg env.now env.reserved = (l', .done true) :=
          ⟨_, Prod.ext rfl hest⟩
        refine ⟨seg, l', ⟨hi, hlive, ⟨_, _, harr⟩, rfl⟩, ?_⟩
        have hsyn : (seg.has tcpSyn && !seg.has tcpAck) = false := by
          rw [hack.2.1]
          simp
        have hne : (s.slots i).state ≠ .synSent := by simp [hack.1]
        have hstep : s.step (.receive srcIp dstIp parts env) = s.receiveAt i seg env := by
          unfold step tcpReceive receiveSegment
          simp [hseg, hfor.1, hsyn, hdis]
        rw [hstep]
        unfold receiveAt
        rw [if_neg hne, harr]
        exact acceptRingPush_slots _ _ i
      · cases h
    · cases h
  | _ => cases h

theorem step_trace {s : Core κ} (hs : s.PoolInv none) {op : Op} (hop : s.OpOk op) :
    (∀ i, ∃ m, SlotPath False m (s.slots i) ((s.step op).slots i)) ∨
      ∃ i seg l' established, Arrival s (s.putLocal i l') i seg l' established ∧
        (s.step op).slots = (s.putLocal i l').slots ∧
        (established = true → s.completes op = some i) := by
  have hpath : ∀ {A : Core κ → Core κ → Prop} {n : ℕ}, Traced False A → Steps A n s (s.step op) →
      ∀ i, ∃ m, SlotPath False m (s.slots i) ((s.step op).slots i) := by
    intro A n hA hst i
    obtain ⟨-, m, -, hp⟩ := hst.slotPath hA hs i
    exact ⟨m, hp⟩
  obtain ⟨n, -, hst⟩ := step_steps hs hop
  cases op with
  | connect => exact .inl (hpath claims_traced hst)
  | tick => exact .inl (hpath relinks_traced hst)
  | receive srcIp dstIp parts env =>
    rcases tcpReceive_steps hs srcIp dstIp parts env with
      ⟨m, -, hst'⟩ | ⟨seg, i, s1, l', est, hseg, hfor, hdis, harr, -, -, hsl⟩
    · exact .inl (hpath claims_traced hst')
    · obtain rfl := harr.core
      refine .inr ⟨i, seg, l', est, harr, hsl, fun he => ?_⟩
      obtain ⟨now, reserved, h⟩ := harr.arrives
      have hack := (segmentArrives_established (s.localAt i) seg now reserved).1 (by rw [h, he])
      unfold completes
      simp only [hseg, if_pos hfor, hdis]
      exact filter_eq_some_iff.2 ⟨rfl, decide_eq_true hack⟩
  | _ => exact .inl (hpath noExtra_traced hst)

end

def Active (c : TcpConnection κ) : Prop := c.state = .synSent → c.accepted = true

def Waiting (c : TcpConnection κ) : Prop := c.state = .established ∧ c.accepted = false

/-- Its handshake on `port` completed. -/
def Completed (port : UInt16) (c : TcpConnection κ) : Prop :=
  c.Owned ∧ c.listenerPort = port ∧
    (c.accepted = false → c.state = .established ∨ c.state = .closeWait)

variable {c c' : TcpConnection κ} {n : ℕ} {port : UInt16}

theorem accepted_of_owner (h : owner c' = owner c) :
    c'.accepted = c.accepted := congrArg (·.2.2.1) h

theorem listenerPort_of_owner (h : owner c' = owner c) :
    c'.listenerPort = c.listenerPort := congrArg (·.2.1.listenerPort) h

theorem SlotStep.active {w : ℕ} (h : SlotStep w c c') (hc : Active c) :
    Active c' := by
  intro hsyn
  cases h with
  | keep hown hst => rw [accepted_of_owner hown, hc (hst ▸ hsyn)]
  | synAnswer hown hb hst => rw [accepted_of_owner hown, hc hb]
  | fin hown held hst => rcases hst with h | h <;> simp [h.2] at hsyn
  | fail hg he ha hb hst hf => simp [hst] at hsyn
  | accept hacc heq => rw [heq]
  | claim hno hg hst =>
    rcases hst with h | h | h
    · simp [h] at hsyn
    · simp [h.1] at hsyn
    · exact h.2
  | freed hg hno => exact absurd (.inl (by simp [hsyn])) hno
  | blank hno hno' hg => exact absurd (.inl (by simp [hsyn])) hno'

theorem SlotArrival.established {established : Bool}
    (h : SlotArrival established c c') (hst : c'.state = .established) :
    c.state = .established ∨ established = true := by
  obtain ⟨mid, hack, hor⟩ := h.state
  have hmid : mid = .established := by
    rcases hor with h | h
    · rw [← h, hst]
    · rw [hst] at h
      cases mid <;> simp [finState] at h
  subst hmid
  unfold Local.AckStep at hack
  split at hack
  · exact .inr ‹_›
  · rcases hack with h | h
    · exact .inl h.symm
    · simp at h

theorem SlotArrival.active {established : Bool}
    (h : SlotArrival established c c') (hc : Active c) : Active c' := by
  intro hsyn
  obtain ⟨mid, hack, hor⟩ := h.state
  have hmid : mid = .synSent := by
    rcases hor with h | h
    · rw [← h, hsyn]
    · rw [hsyn] at h
      cases mid <;> simp [finState] at h ⊢
  subst hmid
  have hst : c.state = .synSent := by
    unfold Local.AckStep at hack
    split at hack
    · simp at hack
    · rcases hack with h | h
      · exact h.symm
      · simp at h
  rw [accepted_of_owner h.owner, hc hst]

theorem SlotStep.waiting {w : ℕ} (h : SlotStep w c c') (hc : Active c)
    (hw : Waiting c') : w = 0 ∧ Waiting c ∧ c'.listenerPort = c.listenerPort := by
  obtain ⟨hest, hacc⟩ := hw
  cases h with
  | keep hown hst =>
    exact ⟨rfl, ⟨hst ▸ hest, accepted_of_owner hown ▸ hacc⟩, listenerPort_of_owner hown⟩
  | synAnswer hown hb hst =>
    rw [accepted_of_owner hown, hc hb] at hacc
    cases hacc
  | fin hown held hst => rcases hst with h | h <;> simp [h.2] at hest
  | fail hg he ha hb hst hf => simp [hst] at hest
  | accept _ heq =>
    rw [heq] at hacc
    cases hacc
  | claim hno hg hst => rcases hst with h | h | h <;> simp [h] at hest
  | freed hg hno => exact absurd (.inl (by simp [hest])) hno
  | blank hno hno' hg => exact absurd (.inl (by simp [hest])) hno'

theorem SlotPath.active {arrivals : Prop}
    (h : SlotPath arrivals n c c') (hc : Active c) : Active c' := by
  induction h with
  | refl => exact hc
  | tail _ hst ih => exact hst.active (ih hc)
  | arrive _ _ hst ih => exact hst.active (ih hc)

theorem SlotPath.waiting (h : SlotPath False n c c')
    (hc : Active c) (hw : Waiting c') :
    n = 0 ∧ Waiting c ∧ c'.listenerPort = c.listenerPort := by
  induction h with
  | refl => exact ⟨rfl, hw, rfl⟩
  | tail hp hst ih =>
    obtain ⟨rfl, hw1, hport1⟩ := hst.waiting (hp.active hc) hw
    obtain ⟨rfl, hw0, hport0⟩ := ih hc hw1
    exact ⟨rfl, hw0, hport1.trans hport0⟩
  | arrive harr => exact harr.elim

theorem SlotStep.completed (h : SlotStep 0 c c')
    (hc : Completed port c) : Completed port c' := by
  obtain ⟨hown, hport, hst⟩ := hc
  refine ⟨h.owned.2 hown, ?_⟩
  cases h with
  | keep ho hs =>
    rw [listenerPort_of_owner ho, accepted_of_owner ho, hs]
    exact ⟨hport, hst⟩
  | synAnswer ho hb hs =>
    rw [listenerPort_of_owner ho, accepted_of_owner ho]
    refine ⟨hport, fun ha => ?_⟩
    have := hst ha
    simp [hb] at this
  | fin ho held hs =>
    rw [listenerPort_of_owner ho, accepted_of_owner ho]
    refine ⟨hport, fun ha => ?_⟩
    rcases held.2 with h | h
    · rw [h] at ha
      cases ha
    · rcases hs with h' | h' <;> simp [h] at h'
  | fail hg he ha hb hs hf =>
    refine ⟨(congrArg Endpoints.listenerPort he).trans hport, fun ha' => ?_⟩
    have := hst (ha ▸ ha')
    simp [hb] at this
  | accept _ heq =>
    subst heq
    exact ⟨hport, fun ha => by cases ha⟩
  | claim hno hg hs => exact absurd hown hno
  | blank hno hno' hg => exact absurd hown hno

theorem SlotArrival.completed {established : Bool}
    (h : SlotArrival established c c') (hport : c.listenerPort = port)
    (hst : c.accepted = false → c.state = .established ∨ c.state = .closeWait ∨ established = true) :
    Completed port c' := by
  refine ⟨h.owned, (listenerPort_of_owner h.owner).trans hport, fun ha => ?_⟩
  rw [accepted_of_owner h.owner] at ha
  obtain ⟨mid, hack, hor⟩ := h.state
  have hmid : mid = .established ∨ mid = .closeWait := by
    unfold Local.AckStep at hack
    split at hack
    · exact .inl hack.2
    next he =>
      rcases hack with h | h
      · rw [h]
        exact (hst ha).imp id fun h => h.resolve_right he
      · have := hst ha
        simp [h.1, he] at this
  rcases hmid with rfl | rfl
  · exact hor
  · exact .inr (hor.elim id id)

theorem SlotPath.completed {arrivals : Prop}
    (h : SlotPath arrivals n c c') (h0 : n = 0) (hc : Completed port c) : Completed port c' := by
  induction h with
  | refl => exact hc
  | @tail n w _ _ _ _ hst ih =>
    obtain ⟨rfl, rfl⟩ : n = 0 ∧ w = 0 := by omega
    exact hst.completed (ih rfl hc)
  | arrive _ _ hst ih =>
    have hc1 := ih h0 hc
    exact hst.completed hc1.2.1 fun ha => (hc1.2.2 ha).imp id .inl

theorem acceptOnPortCore_none {s : Core κ} (h : (s.acceptOnPortCore port).2 = none)
    {i : ℕ} (hi : i < s.capacity) : ¬Acceptable (s.slots i) port := by
  obtain ⟨t, ht, -⟩ := acceptLoop_eq port (2 ^ 32) s
  unfold acceptOnPortCore at h
  generalize acceptLoop port (2 ^ 32) s = r at ht h
  obtain ⟨o, s'⟩ := r
  subst ht
  cases o with
  | some j => cases h
  | none =>
    dsimp only at h
    split at h
    · cases h
    next hfind =>
      have := find?_eq_none.1 hfind i (mem_range.2 hi)
      simpa using this

end Core

variable [CongestionControl κ]

/-- With the completed handshakes and the accepted handles. -/
structure Ledger (κ : Type) where
  audit : Audit κ
  completed : List (ℕ × ℕ × UInt16)
  returned : List (Handle × UInt16)

namespace Ledger

def init : Ledger κ := ⟨.init, [], []⟩

def accepts (l : Ledger κ) : Op → Option (Handle × UInt16)
  | .accept port => (l.audit.core.acceptOnPortCore port).2.map fun r =>
    (⟨r.1, r.2, l.audit.reusesAfter (.accept port) r.1⟩, port)
  | _ => none

def step (l : Ledger κ) (op : Op) : Ledger κ where
  audit := l.audit.step op
  completed :=
    ((l.audit.core.completes op).map fun i =>
      (i, l.audit.reuses i, (l.audit.core.slots i).listenerPort)).toList ++ l.completed
  returned := (l.accepts op).toList ++ l.returned

def CloseIssued (l : Ledger κ) (op : Op) : Prop := l.audit.CloseIssued op

/-- Completed and not accepted. -/
def Left (l : Ledger κ) (port : UInt16) (i : ℕ) : Prop :=
  (l.audit.core.slots i).Live ∧ (l.audit.core.slots i).accepted = false ∧
    (i, l.audit.reuses i, port) ∈ l.completed

/-- Completed handshakes and returned handles, over all generations of the slots. -/
structure LedgerInv (l : Ledger κ) : Prop where
  audit : l.audit.AuditInv
  active : ∀ i, Core.Active (l.audit.core.slots i)
  waiting : ∀ i, Core.Waiting (l.audit.core.slots i) →
    (i, l.audit.reuses i, (l.audit.core.slots i).listenerPort) ∈ l.completed
  completed : ∀ i epoch port, (i, epoch, port) ∈ l.completed → epoch ≤ l.audit.reuses i ∧
    (epoch = l.audit.reuses i → Core.Completed port (l.audit.core.slots i))
  issued : ∀ r ∈ l.returned, r.1 ∈ l.audit.issued
  earned : ∀ r ∈ l.returned, (r.1.slot, r.1.epoch, r.2) ∈ l.completed
  apart : l.returned.Pairwise fun r r' => r.1.slot = r'.1.slot → r'.1.epoch < r.1.epoch

theorem init_ledgerInv : (init : Ledger κ).LedgerInv where
  audit := Audit.init_auditInv
  active := fun i h => by cases h
  waiting := fun i h => by cases h.1
  completed := by simp [init]
  issued := by simp [init]
  earned := by simp [init]
  apart := .nil

section Step

variable {l : Ledger κ} {op : Op}

theorem reusesAfter_eq_iff {a : Audit κ} (i : ℕ) : a.reusesAfter op i = a.reuses i ↔
    ((a.core.step op).slots i).generation = (a.core.slots i).generation := by
  unfold Audit.reusesAfter
  constructor
  · intro h
    have h0 : (((a.core.step op).slots i).generation - (a.core.slots i).generation).toNat = 0 := by
      omega
    have hsub : ((a.core.step op).slots i).generation - (a.core.slots i).generation = 0 :=
      UInt16.toNat_inj.1 h0
    rw [← UInt16.sub_add_cancel ((a.core.step op).slots i).generation
      (a.core.slots i).generation, hsub, UInt16.zero_add]
  · intro h
    simp [h]

theorem mem_completed_step {e : ℕ × ℕ × UInt16} : e ∈ (l.step op).completed ↔
    (∃ i, l.audit.core.completes op = some i ∧
      e = (i, l.audit.reuses i, (l.audit.core.slots i).listenerPort)) ∨ e ∈ l.completed := by
  simp only [step, mem_append, mem_toList, map_eq_some_iff]
  exact or_congr_left (exists_congr fun i => and_congr_right fun _ => eq_comm)

theorem LedgerInv.waiting_step (hl : l.LedgerInv) (hop : l.CloseIssued op) (i : ℕ)
    (hw : Core.Waiting ((l.audit.core.step op).slots i)) :
    (i, l.audit.reusesAfter op i, ((l.audit.core.step op).slots i).listenerPort) ∈
      (l.step op).completed := by
  rw [mem_completed_step]
  rcases Core.step_trace hl.audit.pool (hl.audit.opOk hop) with
    hp | ⟨j, seg, l', est, harr, hsl, hcomp⟩
  · obtain ⟨m, hp⟩ := hp i
    obtain ⟨rfl, hw0, hport⟩ := hp.waiting (hl.active i) hw
    right
    rw [(reusesAfter_eq_iff i).2 (by simpa using hp.generation.1), hport]
    exact hl.waiting i hw0
  · rw [hsl] at hw ⊢
    rcases harr.slot i with hst | ⟨rfl, hst⟩
    · obtain ⟨-, hw0, hport⟩ := hst.waiting (hl.active i) hw
      rw [hport, (reusesAfter_eq_iff i).2 (hsl ▸ hst.owned.1)]
      exact .inr (hl.waiting i hw0)
    · rw [Core.listenerPort_of_owner hst.owner,
        (reusesAfter_eq_iff i).2 (hsl ▸ congrArg Prod.fst hst.owner)]
      rcases hst.established hw.1 with h | h
      · exact .inr (hl.waiting i ⟨h, Core.accepted_of_owner hst.owner ▸ hw.2⟩)
      · exact .inl ⟨i, hcomp h, rfl⟩

theorem LedgerInv.completed_step (hl : l.LedgerInv) (hop : l.CloseIssued op) {i epoch : ℕ}
    {port : UInt16} (h : (i, epoch, port) ∈ (l.step op).completed) :
    epoch ≤ l.audit.reusesAfter op i ∧ (epoch = l.audit.reusesAfter op i →
      Core.Completed port ((l.audit.core.step op).slots i)) := by
  have hmono : l.audit.reuses i ≤ l.audit.reusesAfter op i := Nat.le_add_right _ _
  rcases mem_completed_step.1 h with ⟨j, hcomp, he⟩ | h
  · cases he
    refine ⟨hmono, fun _ => ?_⟩
    obtain ⟨seg, l', harr, hsl⟩ := Core.completes_arrival hl.audit.pool hcomp
    obtain ⟨ht, hst⟩ := harr.touch
    have harr' : Core.SlotArrival true (l.audit.core.slots i) l'.conn :=
      ⟨Core.owner_of_touch ht, harr.live, hst⟩
    rw [hsl, Core.putLocal_slots_self]
    exact harr'.completed rfl fun _ => .inr (.inr rfl)
  · obtain ⟨hle, hcur⟩ := hl.completed i epoch port h
    refine ⟨Nat.le_trans hle hmono, fun he => ?_⟩
    obtain ⟨m, hp, h0⟩ := Core.step_slotPath hl.audit.pool (hl.audit.opOk hop) i
    have hsame : l.audit.reusesAfter op i = l.audit.reuses i := by omega
    exact hp.completed (h0 ((reusesAfter_eq_iff i).1 hsame)) (hcur (by omega))

theorem accepts_spec {r : Handle × UInt16} (h : l.accepts op = some r) :
    Core.Acceptable (l.audit.core.slots r.1.slot) r.2 ∧ r.1.epoch = l.audit.reuses r.1.slot ∧
      r.1 ∈ (l.audit.step op).issued := by
  cases op with
  | accept port =>
    obtain ⟨⟨i, g⟩, hout, rfl⟩ := map_eq_some_iff.1 h
    obtain ⟨hacc, hg, hsl⟩ := Core.acceptOnPortCore_some hout
    refine ⟨hacc, (reusesAfter_eq_iff i).2 ?_, ?_⟩
    · unfold Core.step
      rw [hsl, Function.update_self]
    · have hout' : l.audit.core.handedOut (.accept port) = some (i, g) := hout
      unfold Audit.step
      rw [hout']
      exact mem_cons_self
  | _ => cases h

theorem mem_returned_step {r : Handle × UInt16} :
    r ∈ (l.step op).returned ↔ l.accepts op = some r ∨ r ∈ l.returned := by
  simp [step]

theorem mem_issued_step {h : Handle} (hh : h ∈ l.audit.issued) :
    h ∈ (l.audit.step op).issued := by
  unfold Audit.step
  split
  · exact mem_cons_of_mem _ hh
  · exact hh

theorem LedgerInv.step (hl : l.LedgerInv) (hop : l.CloseIssued op) : (l.step op).LedgerInv where
  audit := hl.audit.step hop
  active := by
    intro i
    obtain ⟨m, hp, -⟩ := Core.step_slotPath hl.audit.pool (hl.audit.opOk hop) i
    exact hp.active (hl.active i)
  waiting := hl.waiting_step hop
  completed := fun i epoch port h => hl.completed_step hop h
  issued := by
    intro r hr
    rcases mem_returned_step.1 hr with h | h
    · exact (accepts_spec h).2.2
    · exact mem_issued_step (hl.issued r h)
  earned := by
    intro r hr
    rw [mem_completed_step]
    right
    rcases mem_returned_step.1 hr with h | h
    · obtain ⟨hacc, he, -⟩ := accepts_spec h
      rw [he, ← hacc.2.1]
      exact hl.waiting r.1.slot ⟨hacc.1, hacc.2.2⟩
    · exact hl.earned r h
  apart := by
    refine pairwise_append.2 ⟨?_, hl.apart, fun r hr r' hr' hslot => ?_⟩
    · cases l.accepts op <;> simp
    · obtain ⟨hacc, he, -⟩ := accepts_spec (mem_toList.1 hr)
      have hiss := hl.issued r' hr'
      have hle := hl.audit.past r'.1 hiss
      rw [he, hslot]
      refine Nat.lt_of_le_of_ne hle fun heq => ?_
      rw [hslot] at hacc
      rcases (hl.audit.held r'.1 hiss heq).2 with h | h
      · rw [hacc.2.2] at h
        cases h
      · rw [hacc.1] at h
        cases h

end Step

omit [CongestionControl κ] in
/-- After an `accept` without a result the rest has been half-closed. -/
theorem LedgerInv.left {l : Ledger κ} (hl : l.LedgerInv) {port : UInt16} {i : ℕ}
    (hnone : (l.audit.core.acceptOnPortCore port).2 = none) (h : l.Left port i) :
    (l.audit.core.slots i).state = .closeWait := by
  obtain ⟨hlive, hacc, hmem⟩ := h
  obtain ⟨hown, hport, hst⟩ := (hl.completed _ _ _ hmem).2 rfl
  refine (hst hacc).resolve_left fun hest => ?_
  exact Core.acceptOnPortCore_none hnone (hl.audit.pool.owned_lt i hown) ⟨hest, hport, hacc⟩

end Ledger

/-- **Accept**: handles differ within `65536` reuses, and nothing half-closed is passed over. -/
theorem accept_of_completed {ops : List Op}
    (h : Runs.Along Ledger.step Ledger.CloseIssued (Ledger.init : Ledger κ) ops) :
    let l := ops.foldl Ledger.step (Ledger.init : Ledger κ)
    (l.returned.Pairwise fun r r' => r.1.slot = r'.1.slot → r.1.generation = r'.1.generation →
        r'.1.epoch + 65536 ≤ r.1.epoch) ∧
      (∀ r ∈ l.returned, (r.1.slot, r.1.epoch, r.2) ∈ l.completed) ∧
      ∀ port, (l.audit.core.acceptOnPortCore port).2 = none →
        ((∀ i, ¬l.Left port i) ↔
          ∀ i, l.Left port i → (l.audit.core.slots i).state ≠ .closeWait) := by
  intro l
  have hl : l.LedgerInv :=
    h.invariant (fun _ _ hop hl => hl.step hop) Ledger.init_ledgerInv
  refine ⟨?_, hl.earned, fun port hnone => ⟨fun h i hi => absurd hi (h i), fun h i hi => ?_⟩⟩
  · refine List.Pairwise.imp_of_mem (fun {r r'} hr hr' hlt hslot hgen => ?_) hl.apart
    rw [hl.audit.stamp _ (hl.issued r hr), hl.audit.stamp _ (hl.issued r' hr')] at hgen
    have := congrArg UInt16.toNat hgen
    simp only [UInt16.toNat_ofNat'] at this
    omega
  · exact h i hi (hl.left hnone hi)

/-- A handshake and an `accept`. -/
theorem accept_of_completed_handshake :
    let ops : List Op := handshakeRun ++ [.accept 80]
    let l := ops.foldl Ledger.step (Ledger.init : Ledger ConstantWindow)
    l.returned = [(⟨1, 0, 0⟩, 80)] ∧ (1, 0, (80 : UInt16)) ∈ l.completed ∧
      (l.audit.core.acceptOnPortCore 80).2 = none ∧ ∀ i, ¬l.Left 80 i := by
  intro ops l
  have hrun : Runs.Along Ledger.step Ledger.CloseIssued (Ledger.init : Ledger ConstantWindow)
      ops := ⟨trivial, trivial, trivial, trivial, trivial⟩
  obtain ⟨-, hearned, hleft⟩ := accept_of_completed hrun
  have hret : l.returned = [(⟨1, 0, 0⟩, 80)] := by decide +kernel
  have hnone : (l.audit.core.acceptOnPortCore 80).2 = none := by decide +kernel
  have hacc : (l.audit.core.slots 1).accepted = true := by decide +kernel
  have hcomp : l.completed = [(1, 0, 80)] := by decide +kernel
  refine ⟨hret, ?_, hnone, (hleft 80 hnone).2 fun i hi => ?_⟩
  · exact hearned (⟨1, 0, 0⟩, 80) (hret ▸ List.mem_singleton_self _)
  · obtain ⟨-, hno, hmem⟩ := hi
    rw [hcomp] at hmem
    cases List.mem_singleton.1 hmem
    rw [hacc] at hno
    cases hno

/-- **Never accepted**: the peer sends a FIN right after the handshake. -/
theorem half_closed_stranded :
    let fin : Bytes :=
      [0x13, 0x88, 0, 80, 0, 0, 0, 101, 0, 0, 3, 0xE9, 0x50, 0x11, 0xFF, 0xFF, 0, 0, 0, 0]
    let ops : List Op := handshakeRun ++
      [.receive (.v4 #v[10, 0, 0, 1]) (.v4 #v[10, 0, 0, 2]) [fin] (.granting 3)]
    let l := ops.foldl Ledger.step (Ledger.init : Ledger ConstantWindow)
    (l.audit.core.acceptOnPortCore 80).2 = none ∧ l.Left 80 1 ∧
      (l.audit.core.slots 1).state = .closeWait := by
  intro fin ops l
  have hlive : (l.audit.core.slots 1).Live := by decide +kernel
  have hacc : (l.audit.core.slots 1).accepted = false := by decide +kernel
  have hcomp : (1, l.audit.reuses 1, (80 : UInt16)) ∈ l.completed := by decide +kernel
  exact ⟨by decide +kernel, ⟨hlive, hacc, hcomp⟩, by decide +kernel⟩

end Waitless.Tcp
