import Waitless.Handles

/-! # Who owns a slot

The free list of the pool holds exactly the slots that no listener, connection or failed connect
owns; an allocation hands out a slot nobody owns; and a handle whose slot has been reused does
nothing (`slot_ownership`). -/

namespace Waitless.Tcp

open LinkedChain

variable {κ : Type} [CongestionControl κ]

namespace Core

/-- **Allocation hands out a slot nobody owns.** -/
theorem allocConnection_unowned {s s' : Core κ} {slot : ℕ} {ok : Bool} (hs : s.PoolInv none)
    (h : s.allocConnection ok = some (slot, s')) :
    slot < s'.capacity ∧ ¬(s'.slots slot).Owned ∧ ((s.slots slot).Owned →
      (s.slots slot).state ∈ reclaimOrder ∧
        (s'.slots slot).generation = (s.slots slot).generation + 1) := by
  refine ⟨?_, ?_, fun hown => ?_⟩
  · obtain ⟨n, s0, -, hst, hne, rfl, rfl⟩ := allocConnection_steps hs h
    exact ((hst.poolInv hs).head hne).1
  · obtain ⟨n, s0, -, hst, hne, rfl, rfl⟩ := allocConnection_steps hs h
    exact (((hst.poolInv hs).take hne).transit_lt _ rfl).2
  unfold allocConnection at h
  split at h
  · -- without a reclaim no owner leaves
    rename_i slot' s1 halloc
    obtain ⟨s0, hst, hne, rfl, rfl⟩ := alloc_steps halloc
    cases h
    obtain ⟨-, m, hm, hp⟩ := hst.slotPath noExtra_traced hs s0.freeHead
    obtain rfl := Nat.le_zero.1 hm
    exact absurd ((hp.generation.2 rfl).1 hown) ((hst.poolInv hs).head hne).2
  next hnone =>
    split at h
    next i hrec =>
      obtain ⟨hi, hmem, hlive⟩ := reclaimSlot_spec hrec
      obtain ⟨rfl, hhead, -, rfl⟩ := reclaim_spec hs hnone hrec h
      have hf := freeConnection_freed (s := s) (i := slot) fun hc => absurd hc hlive.1
      refine ⟨hmem, ?_⟩
      simp [take, hhead, hf.self, TcpConnection.resetPreserving]
    · cases h

/-- Nothing changes, and the answers are for a closed connection. -/
structure Inert (s : Core κ) (slot : ℕ) (generation : UInt16) : Prop where
  close : ∀ now, s.closeHandle slot generation now = s
  recv : ∀ cap, s.asyncRecv slot generation cap = (s, [])
  recvChunk : ∀ env, s.doRecvChunk slot generation env = (s, none)
  chunkWanted : ∀ wanted, s.setChunkWanted slot generation wanted = (s, ())
  recvWaker : ∀ parked, s.setRecvWaker slot generation parked = (s, ())
  sendWaker : ∀ parked, s.setSendWaker slot generation parked = (s, ())
  sendChain : ∀ chain env, s.asyncTrySendChain slot generation chain env = (s, chain, .closed)
  sendTso : ∀ minPayload fill env, s.trySendTso slot generation minPayload fill env = (s, none)
  readable : s.isReadableOrClosed slot generation = true
  connect : s.connectStatus slot generation = .timedOut

theorem inert_of_not_valid {s : Core κ} {slot : ℕ} {generation : UInt16}
    (h : ¬s.Valid slot generation) : s.Inert slot generation := by
  have hh : ∀ {α : Type} (stale : α) (f : Local κ → Local κ × α),
      s.onHandle slot generation stale f = (s, stale) := fun stale f => if_neg h
  exact ⟨fun _ => if_neg h, fun _ => hh _ _, fun _ => hh _ _, fun _ => hh _ _, fun _ => hh _ _,
    fun _ => hh _ _, fun _ _ => hh _ _, fun _ _ _ => hh _ _, if_neg h, if_neg h⟩

end Core

/-- **Slot-pool ownership**: the free list is the unowned slots, and old handles are inert. -/
theorem slot_ownership {ops : List Op}
    (h : Runs.Along Audit.step Audit.CloseIssued (Audit.init : Audit κ) ops) :
    let a := ops.foldl Audit.step (Audit.init : Audit κ)
    (∃ free, Chain (fun i => (a.core.slots i).nextFree) nullSlot a.core.freeHead free ∧
      free.Nodup ∧ ∀ i, i ∈ free ↔ i < a.core.capacity ∧ ¬(a.core.slots i).Owned) ∧
    (∀ ok slot s', a.core.allocConnection ok = some (slot, s') →
      slot < s'.capacity ∧ ¬(s'.slots slot).Owned ∧ ((a.core.slots slot).Owned →
        (a.core.slots slot).state ∈ Core.reclaimOrder ∧
          (s'.slots slot).generation = (a.core.slots slot).generation + 1)) ∧
    ∀ h ∈ a.issued, h.epoch < a.reuses h.slot → a.reuses h.slot < h.epoch + 65536 →
      a.core.Inert h.slot h.generation := by
  intro a
  have ha : a.AuditInv := Audit.run_auditInv h
  refine ⟨?_, fun ok slot s' halloc => Core.allocConnection_unowned ha.pool halloc, ?_⟩
  · obtain ⟨free, hch, hmem⟩ := ha.pool.freeList
    exact ⟨free, hch, hch.nodup, fun i => by simp [hmem]⟩
  · intro h hh hlt hrecent
    refine Core.inert_of_not_valid fun hv => ?_
    have := ha.current hh hrecent hv.2
    omega

/-- A closed listener's slot becomes the next listener. -/
theorem slot_ownership_reused :
    let ops : List Op := [.listen 80 (.granting 0), .close 0 0 (.granting 0),
      .listen 443 (.granting 0)]
    let a := ops.foldl Audit.step (Audit.init : Audit ConstantWindow)
    (a.core.slots 0).state = .listen ∧ a.core.Inert 0 0 := by
  intro ops a
  have hrun : Runs.Along Audit.step Audit.CloseIssued (Audit.init : Audit ConstantWindow) ops :=
    ⟨trivial, ⟨⟨0, 0, 0⟩, .head _, rfl, rfl, by decide +kernel⟩, trivial, trivial⟩
  exact ⟨by decide +kernel,
    (slot_ownership hrun).2.2 ⟨0, 0, 0⟩ (.tail _ (.head _)) (by decide +kernel) (by decide +kernel)⟩

end Waitless.Tcp
