import Waitless.Http2Effect
import Waitless.Runs

/-! # Runs of the HTTP/2 server

What every step of a run does to the streams.

In every state a stream has a slot or a queued response but not both, and no id is used twice
(`Streams.Shaped`, `shaped_step`). -/

namespace Waitless.Http2

open Waitless.AesGcm Function H2Conn List.Sublist Streams List
open Waitless.Http.Streaming
open World (dataSent blockOf observe observeWindow)

namespace Streams

variable {c : Streams} {sid : ℕ}

theorem slotIds_modifySlot {f : StreamSlot → StreamSlot} (hf : ∀ s, (f s).id = s.id) :
    (c.modifySlot sid f).slotIds = c.slotIds := by
  simp only [slotIds, modifySlot, map_map]
  refine map_congr_left fun s _ => ?_
  simp only [comp_apply]
  split_ifs <;> simp [hf]

theorem slotIds_removeSlot_sublist : (c.removeSlot sid).slotIds.Sublist c.slotIds :=
  filter_sublist.map _

theorem slotIds_removeSlot : (c.removeSlot sid).slotIds = c.slotIds.filter (· ≠ sid) := by
  simp [slotIds, removeSlot, filter_map, comp_def]

theorem slotIds_shift (v : ℤ) : (c.shift v).slotIds = c.slotIds := by
  simp [slotIds, shift, comp_def]

theorem outIds_shift (v : ℤ) : (c.shift v).outIds = c.outIds := by
  simp [outIds, shift, comp_def]

theorem outIds_creditOut (inc : ℕ) : (c.creditOut sid inc).outIds = c.outIds := by
  simp only [outIds, creditOut, map_map]
  refine map_congr_left fun o _ => ?_
  simp only [comp_apply]
  split_ifs <;> rfl

theorem slotIds_deliver (len : ℕ) (data : Bytes) (fin : Bool) :
    (c.deliver sid len data fin).slotIds = c.slotIds :=
  slotIds_modifySlot fun _ => rfl

theorem sublist_of_eq {ids ids' : List ℕ} (h : ids = ids') : ids.Sublist ids' :=
  h ▸ refl ids

theorem streams_of_not_mem (h : sid ∉ c.slotIds) : (c.removeSlot sid).streams = c.streams := by
  refine filter_eq_self.mpr fun s hs => decide_eq_true ?_
  rintro rfl
  exact h (mem_map_of_mem hs)

theorem streams_serverReset : (c.serverReset sid).streams = (c.removeSlot sid).streams := by
  unfold serverReset
  split_ifs with h
  · rfl
  · exact (streams_of_not_mem fun hmem => h (slot_isSome.mpr hmem)).symm

theorem streams_peerReset : (c.peerReset sid).streams = (c.removeSlot sid).streams := by
  unfold peerReset
  dsimp only
  split_ifs with h
  · rfl
  · have h' : sid ∉ c.slotIds := fun hmem => h (slot_isSome.mpr hmem)
    exact (streams_of_not_mem h').symm

theorem peerInitialWindow_peerReset :
    (c.peerReset sid).peerInitialWindow = c.peerInitialWindow := by
  unfold peerReset
  dsimp only
  split_ifs <;> rfl

theorem outQueue_peerReset : (c.peerReset sid).outQueue = c.outQueue.filter fun o => o.id ≠ sid := by
  unfold peerReset
  dsimp only
  split_ifs <;> rfl

theorem outIds_peerReset_sublist : (c.peerReset sid).outIds.Sublist c.outIds := by
  rw [outIds, outQueue_peerReset]
  exact filter_sublist.map _

theorem head_modifyBody (f : BodyChan → BodyChan) (sid' : ℕ) :
    ((c.modifyBody sid f).chans sid').tx = (c.chans sid').tx := by
  by_cases h : sid' = sid
  · subst h
    simp [modifyBody]
  · rw [modifyBody, modifyChan_of_ne _ _ _ h]

theorem tx_serverReset (sid' : ℕ) : ((c.serverReset sid).chans sid').tx = (c.chans sid').tx := by
  unfold serverReset
  split_ifs
  · exact head_modifyBody _ _
  · rfl

/-- Ids are used once, slots have tasks, finished responses were not streamed. -/
structure Shaped (c : Streams) : Prop where
  nodup : (c.slotIds ++ c.outIds).Nodup
  used : ∀ sid ∈ c.slotIds ++ c.outIds, 0 < sid ∧ sid ≤ c.lastStreamId
  inline : ∀ sid ∈ c.inline, (0 < sid ∧ sid ≤ c.lastStreamId) ∧ sid ∉ c.slotIds ++ c.outIds
  spawned_nodup : c.spawned.Nodup
  spawned_le : ∀ sid ∈ c.spawned, sid ≤ c.lastStreamId
  slots_spawned : ∀ sid ∈ c.slotIds, sid ∈ c.spawned
  head : ∀ sid ∈ c.spawned, (c.tasks sid).headSent = (c.chans sid).tx.head.isSome
  sink : ∀ r ∈ c.respSink, r.1 ∈ c.spawned ∧ (c.tasks r.1).finished = true ∧
    (c.tasks r.1).headSent = false

variable {c' : Streams} {l : List StreamSlot}

theorem Shaped.of_sublist (h : c.Shaped) (hslots : c'.slotIds.Sublist c.slotIds)
    (hout : c'.outIds.Sublist c.outIds) (hlast : c.lastStreamId ≤ c'.lastStreamId)
    (hinline : c'.inline = c.inline) (hspawned : c'.spawned = c.spawned)
    (htasks : c'.tasks = c.tasks)
    (hhead : ∀ sid, (c'.chans sid).tx.head = (c.chans sid).tx.head)
    (hsink : ∀ r ∈ c'.respSink, r ∈ c.respSink) : c'.Shaped := by
  have hids := hslots.append hout
  refine ⟨hids.nodup h.nodup, ?_, ?_, ?_, ?_, ?_, ?_, ?_⟩
  · intro sid hsid
    have := h.used sid (hids.subset hsid)
    omega
  · intro sid hsid
    rw [hinline] at hsid
    obtain ⟨hle, hnot⟩ := h.inline sid hsid
    exact ⟨by omega, fun hmem => hnot (hids.subset hmem)⟩
  · rw [hspawned]
    exact h.spawned_nodup
  · intro sid hsid
    rw [hspawned] at hsid
    exact (h.spawned_le sid hsid).trans hlast
  · intro sid hsid
    rw [hspawned]
    exact h.slots_spawned sid (hslots.subset hsid)
  · intro sid hsid
    rw [hspawned] at hsid
    rw [htasks, hhead, h.head sid hsid]
  · intro r hr
    rw [hspawned, htasks]
    exact h.sink r (hsink r hr)

theorem shaped_new : ({} : Streams).Shaped := by
  constructor <;> simp [slotIds, outIds]

theorem Shaped.of_faulted (h : c.Shaped) (hf : Faulted c c') (hslots : c'.slotIds.Sublist c.slotIds)
    (hout : c'.outIds.Sublist c.outIds) : c'.Shaped :=
  h.of_sublist hslots hout hf.lastStreamId.ge hf.inline hf.spawned hf.tasks hf.head
    fun _ hr => hf.respSink ▸ hr

theorem Shaped.fresh_not_mem (h : c.Shaped) (hnew : c.lastStreamId < sid) :
    sid ∉ c.slotIds ++ c.outIds := fun hmem => by
  have := h.used sid hmem
  omega

theorem Shaped.nodup_slots (h : c.Shaped) : c.slotIds.Nodup := (nodup_append.mp h.nodup).1

theorem Shaped.nodup_out (h : c.Shaped) : c.outIds.Nodup := (nodup_append.mp h.nodup).2.1

theorem Shaped.not_out (h : c.Shaped) (hslot : sid ∈ c.slotIds) : sid ∉ c.outIds :=
  fun hout => (nodup_append.mp h.nodup).2.2 sid hslot sid hout rfl

theorem Shaped.spawn (h : c.Shaped) (hnew : c.lastStreamId < sid) (hnone : c.inline = none)
    (contentLength : Option ℕ) :
    ({ c with lastStreamId := sid }.spawnStreaming sid contentLength).Shaped := by
  have hslots : ({ c with lastStreamId := sid }.spawnStreaming sid contentLength).slotIds =
      c.slotIds ++ [sid] := by
    simp [slotIds, spawnStreaming]
  have hout : ({ c with lastStreamId := sid }.spawnStreaming sid contentLength).outIds = c.outIds := rfl
  have hfresh := h.fresh_not_mem hnew
  have hspawned : sid ∉ c.spawned := fun hmem => by
    have := h.spawned_le sid hmem
    omega
  have hne {sid' : ℕ} (hmem : sid' ∈ c.spawned) : sid' ≠ sid := fun e => hspawned (e ▸ hmem)
  refine ⟨?_, ?_, ?_, ?_, ?_, ?_, ?_, ?_⟩
  · rw [hslots, hout, append_assoc]
    refine perm_middle.nodup_iff.mpr ?_
    exact nodup_cons.mpr ⟨hfresh, h.nodup⟩
  · intro sid' hmem
    rw [hslots, hout] at hmem
    have hmem : sid' = sid ∨ sid' ∈ c.slotIds ++ c.outIds := by
      simp only [mem_append, mem_singleton] at hmem ⊢
      tauto
    rcases hmem with rfl | hmem
    · exact ⟨by omega, le_rfl⟩
    · have := h.used sid' hmem
      exact ⟨this.1, this.2.trans hnew.le⟩
  · intro sid' hmem
    have hinline : c.inline = some sid' := hmem
    rw [hnone] at hinline
    cases hinline
  · exact nodup_cons.mpr ⟨hspawned, h.spawned_nodup⟩
  · intro sid' hmem
    rcases mem_cons.mp hmem with rfl | hmem
    · exact le_rfl
    · exact (h.spawned_le sid' hmem).trans hnew.le
  · intro sid' hmem
    rw [hslots, mem_append, mem_singleton] at hmem
    rcases hmem with hmem | rfl
    · exact mem_cons_of_mem _ (h.slots_spawned sid' hmem)
    · exact mem_cons_self
  · intro sid' hmem
    rcases mem_cons.mp hmem with rfl | hmem
    · simp [spawnStreaming]
    · simp only [spawnStreaming, update_of_ne (hne hmem)]
      exact h.head sid' hmem
  · intro r hr
    obtain ⟨hmem, hfin, hhead⟩ := h.sink r hr
    refine ⟨mem_cons_of_mem _ hmem, ?_⟩
    simp only [spawnStreaming, update_of_ne (hne hmem)]
    exact ⟨hfin, hhead⟩

theorem Shaped.effect {hdr : FrameHeader} {payload : Bytes}
    {block : Option (ℕ × Bool)} (h : c.Shaped) (hnone : c.inline = none)
    (he : Effect c hdr payload block c') : c'.Shaped := by
  cases he with
  | nothing => exact h
  | settings =>
    exact h.of_faulted (.of_chans rfl) (sublist_of_eq (slotIds_shift _)) (sublist_of_eq (outIds_shift _))
  | creditOut =>
    exact h.of_faulted (.of_chans rfl) (refl _) (sublist_of_eq (outIds_creditOut _))
  | creditSlot =>
    exact h.of_faulted (.of_chans rfl) (sublist_of_eq (slotIds_modifySlot fun _ => rfl))
      (refl _)
  | data =>
    exact h.of_sublist (sublist_of_eq (slotIds_deliver _ _ _)) (refl _) le_rfl rfl rfl rfl
      (fun _ => congrArg TxChan.head (head_modifyBody _ _)) fun _ hr => hr
  | badData =>
    refine h.of_faulted (faulted_serverReset _ _) ?_ (sublist_of_eq ?_)
    · rw [slotIds, streams_serverReset]
      exact slotIds_removeSlot_sublist
    · unfold serverReset
      split_ifs <;> rfl
  | reset =>
    refine h.of_faulted (faulted_peerReset _ _) ?_ outIds_peerReset_sublist
    rw [slotIds, streams_peerReset]
    exact slotIds_removeSlot_sublist
  | trailers =>
    exact h.of_sublist (refl _) (refl _) le_rfl rfl rfl rfl
      (fun _ => congrArg TxChan.head (head_modifyBody _ _)) fun _ hr => hr
  | late => exact h.of_faulted (.of_chans rfl) (refl _) (refl _)
  | refused _ hnew =>
    exact h.of_sublist (refl _) (refl _) hnew.le rfl rfl rfl
      (fun _ => rfl) fun _ hr => hr
  | @inlined sid _ hnew =>
    have hle : Shaped { c with lastStreamId := sid } :=
      h.of_sublist (refl _) (refl _) hnew.le rfl rfl rfl (fun _ => rfl)
        fun _ hr => hr
    refine { hle with inline := ?_ }
    rintro sid' ⟨⟩
    exact ⟨⟨by omega, le_rfl⟩, h.fresh_not_mem hnew⟩
  | @spawned sid _ hnew _ contentLength =>
    exact h.spawn hnew hnone contentLength

def Recredited : List StreamSlot → List StreamSlot → Prop :=
  List.Forall₂ fun s s' => s' = { s with recvWindow := s'.recvWindow }

theorem Recredited.trans {l₁ l₂ : List StreamSlot} (h₁ : Recredited l l₁) (h₂ : Recredited l₁ l₂) :
    Recredited l l₂ := by
  induction h₁ generalizing l₂ with
  | nil => exact h₂
  | cons h _ ih =>
    cases h₂ with
    | cons h' ht => exact .cons (by rw [h', h]) (ih ht)

theorem Recredited.ids {l' : List StreamSlot} (h : Recredited l l') :
    l'.map StreamSlot.id = l.map StreamSlot.id := by
  induction h with
  | nil => rfl
  | cons h _ ih => rw [map_cons, map_cons, ih, h]

theorem Recredited.mem {l' : List StreamSlot} (h : Recredited l l') {s' : StreamSlot} (hs : s' ∈ l') :
    ∃ s ∈ l, s' = { s with recvWindow := s'.recvWindow } := by
  induction h with
  | nil => cases hs
  | cons h _ ih =>
    rcases mem_cons.mp hs with rfl | hs
    · exact ⟨_, mem_cons_self, h⟩
    · obtain ⟨s, hmem, heq⟩ := ih hs
      exact ⟨s, mem_cons_of_mem _ hmem, heq⟩

/-- Only receive windows and consumed counts change. -/
structure Credited (c c' : Streams) : Prop where
  rest : c' = { c with streams := c'.streams, chans := c'.chans }
  slots : Recredited c.streams c'.streams
  body : ∀ sid, ∃ n, (c'.chans sid).body = { (c.chans sid).body with consumedUncredited := n }
  tx : ∀ sid, (c'.chans sid).tx = (c.chans sid).tx

theorem Credited.trans {c₁ c₂ : Streams} (h₁ : Credited c c₁) (h₂ : Credited c₁ c₂) :
    Credited c c₂ := by
  refine ⟨?_, h₁.slots.trans h₂.slots, ?_, fun sid => (h₂.tx sid).trans (h₁.tx sid)⟩
  · rw [h₂.rest, h₁.rest]
  · intro sid
    obtain ⟨n, hn⟩ := h₁.body sid
    obtain ⟨m, hm⟩ := h₂.body sid
    exact ⟨m, by rw [hm, hn]⟩

theorem Credited.refl (c : Streams) : Credited c c :=
  ⟨rfl, forall₂_same.mpr fun _ _ => rfl, fun _ => ⟨_, rfl⟩, fun _ => rfl⟩

theorem credited_creditConsumed (c : H2Conn) (sid : ℕ) :
    Credited c.toStreams (c.creditConsumed sid).toStreams := by
  have hbody : ∀ (c : Streams) (sid' : ℕ), ∃ n,
      ((c.modifyBody sid fun d => { d with consumedUncredited := 0 }).chans sid').body =
        { (c.chans sid').body with consumedUncredited := n } := by
    intro c sid'
    by_cases h : sid' = sid
    · subst h
      exact ⟨0, by simp [modifyBody]⟩
    · exact ⟨_, by rw [modifyBody, modifyChan_of_ne _ _ _ h]⟩
  have htx : ∀ (c : Streams) (sid' : ℕ),
      ((c.modifyBody sid fun d => { d with consumedUncredited := 0 }).chans sid').tx =
        (c.chans sid').tx := fun c sid' => head_modifyBody _ _
  unfold creditConsumed
  dsimp only
  split_ifs
  · refine ⟨rfl, ?_, hbody c.toStreams, htx c.toStreams⟩
    refine forall₂_map_right_iff.mpr (forall₂_same.mpr fun s _ => ?_)
    split_ifs <;> rfl
  · exact ⟨rfl, forall₂_same.mpr fun _ _ => rfl, hbody c.toStreams, htx c.toStreams⟩

theorem credited_creditConsumedBodies (c : H2Conn) :
    Credited c.toStreams c.creditConsumedBodies.toStreams := by
  unfold creditConsumedBodies
  generalize c.streams.map StreamSlot.id = ids
  induction ids generalizing c with
  | nil => exact .refl _
  | cons sid ids ih => exact (credited_creditConsumed c sid).trans (ih _)

theorem Shaped.credited (h : c.Shaped) (hc : Credited c c') : c'.Shaped := by
  have hslots : c'.slotIds = c.slotIds := hc.slots.ids
  have htx := hc.tx
  rw [hc.rest] at *
  exact h.of_sublist (sublist_of_eq hslots) (refl _) le_rfl rfl rfl rfl
    (fun sid => congrArg TxChan.head (htx sid)) fun _ hr => hr

theorem drainResponse_cases (c : Streams) (r : ℕ × Response) :
    c.drainResponse r = c ∨ r.1 ∈ c.slotIds ∧ (c.drainResponse r = c.removeSlot r.1 ∨
      c.drainResponse r = (c.removeSlot r.1).queueResponse r.1 r.2) := by
  unfold drainResponse
  cases h : c.slot r.1 with
  | none => exact .inl rfl
  | some s =>
    refine .inr ⟨slot_isSome.mp (by rw [h]; rfl), ?_⟩
    split_ifs
    · exact .inl rfl
    · exact .inr rfl

theorem drainResponses_induction {P : Streams → Prop} (h : P { c with respSink := [] })
    (hstep : ∀ r ∈ c.respSink, ∀ c, P c → P (c.drainResponse r)) : P c.drainResponses := by
  unfold drainResponses
  generalize { c with respSink := [] } = c0 at h
  generalize c.respSink = rs at hstep
  induction rs generalizing c0 with
  | nil => exact h
  | cons r rs ih =>
    exact ih _ (hstep r mem_cons_self _ h) fun r hr => hstep r (mem_cons_of_mem _ hr)

theorem Shaped.removeSlot (h : c.Shaped) : (c.removeSlot sid).Shaped :=
  h.of_faulted (.of_chans rfl) slotIds_removeSlot_sublist (refl _)

theorem Shaped.queueResponse (h : c.Shaped) (hpos : 0 < sid ∧ sid ≤ c.lastStreamId)
    (hnot : sid ∉ c.slotIds ++ c.outIds) (hinline : c.inline = none) (resp : Response) :
    (c.queueResponse sid resp).Shaped := by
  have hids : (c.queueResponse sid resp).slotIds ++ (c.queueResponse sid resp).outIds =
      c.slotIds ++ c.outIds ++ [sid] := by
    simp [slotIds, outIds, Streams.queueResponse]
  refine ⟨?_, ?_, ?_, h.spawned_nodup, h.spawned_le, h.slots_spawned, h.head, h.sink⟩
  · rw [hids, ← List.concat_eq_append, List.nodup_concat]
    exact ⟨hnot, h.nodup⟩
  · intro sid' hmem
    rw [hids, List.mem_append, List.mem_singleton] at hmem
    rcases hmem with hmem | rfl
    · exact h.used sid' hmem
    · exact hpos
  · intro sid' hmem
    have hinline' : c.inline = some sid' := hmem
    rw [hinline] at hinline'
    cases hinline'

theorem Shaped.drainResponse (h : c.Shaped) (hinline : c.inline = none) (r : ℕ × Response) :
    (c.drainResponse r).Shaped := by
  rcases c.drainResponse_cases r with e | ⟨hslot, e | e⟩
  · rwa [e]
  · rw [e]
    exact h.removeSlot
  · rw [e]
    refine h.removeSlot.queueResponse (h.used _ (mem_append_left _ hslot)) ?_ hinline _
    rw [slotIds_removeSlot, mem_append, not_or]
    exact ⟨by simp, h.not_out hslot⟩

theorem inline_drainResponse (r : ℕ × Response) : (c.drainResponse r).inline = c.inline := by
  rcases c.drainResponse_cases r with e | ⟨-, e | e⟩ <;> rw [e] <;> rfl

theorem Shaped.drainResponses (h : c.Shaped) (hinline : c.inline = none) : c.drainResponses.Shaped := by
  have : c.drainResponses.Shaped ∧ c.drainResponses.inline = none := by
    refine drainResponses_induction (P := fun c => c.Shaped ∧ c.inline = none) ⟨?_, hinline⟩
      fun r _ c hc => ?_
    · exact h.of_sublist (refl _) (refl _) le_rfl rfl rfl rfl
        (fun _ => rfl) (by simp)
    · exact ⟨hc.1.drainResponse hc.2 r, (inline_drainResponse r).trans hc.2⟩
  exact this.1

end Streams

namespace H2Conn

variable {c : H2Conn}

def queuedFrames (c : H2Conn) : List OutFrame :=
  (drainQueue c.peerMaxFrameSize c.connSendWindow c.outQueue).1

def streamedFrames (c : H2Conn) : List OutFrame :=
  (drainSlots c.peerMaxFrameSize (drainQueue c.peerMaxFrameSize c.connSendWindow c.outQueue).2.1
    c.chans c.streams).1

theorem dataSent_flush (sid : ℕ) :
    dataSent sid c.flush.1 = dataSent sid c.queuedFrames + dataSent sid c.streamedFrames := by
  have hctrl : dataSent sid (c.ctrlOut.map OutFrame.ctrl) = 0 := by
    simp [dataSent, comp_def]
  change dataSent sid (c.ctrlOut.map OutFrame.ctrl ++ c.queuedFrames ++ c.streamedFrames) = _
  rw [dataSent_append, dataSent_append, hctrl, Nat.zero_add]

theorem flush_queue : QueueSent c.outQueue (c.queuedFrames, c.flush.2.connSendWindow, c.flush.2.outQueue) :=
  ⟨(drainQueue_spec c.peerMaxFrameSize c.connSendWindow c.outQueue).other,
    (drainQueue_spec c.peerMaxFrameSize c.connSendWindow c.outQueue).ids,
    (drainQueue_spec c.peerMaxFrameSize c.connSendWindow c.outQueue).keep⟩

theorem flush_slots (hnodup : c.slotIds.Nodup) :
    SlotsSent c.chans c.streams
      (c.streamedFrames, c.flush.2.connSendWindow, c.flush.2.chans, c.flush.2.streams) :=
  drainSlots_spec c.peerMaxFrameSize _ c.chans c.streams hnodup

theorem flush_chans (sid : ℕ) : (c.flush.2.chans sid).body = (c.chans sid).body ∧
    TxKept (c.chans sid).tx (c.flush.2.chans sid).tx :=
  drainSlots_chans c.peerMaxFrameSize _ c.chans c.streams sid

theorem faulted_flush (c : H2Conn) : Faulted c.toStreams c.flush.2.toStreams :=
  ⟨rfl, rfl, rfl, rfl, rfl, fun sid => (flush_chans sid).2.head, fun sid => .inl (flush_chans sid).1⟩

theorem shaped_flush (h : c.Shaped) : c.flush.2.Shaped :=
  h.of_faulted (faulted_flush c) (flush_slots h.nodup_slots).ids flush_queue.ids

theorem faulted_resetAllStreams (c : H2Conn) : Faulted c.toStreams c.resetAllStreams.toStreams := by
  have hfold : ∀ (ids : List ℕ) (c : Streams), Faulted c
      (ids.foldl (fun c sid => c.modifyChan sid tearDown) c) := by
    intro ids
    induction ids with
    | nil => exact fun c => .refl c
    | cons sid ids ih =>
      refine fun c => Faulted.trans ?_ (ih _)
      refine ⟨rfl, rfl, rfl, rfl, rfl, fun sid' => ?_, fun sid' => ?_⟩
      · by_cases h : sid' = sid
        · subst h
          simp [tearDown]
        · rw [modifyChan_of_ne _ _ _ h]
      · by_cases h : sid' = sid
        · subst h
          exact .inr (by simp [tearDown])
        · exact .inl (by rw [modifyChan_of_ne _ _ _ h])
  exact (hfold (c.streams.map StreamSlot.id) c.toStreams).trans (.of_chans rfl)

end H2Conn

theorem ty_of_blockOf {c : H2Conn} {hdr : FrameHeader} {b : ℕ × Bool} (h : blockOf c hdr = some b) :
    hdr.ty = .headers ∨ hdr.ty = .continuation := by
  unfold blockOf at h
  split_ifs at h
  cases hty : hdr.ty <;> simp_all

/-- What a step of a task can do. -/
inductive TaskMove (c : Streams) (sid : ℕ) : TaskOp → Streams → Prop
  | nothing (op : TaskOp) : TaskMove c sid op c
  | read : TaskMove c sid .read (c.readTask sid)
  | stream (op : TaskOp) {tx : TxChan} (hhead : tx.head.isSome)
      (hreset : tx.reset = (c.chans sid).tx.reset) :
      TaskMove c sid op (c.put sid { c.tasks sid with headSent := true } { c.chans sid with tx := tx })
  | ended (op : TaskOp) {tx : TxChan} (hsent : (c.tasks sid).headSent = true)
      (hhead : tx.head = (c.chans sid).tx.head) :
      TaskMove c sid op (c.put sid { c.tasks sid with finished := true } { c.chans sid with tx := tx })
  | respond (op : TaskOp) (hsent : (c.tasks sid).headSent = false) (resp : Response) :
      TaskMove c sid op
        { c.put sid { c.tasks sid with finished := true } (c.chans sid) with
          respSink := c.respSink ++ [(sid, resp)] }

theorem head_writeChunk (d : TxChan) (chunk : Bytes) : (writeChunk d chunk).head = d.head := by
  unfold writeChunk
  split_ifs <;> rfl

theorem reset_writeChunk (d : TxChan) (chunk : Bytes) : (writeChunk d chunk).reset = d.reset := by
  unfold writeChunk
  split_ifs <;> rfl

theorem reset_finishTx (d : TxChan) : (finishTx d).reset = d.reset := by
  unfold finishTx
  split_ifs <;> rfl

theorem head_finishTx (d : TxChan) : (finishTx d).head = d.head := by
  unfold finishTx
  split_ifs <;> rfl

theorem flushHead_cases {t : Task} {d : TxChan} (hhead : t.headSent = d.head.isSome) (block : Bytes) :
    flushHead t d block = none ∨ ∃ d', flushHead t d block = some ({ t with headSent := true }, d') ∧
      d'.head.isSome ∧ d'.reset = d.reset := by
  unfold flushHead
  split_ifs with hsent hreset
  · refine .inr ⟨d, ?_, hhead ▸ hsent, rfl⟩
    rw [← hsent]
  · exact .inl rfl
  · exact .inr ⟨_, rfl, rfl, rfl⟩

variable {c : Streams} {sid : ℕ}

theorem Streams.runTask_moves
    (hhead : (c.tasks sid).headSent = (c.chans sid).tx.head.isSome) (op : TaskOp) :
    TaskMove c sid op (c.runTask sid op) := by
  cases op with
  | read => exact .read
  | write block chunk =>
    unfold runTask
    rcases flushHead_cases hhead block with e | ⟨d, e, hd, hr⟩
    · simp only [e]
      exact .nothing _
    · simp only [e]
      exact .stream _ (by rw [head_writeChunk]; exact hd) ((reset_writeChunk _ _).trans hr)
  | finish block =>
    unfold runTask
    rcases flushHead_cases hhead block with e | ⟨d, e, hd, hr⟩
    · simp only [e]
      exact .nothing _
    · simp only [e]
      exact .stream _ (by rw [head_finishTx]; exact hd) ((reset_finishTx _).trans hr)
  | done success resp =>
    unfold runTask
    dsimp only
    by_cases hsent : (c.tasks sid).headSent = true
    · rw [if_pos hsent]
      refine .ended _ hsent ?_
      split_ifs
      · exact head_finishTx _
      · rfl
    · rw [if_neg hsent]
      exact .respond _ (by simpa using hsent) resp

theorem Streams.readTask_eq (c : Streams) (sid : ℕ) : ∃ t d, c.readTask sid =
    c.put sid t { c.chans sid with body := d } ∧ t.headSent = (c.tasks sid).headSent ∧
      t.finished = (c.tasks sid).finished ∧
      (d = (c.chans sid).body ∨ d = (c.chans sid).body.nextChunk.2) := by
  have hbody : ((c.tasks sid).reader.chunk BodyChan.nextChunk (c.chans sid).body).2.2 =
      (c.chans sid).body ∨ ((c.tasks sid).reader.chunk BodyChan.nextChunk (c.chans sid).body).2.2 =
      (c.chans sid).body.nextChunk.2 := by
    unfold BodyReader.chunk
    split_ifs
    · exact .inl rfl
    · exact .inl rfl
    · right
      generalize (c.chans sid).body.nextChunk = r
      obtain ⟨⟨_ | _⟩ | _, src⟩ := r <;> rfl
  unfold readTask
  dsimp only
  generalize (c.tasks sid).reader.chunk BodyChan.nextChunk (c.chans sid).body = r at hbody
  obtain ⟨⟨_ | bytes⟩ | _, reader, body⟩ := r <;> exact ⟨_, _, rfl, rfl, rfl, hbody⟩

theorem TaskMove.kept {c' : Streams} {op : TaskOp} (h : TaskMove c sid op c') :
    c' = { c with tasks := c'.tasks, chans := c'.chans, respSink := c'.respSink } := by
  cases h with
  | read =>
    obtain ⟨t, d, e, -⟩ := c.readTask_eq sid
    rw [e]
    rfl
  | _ => rfl

theorem Streams.Shaped.put (h : c.Shaped) {t : Task} {ch : Channels}
    (hsent : t.headSent = ch.tx.head.isSome)
    (hsink : ∀ r ∈ c.respSink, r.1 = sid → t.finished = true ∧ t.headSent = false) :
    (c.put sid t ch).Shaped := by
  refine { h with head := ?_, sink := ?_ }
  · intro sid' hmem
    by_cases e : sid' = sid
    · subst e
      simpa [put] using hsent
    · simpa [Streams.put, e] using h.head sid' hmem
  · intro r hr
    refine ⟨(h.sink r hr).1, ?_⟩
    by_cases e : r.1 = sid
    · simpa [Streams.put, e] using hsink r hr e
    · simpa [Streams.put, e] using (h.sink r hr).2

theorem Streams.Shaped.taskMove {c' : Streams} {op : TaskOp} (h : c.Shaped)
    (hspawned : sid ∈ c.spawned) (hrunning : (c.tasks sid).finished = false)
    (hm : TaskMove c sid op c') : c'.Shaped := by
  have hsent := h.head sid hspawned
  have hnot : ∀ r ∈ c.respSink, r.1 ≠ sid := by
    rintro r hr rfl
    have := (h.sink r hr).2.1
    rw [hrunning] at this
    cases this
  cases hm with
  | nothing => exact h
  | read =>
    obtain ⟨t, d, e, hs, -⟩ := c.readTask_eq sid
    rw [e]
    exact h.put (hs.trans hsent) fun r hr e => absurd e (hnot r hr)
  | stream _ hhead => exact h.put hhead.symm fun r hr e => absurd e (hnot r hr)
  | ended _ hs hhead =>
    refine h.put ?_ fun r hr e => absurd e (hnot r hr)
    rw [hhead, hsent]
  | respond _ hs resp =>
    have hput : (c.put sid { c.tasks sid with finished := true } (c.chans sid)).Shaped :=
      h.put hsent fun r hr e => absurd e (hnot r hr)
    refine { hput with sink := ?_ }
    intro r hr
    rcases mem_append.mp hr with hr | hr
    · exact hput.sink r hr
    · obtain rfl := mem_singleton.mp hr
      exact ⟨hspawned, by simp [Streams.put], by simpa [Streams.put] using hs⟩

/-- What an action can do. -/
inductive World.Moves (w : World) : Action → World → Prop
  | idle (a : Action) (inbuf : Bytes) : Moves w a { w with inbuf := inbuf }
  | swept (hready : w.ready) : Moves w .sweep w.sweep
  | framed (hready : w.ready) {spawns : Bool} {hdr : FrameHeader} {payload rest : Bytes}
      (hread : readFrame w.inbuf = .frame hdr payload rest) {c : H2Conn}
      (heffect : Effect w.conn.toStreams hdr payload (blockOf w.conn hdr) c.toStreams) :
      Moves w (.frame spawns)
        { w with
          inbuf := rest, conn := c, seen := fun sid => observe sid w.conn hdr payload (w.seen sid)
          peerWindow := observeWindow hdr payload w.peerWindow }
  | dropped (hready : w.ready) (a : Action) {w' : World}
      (hfault : Faulted w.conn.toStreams w'.conn.toStreams) (hslots : w'.conn.streams = [])
      (hout : w'.conn.outQueue = []) (hclosed : w'.closed = true)
      (hseen : w'.seen = w.seen ∨ ∃ spawns hdr payload rest, a = .frame spawns ∧
        readFrame w.inbuf = .frame hdr payload rest ∧
        w'.seen = fun sid => observe sid w.conn hdr payload (w.seen sid)) : Moves w a w'
  | responded {sid : ℕ} (hinline : w.conn.inline = some sid) (resp : Response) :
      Moves w (.respond resp)
        { w with conn := w.conn.onStreams fun c => { c.queueResponse sid resp with inline := none } }
  | tasked {sid : ℕ} (hspawned : sid ∈ w.conn.spawned)
      (hrunning : (w.conn.tasks sid).finished = false) (op : TaskOp) :
      Moves w (.task sid op) { w with conn := w.conn.onStreams (·.runTask sid op) }

namespace World

variable {w w' : World}

theorem faulted_close (w : World) (c : H2Conn) : Faulted c.toStreams (w.close c).conn.toStreams :=
  (faulted_resetAllStreams c).trans (.of_chans rfl)

theorem faulted_abort (w : World) (c : H2Conn) (e : ErrorCode) :
    Faulted c.toStreams (w.abort c e).conn.toStreams := by
  have hgoaway : (c.errorGoaway e).toStreams = c.toStreams := by
    unfold errorGoaway
    split_ifs <;> rfl
  have hflush := faulted_flush (c.errorGoaway e)
  rw [hgoaway] at hflush
  exact hflush.trans (faulted_close _ _)

theorem step_moves (w : World) (a : Action) : w.Moves a (w.step a) := by
  unfold step
  cases a with
  | sweep =>
    split_ifs with h
    · exact .swept h
    · exact .idle _ _
  | recv chunk => exact .idle _ _
  | frame spawns =>
    split_ifs with h
    · cases hread : readFrame w.inbuf with
      | needMore => exact .idle _ _
      | frameTooLarge =>
        exact .dropped h _ (faulted_abort _ _ _) rfl rfl rfl (.inl rfl)
      | frame hdr payload rest =>
        have heffect := processFrame_effect w.conn spawns hdr payload
        dsimp only [takeFrame]
        revert heffect
        generalize w.conn.processFrame spawns hdr payload = r
        obtain ⟨⟨⟩ | ⟨⟩, c⟩ := r
        · intro (hfault : Faulted w.conn.toStreams c.toStreams)
          exact .dropped h _ (hfault.trans (faulted_abort _ _ _)) rfl rfl rfl
            (.inr ⟨spawns, hdr, payload, rest, rfl, hread, rfl⟩)
        · exact fun heffect => .framed h hread heffect
    · exact .idle _ _
  | eof =>
    dsimp only
    split_ifs with h
    · exact .dropped h _ (faulted_close _ _) rfl rfl rfl (.inl rfl)
    · exact .idle _ _
  | respond resp =>
    cases hinline : w.conn.inline with
    | none => exact .idle _ _
    | some sid => exact .responded hinline resp
  | task sid op =>
    dsimp only
    split_ifs with h
    · exact .tasked h.1 (by simpa using h.2) op
    · exact .idle _ _

theorem inline_of_ready (h : w.ready) : w.conn.inline = none := by
  have := (Bool.and_eq_true_iff.mp h).2
  simpa using this

theorem closed_of_ready (h : w.ready) : w.closed = false := by
  have := (Bool.and_eq_true_iff.mp h).1
  simpa using this

def sweeping (w : World) : H2Conn := w.conn.creditConsumedBodies.onStreams Streams.drainResponses

theorem shaped_sweeping (h : w.conn.Shaped) (hready : w.ready) : w.sweeping.Shaped := by
  have hcredit := credited_creditConsumedBodies w.conn
  refine (h.credited hcredit).drainResponses ?_
  rw [hcredit.rest]
  exact inline_of_ready hready

theorem shaped_step (h : w.conn.Shaped) (a : Action) : (w.step a).conn.Shaped := by
  have hmoves := w.step_moves a
  generalize w.step a = w' at hmoves
  cases hmoves with
  | idle => exact h
  | swept hready => exact shaped_flush (shaped_sweeping h hready)
  | framed hready _ heffect => exact h.effect (inline_of_ready hready) heffect
  | dropped _ _ hfault hslots hout =>
    exact h.of_faulted hfault (by simp [slotIds, hslots]) (by simp [outIds, hout])
  | @responded sid hinline resp =>
    obtain ⟨hpos, hnot⟩ := h.inline sid hinline
    have hfree : Streams.Shaped { w.conn.toStreams with inline := none } :=
      { h with inline := by simp }
    exact hfree.queueResponse hpos hnot rfl resp
  | @tasked sid hspawned hrunning op =>
    exact h.taskMove hspawned hrunning (runTask_moves (h.head sid hspawned) op)

end World

def smallFrame (ty flags sid : UInt8) (payload : Bytes) : Bytes :=
  [0, 0, UInt8.ofNat payload.length, ty, flags, 0, 0, 0, sid] ++ payload

/-- A frame arrives and is processed, and responses are sent. -/
def exchange (ty flags sid : UInt8) (payload : Bytes) : List Action :=
  [.recv (smallFrame ty flags sid payload), .frame true, .sweep]

def postBlock : Bytes := [0x83, 0x86, 0x84]

end Waitless.Http2
