import Waitless.Http2Runs

/-! # Rapid resets

`running_tasks_bounded` bounds the unfinished tasks where the server does not reset the stream of
such a task itself; without that every round of `flood` adds one (`flooding_flood`). -/

namespace Waitless.Http2

open Waitless.AesGcm FrameHeader Function H2Conn Streams World List
open Waitless.Http.Streaming
open World (dataSent blockOf observe observeWindow)

namespace Streams

def unfinished (c : Streams) : List ℕ := c.spawned.filter fun sid => !(c.tasks sid).finished

/-- Those of them whose streams have no slot any more. -/
def orphans (c : Streams) : List ℕ := c.unfinished.filter fun sid => sid ∉ c.slotIds

variable {c c' : Streams} {sid : ℕ}

theorem mem_unfinished : sid ∈ c.unfinished ↔ sid ∈ c.spawned ∧ (c.tasks sid).finished = false := by
  simp [unfinished]

theorem mem_orphans : sid ∈ c.orphans ↔
    (sid ∈ c.spawned ∧ (c.tasks sid).finished = false) ∧ sid ∉ c.slotIds := by
  rw [orphans, mem_filter, mem_unfinished, decide_eq_true_iff]

theorem Shaped.nodup_unfinished (h : c.Shaped) : c.unfinished.Nodup := h.spawned_nodup.filter _

theorem Shaped.nodup_orphans (h : c.Shaped) : c.orphans.Nodup := h.nodup_unfinished.filter _

theorem Shaped.unfinished_le (h : c.Shaped) :
    c.unfinished.length ≤ c.orphans.length + c.streams.length := by
  have hslots : c.slotIds.length = c.streams.length := length_map _
  rw [← hslots, ← length_append]
  refine h.nodup_unfinished.length_le_of_subset fun sid hmem => ?_
  rw [mem_append, mem_orphans]
  by_cases hslot : sid ∈ c.slotIds
  · exact .inr hslot
  · exact .inl ⟨mem_unfinished.mp hmem, hslot⟩

/-- Only slots of finished tasks go away. -/
structure Retired (c c' : Streams) : Prop where
  spawned : c'.spawned = c.spawned
  tasks : ∀ sid, (c.tasks sid).finished = true → (c'.tasks sid).finished = true
  resets : c'.streamsReset = c.streamsReset
  slots : c'.slotIds.Sublist c.slotIds
  gone : ∀ sid ∈ c.slotIds, sid ∉ c'.slotIds → (c'.tasks sid).finished = true
  tx : ∀ sid ∈ c'.slotIds, (c'.chans sid).tx.reset = true →
    (c.chans sid).tx.reset = true ∨ (c'.tasks sid).finished = true

namespace Retired

theorem trans {c₁ c₂ : Streams} (h₁ : Retired c c₁) (h₂ : Retired c₁ c₂) : Retired c c₂ := by
  refine ⟨h₂.spawned.trans h₁.spawned, fun sid hfin => h₂.tasks sid (h₁.tasks sid hfin),
    h₂.resets.trans h₁.resets, h₂.slots.trans h₁.slots, ?_, ?_⟩
  · intro sid hmem hnot
    by_cases hmid : sid ∈ c₁.slotIds
    · exact h₂.gone sid hmid hnot
    · exact h₂.tasks sid (h₁.gone sid hmem hmid)
  · intro sid hmem hreset
    rcases h₂.tx sid hmem hreset with hreset | hfin
    · rcases h₁.tx sid (h₂.slots.subset hmem) hreset with hreset | hfin
      · exact .inl hreset
      · exact .inr (h₂.tasks sid hfin)
    · exact .inr hfin

theorem of_ids (hspawned : c'.spawned = c.spawned) (htasks : c'.tasks = c.tasks)
    (hresets : c'.streamsReset = c.streamsReset) (hslots : c'.slotIds = c.slotIds)
    (htx : ∀ sid, (c'.chans sid).tx.reset = (c.chans sid).tx.reset) : Retired c c' := by
  refine ⟨hspawned, fun sid hfin => htasks ▸ hfin, hresets, sublist_of_eq hslots, ?_, ?_⟩
  · intro sid hmem hnot
    rw [hslots] at hnot
    exact absurd hmem hnot
  · intro sid _ hreset
    exact .inl ((htx sid).symm.trans hreset)

theorem of_removeSlot (hspawned : c'.spawned = c.spawned) (htasks : c'.tasks = c.tasks)
    (hresets : c'.streamsReset = c.streamsReset) (hslots : c'.streams = (c.removeSlot sid).streams)
    (htx : ∀ sid, (c'.chans sid).tx.reset = (c.chans sid).tx.reset)
    (hfin : (c.tasks sid).finished = true) : Retired c c' := by
  have hids : c'.slotIds = c.slotIds.filter (· ≠ sid) := by
    rw [← slotIds_removeSlot, slotIds, hslots, slotIds]
  refine ⟨hspawned, fun _ hfin => htasks ▸ hfin, hresets, ?_, ?_, ?_⟩
  · rw [hids]
    exact filter_sublist
  · intro sid' hmem hnot
    obtain rfl : sid' = sid := by
      by_contra hne
      exact hnot (by rw [hids, mem_filter]; exact ⟨hmem, decide_eq_true hne⟩)
    rw [htasks]
    exact hfin
  · intro sid' _ hreset
    exact .inl ((htx sid').symm.trans hreset)

theorem unfinished_subset (h : Retired c c') : c'.unfinished ⊆ c.unfinished := by
  intro sid hmem
  obtain ⟨hspawned, hrunning⟩ := mem_unfinished.mp hmem
  rw [h.spawned] at hspawned
  refine mem_unfinished.mpr ⟨hspawned, Bool.eq_false_iff.mpr fun hfin => ?_⟩
  rw [h.tasks sid hfin] at hrunning
  cases hrunning

theorem orphans_subset (h : Retired c c') : c'.orphans ⊆ c.orphans := by
  intro sid hmem
  obtain ⟨hrun, hslot⟩ := mem_orphans.mp hmem
  refine mem_orphans.mpr ⟨mem_unfinished.mp (h.unfinished_subset (mem_unfinished.mpr hrun)), ?_⟩
  intro hmem'
  have hfin := h.gone sid hmem' hslot
  rw [hrun.2] at hfin
  cases hfin

theorem credited (h : Credited c c') : Retired c c' := by
  have hids : c'.slotIds = c.slotIds := h.slots.ids
  have htx := h.tx
  rw [h.rest] at *
  exact of_ids rfl rfl rfl hids fun sid => congrArg TxChan.reset (htx sid)

theorem drainResponses (hshaped : c.Shaped) : Retired c c.drainResponses := by
  refine drainResponses_induction (P := Retired c) ?_ fun r hr c1 h1 => ?_
  · exact of_ids rfl rfl rfl rfl fun _ => rfl
  · have hfin := h1.tasks r.1 (hshaped.sink r hr).2.1
    refine h1.trans ?_
    rcases c1.drainResponse_cases r with e | ⟨-, e | e⟩
    · rw [e]
      exact of_ids rfl rfl rfl rfl fun _ => rfl
    · rw [e]
      exact of_removeSlot rfl rfl rfl rfl (fun _ => rfl) hfin
    · rw [e]
      exact of_removeSlot rfl rfl rfl rfl (fun _ => rfl) hfin

theorem flush {c : H2Conn} (hnodup : c.slotIds.Nodup)
    (hdone : ∀ sid ∈ c.slotIds, (c.chans sid).tx.reset = true ∨ (c.chans sid).tx.fin = true →
      (c.tasks sid).finished = true) : Retired c.toStreams c.flush.2.toStreams := by
  have hsent := flush_slots hnodup
  refine ⟨rfl, fun _ hfin => hfin, rfl, hsent.ids, ?_, ?_⟩
  · intro sid hmem hnot
    obtain ⟨s, hs, rfl⟩ := mem_map.mp hmem
    exact hdone s.id hmem (hsent.gone s hs hnot)
  · intro sid _ hreset
    exact .inl ((flush_chans sid).2.reset.symm.trans hreset)

theorem put {t : Task} {ch : Channels} (hfin : (c.tasks sid).finished = true → t.finished = true)
    (hreset : ch.tx.reset = true → (c.chans sid).tx.reset = true ∨ t.finished = true) :
    Retired c (c.put sid t ch) := by
  refine ⟨rfl, ?_, rfl, List.Sublist.refl _, fun _ hmem hnot => absurd hmem hnot, ?_⟩
  · intro sid' hfin'
    by_cases e : sid' = sid
    · subst e
      simpa [put] using hfin hfin'
    · simpa [Streams.put, e] using hfin'
  · intro sid' _ hreset'
    by_cases e : sid' = sid
    · subst e
      simpa [put] using hreset (by simpa [put] using hreset')
    · exact .inl (by simpa [Streams.put, e] using hreset')

theorem taskMove {op : TaskOp} (h : TaskMove c sid op c') : Retired c c' := by
  cases h with
  | nothing => exact of_ids rfl rfl rfl rfl fun _ => rfl
  | read =>
    obtain ⟨t, d, e, -, hfin, -⟩ := c.readTask_eq sid
    rw [e]
    exact put (fun h => hfin.trans h) .inl
  | stream _ _ hreset => exact put (fun h => h) fun h => .inl (hreset ▸ h)
  | ended => exact put (fun _ => rfl) fun _ => .inr rfl
  | respond _ _ resp =>
    have hput : Retired c (c.put sid { c.tasks sid with finished := true } (c.chans sid)) :=
      put (fun _ => rfl) .inl
    exact { hput with }

end Retired

/-- The resets the server has counted cover the orphans. -/
structure Counted (c : Streams) : Prop where
  orphans : c.orphans.length ≤ c.streamsReset
  slots : c.streams.length ≤ maxConcurrentStreams
  resets : c.streamsReset ≤ rstFloodCap
  tx : ∀ sid ∈ c.slotIds, (c.chans sid).tx.reset = true → (c.tasks sid).finished = true

namespace Counted

theorem unfinished_le (h : c.Counted) (hshaped : c.Shaped) :
    c.unfinished.length ≤ maxConcurrentStreams + rstFloodCap := by
  have hle := hshaped.unfinished_le
  have horphans := h.orphans.trans h.resets
  have hslots := h.slots
  omega

theorem retired (h : c.Counted) (hshaped : c'.Shaped) (hr : Retired c c') : c'.Counted := by
  refine ⟨?_, ?_, hr.resets ▸ h.resets, fun sid hmem hreset => ?_⟩
  · rw [hr.resets]
    exact (hshaped.nodup_orphans.length_le_of_subset hr.orphans_subset).trans h.orphans
  · have hlen := hr.slots.length_le
    rw [slotIds, slotIds, length_map, length_map] at hlen
    exact hlen.trans h.slots
  · rcases hr.tx sid hmem hreset with hreset | hfin
    · exact hr.tasks sid (h.tx sid (hr.slots.subset hmem) hreset)
    · exact hfin

theorem peerReset (h : c.Counted) (hshaped : (c.peerReset sid).Shaped)
    (hcap : c.streamsReset < rstFloodCap) : (c.peerReset sid).Counted := by
  have hf := faulted_peerReset c sid
  have hids : (c.peerReset sid).slotIds = c.slotIds.filter (· ≠ sid) := by
    rw [← slotIds_removeSlot, slotIds, streams_peerReset, slotIds]
  have hresets := streamsReset_peerReset c sid
  refine ⟨?_, ?_, by omega, ?_⟩
  · have hsub : (c.peerReset sid).orphans ⊆ sid :: c.orphans := by
      intro sid' hmem
      rw [mem_orphans, hf.spawned, hf.tasks, hids] at hmem
      rw [mem_cons, mem_orphans]
      by_cases e : sid' = sid
      · exact .inl e
      · refine .inr ⟨hmem.1, fun hslot => hmem.2 ?_⟩
        rw [mem_filter]
        exact ⟨hslot, decide_eq_true e⟩
    have hlen := hshaped.nodup_orphans.length_le_of_subset hsub
    have horphans := h.orphans
    rw [length_cons] at hlen
    omega
  · rw [streams_peerReset]
    exact (length_filter_le _ _).trans h.slots
  · intro sid' hmem hreset
    rw [hids, mem_filter, decide_eq_true_iff] at hmem
    rw [hf.tasks]
    refine h.tx sid' hmem.1 ?_
    have htx : ((c.peerReset sid).chans sid').tx = (c.chans sid').tx := by
      unfold Streams.peerReset
      dsimp only
      split_ifs
      · simp [modifyChan, removeSlot, hmem.2]
      · rfl
    rwa [htx] at hreset

theorem spawnStreaming (h : c.Counted) (hactive : c.activeCount < maxConcurrentStreams)
    (contentLength : Option ℕ)
    (hshaped : ({ c with lastStreamId := sid }.spawnStreaming sid contentLength).Shaped) :
    ({ c with lastStreamId := sid }.spawnStreaming sid contentLength).Counted := by
  have hslots : ({ c with lastStreamId := sid }.spawnStreaming sid contentLength).slotIds =
      c.slotIds ++ [sid] := by
    simp [slotIds, Streams.spawnStreaming]
  refine ⟨?_, ?_, h.resets, ?_⟩
  · refine (hshaped.nodup_orphans.length_le_of_subset fun sid' hmem => ?_).trans h.orphans
    obtain ⟨⟨hspawned, hrunning⟩, hslot⟩ := mem_orphans.mp hmem
    rw [hslots, List.mem_append, List.mem_singleton, not_or] at hslot
    rw [mem_orphans]
    refine ⟨⟨?_, ?_⟩, hslot.1⟩
    · exact (List.mem_cons.mp hspawned).resolve_left hslot.2
    · simpa [Streams.spawnStreaming, hslot.2] using hrunning
  · have hlen : ({ c with lastStreamId := sid }.spawnStreaming sid contentLength).streams.length =
        c.streams.length + 1 := by simp [Streams.spawnStreaming]
    rw [activeCount] at hactive
    omega
  · intro sid' hmem hreset
    rw [hslots, List.mem_append, List.mem_singleton] at hmem
    by_cases e : sid' = sid
    · subst e
      simp [Streams.spawnStreaming] at hreset
    · have hold := h.tx sid' (hmem.resolve_right e)
      simp only [Streams.spawnStreaming, Function.update_of_ne e] at hreset ⊢
      exact hold hreset

theorem effect {hdr : FrameHeader} {payload : Bytes} {block : Option (ℕ × Bool)} (h : c.Counted)
    (hshaped : c'.Shaped) (he : Effect c hdr payload block c')
    (hbad : ∀ slot bytes code, hdr.ty = .data → c.slot hdr.streamId = some slot →
      dataPayload payload hdr.flags = some bytes →
      c.dataError slot hdr.length bytes (hdr.hasFlag Flags.endStream) = some code →
      (c.tasks hdr.streamId).finished = true) : c'.Counted := by
  cases he with
  | nothing => exact h
  | settings => exact h.retired hshaped (.of_ids rfl rfl rfl (slotIds_shift _) fun _ => rfl)
  | creditOut => exact h.retired hshaped (.of_ids rfl rfl rfl rfl fun _ => rfl)
  | creditSlot =>
    exact h.retired hshaped (.of_ids rfl rfl rfl (slotIds_modifySlot fun _ => rfl) fun _ => rfl)
  | data =>
    exact h.retired hshaped (.of_ids rfl rfl rfl (slotIds_deliver _ _ _)
      fun _ => congrArg TxChan.reset (head_modifyBody _ _))
  | badData hty hslot hbytes herror =>
    have hfin := hbad _ _ _ hty hslot hbytes herror
    refine h.retired hshaped (.of_removeSlot ?_ ?_ ?_ streams_serverReset
      (fun _ => congrArg TxChan.reset (tx_serverReset _)) hfin)
    all_goals
      unfold serverReset
      split_ifs <;> rfl
  | reset _ hcap => exact h.peerReset hshaped hcap
  | trailers =>
    exact h.retired hshaped (.of_ids rfl rfl rfl rfl
      fun _ => congrArg TxChan.reset (head_modifyBody _ _))
  | late _ _ hcap => exact ⟨h.orphans.trans (Nat.le_succ _), h.slots, hcap, h.tx⟩
  | refused => exact h.retired hshaped (.of_ids rfl rfl rfl rfl fun _ => rfl)
  | inlined => exact h.retired hshaped (.of_ids rfl rfl rfl rfl fun _ => rfl)
  | spawned _ _ hactive contentLength => exact h.spawnStreaming hactive contentLength hshaped

end Counted

end Streams

/-- No DATA frame resets a running task; none outlives its response. -/
def KeepsTasks (w : World) : Action → Prop
  | .frame _ =>
    match readFrame w.inbuf with
    | .frame hdr payload _ =>
      hdr.ty = .data → ∀ slot ∈ w.conn.slot hdr.streamId,
        ∀ bytes ∈ dataPayload payload hdr.flags,
          (w.conn.dataError slot hdr.length bytes (hdr.hasFlag Flags.endStream)).isSome →
            (w.conn.tasks hdr.streamId).finished = true
    | _ => True
  | .sweep => ∀ sid ∈ w.conn.slotIds, (w.conn.chans sid).tx.fin = true →
      (w.conn.tasks sid).finished = true
  | _ => True

instance (w : World) : (a : Action) → Decidable (KeepsTasks w a)
  | .frame _ => by
    dsimp only [KeepsTasks]
    generalize readFrame w.inbuf = r
    exact match r with
      | .frame .. => inferInstance
      | .frameTooLarge | .needMore => .isTrue trivial
  | .sweep => by
    dsimp only [KeepsTasks]
    infer_instance
  | .recv _ | .eof | .respond _ | .task _ _ => .isTrue trivial

/-- Handlers that still run are bounded. -/
structure ResetInv (w : World) : Prop where
  shaped : w.conn.Shaped
  bound : w.conn.unfinished.length ≤ maxConcurrentStreams + rstFloodCap
  live : w.closed = false → w.conn.Counted

namespace ResetInv

variable {w w' : World}

theorem of_counted (hshaped : w.conn.Shaped) (h : w.conn.Counted) : ResetInv w :=
  ⟨hshaped, h.unfinished_le hshaped, fun _ => h⟩

theorem sweep (h : ResetInv w) (hready : w.ready) (hfin : KeepsTasks w .sweep) : ResetInv w.sweep := by
  have hcounted := h.live (closed_of_ready hready)
  have hcredit := credited_creditConsumedBodies w.conn
  have hshaped := shaped_sweeping h.shaped hready
  have hsweeping : Streams.Retired w.conn.toStreams w.sweeping.toStreams :=
    (Streams.Retired.credited hcredit).trans
      (.drainResponses (h.shaped.credited hcredit))
  have hchans (sid : ℕ) : (w.sweeping.chans sid).tx = (w.conn.chans sid).tx := by
    have : w.sweeping.chans = w.conn.creditConsumedBodies.chans :=
      drainResponses_induction
        (P := fun c => c.chans = w.conn.creditConsumedBodies.chans) rfl fun r _ c hc => by
          rcases c.drainResponse_cases r with e | ⟨-, e | e⟩ <;> rw [e] <;> exact hc
    rw [this, hcredit.tx]
  have hflush : Streams.Retired w.sweeping.toStreams w.sweeping.flush.2.toStreams := by
    refine .flush hshaped.nodup_slots fun sid hmem hdone => ?_
    have hmem' := hsweeping.slots.subset hmem
    rw [hchans] at hdone
    refine hsweeping.tasks sid ?_
    rcases hdone with hreset | hdone
    · exact hcounted.tx sid hmem' hreset
    · exact hfin sid hmem' hdone
  have hshaped' := shaped_flush hshaped
  exact of_counted (w := w.sweep) hshaped' (hcounted.retired hshaped' (hsweeping.trans hflush))

theorem step (h : ResetInv w) {a : Action} (ha : KeepsTasks w a) : ResetInv (w.step a) := by
  have hshaped := shaped_step h.shaped a
  have hmoves := w.step_moves a
  generalize w.step a = w' at hmoves hshaped
  cases hmoves with
  | idle => exact ⟨hshaped, h.bound, h.live⟩
  | swept hready => exact h.sweep hready ha
  | framed hready hread heffect =>
    have hopen := closed_of_ready hready
    refine of_counted hshaped ((h.live hopen).effect hshaped heffect ?_)
    intro slot bytes code hty hslot hbytes hcode
    simp only [KeepsTasks, hread] at ha
    exact ha hty slot hslot bytes hbytes (by rw [hcode]; rfl)
  | dropped _ _ hfault _ _ hclosed =>
    refine ⟨hshaped, ?_, fun hopen => ?_⟩
    · rw [unfinished, hfault.spawned, hfault.tasks]
      exact h.bound
    · rw [hclosed] at hopen
      cases hopen
  | @responded sid hinline resp =>
    exact ⟨hshaped, h.bound, fun hopen =>
      (h.live hopen).retired hshaped (.of_ids rfl rfl rfl rfl fun _ => rfl)⟩
  | @tasked sid hspawned hrunning op =>
    have hretired := Streams.Retired.taskMove (runTask_moves (h.shaped.head sid hspawned) op)
    refine ⟨hshaped, ?_, fun hopen => (h.live hopen).retired hshaped hretired⟩
    exact (hshaped.nodup_unfinished.length_le_of_subset hretired.unfinished_subset).trans h.bound

end ResetInv

/-- A frame that is charged to the flood budget: RST_STREAM, or a header block for an old stream. The
server resets no stream because of either. -/
def Charged (w : World) : Action → Prop
  | .frame _ =>
    match readFrame w.inbuf with
    | .frame hdr _ _ => hdr.ty = .rstStream ∨ ∃ sid fin, blockOf w.conn hdr = some (sid, fin) ∧
        sid ∉ w.conn.slotIds ∧ sid ≤ w.conn.lastStreamId
    | _ => False
  | _ => False

theorem Effect.streamsReset {c c' : Streams} {hdr : FrameHeader} {payload : Bytes}
    {block : Option (ℕ × Bool)} (h : Effect c hdr payload block c') :
    c'.streamsReset = c.streamsReset ∨ hdr.ty = .rstStream ∨
      ∃ sid fin, block = some (sid, fin) ∧ sid ∉ c.slotIds ∧ sid ≤ c.lastStreamId := by
  cases h with
  | reset hty => exact .inr (.inl hty)
  | late hblock hslot _ hold => exact .inr (.inr ⟨_, _, hblock, hslot, hold⟩)
  | badData =>
    left
    unfold serverReset
    split_ifs <;> rfl
  | _ => exact .inl rfl

theorem step_streamsReset {w : World} (h : w.conn.Shaped) (a : Action)
    (hopen : (w.step a).closed = false) :
    (w.step a).conn.streamsReset = w.conn.streamsReset ∨ Charged w a := by
  have hmoves := w.step_moves a
  generalize w.step a = w' at hmoves hopen
  cases hmoves with
  | idle => exact .inl rfl
  | swept =>
    have hcredit := credited_creditConsumedBodies w.conn
    exact .inl ((Retired.drainResponses (h.credited hcredit)).resets.trans
      (Retired.credited hcredit).resets)
  | framed _ hread heffect => simpa only [Charged, hread] using heffect.streamsReset
  | dropped _ _ _ _ _ hclosed =>
    rw [hclosed] at hopen
    cases hopen
  | responded => exact .inl rfl
  | @tasked sid hspawned _ op =>
    exact .inl (Retired.taskMove (runTask_moves (h.head sid hspawned) op)).resets

/-- **Unfinished tasks are bounded** by the streams and the resets allowed. Resets by the peer are
counted, and late header blocks, but none by the server. -/
theorem running_tasks_bounded (as : List Action) (h : Runs.Along World.step KeepsTasks {} as) :
    let w := run {} as
    (w.conn.unfinished.length ≤ maxConcurrentStreams + rstFloodCap) ∧
    (w.closed = false → w.conn.orphans.length ≤ w.conn.streamsReset) ∧
    ∀ a, (w.step a).closed = false →
      (w.step a).conn.streamsReset = w.conn.streamsReset ∨ Charged w a := by
  have hinit : ResetInv {} := by
    refine ⟨shaped_new, by simp [unfinished], fun _ => ⟨?_, ?_, ?_, ?_⟩⟩ <;>
      simp [orphans, unfinished, slotIds]
  have hinv := h.invariant (fun w a ha hw => hw.step ha) hinit
  exact ⟨hinv.bound, fun hopen => (hinv.live hopen).orphans, step_streamsReset hinv.shaped⟩

def resetOne : List Action :=
  exchange 1 4 1 postBlock ++ exchange 1 4 3 postBlock ++ exchange 3 0 1 [0, 0, 0, 8] ++
    [.task 3 (.write [0x88] [1, 2]), .task 3 (.done true ⟨[0x88], []⟩), .sweep]

theorem running_tasks_bounded_reset :
    let w := run {} resetOne
    w.conn.orphans.length ≤ w.conn.streamsReset ∧ w.conn.unfinished = [1] :=
  ⟨(running_tasks_bounded resetOne (by decide +kernel)).2.1 (by decide +kernel), by decide +kernel⟩

def emptyPostBlock : Bytes := postBlock ++ [0x0f, 0x0d, 0x01, 0x30]

def idOctets (sid : ℕ) : Bytes :=
  [UInt8.ofNat (sid / 2 ^ 24), UInt8.ofNat (sid / 2 ^ 16), UInt8.ofNat (sid / 2 ^ 8), UInt8.ofNat sid]

variable {c : H2Conn} {sid : ℕ}

theorem beNat_idOctets (h : sid < 2 ^ 31) : Quic.beNat (idOctets sid) % 2 ^ 31 = sid := by
  simp only [Quic.beNat, idOctets, foldl_cons, foldl_nil, UInt8.toNat_ofNat']
  omega

theorem readFrame_request (h : sid < 2 ^ 31) :
    readFrame ([0, 0, 7, 1, 4] ++ idOctets sid ++ emptyPostBlock) =
      .frame ⟨7, .headers, 4, sid⟩ emptyPostBlock [] := by
  have hid := beNat_idOctets h
  have hhdr : parse ([0, 0, 7, 1, 4] ++ idOctets sid ++ emptyPostBlock) =
      ⟨7, .headers, 4, sid⟩ := by
    rw [FrameHeader.mk.injEq]
    exact ⟨rfl, rfl, rfl, hid⟩
  unfold readFrame
  rw [hhdr]
  rfl

theorem readFrame_byte (h : sid < 2 ^ 31) :
    readFrame ([0, 0, 1, 0, 0] ++ idOctets sid ++ [120]) = .frame ⟨1, .data, 0, sid⟩ [120] [] := by
  have hhdr : parse ([0, 0, 1, 0, 0] ++ idOctets sid ++ [120]) = ⟨1, .data, 0, sid⟩ := by
    rw [FrameHeader.mk.injEq]
    exact ⟨rfl, rfl, rfl, beNat_idOctets h⟩
  unfold readFrame
  rw [hhdr]
  rfl

theorem decode_emptyPostBlock :
    let r := (Decoder.new headerTableSize maxHeaderListSize).decode emptyPostBlock nameScratchLen
      valueScratchLen
    let sink := r.2.2.foldl RequestSink.onField {}
    (r.1 = .ok () ∧ r.2.1 = .new headerTableSize maxHeaderListSize) ∧ sink.isMalformed = false ∧
      parseContentLength (sink.req.header (ascii "content-length")) = some 0 := by
  decide +kernel

/-- The state of the frame reader between two requests. -/
structure Waiting (c : H2Conn) : Prop where
  hpack : c.hpack = .new headerTableSize maxHeaderListSize
  headerAsm : c.headerAsm = none
  closing : c.closing = false

theorem completeHeaders_emptyPost
    (hpack : c.hpack = .new headerTableSize maxHeaderListSize) (hslots : c.streams = [])
    (hout : c.outQueue = []) (hnew : c.lastStreamId < sid) :
    c.completeHeaders true sid false emptyPostBlock =
      ({ c with lastStreamId := sid }.onStreams (·.spawnStreaming sid (some 0))).ok := by
  have hdecode := decode_emptyPostBlock
  unfold completeHeaders
  rw [hpack]
  generalize (Decoder.new headerTableSize maxHeaderListSize).decode emptyPostBlock nameScratchLen
    valueScratchLen = r at hdecode ⊢
  obtain ⟨verdict, hpack', fields⟩ := r
  obtain ⟨⟨rfl, rfl⟩, hform, hlen⟩ := hdecode
  dsimp only at hform hlen ⊢
  rw [hform, hlen, ← hpack]
  simp [slot, hslots, activeCount, hout, not_le.mpr hnew, maxConcurrentStreams,
    onStreams]

theorem processFrame_progress (hasm : c.headerAsm = none) {hdr : FrameHeader}
    (hty : hdr.ty = .headers ∨ hdr.ty = .data ∧ 0 < hdr.length) (payload : Bytes) :
    c.processFrame true hdr payload =
      H2Conn.dispatchFrame { c with ctrlSinceProgress := 0 } true hdr payload := by
  have hne : hdr.ty ≠ .continuation := by
    rcases hty with e | ⟨e, -⟩ <;> rw [e] <;> decide
  obtain ⟨_, _, _, headerAsm, _, _, _, _⟩ := c
  obtain rfl : headerAsm = none := hasm
  unfold processFrame noteFrameForFloodGuard
  rw [if_neg hne, if_pos hty]
  rfl

theorem processHeaders_emptyPost (c : H2Conn) (hodd : sid % 2 = 1) :
    c.processHeaders true ⟨7, .headers, 4, sid⟩ emptyPostBlock =
      c.completeHeaders true sid false emptyPostBlock := by
  have hid : ¬(sid = 0 ∨ sid % 2 = 0) := by omega
  have hfragment : headersFragment emptyPostBlock 4 = some emptyPostBlock := by decide
  have hheaders : decide ((4 : UInt8) &&& Flags.endHeaders ≠ 0) = true := by decide
  have hstream : decide ((4 : UInt8) &&& Flags.endStream ≠ 0) = false := by decide
  unfold processHeaders hasFlag
  rw [if_neg hid, hfragment]
  rw [hheaders, hstream]
  rfl

theorem processFrame_request (hwait : Waiting c) (hslots : c.streams = [])
    (hout : c.outQueue = []) (hnew : c.lastStreamId < sid) (hodd : sid % 2 = 1) :
    ∃ c', c.processFrame true ⟨7, .headers, 4, sid⟩ emptyPostBlock = c'.ok ∧ Waiting c' ∧
      c'.toStreams = { c.toStreams with lastStreamId := sid }.spawnStreaming sid (some 0) := by
  rw [processFrame_progress hwait.headerAsm (.inl rfl)]
  change ∃ c', processHeaders _ _ _ _ = _ ∧ _
  rw [processHeaders_emptyPost _ hodd, completeHeaders_emptyPost
    (c := { c with ctrlSinceProgress := 0 }) hwait.hpack hslots hout hnew]
  exact ⟨_, rfl, ⟨hwait.hpack, hwait.headerAsm, hwait.closing⟩, rfl⟩

theorem processData_byte {s : StreamSlot} (hslots : c.streams = [s])
    (hlength : s.contentLength = some 0) (hid : s.id ≠ 0) :
    ∃ code, c.processData ⟨1, .data, 0, s.id⟩ [120] = ((c.resetStream s.id code).creditConn 1).ok := by
  have hslot : c.slot s.id = some s := by simp [slot, hslots]
  obtain ⟨code, hcode⟩ : ∃ code, c.dataError s 1 [120] (hasFlag ⟨1, .data, 0, s.id⟩
      Flags.endStream) = some code := by
    unfold dataError
    rw [hlength]
    by_cases hwindow : s.recvWindow - (1 : ℕ) < 0
    · exact ⟨_, if_pos hwindow⟩
    · rw [if_neg hwindow]
      exact ⟨_, if_pos (by simp)⟩
  have hdata : dataPayload [120] 0 = some [120] := by decide
  refine ⟨code, ?_⟩
  unfold processData
  rw [if_neg hid, hdata]
  rw [hslot]
  dsimp only
  rw [hcode]

theorem processFrame_byte {s : StreamSlot} (hwait : Waiting c) (hslots : c.streams = [s])
    (hlength : s.contentLength = some 0) (hid : s.id ≠ 0) :
    ∃ c', c.processFrame true ⟨1, .data, 0, s.id⟩ [120] = c'.ok ∧ Waiting c' ∧
      c'.toStreams = c.serverReset s.id := by
  rw [processFrame_progress hwait.headerAsm (.inr ⟨rfl, Nat.one_pos⟩)]
  change ∃ c', processData _ _ _ = _ ∧ _
  obtain ⟨code, e⟩ := processData_byte (c := { c with ctrlSinceProgress := 0 }) hslots hlength hid
  rw [e]
  exact ⟨_, rfl, ⟨hwait.hpack, hwait.headerAsm, hwait.closing⟩, rfl⟩

theorem step_received {w : World} (hready : w.ready) (hinbuf : w.inbuf = []) {bytes payload : Bytes}
    {hdr : FrameHeader} (hread : readFrame bytes = .frame hdr payload [])
    (hprocess : w.conn.processFrame true hdr payload = c.ok) :
    ∃ seen peerWindow, (w.step (.recv bytes)).step (.frame true) =
      { w with conn := c, seen := seen, peerWindow := peerWindow } := by
  have hready' : ready { w with inbuf := bytes } = true := hready
  simp only [step, hinbuf, nil_append, hready', if_true, hread, takeFrame, hprocess]
  exact ⟨_, _, by rw [← hinbuf]; rfl⟩

/-- Nothing has happened on the slots' streams. -/
def Untouched (c : Streams) : Prop := ∀ s ∈ c.streams, c.chans s.id = {}

theorem creditConsumedBodies_untouched (h : Untouched c.toStreams) :
    c.creditConsumedBodies = c := by
  have hone {sid : ℕ} (hsid : c.chans sid = {}) : c.creditConsumed sid = c := by
    have hself : c.toStreams.modifyBody sid (fun d => { d with consumedUncredited := 0 }) =
        c.toStreams := by
      rw [modifyBody, modifyChan, hsid]
      rw [← hsid, update_eq_self]
    unfold creditConsumed
    rw [hsid]
    rw [if_neg (by simp), onStreams, hself]
  have hall : ∀ ids : List ℕ, (∀ sid ∈ ids, c.chans sid = {}) →
      ids.foldl creditConsumed c = c := by
    intro ids
    induction ids with
    | nil => exact fun _ => rfl
    | cons sid ids ih =>
      intro hids
      rw [foldl_cons, hone (hids sid mem_cons_self)]
      exact ih fun sid' hmem => hids sid' (mem_cons_of_mem _ hmem)
  refine hall _ fun sid hmem => ?_
  obtain ⟨s, hs, rfl⟩ := mem_map.mp hmem
  exact h s hs

theorem drainSlots_untouched (peerMax : ℕ) (w : ℤ) {chans : ℕ → Channels} {ss : List StreamSlot}
    (h : ∀ s ∈ ss, chans s.id = {}) : H2Conn.drainSlots peerMax w chans ss = ([], w, chans, ss) := by
  induction ss with
  | nil => rfl
  | cons s ss ih =>
    have hs := h s mem_cons_self
    have hself : update chans s.id {} = chans := by rw [← hs, update_eq_self]
    simp [drainSlots, emitStreaming, hs, hself,
      ih fun t ht => h t (mem_cons_of_mem _ ht)]

theorem step_sweep_untouched {w : World} (hready : w.ready) (huntouched : Untouched w.conn.toStreams)
    (hsink : w.conn.respSink = []) (hout : w.conn.outQueue = []) (hclosing : w.conn.closing = false) :
    w.step .sweep = { w with
      conn := { w.conn with ctrlOut := [] }, wire := w.wire ++ w.conn.ctrlOut.map .ctrl } := by
  have hdrain : w.conn.onStreams drainResponses = w.conn := by
    rw [onStreams, drainResponses, hsink]
    simp only [foldl_nil]
    rw [← hsink]
  have hflush : w.conn.flush = (w.conn.ctrlOut.map .ctrl, { w.conn with ctrlOut := [] }) := by
    unfold flush
    rw [hout, drainQueue]
    dsimp only
    rw [drainSlots_untouched _ _ huntouched]
    simp only [append_nil]
    rw [← hout]
  simp only [step, hready, if_true, sweep, creditConsumedBodies_untouched huntouched, hdrain,
    hflush, hclosing, Bool.false_and]
  rw [← closed_of_ready hready]

/-- `k` handlers run, and no reset was counted. -/
structure Flooding (k : ℕ) (w : World) : Prop where
  closed : w.closed = false
  inbuf : w.inbuf = []
  waiting : Waiting w.conn
  inline : w.conn.inline = none
  outQueue : w.conn.outQueue = []
  respSink : w.conn.respSink = []
  resets : w.conn.streamsReset = 0
  last : w.conn.lastStreamId < 2 * k + 1
  length : w.conn.spawned.length = k
  spawned : ∀ sid ∈ w.conn.spawned, sid < 2 * k + 1 ∧ (w.conn.tasks sid).finished = false

namespace Flooding

variable {k : ℕ} {w : World}

theorem ready (h : Flooding k w) : w.ready = true := by
  simp [World.ready, h.closed, h.inline]

theorem sweep (h : Flooding k w) (huntouched : Untouched w.conn.toStreams) :
    Flooding k (w.step .sweep) ∧ (w.step .sweep).conn.toStreams = w.conn.toStreams := by
  rw [step_sweep_untouched h.ready huntouched h.respSink h.outQueue h.waiting.closing]
  exact ⟨⟨h.closed, h.inbuf, ⟨h.waiting.hpack, h.waiting.headerAsm, h.waiting.closing⟩, h.inline,
    h.outQueue, h.respSink, h.resets, h.last, h.length, h.spawned⟩, rfl⟩

theorem request (h : Flooding k w) (hslots : w.conn.streams = []) (hk : 2 * k + 1 < 2 ^ 31) :
    let w' := (w.step (.recv ([0, 0, 7, 1, 4] ++ idOctets (2 * k + 1) ++ emptyPostBlock))).step
      (.frame true)
    Flooding (k + 1) w' ∧ (∃ s, w'.conn.streams = [s] ∧ s.id = 2 * k + 1 ∧ s.contentLength = some 0) ∧
      Untouched w'.conn.toStreams := by
  obtain ⟨c, hprocess, hwait, hc⟩ := processFrame_request h.waiting hslots h.outQueue h.last (by omega)
  obtain ⟨seen, peerWindow, e⟩ := step_received h.ready h.inbuf (readFrame_request hk) hprocess
  obtain ⟨s, hnew, hid, hlength⟩ :
      ∃ s, c.streams = [s] ∧ s.id = 2 * k + 1 ∧ s.contentLength = some 0 := by
    rw [hc, spawnStreaming]
    rw [hslots]
    exact ⟨_, rfl, rfl, rfl⟩
  intro w'
  rw [show w' = _ from e]
  refine ⟨⟨h.closed, h.inbuf, hwait, hc ▸ h.inline, hc ▸ h.outQueue,
    hc ▸ h.respSink, hc ▸ h.resets, ?_, ?_, ?_⟩, ⟨s, hnew, hid, hlength⟩, ?_⟩
  · rw [hc]
    change 2 * k + 1 < 2 * (k + 1) + 1
    omega
  · rw [hc]
    exact congrArg Nat.succ h.length
  · rw [hc]
    intro sid hmem
    rcases mem_cons.mp hmem with rfl | hmem
    · simp [spawnStreaming]
    · obtain ⟨hlt, hrunning⟩ := h.spawned sid hmem
      refine ⟨by omega, ?_⟩
      simpa [spawnStreaming, hlt.ne] using hrunning
  · intro s' hs'
    obtain rfl : s' = s := mem_singleton.mp (hnew ▸ hs')
    rw [hid, hc]
    exact update_self ..

theorem overrun (h : Flooding (k + 1) w) {s : StreamSlot} (hslots : w.conn.streams = [s])
    (hid : s.id = 2 * k + 1) (hlength : s.contentLength = some 0) (hk : 2 * k + 1 < 2 ^ 31) :
    let w' := (w.step (.recv ([0, 0, 1, 0, 0] ++ idOctets (2 * k + 1) ++ [120]))).step (.frame true)
    Flooding (k + 1) w' ∧ w'.conn.streams = [] := by
  have hbyte := processFrame_byte h.waiting hslots hlength (by omega)
  rw [hid] at hbyte
  obtain ⟨c, hprocess, hwait, hc⟩ := hbyte
  obtain ⟨seen, peerWindow, e⟩ := step_received h.ready h.inbuf (readFrame_byte hk) hprocess
  have hreset : w.conn.serverReset (2 * k + 1) = (w.conn.removeSlot (2 * k + 1)).modifyBody (2 * k + 1)
      fun d => { d with reset := true } := by
    simp [serverReset, slot, hslots, hid]
  intro w'
  rw [show w' = _ from e]
  rw [hreset] at hc
  refine ⟨⟨h.closed, h.inbuf, hwait, hc ▸ h.inline, hc ▸ h.outQueue,
    hc ▸ h.respSink, hc ▸ h.resets, hc ▸ h.last,
    hc ▸ h.length, hc ▸ h.spawned⟩, ?_⟩
  · rw [hc]
    simp [modifyBody, modifyChan, removeSlot, hslots, hid]

end Flooding

/-- A request without a body, and a byte of its body. -/
def floodRound (sid : ℕ) : List Action :=
  [.recv ([0, 0, 7, 1, 4] ++ idOctets sid ++ emptyPostBlock), .frame true, .sweep,
    .recv ([0, 0, 1, 0, 0] ++ idOctets sid ++ [120]), .frame true, .sweep]

def flood : ℕ → List Action
  | 0 => []
  | k + 1 => flood k ++ floodRound (2 * k + 1)

/-- Every round leaves a task behind. -/
theorem flooding_flood (k : ℕ) (hk : 2 * k < 2 ^ 31) :
    Flooding k (World.run {} (flood k)) ∧ (World.run {} (flood k)).conn.streams = [] := by
  induction k with
  | zero =>
    exact ⟨⟨rfl, rfl, ⟨rfl, rfl, rfl⟩, rfl, rfl, rfl, rfl, Nat.one_pos, rfl,
      by simp [run, flood]⟩, rfl⟩
  | succ k ih =>
    obtain ⟨h, hslots⟩ := ih (by omega)
    have hk' : 2 * k + 1 < 2 ^ 31 := by omega
    rw [flood, run, foldl_append]
    change Flooding (k + 1) (run (run {} (flood k)) (floodRound (2 * k + 1))) ∧
      (run (run {} (flood k)) (floodRound (2 * k + 1))).conn.streams = []
    generalize run {} (flood k) = w at h hslots
    obtain ⟨h1, ⟨s, hs, hid, hlength⟩, huntouched⟩ := h.request hslots hk'
    obtain ⟨h2, e2⟩ := h1.sweep huntouched
    obtain ⟨h3, hnone⟩ := h2.overrun (e2 ▸ hs) hid hlength hk'
    obtain ⟨h4, e4⟩ := h3.sweep fun t ht => by rw [hnone] at ht; cases ht
    exact ⟨h4, e4 ▸ hnone⟩

theorem Flooding.unfinished_length {k : ℕ} {w : World} (h : Flooding k w) :
    w.conn.unfinished.length = k := by
  rw [unfinished, filter_eq_self.mpr fun sid hmem => by simp [(h.spawned sid hmem).2]]
  exact h.length

/-- After 301 rounds more tasks run than the limits allow. -/
theorem flood_exceeds :
    let w := run {} (flood 301)
    w.closed = false ∧ w.conn.streamsReset = 0 ∧
      maxConcurrentStreams + rstFloodCap < w.conn.unfinished.length := by
  obtain ⟨h, -⟩ := flooding_flood 301 (by norm_num)
  exact ⟨h.closed, h.resets, by rw [h.unfinished_length]; decide⟩

end Waitless.Http2
