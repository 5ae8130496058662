import Waitless.Http2Runs

/-! # HTTP/2 send windows

`Exact` is the equation a send window should meet: what the peer allows is its initial window size
and the credit it has granted on the stream, less the bytes sent.

A window starts over when a response is handed over, so the equation holds in every run in which no
credit has been granted before that (`send_window_exact`); such credit is lost
(`handover_loses_credit`). -/

namespace Waitless.Http2

open Waitless.AesGcm List Streams World
open World (dataSent blockOf observe observeWindow)

def allowance (seen : ℕ → Seen) (peerWindow : ℤ) (wire : List OutFrame) (sid : ℕ) : ℤ :=
  peerWindow + (seen sid).credit - dataSent sid wire

/-- Every window is what the peer allows. -/
structure Exact (seen : ℕ → Seen) (peerWindow : ℤ) (wire : List OutFrame) (c : Streams) : Prop where
  peer : c.peerInitialWindow = peerWindow
  out : ∀ o ∈ c.outQueue, o.sendWindow = allowance seen peerWindow wire o.id
  slots : ∀ s ∈ c.streams, s.sendWindow = allowance seen peerWindow wire s.id
  unsent : ∀ s ∈ c.streams, (c.chans s.id).tx.head = none → dataSent s.id wire = 0
  fresh : ∀ sid, c.lastStreamId < sid → (seen sid).credit = 0 ∧ dataSent sid wire = 0
  inline : ∀ sid ∈ c.inline, (seen sid).credit = 0 ∧ dataSent sid wire = 0

namespace Exact

variable {seen seen' : ℕ → Seen} {peer peer' : ℤ} {wire wire' : List OutFrame} {c c' : Streams}
  {sid : ℕ}

theorem allowance_fresh (h : (seen sid).credit = 0 ∧ dataSent sid wire = 0) :
    allowance seen peer wire sid = peer := by
  simp [allowance, h.1, h.2]

variable (h : Exact seen peer wire c)
include h

theorem of_subset (hpeer : c'.peerInitialWindow = c.peerInitialWindow)
    (hout : ∀ o ∈ c'.outQueue, o ∈ c.outQueue)
    (hslots : ∀ s' ∈ c'.streams, ∃ s ∈ c.streams, s'.id = s.id ∧ s'.sendWindow = s.sendWindow)
    (hhead : ∀ s ∈ c'.streams, (c'.chans s.id).tx.head = none → (c.chans s.id).tx.head = none)
    (hlast : c.lastStreamId ≤ c'.lastStreamId) (hinline : ∀ sid ∈ c'.inline, sid ∈ c.inline) :
    Exact seen peer wire c' := by
  refine ⟨hpeer.trans h.peer, fun o ho => h.out o (hout o ho), ?_, ?_, ?_, ?_⟩
  · intro s' hs'
    obtain ⟨s, hs, hid, hwindow⟩ := hslots s' hs'
    rw [hwindow, hid]
    exact h.slots s hs
  · intro s' hs' hnone
    obtain ⟨s, hs, hid, -⟩ := hslots s' hs'
    have := hhead s' hs' hnone
    rw [hid] at this ⊢
    exact h.unsent s hs this
  · exact fun sid hlt => h.fresh sid (by omega)
  · exact fun sid hmem => h.inline sid (hinline sid hmem)

theorem of_faulted (hf : Faulted c c')
    (hpeer : c'.peerInitialWindow = c.peerInitialWindow) (hout : ∀ o ∈ c'.outQueue, o ∈ c.outQueue)
    (hslots : c'.streams ⊆ c.streams) : Exact seen peer wire c' :=
  h.of_subset hpeer hout (fun s hs => ⟨s, hslots hs, rfl, rfl⟩) (fun s _ hnone => hf.head s.id ▸ hnone)
    hf.lastStreamId.ge fun _ hmem => hf.inline ▸ hmem

theorem credited (hc : Streams.Credited c c') :
    Exact seen peer wire c' := by
  have hslots := hc.slots
  have htx := hc.tx
  rw [hc.rest] at *
  refine h.of_subset rfl (fun o ho => ho) ?_ ?_ le_rfl fun sid hmem => hmem
  · intro s' hs'
    obtain ⟨s, hs, heq⟩ := hslots.mem hs'
    exact ⟨s, hs, by rw [heq], by rw [heq]⟩
  · intro s _ hnone
    rw [← htx]
    exact hnone

theorem removeSlot : Exact seen peer wire (c.removeSlot sid) :=
  h.of_faulted (.of_chans rfl) rfl (fun _ ho => ho) (filter_subset_self _)

theorem queueResponse
    (hfresh : (seen sid).credit = 0 ∧ dataSent sid wire = 0) (resp : Response) :
    Exact seen peer wire (c.queueResponse sid resp) := by
  refine { h with out := ?_ }
  intro o ho
  rcases mem_append.mp ho with ho | ho
  · exact h.out o ho
  · obtain rfl := mem_singleton.mp ho
    exact h.peer.trans (allowance_fresh hfresh).symm

theorem drainResponse {r : ℕ × Response}
    (hcredit : r.1 ∈ c.slotIds → (seen r.1).credit = 0) (hhead : (c.chans r.1).tx.head = none) :
    Exact seen peer wire (c.drainResponse r) := by
  rcases c.drainResponse_cases r with e | ⟨hslot, e | e⟩
  · rwa [e]
  · rw [e]
    exact h.removeSlot
  · rw [e]
    obtain ⟨s, hs, hid⟩ := mem_map.mp hslot
    refine h.removeSlot.queueResponse ⟨hcredit hslot, ?_⟩ _
    have := h.unsent s hs
    rw [hid] at this
    exact this hhead

theorem drainResponses
    (hcredit : ∀ r ∈ c.respSink, r.1 ∈ c.slotIds → (seen r.1).credit = 0)
    (hhead : ∀ r ∈ c.respSink, (c.chans r.1).tx.head = none) :
    Exact seen peer wire c.drainResponses := by
  have hall : Exact seen peer wire c.drainResponses ∧ c.drainResponses.chans = c.chans ∧
      c.drainResponses.slotIds ⊆ c.slotIds := by
    refine drainResponses_induction (P := fun c' => Exact seen peer wire c' ∧
      c'.chans = c.chans ∧ c'.slotIds ⊆ c.slotIds) ⟨?_, rfl, fun _ hmem => hmem⟩ ?_
    · exact h.of_subset rfl (fun _ ho => ho) (fun s hs => ⟨s, hs, rfl, rfl⟩)
        (fun _ _ hnone => hnone) le_rfl fun _ hmem => hmem
    · rintro r hr c' ⟨hexact, hchans, hids⟩
      refine ⟨hexact.drainResponse (fun hmem => hcredit r hr (hids hmem)) ?_, ?_, ?_⟩
      · rw [hchans]
        exact hhead r hr
      · rcases c'.drainResponse_cases r with e | ⟨-, e | e⟩ <;> rw [e] <;> exact hchans
      · have hsub : (c'.removeSlot r.1).slotIds ⊆ c.slotIds := by
          rw [slotIds_removeSlot]
          exact fun _ hmem => hids (mem_filter.mp hmem).1
        rcases c'.drainResponse_cases r with e | ⟨-, e | e⟩ <;> rw [e]
        · exact hids
        · exact hsub
        · exact hsub
  exact hall.1

omit h

theorem flush {c : H2Conn} (h : Exact seen peer wire c.toStreams) (hshaped : c.Shaped)
    (hinline : c.inline = none) : Exact seen peer (wire ++ c.flush.1) c.flush.2.toStreams := by
  have hqueue := c.flush_queue
  have hslots := c.flush_slots hshaped.nodup_slots
  have hsent (sid : ℕ) : dataSent sid (wire ++ c.flush.1) =
      dataSent sid wire + (dataSent sid c.queuedFrames + dataSent sid c.streamedFrames) := by
    rw [dataSent_append, H2Conn.dataSent_flush]
  refine ⟨h.peer, ?_, ?_, ?_, ?_, ?_⟩
  · intro o' ho'
    obtain ⟨o, ho, hid, hwindow⟩ := hqueue.keep hshaped.nodup_out o' ho'
    have hmem : o.id ∈ c.outIds := mem_map_of_mem ho
    have hnot : o.id ∉ c.slotIds := fun hslot => hshaped.not_out hslot hmem
    rw [hwindow, hid, h.out o ho, allowance, allowance, hsent, hslots.other o.id hnot]
    push_cast
    ring
  · intro s' hs'
    obtain ⟨s, hs, heq⟩ := hslots.keep s' hs'
    have hnot : s.id ∉ c.outIds := hshaped.not_out (mem_map_of_mem hs)
    have hwindow : s'.sendWindow = s.sendWindow - dataSent s.id c.streamedFrames := by rw [heq]
    rw [hwindow, heq.id_eq, h.slots s hs, allowance, allowance, hsent, hqueue.other s.id hnot]
    push_cast
    ring
  · intro s' hs' hnone
    obtain ⟨s, hs, heq⟩ := hslots.keep s' hs'
    have hnot : s.id ∉ c.outIds := hshaped.not_out (mem_map_of_mem hs)
    rw [heq.id_eq] at hnone ⊢
    have hnone' : (c.chans s.id).tx.head = none := by
      rw [← (c.flush_chans s.id).2.head]
      exact hnone
    rw [hsent, h.unsent s hs hnone', hqueue.other s.id hnot, hslots.unsent s hs hnone']
  · intro sid hlt
    have hnot := hshaped.fresh_not_mem hlt
    rw [mem_append, not_or] at hnot
    rw [hsent, (h.fresh sid hlt).2, hqueue.other sid hnot.2, hslots.other sid hnot.1]
    exact ⟨(h.fresh sid hlt).1, rfl⟩
  · intro sid hmem
    have hmem' : c.inline = some sid := hmem
    rw [hinline] at hmem'
    cases hmem'

theorem observe_credit (sid : ℕ) (c : H2Conn) (hdr : FrameHeader) (payload : Bytes) (s : Seen) :
    (observe sid c hdr payload s).credit = s.credit +
      if hdr.ty = .windowUpdate ∧ hdr.streamId = sid ∧ sid ≤ c.lastStreamId then
        windowIncrement payload else 0 := by
  unfold observe
  by_cases hlt : c.lastStreamId < sid
  · have hno : ¬(hdr.ty = .windowUpdate ∧ hdr.streamId = sid ∧ sid ≤ c.lastStreamId) := by
      rintro ⟨-, -, hle⟩
      omega
    rw [if_pos hlt, if_neg hno, Nat.add_zero]
  · rw [if_neg hlt]
    cases hty : hdr.ty with
    | windowUpdate =>
      by_cases hid : hdr.streamId = sid
      · simp [hid, not_lt.mp hlt]
      · simp [hid]
    | data =>
      dsimp only
      split_ifs <;> simp_all
    | _ =>
      simp only [reduceCtorEq, false_and, if_false, Nat.add_zero]
      split
      · split_ifs <;> rfl
      · rfl

variable {hdr : FrameHeader} {payload : Bytes}

theorem observeWindow_of_ne (h : hdr.ty ≠ .settings) :
    observeWindow hdr payload peer = peer := if_neg fun hty => h hty.1

theorem fresh_observed {c : H2Conn}
    (h : Exact seen peer wire c.toStreams) (hlt : c.lastStreamId < sid) :
    (observe sid c hdr payload (seen sid)).credit = 0 ∧ dataSent sid wire = 0 := by
  refine ⟨?_, (h.fresh sid hlt).2⟩
  rw [observe_credit, (h.fresh sid hlt).1, if_neg (by omega)]

theorem observed {c : H2Conn}
    (h : Exact seen peer wire c.toStreams) (hshaped : c.Shaped) (hnone : c.inline = none)
    (hcredit : hdr.ty = .windowUpdate → windowIncrement payload = 0 ∨ hdr.streamId = 0 ∨
      hdr.streamId ∉ c.slotIds ∧ hdr.streamId ∉ c.outIds) :
    Exact (fun sid => observe sid c hdr payload (seen sid)) peer wire c.toStreams := by
  have hsame : ∀ sid ∈ c.slotIds ++ c.outIds,
      (observe sid c hdr payload (seen sid)).credit = (seen sid).credit := by
    intro sid hmem
    have hpos := (hshaped.used sid hmem).1
    rw [observe_credit]
    split_ifs with hup
    · obtain ⟨hty, rfl, -⟩ := hup
      rw [mem_append] at hmem
      have : windowIncrement payload = 0 := by
        rcases hcredit hty with h | h | h
        · exact h
        · omega
        · tauto
      rw [this, Nat.add_zero]
    · rw [Nat.add_zero]
  refine ⟨h.peer, ?_, ?_, h.unsent, fun _ hlt => h.fresh_observed hlt, by simp [hnone]⟩
  · intro o ho
    rw [h.out o ho, allowance, allowance, hsame _ (mem_append_right _ (mem_map_of_mem ho))]
  · intro s hs
    rw [h.slots s hs, allowance, allowance, hsame _ (mem_append_left _ (mem_map_of_mem hs))]

theorem shift (h : Exact seen peer wire c) (hnone : c.inline = none) (v : ℤ) :
    Exact seen v wire (c.shift v) := by
  have hmove (sid : ℕ) : allowance seen peer wire sid + (v - c.peerInitialWindow) =
      allowance seen v wire sid := by
    rw [h.peer, allowance, allowance]
    ring
  refine ⟨rfl, ?_, ?_, ?_, h.fresh, by simp [Streams.shift, hnone]⟩
  · intro o' ho'
    obtain ⟨o, ho, rfl⟩ := mem_map.mp ho'
    rw [h.out o ho, hmove]
  · intro s' hs'
    obtain ⟨s, hs, rfl⟩ := mem_map.mp hs'
    rw [h.slots s hs, hmove]
  · intro s' hs'
    obtain ⟨s, hs, rfl⟩ := mem_map.mp hs'
    exact h.unsent s hs

theorem credit_of_ne {c : H2Conn} (h : hdr.streamId ≠ sid) :
    (observe sid c hdr payload (seen sid)).credit = (seen sid).credit := by
  rw [observe_credit, if_neg fun hup => h hup.2.1, Nat.add_zero]

theorem credit_self {c : H2Conn} (hty : hdr.ty = .windowUpdate)
    (hle : hdr.streamId ≤ c.lastStreamId) :
    (observe hdr.streamId c hdr payload (seen hdr.streamId)).credit =
      (seen hdr.streamId).credit + windowIncrement payload := by
  rw [observe_credit, if_pos ⟨hty, rfl, hle⟩]

theorem allowance_credited {c : H2Conn}
    (hty : hdr.ty = .windowUpdate) (hle : sid ≤ c.lastStreamId) {window : ℤ}
    (hwindow : window = allowance seen peer wire sid) :
    (if sid = hdr.streamId then window + windowIncrement payload else window) =
      allowance (fun sid => observe sid c hdr payload (seen sid)) peer wire sid := by
  split_ifs with hid
  · subst hid
    rw [hwindow, allowance, allowance, credit_self hty hle]
    push_cast
    ring
  · rw [hwindow, allowance, allowance, credit_of_ne (Ne.symm hid)]

theorem spawnStreaming (h : Exact seen peer wire c) (hshaped : c.Shaped) (hnew : c.lastStreamId < sid)
    (contentLength : Option ℕ) :
    Exact seen peer wire ({ c with lastStreamId := sid }.spawnStreaming sid contentLength) := by
  have hfresh := h.fresh sid hnew
  refine ⟨h.peer, h.out, ?_, ?_, fun sid' hlt => h.fresh sid' (hnew.trans hlt), h.inline⟩
  · intro s hs
    rcases mem_append.mp hs with hs | hs
    · exact h.slots s hs
    · obtain rfl := mem_singleton.mp hs
      exact h.peer.trans (allowance_fresh hfresh).symm
  · intro s hs hnone
    rcases mem_append.mp hs with hs | hs
    · have hne : s.id ≠ sid := by
        rintro rfl
        exact hshaped.fresh_not_mem hnew (mem_append_left _ (mem_map_of_mem hs))
      refine h.unsent s hs ?_
      simpa [Streams.spawnStreaming, hne] using hnone
    · obtain rfl := mem_singleton.mp hs
      exact hfresh.2

theorem effect {c : H2Conn} {c' : Streams}
    (h : Exact seen peer wire c.toStreams) (hshaped : c.Shaped) (hnone : c.inline = none)
    (he : Effect c.toStreams hdr payload (blockOf c hdr) c') :
    Exact (fun sid => observe sid c hdr payload (seen sid)) (observeWindow hdr payload peer) wire c' := by
  -- Frames that are neither SETTINGS nor WINDOW_UPDATE leave what the peer allows as it is.
  have hother (hty : hdr.ty ∉ [.settings, .windowUpdate]) :
      Exact (fun sid => observe sid c hdr payload (seen sid)) (observeWindow hdr payload peer) wire
        c.toStreams := by
    rw [mem_cons, mem_singleton, not_or] at hty
    rw [observeWindow_of_ne hty.1]
    exact h.observed hshaped hnone fun hup => absurd hup hty.2
  have hblocked {b : ℕ × Bool} (hb : blockOf c hdr = some b) :=
    hother (by rcases ty_of_blockOf hb with e | e <;> simp [e])
  cases he with
  | nothing hset hcredit _ _ =>
    rw [observeWindow_of_ne hset]
    exact h.observed hshaped hnone hcredit
  | settings hty =>
    rw [h.peer]
    exact Exact.shift (h.observed hshaped hnone fun hup => by rw [hty] at hup; cases hup) hnone _
  | creditOut hty hout =>
    rw [observeWindow_of_ne (by simp [hty])]
    refine ⟨h.peer, ?_, ?_, h.unsent, fun _ hlt => h.fresh_observed hlt, by simp [creditOut, hnone]⟩
    · intro o' ho'
      obtain ⟨o, ho, rfl⟩ := mem_map.mp ho'
      have hid : (if o.id = hdr.streamId then
          { o with sendWindow := o.sendWindow + windowIncrement payload } else o).id = o.id := by
        split_ifs <;> rfl
      rw [hid, ← allowance_credited hty ((hshaped.used _ (mem_append_right _
        (mem_map_of_mem ho))).2) (h.out o ho)]
      split_ifs <;> rfl
    · intro s hs
      have hne : hdr.streamId ≠ s.id := by
        intro e
        exact hshaped.not_out (mem_map_of_mem hs) (e ▸ hout)
      rw [h.slots s hs, allowance, allowance, credit_of_ne hne]
  | creditSlot hty hout =>
    rw [observeWindow_of_ne (by simp [hty])]
    have hid (s : StreamSlot) : (if s.id = hdr.streamId then
        { s with sendWindow := s.sendWindow + windowIncrement payload } else s).id = s.id := by
      split_ifs <;> rfl
    refine ⟨h.peer, ?_, ?_, ?_, fun _ hlt => h.fresh_observed hlt,
      by simp [creditSlot, modifySlot, hnone]⟩
    · intro o ho
      have hne : hdr.streamId ≠ o.id := fun e => hout (e ▸ mem_map_of_mem ho)
      rw [h.out o ho, allowance, allowance, credit_of_ne hne]
    · intro s' hs'
      obtain ⟨s, hs, rfl⟩ := mem_map.mp hs'
      rw [hid, ← allowance_credited hty ((hshaped.used _ (mem_append_left _
        (mem_map_of_mem hs))).2) (h.slots s hs)]
      split_ifs <;> rfl
    · intro s' hs'
      obtain ⟨s, hs, rfl⟩ := mem_map.mp hs'
      rw [hid]
      exact h.unsent s hs
  | data hty hslot hbytes hok =>
    refine (hother (by simp [hty])).of_subset rfl (fun _ ho => ho) ?_ ?_ le_rfl
      fun _ hmem => hmem
    · intro s' hs'
      obtain ⟨s, hs, rfl⟩ := mem_map.mp hs'
      refine ⟨s, hs, ?_, ?_⟩ <;> split_ifs <;> rfl
    · intro s _ hnone
      rwa [deliver, head_modifyBody] at hnone
  | badData hty hslot hbytes hbad =>
    have hslots : (c.serverReset hdr.streamId).streams = _ := streams_serverReset
    refine (hother (by simp [hty])).of_faulted (H2Conn.faulted_serverReset _ _) ?_ ?_
      (hslots ▸ filter_subset_self _)
    all_goals
      unfold serverReset
      split_ifs <;> first | rfl | exact fun _ hmem => hmem
  | reset hty hcap =>
    have hslots : (c.peerReset hdr.streamId).streams = _ := streams_peerReset
    refine (hother (by simp [hty])).of_faulted (H2Conn.faulted_peerReset _ _)
      peerInitialWindow_peerReset ?_ (hslots ▸ filter_subset_self _)
    intro o ho
    rw [outQueue_peerReset] at ho
    exact (mem_filter.mp ho).1
  | trailers hblock hslot =>
    refine (hblocked hblock).of_subset rfl (fun _ ho => ho) (fun s hs => ⟨s, hs, rfl, rfl⟩) ?_ le_rfl
      fun _ hmem => hmem
    intro s _ hnone
    rwa [head_modifyBody] at hnone
  | late hblock hslot hcap =>
    exact (hblocked hblock).of_faulted (.of_chans rfl) rfl (fun _ ho => ho) (List.Subset.refl _)
  | refused hblock hnew =>
    exact (hblocked hblock).of_subset rfl (fun _ ho => ho) (fun s hs => ⟨s, hs, rfl, rfl⟩)
      (fun _ _ hnone => hnone) hnew.le fun _ hmem => hmem
  | @inlined sid hblock hnew =>
    have hb := hblocked hblock
    refine ⟨hb.peer, hb.out, hb.slots, hb.unsent, fun sid' hlt => hb.fresh sid' (hnew.trans hlt), ?_⟩
    rintro sid' ⟨⟩
    exact hb.fresh sid hnew
  | spawned hblock hnew hactive contentLength =>
    exact (hblocked hblock).spawnStreaming hshaped hnew contentLength

theorem taskMove {op : TaskOp} (h : Exact seen peer wire c) (hm : TaskMove c sid op c') :
    Exact seen peer wire c' := by
  have hput {t : Task} {ch : Channels}
      (hhead : ch.tx.head = none → (c.chans sid).tx.head = none) :
      Exact seen peer wire (c.put sid t ch) := by
    refine { h with unsent := ?_ }
    intro s hs hnone
    refine h.unsent s hs ?_
    by_cases e : s.id = sid
    · rw [e]
      refine hhead ?_
      simpa [put, e] using hnone
    · simpa [put, e] using hnone
  cases hm with
  | nothing => exact h
  | read =>
    obtain ⟨t, d, e, -, -⟩ := c.readTask_eq sid
    rw [e]
    exact hput fun hnone => hnone
  | @stream _ tx hhead _ =>
    refine hput fun (hnone : tx.head = none) => ?_
    rw [hnone] at hhead
    cases hhead
  | ended _ _ hhead => exact hput fun hnone => hhead ▸ hnone
  | respond _ _ resp =>
    have hrest : Exact seen peer wire
        (c.put sid { c.tasks sid with finished := true } (c.chans sid)) := hput fun hnone => hnone
    exact { hrest with }

end Exact

/-- No credit before a response is handed over. -/
def HandsOverFresh (w : World) : Action → Prop
  | .sweep => ∀ r ∈ w.conn.respSink, r.1 ∈ w.conn.slotIds → (w.seen r.1).credit = 0
  | _ => True

instance (w : World) (a : Action) : Decidable (HandsOverFresh w a) := by
  unfold HandsOverFresh
  split <;> infer_instance

/-- Send windows are exact while the connection lives. -/
structure WindowInv (w : World) : Prop where
  shaped : w.conn.Shaped
  live : w.closed = false → Exact w.seen w.peerWindow w.wire w.conn.toStreams
  dead : w.closed = true → w.conn.streams = [] ∧ w.conn.outQueue = [] ∧ w.conn.inline = none

theorem windowInv_sweep {w : World} (h : WindowInv w) (hready : w.ready)
    (hfresh : HandsOverFresh w .sweep) : WindowInv w.sweep := by
  have hnone := World.inline_of_ready hready
  have hcredit := Streams.credited_creditConsumedBodies w.conn
  have hexact := (h.live (World.closed_of_ready hready)).credited hcredit
  have hshaped := World.shaped_sweeping h.shaped hready
  have hsink : w.conn.creditConsumedBodies.respSink = w.conn.respSink := by rw [hcredit.rest]
  have hids : w.conn.creditConsumedBodies.slotIds = w.conn.slotIds := hcredit.slots.ids
  have hinline : w.sweeping.inline = none := by
    have : w.conn.creditConsumedBodies.inline = none := by rw [hcredit.rest]; exact hnone
    exact Streams.drainResponses_induction (P := fun c => c.inline = none) this
      fun r _ c hc => (Streams.inline_drainResponse r).trans hc
  have hdrained : Exact w.seen w.peerWindow w.wire w.sweeping.toStreams := by
    refine hexact.drainResponses ?_ ?_
    · intro r hr hmem
      rw [hsink] at hr
      rw [hids] at hmem
      exact hfresh r hr hmem
    · intro r hr
      rw [hsink] at hr
      obtain ⟨hspawned, -, hsent⟩ := h.shaped.sink r hr
      have hhead := h.shaped.head r.1 hspawned
      rw [hsent, ← congrArg TxChan.head (hcredit.tx r.1)] at hhead
      simpa using hhead.symm
  have hflush := hdrained.flush hshaped hinline
  refine ⟨H2Conn.shaped_flush hshaped, fun _ => hflush, fun hclosed => ?_⟩
  have hempty : (w.sweeping.flush.2.closing && w.sweeping.flush.2.outQueue.isEmpty &&
      w.sweeping.flush.2.streams.isEmpty) = true := hclosed
  simp only [Bool.and_eq_true, List.isEmpty_iff] at hempty
  exact ⟨hempty.2, hempty.1.2, hinline⟩

theorem windowInv_step {w : World} (h : WindowInv w) {a : Action} (ha : HandsOverFresh w a) :
    WindowInv (w.step a) := by
  have hshaped := shaped_step h.shaped a
  have hmoves := w.step_moves a
  generalize w.step a = w' at hmoves hshaped
  cases hmoves with
  | idle => exact ⟨hshaped, h.live, h.dead⟩
  | swept hready => exact windowInv_sweep h hready ha
  | framed hready _ heffect =>
    have hnone := inline_of_ready hready
    have hopen := closed_of_ready hready
    refine ⟨hshaped, fun _ => (h.live hopen).effect h.shaped hnone heffect, fun hclosed => ?_⟩
    rw [hopen] at hclosed
    cases hclosed
  | dropped hready _ hfault hslots hout hclosed =>
    refine ⟨hshaped, fun hopen => ?_, fun _ => ⟨hslots, hout, ?_⟩⟩
    · rw [hclosed] at hopen
      cases hopen
    · rw [hfault.inline]
      exact inline_of_ready hready
  | @responded sid hinline resp =>
    refine ⟨hshaped, fun hopen => ?_, fun hclosed => ?_⟩
    · have hexact := h.live hopen
      have hquiet : Exact w.seen w.peerWindow w.wire { w.conn.toStreams with inline := none } :=
        { hexact with inline := by simp }
      exact hquiet.queueResponse (hexact.inline sid hinline) resp
    · have := (h.dead hclosed).2.2
      rw [hinline] at this
      cases this
  | @tasked sid hspawned hrunning op =>
    have hmove := runTask_moves (h.shaped.head sid hspawned) op
    refine ⟨hshaped, fun hopen => (h.live hopen).taskMove hmove, fun hclosed => ?_⟩
    have hkept := hmove.kept
    dsimp only [H2Conn.toStreams_onStreams]
    rw [hkept]
    exact h.dead hclosed

/-- **Send windows are exact** where no credit comes before a finished response is handed over. -/
theorem send_window_exact (as : List Action) (h : Runs.Along World.step HandsOverFresh {} as) :
    let w := run {} as
    (∀ o ∈ w.conn.outQueue,
      o.sendWindow = w.peerWindow + (w.seen o.id).credit - dataSent o.id w.wire) ∧
    ∀ s ∈ w.conn.streams,
      s.sendWindow = w.peerWindow + (w.seen s.id).credit - dataSent s.id w.wire := by
  have hinit : WindowInv {} := by
    refine ⟨shaped_new, fun _ => ?_, by simp⟩
    exact ⟨rfl, by simp, by simp, by simp, fun _ _ => ⟨rfl, rfl⟩, by simp⟩
  have hinv := h.invariant (fun w a ha hw => windowInv_step hw ha) hinit
  intro w
  cases hclosed : w.closed with
  | false => exact ⟨(hinv.live hclosed).out, (hinv.live hclosed).slots⟩
  | true =>
    obtain ⟨hslots, hout, -⟩ := hinv.dead hclosed
    have hslots : w.conn.streams = [] := hslots
    have hout : w.conn.outQueue = [] := hout
    simp [hslots, hout]

def creditBehind : List Action :=
  exchange 4 0 0 [0, 4, 0, 0, 0, 10] ++ exchange 1 4 1 postBlock ++
    [.task 1 (.done true ⟨[0x88], List.replicate 16 0⟩), .sweep] ++ exchange 8 0 1 [0, 0, 0, 3]

theorem send_window_exact_behind :
    let w := run {} creditBehind
    (∀ o ∈ w.conn.outQueue,
      o.sendWindow = w.peerWindow + (w.seen o.id).credit - dataSent o.id w.wire) ∧
    (w.conn.outQueue.map fun o => (o.id, o.body.length)) = [(1, 3)] :=
  ⟨(send_window_exact creditBehind (by decide +kernel)).1, by decide +kernel⟩

def creditAhead : List Action :=
  exchange 4 0 0 [0, 4, 0, 0, 0, 0] ++ exchange 1 4 1 postBlock ++ exchange 8 0 1 [0, 0, 0, 10] ++
    [.task 1 (.done true ⟨[0x88], [1, 2, 3]⟩), .sweep]

/-- Credit granted before the hand-over is lost, and the response stays queued. -/
theorem handover_loses_credit :
    let w := run {} creditAhead
    w.closed = false ∧ w.peerWindow = 0 ∧ (w.seen 1).credit = 10 ∧ dataSent 1 w.wire = 0 ∧
      (w.conn.outQueue.map fun o => (o.id, o.body, o.sendWindow)) = [(1, [1, 2, 3], 0)] := by
  decide +kernel

end Waitless.Http2
