import Waitless.Http2Runs

/-! # The receive window of an HTTP/2 stream

`Conserved` is the invariant: the window and what the server holds of the body make up the initial
window. Without padded DATA frames the peer gets all of its window back and is never told that it
overran it (`receive_window_conserved`). Padding is debited and never credited (`padding_leaks`). -/

namespace Waitless.Http2

open Waitless.AesGcm BodyChan H2Conn List Streams Function
open Waitless.Http.Streaming

/-- Buffered, or read but not credited. -/
def BodyChan.held (d : BodyChan) : ℤ := d.buffered + d.consumedUncredited

/-- Window and held octets add up to the initial window. -/
structure Conserved (c : Streams) : Prop where
  window : ∀ s ∈ c.streams, s.recvWindow + (c.chans s.id).body.held = initialWindow
  buffered : ∀ sid, (c.chans sid).body.buffered = (c.chans sid).body.chunks.flatten.length

/-- Windows and bodies are kept, but for their ends. -/
structure Settled (c c' : Streams) : Prop where
  slots : ∀ s' ∈ c'.streams, ∃ s ∈ c.streams, s'.id = s.id ∧ s'.recvWindow = s.recvWindow
  body : ∀ sid, (c'.chans sid).body =
    { (c.chans sid).body with eof := (c'.chans sid).body.eof, reset := (c'.chans sid).body.reset }

variable {c c' : Streams} {sid : ℕ}

theorem Settled.trans {c₁ : Streams} (h : Settled c c₁) (h₁ : Settled c₁ c') : Settled c c' := by
  refine ⟨fun s' hs' => ?_, fun sid => by rw [h₁.body, h.body]⟩
  obtain ⟨s1, hs1, hid1, hwindow1⟩ := h₁.slots s' hs'
  obtain ⟨s, hs, hid, hwindow⟩ := h.slots s1 hs1
  exact ⟨s, hs, hid1.trans hid, hwindow1.trans hwindow⟩

theorem Settled.of_subset (hslots : c'.streams ⊆ c.streams)
    (hbody : ∀ sid, BodyKept (c.chans sid).body (c'.chans sid).body) : Settled c c' := by
  refine ⟨fun s hs => ⟨s, hslots hs, rfl, rfl⟩, fun sid => ?_⟩
  rcases hbody sid with e | e <;> rw [e]

namespace Conserved

theorem settled (h : Conserved c) (hs : Settled c c') : Conserved c' := by
  constructor
  · intro s' hs'
    obtain ⟨s, hmem, hid, hwindow⟩ := hs.slots s' hs'
    rw [hid, hwindow, hs.body]
    exact h.window s hmem
  · intro sid
    rw [hs.body]
    exact h.buffered sid

theorem change (h : Conserved c) {f : StreamSlot → StreamSlot} {ch : Channels}
    (hslots : c'.streams = c.streams.map fun s => if s.id = sid then f s else s)
    (hchans : c'.chans = Function.update c.chans sid ch) (hid : ∀ s, (f s).id = s.id)
    (hheld : ∀ s, (f s).recvWindow + ch.body.held = s.recvWindow + (c.chans sid).body.held)
    (hbuffered : ch.body.buffered = ch.body.chunks.flatten.length) : Conserved c' := by
  constructor
  · intro s' hs'
    rw [hslots] at hs'
    obtain ⟨s, hs, rfl⟩ := mem_map.mp hs'
    have hsum := h.window s hs
    by_cases e : s.id = sid
    · rw [if_pos e, hid, hchans, e, update_self, hheld, ← e]
      exact hsum
    · rw [if_neg e, hchans, update_of_ne e]
      exact hsum
  · intro sid'
    rw [hchans]
    by_cases e : sid' = sid
    · rw [e, update_self]
      exact hbuffered
    · rw [update_of_ne e]
      exact h.buffered sid'

theorem deliver (h : Conserved c) (bytes : Bytes) (fin : Bool) :
    Conserved (c.deliver sid bytes.length bytes fin) := by
  refine h.change rfl rfl (fun _ => rfl) (fun s => ?_) ?_
  · simp only [held, modifySlot]
    push_cast
    ring
  · have hbuffered := h.buffered sid
    by_cases hnil : bytes = [] <;> simp [modifySlot, hnil, hbuffered]

theorem spawnStreaming (h : Conserved c) (hshaped : c.Shaped) (hnew : c.lastStreamId < sid)
    (contentLength : Option ℕ) :
    Conserved ({ c with lastStreamId := sid }.spawnStreaming sid contentLength) := by
  constructor
  · intro s hs
    rcases List.mem_append.mp hs with hs | hs
    · have hne : s.id ≠ sid := by
        rintro rfl
        exact hshaped.fresh_not_mem hnew (List.mem_append_left _ (List.mem_map_of_mem hs))
      simpa [Streams.spawnStreaming, hne] using h.window s hs
    · obtain rfl := List.mem_singleton.mp hs
      simp [Streams.spawnStreaming, BodyChan.held]
  · intro sid'
    by_cases e : sid' = sid
    · simp [Streams.spawnStreaming, e]
    · simpa [Streams.spawnStreaming, e] using h.buffered sid'

/-- All but padded DATA frames conserve the windows. -/
theorem effect {hdr : FrameHeader} {payload : Bytes} {block : Option (ℕ × Bool)} (h : Conserved c)
    (hshaped : c.Shaped) (he : Effect c hdr payload block c')
    (hfull : hdr.ty = .data → dataPayload payload hdr.flags = some payload ∧
      payload.length = hdr.length) : Conserved c' := by
  cases he with
  | nothing => exact h
  | settings =>
    refine h.settled ⟨fun s' hs' => ?_, fun _ => rfl⟩
    obtain ⟨s, hs, rfl⟩ := mem_map.mp hs'
    exact ⟨s, hs, rfl, rfl⟩
  | creditSlot =>
    refine h.settled ⟨fun s' hs' => ?_, fun _ => rfl⟩
    obtain ⟨s, hs, rfl⟩ := mem_map.mp hs'
    refine ⟨s, hs, ?_, ?_⟩ <;> split_ifs <;> rfl
  | data hty _ hbytes =>
    obtain ⟨hpayload, hlen⟩ := hfull hty
    obtain rfl := Option.some.inj (hbytes.symm.trans hpayload)
    rw [← hlen]
    exact h.deliver _ _
  | badData =>
    refine h.settled (.of_subset ?_ (faulted_serverReset c hdr.streamId).body)
    rw [streams_serverReset]
    exact filter_subset_self _
  | reset =>
    refine h.settled (.of_subset ?_ (faulted_peerReset c hdr.streamId).body)
    rw [streams_peerReset]
    exact filter_subset_self _
  | trailers => exact h.change (f := id) (by simp; rfl) rfl (fun _ => rfl) (fun _ => rfl) (h.buffered _)
  | creditOut | late | refused | inlined => exact ⟨h.window, h.buffered⟩
  | spawned _ hnew _ contentLength => exact h.spawnStreaming hshaped hnew contentLength

theorem creditConsumed {c : H2Conn} (h : Conserved c.toStreams) :
    Conserved (c.creditConsumed sid).toStreams := by
  unfold H2Conn.creditConsumed
  dsimp only
  split_ifs with hpos
  · refine h.change rfl rfl (fun _ => rfl) (fun s => ?_) (h.buffered sid)
    simp only [held, Nat.cast_zero]
    ring
  · refine h.change (f := id) (by simp; rfl) rfl (fun _ => rfl) (fun s => ?_) (h.buffered sid)
    have hnone : (c.chans sid).body.consumedUncredited = 0 := by omega
    simp [held, hnone]

theorem readTask (h : Conserved c) : Conserved (c.readTask sid) := by
  obtain ⟨t, d, e, -, -, hd⟩ := c.readTask_eq sid
  have hbuffered := h.buffered sid
  rw [e]
  refine h.change (f := id) (by simp; rfl) rfl (fun _ => rfl) (fun s => ?_) ?_
  all_goals
    rcases hd with rfl | rfl
    · simp [hbuffered]
    · unfold nextChunk
      cases hchunks : (c.chans sid).body.chunks with
      | nil => split_ifs <;> simp [hchunks, hbuffered]
      | cons chunk chunks =>
        rw [hchunks, flatten_cons, length_append] at hbuffered
        simp only [held, id_eq]
        omega

theorem taskMove {op : TaskOp} (h : Conserved c) (hm : TaskMove c sid op c') : Conserved c' := by
  cases hm with
  | nothing => exact h
  | read => exact h.readTask
  | stream | ended | respond =>
    exact h.change (f := id) (by simp; rfl) rfl (fun _ => rfl) (fun _ => rfl) (h.buffered _)

end Conserved

theorem creditConsumedBodies_spec {c : H2Conn} (h : Conserved c.toStreams) :
    Conserved c.creditConsumedBodies.toStreams ∧ ∀ s ∈ c.creditConsumedBodies.streams,
      (c.creditConsumedBodies.chans s.id).body.consumedUncredited = 0 := by
  have hone (c : H2Conn) (id sid : ℕ) : ((c.creditConsumed id).chans sid).body.consumedUncredited =
      if sid = id then 0 else (c.chans sid).body.consumedUncredited := by
    unfold creditConsumed
    dsimp only
    by_cases e : sid = id
    all_goals split_ifs <;> simp [modifyBody, modifyChan, modifySlot, e]
  have hfold (ids : List ℕ) (sid : ℕ) : ∀ c : H2Conn,
      ((ids.foldl creditConsumed c).chans sid).body.consumedUncredited =
        if sid ∈ ids then 0 else (c.chans sid).body.consumedUncredited := by
    induction ids with
    | nil => simp
    | cons id ids ih =>
      intro c
      rw [foldl_cons, ih, hone]
      by_cases e : sid = id <;> simp [e]
  refine ⟨foldlRecOn (motive := fun c : H2Conn => Conserved c.toStreams) _ _ h
    fun c hc _ _ => hc.creditConsumed, fun s hs => ?_⟩
  have hmem : s.id ∈ c.streams.map StreamSlot.id := by
    rw [← (credited_creditConsumedBodies c).slots.ids]
    exact mem_map_of_mem hs
  rw [creditConsumedBodies, hfold, if_pos hmem]

theorem settled_sweep {w : World} (h : w.conn.Shaped) (hready : w.ready) :
    Settled w.conn.creditConsumedBodies.toStreams w.sweep.conn.toStreams := by
  have hdrained : Settled w.conn.creditConsumedBodies.toStreams w.sweeping.toStreams := by
    refine drainResponses_induction (P := Settled w.conn.creditConsumedBodies.toStreams)
      (.of_subset (List.Subset.refl _) fun _ => .inl rfl) fun r _ c hc => hc.trans ?_
    rcases c.drainResponse_cases r with e | ⟨-, e | e⟩ <;> rw [e]
    · exact .of_subset (List.Subset.refl _) fun _ => .inl rfl
    · exact .of_subset (filter_subset_self _) fun _ => .inl rfl
    · exact .of_subset (filter_subset_self _) fun _ => .inl rfl
  refine hdrained.trans ⟨fun s' hs' => ?_, fun sid => ?_⟩
  · have hflush := flush_slots (World.shaped_sweeping h hready).nodup_slots
    obtain ⟨s, hs, e⟩ := hflush.keep s' hs'
    rw [e]
    exact ⟨s, hs, rfl, rfl⟩
  · have hbody := (flush_chans (c := w.sweeping) sid).1
    exact hbody ▸ rfl

def Unpadded (w : World) : Action → Prop
  | .frame _ =>
    match readFrame w.inbuf with
    | .frame hdr _ _ => hdr.ty = .data → hdr.hasFlag Flags.padded = false
    | _ => True
  | _ => True

instance (w : World) : (a : Action) → Decidable (Unpadded w a)
  | .frame _ => by
    dsimp only [Unpadded]
    generalize readFrame w.inbuf = r
    exact match r with
      | .frame .. => inferInstance
      | .frameTooLarge | .needMore => .isTrue trivial
  | .sweep | .recv _ | .eof | .respond _ | .task _ _ => .isTrue trivial

theorem payload_full {inbuf payload rest : Bytes} {hdr : FrameHeader}
    (hread : readFrame inbuf = .frame hdr payload rest) (hpad : hdr.hasFlag Flags.padded = false) :
    dataPayload payload hdr.flags = some payload ∧ payload.length = hdr.length := by
  have hflag : ¬hdr.flags &&& Flags.padded ≠ 0 := by simpa [FrameHeader.hasFlag] using hpad
  refine ⟨by simp [dataPayload, padding, hflag, stripPadding], ?_⟩
  unfold readFrame at hread
  dsimp only at hread
  split_ifs at hread with hshort hlarge htotal
  cases hread
  rw [length_drop, length_take]
  omega

structure ReceiveInv (w : World) : Prop where
  shaped : w.conn.Shaped
  conserved : Conserved w.conn.toStreams

theorem receiveInv_step {w : World} (h : ReceiveInv w) {a : Action} (ha : Unpadded w a) :
    ReceiveInv (w.step a) := by
  refine ⟨World.shaped_step h.shaped a, ?_⟩
  have hmoves := w.step_moves a
  generalize w.step a = w' at hmoves
  cases hmoves with
  | idle => exact h.conserved
  | swept hready =>
    exact (creditConsumedBodies_spec h.conserved).1.settled (settled_sweep h.shaped hready)
  | framed _ hread heffect =>
    refine h.conserved.effect h.shaped heffect fun hty => payload_full hread ?_
    rw [Unpadded, hread] at ha
    exact ha hty
  | dropped _ _ hfault hslots =>
    exact h.conserved.settled (.of_subset (by simp [hslots]) hfault.body)
  | responded => exact ⟨h.conserved.window, h.conserved.buffered⟩
  | @tasked sid hspawned _ op =>
    exact h.conserved.taskMove (runTask_moves (h.shaped.head sid hspawned) op)

/-- **Receive windows are conserved** in every run without padded DATA frames. -/
theorem receive_window_conserved (as : List Action) (h : Runs.Along World.step Unpadded {} as) :
    let w := World.run {} as
    (∀ s ∈ w.conn.streams, s.recvWindow + ((w.conn.chans s.id).body.buffered +
      (w.conn.chans s.id).body.consumedUncredited) = 65535) ∧
    (∀ s ∈ w.conn.streams, ∀ (data : Bytes) (fin : Bool), data.length ≤ s.recvWindow →
      w.conn.dataError s data.length data fin ≠ some .flowControlError) ∧
    (w.ready → ∀ s ∈ w.sweep.conn.streams, (w.sweep.conn.chans s.id).body.chunks = [] →
      s.recvWindow = 65535) := by
  have hinit : ReceiveInv {} := ⟨shaped_new, by simp, fun _ => rfl⟩
  intro w
  have hinv : ReceiveInv w := h.invariant (fun w a ha hw => receiveInv_step hw ha) hinit
  have hwindow : ∀ s ∈ w.conn.streams, s.recvWindow + ((w.conn.chans s.id).body.buffered +
      (w.conn.chans s.id).body.consumedUncredited : ℤ) = 65535 := hinv.conserved.window
  refine ⟨hwindow, ?_, ?_⟩
  · intro s hs data fin hwithin
    have hsum := hwindow s hs
    have hroom : ¬streamRecvBufCap < (w.conn.chans s.id).body.buffered + data.length := by
      rw [streamRecvBufCap]
      omega
    unfold dataError
    dsimp only
    rw [if_neg (by omega), if_neg hroom]
    split_ifs <;> simp
  · intro hready s hs hread
    obtain ⟨hconserved, hspent⟩ := creditConsumedBodies_spec hinv.conserved
    have hsettled := settled_sweep hinv.shaped hready
    have hafter := hconserved.settled hsettled
    obtain ⟨t, ht, hid, -⟩ := hsettled.slots s hs
    have hnone : (w.sweep.conn.chans s.id).body.consumedUncredited = 0 := by
      rw [hsettled.body, hid]
      exact hspent t ht
    have hsum := hafter.window s hs
    rw [held, hafter.buffered, hread, hnone] at hsum
    simpa [initialWindow] using hsum

def twoFrames : List Action :=
  exchange 1 4 1 postBlock ++ exchange 0 0 1 [1, 2] ++ exchange 0 0 1 [3] ++ [.task 1 .read]

theorem receive_window_conserved_two :
    let w := World.run {} twoFrames
    (∀ s ∈ w.conn.streams, s.recvWindow + ((w.conn.chans s.id).body.buffered +
      (w.conn.chans s.id).body.consumedUncredited) = 65535) ∧
    w.conn.streams.map StreamSlot.recvWindow = [65532] :=
  ⟨(receive_window_conserved twoFrames (by decide +kernel)).1, by decide +kernel⟩

/-- Two bytes of padding: three bytes of the window are gone for good. -/
theorem padding_leaks :
    let w := World.run {} (exchange 1 4 1 postBlock ++ exchange 0 8 1 [2, 120, 0, 0] ++
      [.task 1 .read, .sweep])
    w.closed = false ∧ w.conn.streams.map StreamSlot.recvWindow = [65532] ∧
    (w.conn.chans 1).body.buffered = 0 ∧ (w.conn.chans 1).body.consumedUncredited = 0 := by
  decide +kernel

end Waitless.Http2
