import Waitless.Http2Server

/-! # What a frame and a flush do to the streams

`Effect` lists what the frames of the peer can do to the streams, and these are all
(`processFrame_effect`).

In a flush the bytes sent on a stream are what its window loses, and a slot goes away only when its
response has been ended or abandoned (`drainQueue_spec`, `drainSlots_spec`). -/

namespace Waitless.Http2

open Waitless.AesGcm Function List Streams
open World (blockOf observeWindow dataSent)

namespace Streams

variable (c : Streams) (sid : ℕ)

@[simp] theorem modifyChan_self (f : Channels → Channels) :
    (c.modifyChan sid f).chans sid = f (c.chans sid) := by simp [modifyChan]

theorem modifyChan_of_ne (f : Channels → Channels) {sid' : ℕ} (h : sid' ≠ sid) :
    (c.modifyChan sid f).chans sid' = c.chans sid' := by simp [modifyChan, h]

def slotIds : List ℕ := c.streams.map StreamSlot.id

def outIds : List ℕ := c.outQueue.map StreamOut.id

variable {c} {sid}

theorem slot_eq_none : c.slot sid = none ↔ sid ∉ c.slotIds := by
  simp [slot, slotIds]

theorem slot_isSome : (c.slot sid).isSome ↔ sid ∈ c.slotIds := by
  rw [← not_iff_not, Bool.not_eq_true, Option.isSome_eq_false_iff, Option.isNone_iff_eq_none,
    slot_eq_none]

theorem mem_of_slot {s : StreamSlot} (h : c.slot sid = some s) : s ∈ c.streams ∧ s.id = sid := by
  refine ⟨mem_of_find?_eq_some h, ?_⟩
  simpa using find?_some h

theorem eq_of_slot {s t : StreamSlot} (hnodup : c.slotIds.Nodup) (h : c.slot sid = some t)
    (hs : s ∈ c.streams) (hid : s.id = sid) : s = t := by
  obtain ⟨ht, hid'⟩ := mem_of_slot h
  exact inj_on_of_nodup_map hnodup hs ht (hid.trans hid'.symm)

end Streams

def Streams.shift (c : Streams) (value : ℤ) : Streams :=
  { c with
    outQueue := c.outQueue.map fun o =>
      { o with sendWindow := o.sendWindow + (value - c.peerInitialWindow) }
    streams := c.streams.map fun s =>
      { s with sendWindow := s.sendWindow + (value - c.peerInitialWindow) }
    peerInitialWindow := value }

/-- `block` is the header block it completes. -/
inductive Effect (c : Streams) (hdr : FrameHeader) (payload : Bytes) (block : Option (ℕ × Bool)) :
    Streams → Prop
  | nothing (hsettings : hdr.ty ≠ .settings)
      (hcredit : hdr.ty = .windowUpdate →
        windowIncrement payload = 0 ∨ hdr.streamId = 0 ∨
          hdr.streamId ∉ c.slotIds ∧ hdr.streamId ∉ c.outIds)
      (hdata : hdr.ty = .data → hdr.streamId ∉ c.slotIds)
      (hblock : ∀ sid, block = some (sid, true) → sid ∉ c.slotIds) :
      Effect c hdr payload block c
  | settings (h : hdr.ty = .settings) :
      Effect c hdr payload block (c.shift (observeWindow hdr payload c.peerInitialWindow))
  | creditOut (h : hdr.ty = .windowUpdate) (hout : hdr.streamId ∈ c.outIds) :
      Effect c hdr payload block (c.creditOut hdr.streamId (windowIncrement payload))
  | creditSlot (h : hdr.ty = .windowUpdate) (hout : hdr.streamId ∉ c.outIds) :
      Effect c hdr payload block (c.creditSlot hdr.streamId (windowIncrement payload))
  | data (h : hdr.ty = .data) {slot : StreamSlot} (hslot : c.slot hdr.streamId = some slot)
      {bytes : Bytes} (hbytes : dataPayload payload hdr.flags = some bytes)
      (hok : c.dataError slot hdr.length bytes (hdr.hasFlag Flags.endStream) = none) :
      Effect c hdr payload block
        (c.deliver hdr.streamId hdr.length bytes (hdr.hasFlag Flags.endStream))
  | badData (h : hdr.ty = .data) {slot : StreamSlot} (hslot : c.slot hdr.streamId = some slot)
      {bytes : Bytes} (hbytes : dataPayload payload hdr.flags = some bytes) {code : ErrorCode}
      (hbad : c.dataError slot hdr.length bytes (hdr.hasFlag Flags.endStream) = some code) :
      Effect c hdr payload block (c.serverReset hdr.streamId)
  | reset (h : hdr.ty = .rstStream) (hcap : c.streamsReset < rstFloodCap) :
      Effect c hdr payload block (c.peerReset hdr.streamId)
  | trailers {sid : ℕ} (hblock : block = some (sid, true)) (hslot : sid ∈ c.slotIds) :
      Effect c hdr payload block (c.modifyBody sid fun d => { d with eof := true })
  | late {sid : ℕ} {fin : Bool} (hblock : block = some (sid, fin)) (hslot : sid ∉ c.slotIds)
      (hcap : c.streamsReset < rstFloodCap) (hold : sid ≤ c.lastStreamId) :
      Effect c hdr payload block { c with streamsReset := c.streamsReset + 1 }
  | refused {sid : ℕ} {fin : Bool} (hblock : block = some (sid, fin)) (hnew : c.lastStreamId < sid) :
      Effect c hdr payload block { c with lastStreamId := sid }
  | inlined {sid : ℕ} (hblock : block = some (sid, true)) (hnew : c.lastStreamId < sid) :
      Effect c hdr payload block { c with lastStreamId := sid, inline := some sid }
  | spawned {sid : ℕ} (hblock : block = some (sid, false)) (hnew : c.lastStreamId < sid)
      (hactive : c.activeCount < maxConcurrentStreams) (contentLength : Option ℕ) :
      Effect c hdr payload block
        ({ c with lastStreamId := sid }.spawnStreaming sid contentLength)

/-- A body's channels when its connection is given up. -/
def BodyKept (d d' : BodyChan) : Prop := d' = d ∨ d' = { d with reset := true }

/-- Tasks and bodies are as before, up to resets. -/
structure Faulted (c c' : Streams) : Prop where
  tasks : c'.tasks = c.tasks
  spawned : c'.spawned = c.spawned
  inline : c'.inline = c.inline
  lastStreamId : c'.lastStreamId = c.lastStreamId
  respSink : c'.respSink = c.respSink
  head : ∀ sid, (c'.chans sid).tx.head = (c.chans sid).tx.head
  body : ∀ sid, BodyKept (c.chans sid).body (c'.chans sid).body

theorem Faulted.of_chans {c c' : Streams} (h : c' = { c with
    outQueue := c'.outQueue, streams := c'.streams, peerInitialWindow := c'.peerInitialWindow,
    streamsReset := c'.streamsReset }) : Faulted c c' := by
  rw [h]
  exact ⟨rfl, rfl, rfl, rfl, rfl, fun _ => rfl, fun _ => .inl rfl⟩

theorem Faulted.refl (c : Streams) : Faulted c c := .of_chans rfl

theorem Faulted.trans {c c₁ c₂ : Streams} (h₁ : Faulted c c₁) (h₂ : Faulted c₁ c₂) :
    Faulted c c₂ := by
  refine ⟨h₂.tasks.trans h₁.tasks, h₂.spawned.trans h₁.spawned, h₂.inline.trans h₁.inline,
    h₂.lastStreamId.trans h₁.lastStreamId, h₂.respSink.trans h₁.respSink,
    fun sid => (h₂.head sid).trans (h₁.head sid), ?_⟩
  intro sid
  rcases h₁.body sid with e1 | e1 <;> rcases h₂.body sid with e2 | e2 <;>
    simp [BodyKept, e1, e2]

def Outcome.Meets (o : Outcome) (success failure : Streams → Prop) : Prop :=
  match o with
  | (.ok (), c) => success c.toStreams
  | (.error _, c) => failure c.toStreams

theorem Outcome.Meets.mono {o : Outcome} {P P' Q Q' : Streams → Prop} (h : o.Meets P Q)
    (hP : ∀ c, P c → P' c) (hQ : ∀ c, Q c → Q' c) : o.Meets P' Q' := by
  obtain ⟨⟨⟩ | ⟨⟩, c⟩ := o
  · exact hQ _ h
  · exact hP _ h

namespace H2Conn

variable {c : H2Conn} {hdr : FrameHeader} {payload : Bytes} {block : Option (ℕ × Bool)}

@[simp] theorem toStreams_onStreams (f : Streams → Streams) :
    (c.onStreams f).toStreams = f c.toStreams := rfl

@[simp] theorem toStreams_ctrl (frames : List CtrlFrame) : (c.ctrl frames).toStreams = c.toStreams :=
  rfl

@[simp] theorem toStreams_creditConn (n : ℕ) : (c.creditConn n).toStreams = c.toStreams := by
  unfold creditConn
  split_ifs <;> rfl

theorem meets_ok {P Q : Streams → Prop} : c.ok.Meets P Q ↔ P c.toStreams := Iff.rfl

open Faulted

theorem meets_fail {P : Streams → Prop} (e : ErrorCode) : (c.fail e).Meets P (Faulted c.toStreams) :=
  refl _

/-! #### SETTINGS -/

variable {α : Type}

variable {shift : α → α} {window : α → ℤ}

theorem shiftWindows_eq {l : List α}
    (h : (shiftWindows shift window l).2 = true) : (shiftWindows shift window l).1 = l.map shift := by
  induction l with
  | nil => rfl
  | cons a l ih =>
    rw [shiftWindows] at h ⊢
    split_ifs at h ⊢
    rw [map_cons, ← ih h]

theorem shiftWindows_zero (hid : ∀ a, shift a = a)
    (l : List α) : (shiftWindows shift window l).1 = l := by
  induction l with
  | nil => rfl
  | cons a l ih =>
    rw [shiftWindows]
    split_ifs
    · rw [hid]
    · dsimp only
      rw [hid, ih]

theorem shiftWindows_of_ok {l : List α} {delta : ℤ}
    (hid : delta = 0 → ∀ a, shift a = a) (h : ¬(delta ≠ 0 ∧ !(shiftWindows shift window l).2)) :
    (shiftWindows shift window l).1 = l.map shift := by
  by_cases hd : delta = 0
  · rw [shiftWindows_zero (hid hd), map_congr_left fun a _ => hid hd a, map_id']
  · refine shiftWindows_eq ?_
    by_contra hne
    exact h ⟨hd, by simpa using hne⟩

def nextWindow (w : ℤ) (p : ℕ × ℕ) : ℤ :=
  if p.1 = SettingsId.initialWindowSize then (p.2 : ℤ) else w

theorem shift_self (c : Streams) : c.shift c.peerInitialWindow = c := by
  simp [shift]

theorem faulted_shift (c : Streams) (v : ℤ) : Faulted c (c.shift v) :=
  .of_chans rfl

theorem shift_shift (c : Streams) (v w : ℤ) : (c.shift v).shift w = c.shift w := by
  simp only [Streams.shift, List.map_map, Streams.mk.injEq, and_true]
  constructor
  · refine List.map_congr_left fun o _ => ?_
    simp only [Function.comp_apply, StreamOut.mk.injEq, true_and]
    omega
  · refine List.map_congr_left fun s _ => ?_
    simp only [Function.comp_apply, StreamSlot.mk.injEq, true_and, and_true]
    omega

theorem applySetting_spec (c : H2Conn) (id value : ℕ) :
    (c.applySetting id value).Meets
      (· = c.toStreams.shift (nextWindow c.peerInitialWindow (id, value)))
      (Faulted c.toStreams) := by
  unfold applySetting
  by_cases hid : id = SettingsId.initialWindowSize
  · rw [if_pos hid, applyInitialWindow]
    split_ifs with hmax
    · exact meets_fail _
    · dsimp only
      split_ifs with hqueue hslots
      · exact .of_chans rfl
      · exact .of_chans rfl
      · have h1 := shiftWindows_of_ok (fun h a => by simp [h]) hqueue
        have h2 := shiftWindows_of_ok (fun h a => by simp [h]) hslots
        dsimp only [ok, Outcome.Meets]
        rw [h1, h2]
        simp [shift, nextWindow, hid]
  · have hnext : nextWindow c.peerInitialWindow (id, value) = c.peerInitialWindow := if_neg hid
    rw [if_neg hid, hnext, shift_self]
    split_ifs <;> first | exact rfl | exact meets_fail _

theorem applySettings_spec (c : H2Conn) (params : List (ℕ × ℕ)) :
    (c.applySettings params).Meets
      (· = c.toStreams.shift (params.foldl nextWindow c.peerInitialWindow))
      (Faulted c.toStreams) := by
  induction params generalizing c with
  | nil => exact (shift_self _).symm
  | cons p params ih =>
    obtain ⟨id, value⟩ := p
    have hone := applySetting_spec c id value
    rw [applySettings, foldl_cons]
    revert hone
    generalize c.applySetting id value = r
    obtain ⟨⟨⟩ | ⟨⟩, c1⟩ := r
    · exact fun hone => hone
    · intro (hone : c1.toStreams = _)
      have hwindow : c1.peerInitialWindow = nextWindow c.peerInitialWindow (id, value) := by
        rw [hone]
        rfl
      refine (ih c1).mono ?_ ?_
      · intro c2 h2
        rw [h2, hwindow, hone, shift_shift]
      · intro c2 h2
        rw [hone] at h2
        exact (faulted_shift _ _).trans h2

theorem processSettings_spec (hty : hdr.ty = .settings) :
    (c.processSettings hdr payload).Meets (Effect c.toStreams hdr payload block)
      (Faulted c.toStreams) := by
  have heffect : ∀ {c' : Streams} {v : ℤ}, observeWindow hdr payload c.peerInitialWindow = v →
      c' = c.shift v → Effect c.toStreams hdr payload block c' := by
    rintro c' v rfl rfl
    exact .settings hty
  unfold processSettings
  split_ifs with hzero hack hlen
  · exact meets_fail _
  · exact meets_fail _
  · exact heffect (by simp [observeWindow, hack]) (shift_self _).symm
  · cases hparams : parseSettings payload with
    | none => exact meets_fail _
    | some params =>
      have hpairs : settingPairs payload = params := by
        unfold parseSettings at hparams
        split_ifs at hparams
        exact Option.some.inj hparams
      have hspec := applySettings_spec c params
      dsimp only
      revert hspec
      generalize c.applySettings params = r
      obtain ⟨⟨⟩ | ⟨⟩, c1⟩ := r
      · exact fun hspec => hspec
      · intro hspec
        exact heffect (by rw [observeWindow, if_pos ⟨hty, by simpa using hack⟩, hpairs]; rfl) hspec

/-! #### DATA, WINDOW_UPDATE and RST_STREAM -/

theorem processData_spec (hty : hdr.ty = .data) (hblock : block = none) :
    (c.processData hdr payload).Meets (Effect c.toStreams hdr payload block)
      (Faulted c.toStreams) := by
  unfold processData
  split_ifs with hzero
  · exact meets_fail _
  cases hbytes : dataPayload payload hdr.flags with
  | none => exact meets_fail _
  | some bytes =>
    cases hslot : c.slot hdr.streamId with
    | none =>
      rw [meets_ok, toStreams_creditConn]
      exact .nothing (by simp [hty]) (by simp [hty]) (fun _ => slot_eq_none.mp hslot)
        (by simp [hblock])
    | some slot =>
      dsimp only
      cases herr : c.dataError slot hdr.length bytes (hdr.hasFlag Flags.endStream) with
      | none =>
        rw [meets_ok, toStreams_creditConn]
        exact .data hty hslot hbytes herr
      | some code =>
        rw [meets_ok, toStreams_creditConn]
        exact .badData hty hslot hbytes herr

theorem processWindowUpdate_spec (hty : hdr.ty = .windowUpdate) (hblock : block = none) :
    (c.processWindowUpdate hdr payload).Meets (Effect c.toStreams hdr payload block)
      (Faulted c.toStreams) := by
  have hnothing (h : windowIncrement payload = 0 ∨ hdr.streamId = 0 ∨
      hdr.streamId ∉ c.slotIds ∧ hdr.streamId ∉ c.outIds) :
      Effect c.toStreams hdr payload block c.toStreams :=
    .nothing (by simp [hty]) (fun _ => h) (by simp [hty]) (by simp [hblock])
  unfold processWindowUpdate
  dsimp only
  split_ifs with hlen hinc hzero hzero hmax
  · exact meets_fail _
  · exact meets_fail _
  · exact hnothing (.inl hinc)
  · exact .of_chans rfl
  · exact hnothing (.inr (.inl hzero))
  · cases hout : c.outQueue.find? fun o => o.id = hdr.streamId with
    | some item =>
      have hmem : hdr.streamId ∈ c.outIds :=
        mem_map.mpr ⟨item, mem_of_find?_eq_some hout, by simpa using find?_some hout⟩
      dsimp only
      split_ifs <;> exact .creditOut hty hmem
    | none =>
      have hout' : hdr.streamId ∉ c.outIds := by simpa [outIds] using hout
      cases hslot : c.slot hdr.streamId with
      | some slot =>
        dsimp only
        split_ifs <;> exact .creditSlot hty hout'
      | none => exact hnothing (.inr (.inr ⟨slot_eq_none.mp hslot, hout'⟩))

theorem faulted_modifyChan {c : Streams} {sid : ℕ} {f : Channels → Channels}
    (hhead : (f (c.chans sid)).tx.head = (c.chans sid).tx.head)
    (hbody : BodyKept (c.chans sid).body (f (c.chans sid)).body) : Faulted c (c.modifyChan sid f) := by
  refine ⟨rfl, rfl, rfl, rfl, rfl, fun sid' => ?_, fun sid' => ?_⟩
  all_goals
    by_cases h : sid' = sid
    · subst h
      rw [modifyChan_self]
      assumption
    · simp [modifyChan_of_ne _ _ _ h, BodyKept]

theorem faulted_serverReset (c : Streams) (sid : ℕ) : Faulted c (c.serverReset sid) := by
  unfold serverReset
  split_ifs
  · exact .trans (.of_chans rfl) (faulted_modifyChan rfl (.inr rfl))
  · exact .refl c

theorem faulted_peerReset (c : Streams) (sid : ℕ) : Faulted c (c.peerReset sid) := by
  unfold peerReset
  dsimp only
  split_ifs
  · exact .trans (.of_chans rfl) (.trans (faulted_modifyChan rfl (.inr rfl)) (.of_chans rfl))
  · exact .of_chans rfl

theorem streamsReset_peerReset (c : Streams) (sid : ℕ) :
    (c.peerReset sid).streamsReset = c.streamsReset + 1 := by
  unfold peerReset
  dsimp only
  split_ifs <;> rfl

theorem processRstStream_spec (hty : hdr.ty = .rstStream) :
    (c.processRstStream hdr).Meets (Effect c.toStreams hdr payload block) (Faulted c.toStreams) := by
  unfold processRstStream
  dsimp only
  split_ifs with hzero hlen hcap
  · exact meets_fail _
  · exact meets_fail _
  · exact faulted_peerReset _ _
  · refine .reset hty ?_
    rw [toStreams_onStreams, streamsReset_peerReset] at hcap
    omega

/-! #### HEADERS and CONTINUATION -/

theorem completeHeaders_spec (spawns : Bool) {sid : ℕ} {fin : Bool} (bytes : Bytes)
    (hty : hdr.ty = .headers ∨ hdr.ty = .continuation) (hblock : block = some (sid, fin)) :
    (c.completeHeaders spawns sid fin bytes).Meets (Effect c.toStreams hdr payload block)
      (Faulted c.toStreams) := by
  unfold completeHeaders
  generalize c.hpack.decode bytes nameScratchLen valueScratchLen = decoded
  obtain ⟨verdict, hpack, fields⟩ := decoded
  cases verdict with
  | error e =>
    cases e <;> exact refl c.toStreams
  | ok u =>
    dsimp only
    split_ifs with hslot hfin hlast hcap hbad hactive hend hlen hspawn
    · subst hfin
      exact .trailers hblock (slot_isSome.mp hslot)
    · refine .nothing ?_ ?_ ?_ ?_
      · rcases hty with h | h <;> simp [h]
      · rcases hty with h | h <;> simp [h]
      · rcases hty with h | h <;> simp [h]
      · simp [hblock, hfin]
    · exact .of_chans rfl
    · refine .late hblock (fun h => hslot (slot_isSome.mpr h)) ?_ hlast
      exact Nat.lt_of_succ_le (not_lt.mp hcap)
    · exact .refused hblock (not_le.mp hlast)
    · exact .refused hblock (not_le.mp hlast)
    · exact .refused hblock (not_le.mp hlast)
    · subst hend
      exact .inlined hblock (not_le.mp hlast)
    · rw [Bool.not_eq_true] at hend
      subst hend
      exact .spawned hblock (not_le.mp hlast) (not_le.mp hactive) _
    · exact .refused hblock (not_le.mp hlast)

theorem processHeaders_spec (spawns : Bool) (hty : hdr.ty = .headers)
    (hblock : block = if hdr.hasFlag Flags.endHeaders then
      some (hdr.streamId, hdr.hasFlag Flags.endStream) else none) :
    (c.processHeaders spawns hdr payload).Meets (Effect c.toStreams hdr payload block)
      (Faulted c.toStreams) := by
  unfold processHeaders
  by_cases hid : hdr.streamId = 0 ∨ hdr.streamId % 2 = 0
  · rw [if_pos hid]
    exact meets_fail _
  · rw [if_neg hid]
    cases headersFragment payload hdr.flags with
    | none => exact meets_fail _
    | some frag =>
      dsimp only
      split_ifs with hend hcap
      · rw [if_pos hend] at hblock
        exact completeHeaders_spec spawns frag (.inl hty) hblock
      · exact meets_fail _
      · rw [if_neg hend] at hblock
        exact .nothing (by simp [hty]) (by simp [hty]) (by simp [hty]) (by simp [hblock])

theorem continueHeaders_spec (spawns : Bool) (asm : HeaderAsm) (hty : hdr.ty = .continuation)
    (hblock : block = if hdr.hasFlag Flags.endHeaders then some (asm.streamId, asm.endStream)
      else none) :
    (c.continueHeaders spawns asm hdr payload).Meets (Effect c.toStreams hdr payload block)
      (Faulted c.toStreams) := by
  unfold continueHeaders
  dsimp only
  split_ifs with hframes hcap hend
  · exact refl c.toStreams
  · exact refl c.toStreams
  · rw [if_pos hend] at hblock
    exact @completeHeaders_spec { c with headerAsm := none } hdr payload block spawns _ _ _ (.inr hty) hblock
  · rw [if_neg hend] at hblock
    exact .nothing (by simp [hty]) (by simp [hty]) (by simp [hty]) (by simp [hblock])

/-! #### All frames -/

theorem noteFrameForFloodGuard_spec (ty : FrameType) (length : ℕ) :
    (c.noteFrameForFloodGuard ty length).Meets (· = c.toStreams) (· = c.toStreams) := by
  unfold noteFrameForFloodGuard
  dsimp only
  split_ifs <;> exact rfl

theorem dispatchFrame_spec (spawns : Bool) (hblock : block = blockOf c hdr) :
    (c.dispatchFrame spawns hdr payload).Meets (Effect c.toStreams hdr payload block)
      (Faulted c.toStreams) := by
  have hnone (h : hdr.ty ≠ .headers) (h' : hdr.ty ≠ .continuation) : block = none := by
    rw [hblock, blockOf]
    split_ifs
    · rfl
    · cases hty : hdr.ty <;> simp_all
  unfold dispatchFrame
  cases hty : hdr.ty with
  | settings => exact processSettings_spec hty
  | headers =>
    refine processHeaders_spec spawns hty ?_
    rw [hblock, blockOf, hty]
    cases hdr.hasFlag Flags.endHeaders <;> rfl
  | data => exact processData_spec hty (hnone (by simp [hty]) (by simp [hty]))
  | windowUpdate => exact processWindowUpdate_spec hty (hnone (by simp [hty]) (by simp [hty]))
  | rstStream => exact processRstStream_spec hty
  | pushPromise => exact meets_fail _
  | continuation => exact meets_fail _
  | ping =>
    have hnothing : Effect c.toStreams hdr payload block c.toStreams :=
      .nothing (by simp [hty]) (by simp [hty]) (by simp [hty])
        (by simp [hnone (by simp [hty]) (by simp [hty])])
    unfold processPing
    split_ifs <;> first | exact meets_fail _ | exact hnothing
  | priority | goaway | unknown ty =>
    exact .nothing (by simp [hty]) (by simp [hty]) (by simp [hty])
      (by simp [hnone (by simp [hty]) (by simp [hty])])

end H2Conn

open H2Conn in
/-- **What a frame does.** -/
theorem processFrame_effect (c : H2Conn) (spawns : Bool) (hdr : FrameHeader) (payload : Bytes) :
    (c.processFrame spawns hdr payload).Meets
      (Effect c.toStreams hdr payload (blockOf c hdr)) (Faulted c.toStreams) := by
  unfold processFrame
  cases hasm : c.headerAsm with
  | some asm =>
    dsimp only
    split_ifs with hbad
    · exact meets_fail _
    · have hty : hdr.ty = .continuation := by
        by_contra h
        exact hbad (.inl h)
      refine continueHeaders_spec spawns asm hty ?_
      rw [blockOf, hty, hasm]
      cases hdr.hasFlag Flags.endHeaders <;> rfl
  | none =>
    dsimp only
    split_ifs with hcont
    · exact meets_fail _
    · have hguard := noteFrameForFloodGuard_spec (c := c) hdr.ty hdr.length
      have hasm1 : (c.noteFrameForFloodGuard hdr.ty hdr.length).2.headerAsm = none := by
        unfold noteFrameForFloodGuard
        dsimp only
        split_ifs <;> exact hasm
      revert hguard hasm1
      generalize c.noteFrameForFloodGuard hdr.ty hdr.length = r
      obtain ⟨⟨⟩ | ⟨⟩, c1⟩ := r
      · intro (hguard : c1.toStreams = c.toStreams) _
        exact hguard ▸ Faulted.refl _
      · intro (hguard : c1.toStreams = c.toStreams) (hasm1 : c1.headerAsm = none)
        rw [← hguard]
        refine dispatchFrame_spec spawns ?_
        rw [blockOf, blockOf, hasm, hasm1]

@[simp] theorem dataSent_nil (sid : ℕ) : dataSent sid [] = 0 := rfl

theorem dataSent_append (sid : ℕ) (a b : List OutFrame) :
    dataSent sid (a ++ b) = dataSent sid a + dataSent sid b := by
  simp [dataSent]

theorem dataSent_cons (sid : ℕ) (f : OutFrame) (fs : List OutFrame) :
    dataSent sid (f :: fs) = dataSent sid [f] + dataSent sid fs :=
  dataSent_append sid [f] fs

@[simp] theorem dataSent_data (sid id : ℕ) (fin : Bool) (payload : Bytes) :
    dataSent sid [.data id fin payload] = if id = sid then payload.length else 0 := by
  simp [dataSent]

@[simp] theorem dataSent_headers (sid id : ℕ) (fin : Bool) (block : Bytes) :
    dataSent sid [.headers id fin block] = 0 := rfl

namespace H2Conn

/-- What is sent of a queued response is what its window loses. -/
structure OutSent (item : StreamOut) (r : List OutFrame × ℤ × Option StreamOut) : Prop where
  other : ∀ sid, sid ≠ item.id → dataSent sid r.1 = 0
  keep : ∀ item' ∈ r.2.2, item'.id = item.id ∧
    item'.sendWindow = item.sendWindow - dataSent item.id r.1

theorem emitOut_spec (peerMax fuel : ℕ) (w : ℤ) (item : StreamOut) :
    OutSent item (emitOut peerMax fuel w item) := by
  induction fuel generalizing w item with
  | zero => exact ⟨fun _ _ => rfl, by simp [emitOut]⟩
  | succ fuel ih =>
    unfold emitOut
    dsimp only
    split_ifs with hhead hend hempty hallowed hfinish
    · exact ⟨fun _ _ => rfl, by simp⟩
    · obtain ⟨hother, hkeep⟩ := ih w { item with headersSent := true }
      refine ⟨fun sid hne => ?_, fun item' hmem => ?_⟩
      · rw [dataSent_cons, dataSent_headers, hother sid hne]
      · rw [dataSent_cons, dataSent_headers, Nat.zero_add]
        exact hkeep item' hmem
    · exact ⟨fun _ _ => rfl, by simp⟩
    · exact ⟨fun _ _ => rfl, by simp⟩
    · refine ⟨fun sid hne => ?_, by simp⟩
      rw [dataSent_data, if_neg (Ne.symm hne)]
    · have hle : (min (min (min w item.sendWindow) ↑peerMax) ↑item.body.length).toNat ≤
          item.body.length := by omega
      generalize (min (min (min w item.sendWindow) ↑peerMax) ↑item.body.length).toNat = n at hle ⊢
      obtain ⟨hother, hkeep⟩ := ih (w - n)
        { item with body := item.body.drop n, sendWindow := item.sendWindow - n }
      refine ⟨fun sid hne => ?_, fun item' hmem => ?_⟩
      · rw [dataSent_cons, dataSent_data, if_neg (Ne.symm hne), hother sid hne]
      · obtain ⟨hid, hwindow⟩ := hkeep item' hmem
        refine ⟨hid, ?_⟩
        rw [hwindow, dataSent_cons, dataSent_data, if_pos rfl, length_take, min_eq_left hle]
        push_cast
        ring

structure QueueSent (items : List StreamOut) (r : List OutFrame × ℤ × List StreamOut) : Prop where
  other : ∀ sid ∉ items.map StreamOut.id, dataSent sid r.1 = 0
  ids : (r.2.2.map StreamOut.id).Sublist (items.map StreamOut.id)
  keep : (items.map StreamOut.id).Nodup → ∀ o' ∈ r.2.2, ∃ o ∈ items,
    o'.id = o.id ∧ o'.sendWindow = o.sendWindow - dataSent o.id r.1

theorem drainQueue_spec (peerMax : ℕ) (w : ℤ) (items : List StreamOut) :
    QueueSent items (drainQueue peerMax w items) := by
  induction items generalizing w with
  | nil => exact ⟨fun _ _ => rfl, List.Sublist.refl _, by simp [drainQueue]⟩
  | cons item items ih =>
    unfold drainQueue
    have hone := emitOut_spec peerMax (item.body.length + 2) w item
    generalize emitOut peerMax (item.body.length + 2) w item = r at hone
    obtain ⟨frames, w1, item1⟩ := r
    have hrest := ih w1
    dsimp only
    generalize drainQueue peerMax w1 items = r at hrest
    obtain ⟨frames', w2, items'⟩ := r
    refine ⟨fun sid hsid => ?_, ?_, fun hnodup o' ho' => ?_⟩
    · rw [map_cons, mem_cons, not_or] at hsid
      rw [dataSent_append, hone.other sid hsid.1, hrest.other sid hsid.2]
    · rw [map_append, map_cons]
      cases item1 with
      | none => exact hrest.ids.cons _
      | some item' =>
        rw [Option.toList_some, map_singleton, (hone.keep item' rfl).1]
        exact hrest.ids.cons_cons _
    · rw [map_cons, nodup_cons] at hnodup
      rcases mem_append.mp ho' with ho' | ho'
      · obtain ⟨hid, hwindow⟩ := hone.keep o' (by simpa using ho')
        refine ⟨item, mem_cons_self, hid, ?_⟩
        rw [hwindow, dataSent_append, hrest.other item.id hnodup.1, Nat.add_zero]
      · obtain ⟨o, ho, hid, hwindow⟩ := hrest.keep hnodup.2 o' ho'
        refine ⟨o, mem_cons_of_mem _ ho, hid, ?_⟩
        have hne : o.id ≠ item.id := fun e => hnodup.1 (e ▸ mem_map_of_mem ho)
        rw [hwindow, dataSent_append, hone.other o.id hne, Nat.zero_add]

/-- What stays of a channel when frames are sent from it. -/
structure TxKept (d d' : TxChan) : Prop where
  head : d'.head = d.head
  fin : d'.fin = d.fin
  reset : d'.reset = d.reset

def SlotSent (n : ℕ) (s s' : StreamSlot) : Prop :=
  s' = { s with sendWindow := s.sendWindow - n, headersSent := s'.headersSent }

structure ChunksSent (s : StreamSlot) (d : TxChan)
    (r : List OutFrame × ℤ × StreamSlot × TxChan × Bool) : Prop where
  other : ∀ sid, sid ≠ s.id → dataSent sid r.1 = 0
  slot : SlotSent (dataSent s.id r.1) s r.2.2.1
  tx : TxKept d r.2.2.2.1

theorem SlotSent.id_eq {n : ℕ} {s s' : StreamSlot} (h : SlotSent n s s') : s'.id = s.id := by
  rw [h]

theorem chunksSent_nothing (w : ℤ) (s : StreamSlot) (d : TxChan) (done : Bool) :
    ChunksSent s d ([], w, s, d, done) :=
  ⟨fun _ _ => rfl, by simp [SlotSent], ⟨rfl, rfl, rfl⟩⟩

theorem emitChunks_spec (peerMax fuel : ℕ) (w : ℤ) (s : StreamSlot) (d : TxChan) :
    ChunksSent s d (emitChunks peerMax fuel w s d) := by
  induction fuel generalizing w s d with
  | zero => exact chunksSent_nothing w s d false
  | succ fuel ih =>
    unfold emitChunks
    cases hchunks : d.chunks with
    | nil => exact chunksSent_nothing w s d false
    | cons front chunks =>
      dsimp only
      by_cases hallowed : min (min (min w s.sendWindow) ↑peerMax) ↑front.length ≤ 0
      · rw [if_pos hallowed]
        exact chunksSent_nothing w s d false
      · rw [if_neg hallowed]
        have hle : (min (min (min w s.sendWindow) ↑peerMax) ↑front.length).toNat ≤
            front.length := by omega
        generalize (min (min (min w s.sendWindow) ↑peerMax) ↑front.length).toNat = n at hle ⊢
        generalize hd : ({ d with
          chunks := if n = front.length then chunks else front.drop n :: chunks
          buffered := d.buffered - n } : TxChan) = d1
        have hrest := ih (w - n) { s with sendWindow := s.sendWindow - n } d1
        generalize emitChunks peerMax fuel (w - n) { s with sendWindow := s.sendWindow - n } d1 = r
          at hrest
        obtain ⟨frames, w', s', d', ended⟩ := r
        obtain ⟨hother, hslot, htx⟩ := hrest
        dsimp only [SlotSent] at hother hslot htx ⊢
        have hid : s'.id = s.id := by rw [hslot]
        refine ⟨fun sid hne => ?_, ?_, ?_⟩
        · rw [dataSent_cons, dataSent_data, hid, if_neg (Ne.symm hne), hother sid hne]
        · dsimp only [SlotSent]
          rw [dataSent_cons, dataSent_data, if_pos hid, length_take, min_eq_left hle]
          rw [hslot]
          push_cast
          simp only [StreamSlot.mk.injEq, true_and, and_true]
          ring
        · subst hd
          exact ⟨htx.head, htx.fin, htx.reset⟩

/-- It goes when the response was ended or abandoned. -/
structure StreamingSent (s : StreamSlot) (d : TxChan)
    (r : List OutFrame × ℤ × StreamSlot × TxChan × Bool) : Prop extends ChunksSent s d r where
  done : r.2.2.2.2 = true → d.reset = true ∨ d.fin = true
  unsent : d.head = none → dataSent s.id r.1 = 0

theorem ChunksSent.around {s s' : StreamSlot} {d d' : TxChan} {frames : List OutFrame} {w : ℤ}
    {headersSent ended : Bool}
    (hsent : ChunksSent { s with headersSent } d (frames, w, s', d', ended))
    {before behind : List OutFrame} (hbefore : ∀ sid, dataSent sid before = 0)
    (hbehind : ∀ sid, dataSent sid behind = 0) (done : Bool) :
    ChunksSent s d (before ++ frames ++ behind, w, s', d', done) := by
  have heq (sid : ℕ) : dataSent sid (before ++ frames ++ behind) = dataSent sid frames := by
    rw [dataSent_append, dataSent_append, hbefore, hbehind, Nat.zero_add, Nat.add_zero]
  refine ⟨fun sid hne => (heq sid).trans (hsent.other sid hne), ?_, hsent.tx⟩
  rw [heq]
  exact hsent.slot

theorem emitStreaming_spec (peerMax : ℕ) (w : ℤ) (s : StreamSlot) (d : TxChan) :
    StreamingSent s d (emitStreaming peerMax w s d) := by
  unfold emitStreaming
  by_cases hreset : d.reset = true
  · rw [if_pos hreset]
    split_ifs with hsent
    · exact ⟨⟨fun _ _ => rfl, by simp [SlotSent, dataSent], ⟨rfl, rfl, rfl⟩⟩, fun _ => .inl hreset,
        fun _ => rfl⟩
    · exact ⟨chunksSent_nothing w s d _, fun _ => .inl hreset, fun _ => rfl⟩
  · rw [if_neg hreset]
    cases hhead : d.head with
    | none => exact ⟨chunksSent_nothing w s d false, by simp, fun _ => rfl⟩
    | some block =>
      have hbefore (fin : Bool) (sid : ℕ) :
          dataSent sid (if s.headersSent then [] else [OutFrame.headers s.id fin block]) = 0 := by
        split_ifs <;> rfl
      dsimp only
      by_cases hend : (!s.headersSent && (d.fin && d.chunks.isEmpty)) = true
      · rw [if_pos hend]
        have hfin : d.fin = true := by simp_all
        have hempty : ChunksSent { s with headersSent := true } d
            ([], w, { s with headersSent := true }, d, true) := chunksSent_nothing _ _ _ _
        have haround := hempty.around (hbefore (d.fin && d.chunks.isEmpty)) (fun _ => dataSent_nil _)
          true
        rw [append_nil, append_nil] at haround
        exact ⟨haround, fun _ => .inr hfin, by simp [hhead]⟩
      · rw [if_neg hend]
        have hchunks := emitChunks_spec peerMax (d.chunks.flatten.length + d.chunks.length + 1) w
          { s with headersSent := true } d
        generalize emitChunks peerMax (d.chunks.flatten.length + d.chunks.length + 1) w
          { s with headersSent := true } d = r at hchunks
        obtain ⟨frames, w', s', d', ended⟩ := r
        by_cases hdone : (d'.fin && d'.chunks.isEmpty) = true
        · rw [if_pos hdone]
          refine ⟨hchunks.around (hbefore _) (fun sid => ?_) true, fun _ => .inr ?_, by simp [hhead]⟩
          · split_ifs <;> simp
          · rw [← hchunks.tx.fin]
            exact (Bool.and_eq_true_iff.mp hdone).1
        · rw [if_neg hdone]
          have haround := hchunks.around (hbefore (d.fin && d.chunks.isEmpty))
            (fun _ => dataSent_nil _) false
          rw [append_nil] at haround
          exact ⟨haround, by simp, by simp [hhead]⟩

theorem drainSlots_chans (peerMax : ℕ) (w : ℤ) (chans : ℕ → Channels) (ss : List StreamSlot) (sid : ℕ) :
    ((drainSlots peerMax w chans ss).2.2.1 sid).body = (chans sid).body ∧
    TxKept (chans sid).tx ((drainSlots peerMax w chans ss).2.2.1 sid).tx := by
  induction ss generalizing w chans with
  | nil => exact ⟨rfl, rfl, rfl, rfl⟩
  | cons s ss ih =>
    unfold drainSlots
    have hone := emitStreaming_spec peerMax w s (chans s.id).tx
    generalize emitStreaming peerMax w s (chans s.id).tx = r at hone
    obtain ⟨frames, w1, s1, d1, done⟩ := r
    have hid : s1.id = s.id := hone.slot.id_eq
    dsimp only
    rw [hid]
    obtain ⟨hbody, htx⟩ := ih w1 (update chans s.id { chans s.id with tx := d1 })
    by_cases h : sid = s.id
    · subst h
      rw [update_self] at hbody htx
      exact ⟨hbody, htx.head.trans hone.tx.head, htx.fin.trans hone.tx.fin,
        htx.reset.trans hone.tx.reset⟩
    · rw [update_of_ne h] at hbody htx
      exact ⟨hbody, htx⟩

structure SlotsSent (chans : ℕ → Channels) (ss : List StreamSlot)
    (r : List OutFrame × ℤ × (ℕ → Channels) × List StreamSlot) : Prop where
  other : ∀ sid ∉ ss.map StreamSlot.id, dataSent sid r.1 = 0
  ids : (r.2.2.2.map StreamSlot.id).Sublist (ss.map StreamSlot.id)
  keep : ∀ s' ∈ r.2.2.2, ∃ s ∈ ss, SlotSent (dataSent s.id r.1) s s'
  gone : ∀ s ∈ ss, s.id ∉ r.2.2.2.map StreamSlot.id →
    (chans s.id).tx.reset = true ∨ (chans s.id).tx.fin = true
  unsent : ∀ s ∈ ss, (chans s.id).tx.head = none → dataSent s.id r.1 = 0

theorem drainSlots_spec (peerMax : ℕ) (w : ℤ) (chans : ℕ → Channels) (ss : List StreamSlot)
    (hnodup : (ss.map StreamSlot.id).Nodup) : SlotsSent chans ss (drainSlots peerMax w chans ss) := by
  induction ss generalizing w chans with
  | nil =>
    exact ⟨fun _ _ => rfl, List.Sublist.refl _, by simp [drainSlots], by simp, by simp⟩
  | cons s ss ih =>
    rw [map_cons, nodup_cons] at hnodup
    unfold drainSlots
    have hone := emitStreaming_spec peerMax w s (chans s.id).tx
    generalize emitStreaming peerMax w s (chans s.id).tx = r at hone
    obtain ⟨frames, w1, s1, d1, done⟩ := r
    have hid : s1.id = s.id := hone.slot.id_eq
    dsimp only
    rw [hid]
    have hrest := ih w1 (update chans s.id { chans s.id with tx := d1 }) hnodup.2
    generalize drainSlots peerMax w1 (update chans s.id { chans s.id with tx := d1 }) ss = r
      at hrest
    obtain ⟨frames', w2, chans', ss'⟩ := r
    have hne {t : StreamSlot} (ht : t ∈ ss) : t.id ≠ s.id :=
      fun e => hnodup.1 (e ▸ mem_map_of_mem ht)
    have hchan {t : StreamSlot} (ht : t ∈ ss) :
        update chans s.id { chans s.id with tx := d1 } t.id = chans t.id :=
      update_of_ne (hne ht) _ _
    refine ⟨?_, ?_, ?_, ?_, ?_⟩
    · intro sid hsid
      rw [map_cons, mem_cons, not_or] at hsid
      rw [dataSent_append, hone.other sid hsid.1, hrest.other sid hsid.2]
    · split_ifs
      · exact hrest.ids.cons _
      · rw [map_cons, map_cons, hid]
        exact hrest.ids.cons_cons _
    · intro s' hs'
      have hrest' (h : s' ∈ ss') : ∃ t ∈ s :: ss, SlotSent (dataSent t.id (frames ++ frames')) t s' := by
        obtain ⟨t, ht, hsent⟩ := hrest.keep s' h
        refine ⟨t, mem_cons_of_mem _ ht, ?_⟩
        rw [dataSent_append, hone.other t.id (hne ht), Nat.zero_add]
        exact hsent
      split_ifs at hs'
      · exact hrest' hs'
      · rcases mem_cons.mp hs' with rfl | hs'
        · refine ⟨s, mem_cons_self, ?_⟩
          rw [dataSent_append, hrest.other s.id hnodup.1, Nat.add_zero]
          exact hone.slot
        · exact hrest' hs'
    · intro t ht hgone
      rcases mem_cons.mp ht with rfl | ht
      · cases hdone : done with
        | true => exact hone.done hdone
        | false =>
          rw [hdone] at hgone
          simp [hid] at hgone
      · rw [← hchan ht]
        refine hrest.gone t ht fun hmem => hgone ?_
        split_ifs
        · exact hmem
        · exact mem_cons_of_mem _ hmem
    · intro t ht hhead
      rw [dataSent_append]
      rcases mem_cons.mp ht with rfl | ht
      · rw [hone.unsent hhead, hrest.other t.id hnodup.1]
      · rw [hone.other t.id (hne ht), Nat.zero_add]
        exact hrest.unsent t ht (by rw [hchan ht]; exact hhead)

end H2Conn

end Waitless.Http2
