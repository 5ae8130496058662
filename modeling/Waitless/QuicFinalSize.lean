import Waitless.QuicReceive

/-! # Final sizes

When no STREAM frame contradicts the size of its stream, a contradicting RESET_STREAM closes the
connection and changes no stream, the final size stays, a closed stream stays closed, and after the
end was reported there are no more bytes (`final_size_kept`). -/

namespace Waitless.Quic

open History RecvSide RecvStream

open Runs (Along)
open Waitless.Tcp (CongestionControl)

def RecvStream.contradicts (s : RecvStream) (upTo : ℕ) (fin : Bool) : Bool :=
  s.finOffset.any (fun f => f < upTo || fin && upTo ≠ f) || fin && upTo < s.recvHigh

def RecvSide.contradicts (r : RecvSide) : Frame → Bool
  | .stream sid offset data fin =>
    (r.recvStreams.get? sid).any (·.contradicts (offset + data.length) fin)
  | .resetStream sid _ finalSize => (r.recvStreams.get? sid).any (·.contradicts finalSize true)
  | _ => false

variable {κ τ : Type}

def SizesAgree (h : History κ τ) (i : ℕ × Event τ) : Prop :=
  match i.2 with
  | .frame .oneRtt (.stream sid offset data fin) =>
    h.conn.rest.recv.contradicts (.stream sid offset data fin) = false
  | _ => True

instance (h : History κ τ) (i : ℕ × Event τ) : Decidable (SizesAgree h i) := by
  unfold SizesAgree
  split <;> infer_instance

def Conn.Closing (c : Conn κ τ) : Prop := c.rest.misc.closePending ≠ none ∨ c.rest.misc.state = .failed

namespace RecvStream

structure Final (n : ℕ) (s : RecvStream) : Prop where
  ended : Ended n True s
  high_le : s.recvHigh ≤ n

def Sized (s : RecvStream) : Prop := ∀ n, s.finOffset = some n → s.Final n

variable {s : RecvStream}

theorem Final.finOffset {n : ℕ} (h : s.Final n) : s.finOffset = some n :=
  (h.ended.finOffset n).2 ⟨trivial, rfl⟩

theorem Final.sized {n : ℕ} (h : s.Final n) : s.Sized := by
  intro m hm
  obtain rfl : m = n := ((h.ended.finOffset m).1 hm).2
  exact h

theorem sized_of_finOffset_eq_none (h : s.finOffset = none) : s.Sized := by
  intro n hn
  rw [h] at hn
  cases hn

theorem ended_of_finOffset_eq_none (h : s.finOffset = none) (n : ℕ) :
    Ended n False s := by
  refine ⟨fun f => by simp [h], ?_⟩
  unfold finOffset at h
  unfold isClosed
  split at h <;> simp_all

theorem agrees_of_contradicts {upTo : ℕ} {fin : Bool}
    (h : s.contradicts upTo fin = false) :
    (∀ n, s.finOffset = some n → upTo ≤ n ∧ (fin = true → upTo = n)) ∧
      (fin = true → s.recvHigh ≤ upTo) := by
  simp only [contradicts, Bool.or_eq_false_iff] at h
  obtain ⟨hfin, hhigh⟩ := h
  refine ⟨fun n hn => ?_, fun hf => ?_⟩
  · rw [hn, Option.any_some, Bool.or_eq_false_iff] at hfin
    simp only [decide_eq_false_iff_not, Bool.and_eq_false_iff, not_lt] at hfin
    refine ⟨hfin.1, fun hf => ?_⟩
    simpa [hf] using hfin.2
  · simpa [hf] using hhigh

theorem sized_ingest (hsound : s.Sound) (hsized : s.Sized) {off : ℕ}
    {data : AesGcm.Bytes} {fin : Bool} (hagree : s.contradicts (off + data.length) fin = false) :
    let s₁ := { s with recvHigh := max s.recvHigh (off + data.length) }
    (s₁.ingest off data fin).1.Sized ∧
      ∀ n, s.finOffset = some n → (s₁.ingest off data fin).1.finOffset = some n := by
  intro s₁
  obtain ⟨hknown, hfin⟩ := agrees_of_contradicts hagree
  have hwithin : s₁.Within (max s.recvHigh (off + data.length)) := hsound.within_max _
  have hgrows := hwithin.grows_ingest (le_max_right _ _) fin
  obtain ⟨s', hg, hstate, hcases⟩ := hwithin.ingest_cases (le_max_right _ _) fin
  cases hs : s.finOffset with
  | none =>
    have hend := ended_of_finOffset_eq_none (s := s₁) hs (off + data.length)
    refine ⟨?_, by simp⟩
    rcases hcases with ⟨rfl, heq⟩ | ⟨-, heq | heq⟩
    · -- the FIN states the size
      refine Final.sized (n := off + data.length) ⟨?_, ?_⟩
      · rw [heq]
        exact hend.recordFin hstate trivial
      · rw [hgrows.recvHigh]
        exact max_le (hfin rfl) le_rfl
    · have hopen := (hend.maybeClose hstate hg.offset_le).finOffset
      refine sized_of_finOffset_eq_none ?_
      rw [heq]
      exact Option.eq_none_iff_forall_ne_some.2 fun n hn => ((hopen n).1 hn).1
    · rw [heq]
      exact sized_of_finOffset_eq_none hs
  | some n =>
    have hfinal := hsized n hs
    obtain ⟨hle, heqn⟩ := hknown n hs
    have hend : Ended n True s₁ := ⟨hfinal.ended.finOffset, hfinal.ended.isClosed⟩
    suffices hfinal' : (s₁.ingest off data fin).1.Final n by
      refine ⟨hfinal'.sized, fun m hm => ?_⟩
      obtain rfl := Option.some.inj hm
      exact hfinal'.finOffset
    refine ⟨?_, ?_⟩
    · rcases hcases with ⟨rfl, heq⟩ | ⟨-, heq | heq⟩
      · rw [heq, heqn rfl]
        exact hend.recordFin hstate trivial
      · rw [heq]
        exact hend.maybeClose hstate hg.offset_le
      · rw [heq]
        exact hend
    · rw [hgrows.recvHigh]
      exact max_le hfinal.high_le hle

def Drained (s : RecvStream) : Prop := s.isClosed = true ∧ s.buffer = []

end RecvStream

variable {r : RecvSide} {s s' : RecvStream} {sid : ℕ}

/-- **A move that does not contradict** keeps the size. -/
theorem StreamMove.sized {e : Event τ} {got used : ℕ}
    (hmove : StreamMove r sid s e s' got used) (hsound : s.Sound) (hsized : s.Sized)
    (hagree : ∀ offset data fin, e = .frame .oneRtt (.stream sid offset data fin) →
      s.contradicts (offset + data.length) fin = false) :
    s'.Sized ∧ s.offset ≤ s'.offset ∧ ∀ n, s.finOffset = some n → s'.finOffset = some n := by
  cases hmove with
  | drain _ m he hlive hm =>
    refine ⟨fun n hn => ?_, le_rfl, fun n hn => hn⟩
    exact ⟨⟨(hsized n hn).ended.finOffset, (hsized n hn).ended.isClosed⟩, (hsized n hn).high_le⟩
  | refused _ upTo he hreaped => exact ⟨hsized, le_rfl, fun n hn => hn⟩
  | data offset data fin hreaped hmax hconn =>
    obtain ⟨hsized', hkeep⟩ := sized_ingest hsound hsized (hagree offset data fin rfl)
    refine ⟨hsized', ?_, hkeep⟩
    exact ((hsound.within_max _).grows_ingest (le_max_right _ _) fin).offset_le
  | reset code finalSize hreaped hhigh hfin hmax hconn =>
    have hfinal : (s.applyReset finalSize).Final finalSize := by
      refine ⟨⟨fun f => ?_, ?_⟩, le_rfl⟩
      · simp [applyReset, finOffset, eq_comm]
      · simp [applyReset, isClosed]
    refine ⟨hfinal.sized, hsound.within.offset_le.trans hhigh, fun n hn => ?_⟩
    rw [hfinal.finOffset, hfin n hn]

theorem Conn.closing_closeWithError (c : Conn κ τ) (code : ℕ) (reason : String) :
    (c.closeWithError code reason).Closing := by
  unfold Conn.closeWithError
  split_ifs with hopen
  · exact .inl nofun
  · rwa [not_and_or, not_not] at hopen

theorem RecvSide.receiveReset_contradicting {code finalSize : ℕ}
    (hcon : r.contradicts (.resetStream sid code finalSize) = true) (isClient : Bool) :
    ∃ err, (r.receiveReset isClient sid code finalSize).2 = some err ∧
      ∀ k, (r.receiveReset isClient sid code finalSize).1.recvStreams.get? k = r.recvStreams.get? k := by
  obtain ⟨s, hs, hcon⟩ : ∃ s, r.recvStreams.get? sid = some s ∧ s.contradicts finalSize true = true := by
    simpa [contradicts, Option.any_eq_true] using hcon
  have hrefuse : finalSize < s.recvHigh ∨ s.finOffset.any (· ≠ finalSize) = true := by
    simp only [RecvStream.contradicts, Bool.true_and, Bool.or_eq_true, decide_eq_true_eq,
      Option.any_eq_true] at hcon ⊢
    rcases hcon with ⟨n, hn, hne⟩ | hlt
    · exact .inr ⟨n, hn, by omega⟩
    · exact .inl hlt
  unfold receiveReset
  extract_lets ourUni
  by_cases hown : sid % 4 = ourUni
  · rw [if_pos hown]
    exact ⟨_, rfl, fun k => rfl⟩
  · rw [if_neg hown, hs]
    simp only [resetOn]
    rw [if_pos hrefuse]
    refine ⟨_, rfl, fun k => ?_⟩
    rw [putStream, SortedMap.get?_insert]
    split_ifs with hk
    · rw [hk, hs]
    · rfl

/-- **A RESET_STREAM that contradicts** changes no stream. -/
theorem dispatch_contradicting_reset [CongestionControl κ] [Tls τ] {c : Conn κ τ} {code finalSize : ℕ}
    (hreaped : c.rest.recv.isReaped sid = false)
    (hcon : c.rest.recv.contradicts (.resetStream sid code finalSize) = true) (now : ℕ) :
    let c' := (c.dispatchFrame now .oneRtt (.resetStream sid code finalSize)).1
    c'.Closing ∧ ∀ k, c'.rest.recv.recvStreams.get? k = c.rest.recv.recvStreams.get? k := by
  obtain ⟨err, herr, hstreams⟩ := receiveReset_contradicting hcon c.isClient
  simp only [Conn.dispatchFrame, Conn.processResetStream, hreaped, if_true, Bool.false_eq_true, if_false]
  refine ⟨?_, fun k => ?_⟩
  · rw [Conn.settle, herr]
    exact Conn.closing_closeWithError _ _ _
  · rw [Conn.settle_recv]
    exact hstreams k

/-- Later, with the same size. -/
structure RecvStream.Follows (s s' : RecvStream) : Prop where
  finOffset : ∀ n, s.finOffset = some n → s'.finOffset = some n
  closed : s.isClosed = true → s'.isClosed = true
  drained : s.Drained → s'.Drained

theorem RecvStream.Follows.refl (s : RecvStream) : s.Follows s := ⟨fun _ h => h, id, id⟩

theorem RecvStream.Follows.trans {s'' : RecvStream} (h : s.Follows s') (h' : s'.Follows s'') :
    s.Follows s'' :=
  ⟨fun n hn => h'.finOffset n (h.finOffset n hn), fun hc => h'.closed (h.closed hc),
    fun hd => h'.drained (h.drained hd)⟩

theorem RecvStream.exists_finOffset (h : s.isClosed = true) : ∃ n, s.finOffset = some n := by
  unfold isClosed at h
  split at h
  next n hstate =>
    exact ⟨n, by rw [finOffset, hstate]⟩
  · cases h

theorem StreamMove.follows {e : Event τ} {got used : ℕ}
    (hmove : StreamMove r sid s e s' got used) (hsound : s.Sound) (hsized : s.Sized)
    (hagree : ∀ offset data fin, e = .frame .oneRtt (.stream sid offset data fin) →
      s.contradicts (offset + data.length) fin = false) : s.Follows s' := by
  obtain ⟨hsized', hoffset, hkeep⟩ := hmove.sized hsound hsized hagree
  have hmoved := hmove.moved hsound
  have hclosed : s.isClosed = true → ∃ n, s'.Final n ∧ n ≤ s.offset := by
    intro hc
    obtain ⟨n, hn⟩ := exists_finOffset hc
    exact ⟨n, hsized' n (hkeep n hn), ((hsized n hn).ended.isClosed.1 hc).2⟩
  have hstays : s.isClosed = true → s'.isClosed = true := by
    intro hc
    obtain ⟨n, hfinal, hn⟩ := hclosed hc
    exact hfinal.ended.isClosed.2 ⟨trivial, hn.trans hoffset⟩
  refine ⟨hkeep, hstays, fun hd => ⟨hstays hd.1, ?_⟩⟩
  obtain ⟨n, hfinal, hn⟩ := hclosed hd.1
  have hcons : s.consumed = s.offset := by rw [consumed, hd.2, List.length_nil, Nat.sub_zero]
  have hcons' := hmoved.consumed
  have hhigh' := hfinal.high_le
  have hoff' := hmoved.sound.within.offset_le
  have hbuf' := hmoved.sound.within.buffer_le
  rw [consumed] at hcons'
  exact List.length_eq_zero_iff.1 (by omega)

theorem RecvSide.StreamRaised.follows (h : RecvSide.StreamRaised s s') :
    s.Follows s' := by
  rw [h.eq]
  exact ⟨fun _ hn => hn, id, id⟩

theorem RecvSide.drained_of_eof {room : ℕ} (h : (r.streamRecv sid room).2.2 = true) :
    ∃ s, (r.streamRecv sid room).1.recvStreams.get? sid = some s ∧ s.Drained := by
  unfold streamRecv at h ⊢
  cases hs : r.recvStreams.get? sid with
  | none => rw [hs] at h; cases h
  | some s =>
    simp only [hs, drain, Bool.and_eq_true, List.isEmpty_iff] at h
    exact ⟨_, by simp [credit, drain], h⟩

theorem RecvSide.streamRecv_of_none (h : r.recvStreams.get? sid = none)
    (room : ℕ) : (r.streamRecv sid room).2.1 = [] := by
  rw [streamRecv, h]

theorem RecvSide.streamRecv_of_drained
    (h : r.recvStreams.get? sid = some s) (hs : s.Drained) (room : ℕ) :
    (r.streamRecv sid room).2.1 = [] := by
  rw [streamRecv, h]
  simp [drain, hs.2]

/-- Reaped ids are in the ring, and no STREAM frame contradicts a size. -/
def Conforms (h : History κ τ) (i : ℕ × Event τ) : Prop := InRing h i ∧ SizesAgree h i

instance (h : History κ τ) (i : ℕ × Event τ) : Decidable (Conforms h i) :=
  inferInstanceAs (Decidable (_ ∧ _))

/-- The size known of a live stream is its size. -/
structure Sizing (h : History κ τ) : Prop where
  receiving : Receiving h
  sized : ∀ sid s, h.conn.rest.recv.recvStreams.get? sid = some s → s.Sized

theorem sizing_of_fresh {c : Conn κ τ} (hfresh : c.Fresh) : Sizing { conn := c } := by
  refine ⟨receiving_of_fresh hfresh, fun sid s hs => ?_⟩
  rw [show c.rest.recv.recvStreams = .empty by rw [hfresh.recv]] at hs
  cases hs

theorem SizesAgree.agrees {h : History κ τ} {i : ℕ × Event τ} (hagree : SizesAgree h i) (hs : h.conn.rest.recv.recvStreams.get? sid = some s ∨
      h.conn.rest.recv.recvStreams.get? sid = none ∧ ∃ t, s = { rxUs := t })
    (offset : ℕ) (data : AesGcm.Bytes) (fin : Bool)
    (hi : i.2 = .frame .oneRtt (.stream sid offset data fin)) :
    s.contradicts (offset + data.length) fin = false := by
  rcases hs with hs | ⟨-, t, rfl⟩
  · unfold SizesAgree at hagree
    rw [hi] at hagree
    simpa [RecvSide.contradicts, hs] using hagree
  · simp [RecvStream.contradicts, RecvStream.finOffset]

variable [CongestionControl κ] [Tls τ] {P : Primitives}

theorem Sizing.step (h : History κ τ) (i : ℕ × Event τ) (hi : Conforms h i) (hh : Sizing h) :
    Sizing (h.step P i) := by
  refine ⟨hh.receiving.step h i hi.1, fun sid s' hs' => ?_⟩
  obtain ⟨s, hs, ⟨hraise, -⟩ | ⟨got, used, hmove⟩⟩ := hh.receiving.origin_step (P := P) i hs'
  · have hsized : s.Sized := by
      rcases hs with hs | ⟨-, t, rfl⟩
      · exact hh.sized sid s hs
      · exact sized_of_finOffset_eq_none rfl
    rw [hraise.eq]
    exact fun n hn => ⟨⟨(hsized n hn).ended.finOffset, (hsized n hn).ended.isClosed⟩, (hsized n hn).high_le⟩
  · rcases hs with hlive | hfresh
    · exact (hmove.sized (hh.receiving.sound sid s hlive) (hh.sized sid s hlive)
        (hi.2.agrees (.inl hlive))).1
    · have hagree := hi.2.agrees (.inr hfresh)
      obtain ⟨-, t, rfl⟩ := hfresh
      exact (hmove.sized (sound_fresh t) (sized_of_finOffset_eq_none rfl)
        hagree).1

theorem Sizing.follows_run {h : History κ τ} (hh : Sizing h) {js : List (ℕ × Event τ)}
    (hjs : Along (History.step P) Conforms h js) {sid : ℕ} {s : RecvStream}
    (hs : h.conn.rest.recv.recvStreams.get? sid = some s) :
    Sizing (History.run P h js) ∧ (sid ∈ (History.run P h js).reaped ∨
      ∃ s', (History.run P h js).conn.rest.recv.recvStreams.get? sid = some s' ∧ s.Follows s') := by
  refine hjs.invariant (I := fun h' => Sizing h' ∧ (sid ∈ h'.reaped ∨
    ∃ s', h'.conn.rest.recv.recvStreams.get? sid = some s' ∧ s.Follows s')) ?_ ⟨hh, .inr ⟨s, hs, .refl s⟩⟩
  rintro h' i hi ⟨hsizing, hreaped | ⟨s', hs', hfollows⟩⟩
  · exact ⟨hsizing.step h' i hi, .inl (mem_reaped_step P i hreaped)⟩
  · refine ⟨hsizing.step h' i hi, ?_⟩
    rcases hsizing.receiving.live_step (P := P) i hs' with ⟨he, hmem⟩ | ⟨t, ht, hraise | ⟨got, used, hmove⟩⟩
    · obtain ⟨now, e⟩ := i
      obtain rfl : e = .reap := he
      exact .inl (List.mem_append_left _ (List.mem_reverse.2 hmem))
    · exact .inr ⟨t, ht, hfollows.trans hraise.follows⟩
    · exact .inr ⟨t, ht, hfollows.trans (hmove.follows (hsizing.receiving.sound sid s' hs')
        (hsizing.sized sid s' hs') (hi.2.agrees (.inl hs')))⟩

/-- **Final sizes are kept** where reaped ids are in the ring and no frame contradicts a size. -/
theorem final_size_kept {c : Conn κ τ} (hfresh : c.Fresh) {is : List (ℕ × Event τ)}
    (his : Along (History.step P) Conforms { conn := c } is) :
    let h := run P { conn := c } is
    let r := h.conn.rest.recv
    (∀ now sid code finalSize, r.contradicts (.resetStream sid code finalSize) = true →
      let c' := (h.conn.dispatchFrame now .oneRtt (.resetStream sid code finalSize)).1
      c'.Closing ∧ ∀ k, c'.rest.recv.recvStreams.get? k = r.recvStreams.get? k) ∧
    (∀ js, Along (step P) Conforms h js → ∀ sid s s', r.recvStreams.get? sid = some s →
      (run P h js).conn.rest.recv.recvStreams.get? sid = some s' →
      (∀ n, s.finOffset = some n → s'.finOffset = some n) ∧ (s.isClosed = true → s'.isClosed = true)) ∧
    ∀ now sid room, (r.streamRecv sid room).2.2 = true →
      ∀ js, Along (step P) Conforms h ((now, .recv sid room) :: js) → ∀ room',
        ((run P h ((now, .recv sid room) :: js)).conn.rest.recv.streamRecv sid room').2.1 = [] := by
  intro h r
  have hsizing : Sizing h := his.invariant Sizing.step (sizing_of_fresh hfresh)
  refine ⟨fun now sid code finalSize hcon => ?_, fun js hjs sid s s' hs hs' => ?_, ?_⟩
  · obtain ⟨s, hs⟩ : ∃ s, r.recvStreams.get? sid = some s := by
      simp only [RecvSide.contradicts, Option.any_eq_true] at hcon
      exact hcon.imp fun s hs => hs.1
    exact dispatch_contradicting_reset (hsizing.receiving.ids sid s hs) hcon now
  · obtain ⟨hsizing', hreaped | ⟨t, ht, hfollows⟩⟩ := hsizing.follows_run hjs hs
    · rw [hsizing'.receiving.gone sid hreaped] at hs'
      cases hs'
    · obtain rfl : s' = t := Option.some.inj (hs'.symm.trans ht)
      exact ⟨hfollows.finOffset, hfollows.closed⟩
  · intro now sid room heof js hjs room'
    obtain ⟨s, hs, hdrained⟩ := drained_of_eof heof
    have hsizing' : Sizing (h.step P (now, .recv sid room)) := hsizing.step h _ hjs.1
    have hs' : (h.step P (now, .recv sid room)).conn.rest.recv.recvStreams.get? sid = some s := hs
    obtain ⟨hsizing'', hreaped | ⟨t, ht, hfollows⟩⟩ := hsizing'.follows_run hjs.2 hs'
    · exact streamRecv_of_none (hsizing''.receiving.gone sid hreaped) room'
    · exact streamRecv_of_drained ht (hfollows.drained hdrained) room'

/-- The frame with the FIN arrives again. -/
theorem final_size_kept_reread :
    let is : List (ℕ × Event QuietTls) := [(0, .frame .oneRtt (.stream 0 0 [7, 8] true))]
    let h := run samplePrimitives { conn := sampleConn } is
    (h.conn.rest.recv.streamRecv 0 4).2 = ([7, 8], true) ∧
    ((run samplePrimitives h [(0, .recv 0 4),
      (0, .frame .oneRtt (.stream 0 0 [7, 8] true))]).conn.rest.recv.streamRecv 0 4).2.1 = [] := by
  intro is h
  have his : Along (step samplePrimitives) Conforms { conn := sampleConn } is := by decide +kernel
  exact ⟨by decide +kernel, (final_size_kept fresh_sampleConn his).2.2 0 0 4 (by decide +kernel) _
    (by decide +kernel) 4⟩

/-- A STREAM frame past the final size is taken in. -/
theorem data_past_final_size :
    let h := run samplePrimitives { conn := sampleConn }
      [(0, .frame .oneRtt (.stream 0 0 [7, 8] true)), (0, .recv 0 4)]
    let f := Frame.stream 0 2 [9] false
    let g := Frame.stream 0 4 [] true
    h.conn.rest.recv.contradicts f = true ∧ h.conn.rest.recv.contradicts g = true ∧
    ¬ (h.conn.dispatchFrame 0 .oneRtt f).1.Closing ∧
    ((h.conn.dispatchFrame 0 .oneRtt f).1.rest.recv.streamRecv 0 4).2.1 = [9] ∧
    ((h.conn.rest.recv.recvStreams.get? 0).map isClosed = some true ∧
      ((h.conn.dispatchFrame 0 .oneRtt g).1.rest.recv.recvStreams.get? 0).map isClosed =
        some false) := by
  refine ⟨by decide +kernel, by decide +kernel, ?_, by decide +kernel, by decide +kernel, by decide +kernel⟩
  unfold Conn.Closing
  decide +kernel

end Waitless.Quic
