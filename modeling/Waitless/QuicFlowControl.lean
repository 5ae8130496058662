import Waitless.QuicStreamsOnce

/-! # Receive flow control

`Flow` ties the counts of received, consumed and buffered bytes to the live streams.

`receive_flow_control` is what follows in every run in which frames for reaped streams find their
ids in the ring. `reset_counted_twice` is a reset that does not. -/

namespace Waitless.Quic

open History RecvSide

open Runs (Along)
open Waitless.Tcp (CongestionControl)

variable {κ τ : Type}

/-- No promise of the receiver is taken back. -/
structure Upholds (h h' : History κ τ) : Prop where
  reaped : ∀ sid ∈ h.reaped, sid ∈ h'.reaped
  maxData : h.conn.rest.recv.maxDataAdvertised ≤ h'.conn.rest.recv.maxDataAdvertised
  streams : ∀ sid s, h.conn.rest.recv.recvStreams.get? sid = some s → sid ∈ h'.reaped ∨
    ∃ s', h'.conn.rest.recv.recvStreams.get? sid = some s' ∧ s.recvMax ≤ s'.recvMax

theorem Upholds.refl (h : History κ τ) : Upholds h h :=
  ⟨fun _ hsid => hsid, le_rfl, fun _ s hs => .inr ⟨s, hs, le_rfl⟩⟩

theorem Upholds.trans {h₁ h₂ h₃ : History κ τ} (h : Upholds h₁ h₂) (h' : Upholds h₂ h₃) :
    Upholds h₁ h₃ := by
  refine ⟨fun sid hsid => h'.reaped sid (h.reaped sid hsid), h.maxData.trans h'.maxData,
    fun sid s hs => ?_⟩
  rcases h.streams sid s hs with hsid | ⟨s', hs', hle⟩
  · exact .inl (h'.reaped sid hsid)
  · rcases h'.streams sid s' hs' with hsid | ⟨s'', hs'', hle'⟩
    · exact .inl hsid
    · exact .inr ⟨s'', hs'', hle.trans hle'⟩

/-- The peer was told of no limit past the current ones. -/
def Told (h : History κ τ) : TxFrame → Prop
  | .maxData v => v ≤ h.conn.rest.recv.maxDataAdvertised
  | .maxStreamData sid v => sid ∈ h.reaped ∨
      ∃ s, h.conn.rest.recv.recvStreams.get? sid = some s ∧ v ≤ s.recvMax
  | _ => True

theorem Upholds.told {h h' : History κ τ} (hup : Upholds h h') {f : TxFrame} (hf : Told h f) :
    Told h' f := by
  cases f with
  | maxData v => exact le_trans hf hup.maxData
  | maxStreamData sid v =>
    rcases hf with hsid | ⟨s, hs, hle⟩
    · exact .inl (hup.reaped sid hsid)
    · rcases hup.streams sid s hs with hsid | ⟨s', hs', hle'⟩
      · exact .inl hsid
      · exact .inr ⟨s', hs', hle.trans hle'⟩
  | _ => trivial

/-- The counters a RESET_STREAM changes. -/
def RecvSide.counters (r : RecvSide) : ℕ × ℕ × ℕ := (r.dataReceived, r.dataConsumed, r.recvBuffered)

variable {r : RecvSide} {sid : ℕ}

theorem RecvSide.dataConsumed_of_counters {r' : RecvSide} (h : r.counters = r'.counters) :
    r.dataConsumed = r'.dataConsumed := congrArg (·.2.1) h

def Settled (sid finalSize : ℕ) (h : History κ τ) : Prop :=
  sid ∈ h.reaped ∨ ∃ s, h.conn.rest.recv.recvStreams.get? sid = some s ∧
    finalSize ≤ s.recvHigh ∧ (s.recvHigh = finalSize → s.consumed = finalSize)

theorem RecvSide.receiveReset_accepted {isClient : Bool} {code finalSize : ℕ}
    (h : (r.receiveReset isClient sid code finalSize).2 = none) :
    ∃ s, (r.receiveReset isClient sid code finalSize).1.recvStreams.get? sid = some s ∧
      s.recvHigh = finalSize ∧ s.consumed = finalSize := by
  have hon : ∀ wasNew s, (r.resetOn isClient wasNew s sid code finalSize).2 = none →
      (r.resetOn isClient wasNew s sid code finalSize).1.recvStreams.get? sid =
        some (s.applyReset finalSize) := by
    intro wasNew s hnone
    generalize hres : r.resetOn isClient wasNew s sid code finalSize = res at hnone ⊢
    unfold resetOn at hres
    extract_lets connDelta newlyConsumed r1 accept at hres
    have hr1 := (((r.charge connDelta).putStream sid (s.applyReset finalSize)).credit
      newlyConsumed).recordPeerReset_kept sid code
    have hget : r1.recvStreams.get? sid = some (s.applyReset finalSize) := by
      rw [hr1.recvStreams]
      simp [credit, putStream, charge]
    split_ifs at hres <;> subst hres
    · cases hnone
    · cases hnone
    · exact hget
    · exact hget
  have hdone : ∀ s : RecvStream, (s.applyReset finalSize).recvHigh = finalSize ∧
      (s.applyReset finalSize).consumed = finalSize := fun s => ⟨rfl, rfl⟩
  generalize hres : r.receiveReset isClient sid code finalSize = res at h ⊢
  unfold receiveReset at hres
  extract_lets ourUni at hres
  by_cases hown : sid % 4 = ourUni
  · rw [if_pos hown] at hres
    subst hres
    cases h
  · rw [if_neg hown] at hres
    cases hs : r.recvStreams.get? sid with
    | some s =>
      simp only [hs] at hres
      subst hres
      exact ⟨_, hon false s h, hdone s⟩
    | none =>
      simp only [hs] at hres
      split_ifs at hres <;> subst hres
      · cases h
      · exact ⟨_, hon true _ h, hdone _⟩

/-- Bytes received and not consumed. -/
def RecvStream.held (s : RecvStream) : ℕ := s.recvHigh - s.consumed

/-- The counters cover what streams hold, and no limit is below what was told. -/
structure Flow (base : ℕ) (h : History κ τ) : Prop where
  receiving : Receiving h
  held : h.conn.rest.recv.dataConsumed + h.conn.rest.recv.recvStreams.sum (fun _ s => s.held) ≤
    h.conn.rest.recv.dataReceived
  advertised : h.conn.rest.recv.dataReceived ≤ h.conn.rest.recv.maxDataAdvertised
  buffered : h.conn.rest.recv.recvBuffered =
    base + (h.conn.rest.recv.dataReceived - h.conn.rest.recv.dataConsumed)
  initial : initialMaxData ≤ h.conn.rest.recv.maxDataAdvertised ∧
    ∀ sid s, h.conn.rest.recv.recvStreams.get? sid = some s → initialMaxStreamData ≤ s.recvMax
  told : ∀ p ∈ h.packets, ∀ f ∈ p, Told h f

theorem flow_of_fresh {c : Conn κ τ} (hfresh : c.Fresh) :
    Flow c.rest.recv.recvBuffered { conn := c } := by
  have hrecv : c.rest.recv = { recvBuffered := c.rest.recv.recvBuffered } := hfresh.recv
  refine ⟨receiving_of_fresh hfresh, ?_, ?_, ?_, ⟨?_, fun sid s hs => ?_⟩, fun p hp => by cases hp⟩
  · rw [hrecv]
    exact le_rfl
  · rw [hrecv]
    exact Nat.zero_le _
  · rw [hrecv]
    rfl
  · rw [hrecv]
  · rw [hrecv] at hs
    cases hs

theorem StreamMove.advertised {s s' : RecvStream} {e : Event τ}
    {got used : ℕ} (h : StreamMove r sid s e s' got used) (hr : r.dataReceived ≤ r.maxDataAdvertised) :
    r.dataReceived + got ≤ r.maxDataAdvertised := by
  cases h with
  | drain _ n he hlive hn => exact hr
  | refused _ upTo he hreaped => exact hr
  | data offset data fin hreaped hmax hconn => exact hconn
  | reset code finalSize hreaped hhigh hfin hmax hconn => exact hconn

theorem Touch.held {isClient : Bool} {r' : RecvSide} {s s' : RecvStream} {got used : ℕ}
    (h : Touch isClient r r' sid s s' got used) (hsound : s.Sound) (hmoved : Moved s s' got used) :
    r'.recvStreams.sum (fun _ s => s.held) + used = r.recvStreams.sum (fun _ s => s.held) + got := by
  have hinsert : r'.recvStreams = r.recvStreams.insert sid s' := SortedMap.ext_get? fun k => by
    rw [h.streams, SortedMap.get?_insert]
  have hwas : (r.recvStreams.get? sid).elim 0 RecvStream.held = s.held := by
    rcases h.was with hs | ⟨hs, t, rfl⟩ <;> rw [hs] <;> rfl
  have hsum := SortedMap.sum_insert_add (fun _ s => s.held) r.recvStreams sid s'
  rw [hwas, ← hinsert] at hsum
  have hle := hsound.consumed_le
  have hle' := hmoved.sound.consumed_le
  have hheld : s'.held + used = s.held + got := by
    rw [hmoved.recvHigh, hmoved.consumed] at hle'
    simp only [RecvStream.held, hmoved.recvHigh, hmoved.consumed]
    omega
  omega

theorem sum_forgetRecv_le (sids : List ℕ) (r : RecvSide) :
    (sids.foldl Conn.forgetRecv r).recvStreams.sum (fun _ s => s.held) ≤
      r.recvStreams.sum fun _ s => s.held := by
  induction sids generalizing r with
  | nil => exact le_rfl
  | cons sid sids ih => exact (ih _).trans (SortedMap.sum_erase_le _ r.recvStreams sid)

variable [CongestionControl κ] [Tls τ] {P : Primitives}

variable {finalSize sid : ℕ} {h : History κ τ}

theorem Receiving.upholds_step (hrec : Receiving h) (i : ℕ × Event τ) :
    Upholds h (h.step P i) := by
  refine ⟨fun sid => mem_reaped_step P i, ?_, fun sid s hs => ?_⟩
  · rw [h.step_conn]
    cases recvStep_of_step P h.conn i.1 i.2 with
    | keep he hkept => exact hkept.maxData.ge
    | accept he hrecv =>
      rw [hrecv, popAcceptedStream]
      split <;> exact le_rfl
    | touch he sid s s' got used hmove htouch => exact htouch.maxData.ge
    | raise padToWire he hraised => exact (hraised hrec.limited).maxData
    | reap he hrecv => rw [hrecv, (forgot_foldl _ _).maxData]
  · rcases hrec.live_step (P := P) i hs with ⟨he, hmem⟩ | ⟨s', hs', hraise | ⟨got, used, hmove⟩⟩
    · obtain ⟨now, e⟩ := i
      obtain rfl : e = .reap := he
      exact .inl (List.mem_append_left _ (List.mem_reverse.2 hmem))
    · exact .inr ⟨s', hs', hraise.le⟩
    · exact .inr ⟨s', hs', (hmove.moved (hrec.sound sid s hs)).recvMax.ge⟩

theorem Settled.step (hset : Settled sid finalSize h)
    (hrec : Receiving h) (i : ℕ × Event τ) : Settled sid finalSize (h.step P i) := by
  rcases hset with hsid | ⟨s, hs, hle, hcons⟩
  · exact .inl (mem_reaped_step P i hsid)
  · have hsound := hrec.sound sid s hs
    rcases hrec.live_step (P := P) i hs with ⟨he, hmem⟩ | ⟨s', hs', hraise | ⟨got, used, hmove⟩⟩
    · obtain ⟨now, e⟩ := i
      obtain rfl : e = .reap := he
      exact .inl (List.mem_append_left _ (List.mem_reverse.2 hmem))
    · refine .inr ⟨s', hs', ?_⟩
      rw [hraise.eq]
      exact ⟨hle, hcons⟩
    · -- what arrives puts the stream past the final size; otherwise nothing is left to consume
      have hmoved := hmove.moved hsound
      have hle' := hmoved.sound.consumed_le
      rw [hmoved.recvHigh, hmoved.consumed] at hle'
      refine .inr ⟨s', hs', ?_⟩
      rw [hmoved.recvHigh, hmoved.consumed]
      omega

theorem Settled.counters (hset : Settled sid finalSize h)
    (hrec : Receiving h) {now code : ℕ}
    (hring : InRing h (now, .frame .oneRtt (.resetStream sid code finalSize))) :
    (h.step P (now, .frame .oneRtt (.resetStream sid code finalSize))).conn.rest.recv.counters =
      h.conn.rest.recv.counters := by
  rw [h.step_conn]
  cases recvStep_of_step P h.conn now (.frame .oneRtt (.resetStream sid code finalSize)) with
  | keep he hkept =>
    rw [RecvSide.counters, hkept.dataReceived, hkept.dataConsumed, hkept.recvBuffered]
    rfl
  | accept he hrecv => cases he
  | raise padToWire he hraised => cases he
  | reap he hrecv => cases he
  | touch he k s s' got used hmove htouch =>
    have hcount : got = 0 ∧ used = 0 := by
      have hfresh := hrec.not_mem_reaped hring hmove
      cases hmove with
      | drain _ n he hlive hn => cases he
      | refused _ upTo he hreaped => exact ⟨rfl, rfl⟩
      | reset _ _ hreaped hhigh hfin hmax hconn =>
        obtain ⟨t, ht, hle, hcons⟩ := hset.resolve_left hfresh
        obtain rfl : s = t := by
          rcases htouch.was with hs | ⟨hs, -⟩
          · exact Option.some.inj (hs.symm.trans ht)
          · rw [hs] at ht
            cases ht
        omega
    obtain ⟨rfl, rfl⟩ := hcount
    rw [RecvSide.counters, htouch.dataReceived, htouch.dataConsumed, htouch.recvBuffered]
    rfl

theorem Flow.told_step {base : ℕ} {i : ℕ × Event τ} (hflow : Flow base h) :
    ∀ p ∈ (h.step P i).packets, ∀ f ∈ p, Told (h.step P i) f := by
  have hup := hflow.receiving.upholds_step (P := P) i
  obtain ⟨now, e⟩ := i
  intro p hp f hf
  by_cases hbuild : ∃ padToWire, e = .oneRtt padToWire
  · obtain ⟨padToWire, rfl⟩ := hbuild
    rcases List.mem_append.1 hp with hold | hnew
    · exact hup.told (hflow.told p hold f hf)
    · obtain rfl := List.mem_singleton.1 hnew
      have hf' := (h.conn.step_oneRtt_recv P now padToWire hflow.receiving.limited).2 f hf
      cases f with
      | maxStreamData sid v => exact .inr hf'
      | _ => exact hf'
  · rw [step_packets P (not_exists.1 hbuild)] at hp
    exact hup.told (hflow.told p hp f hf)

theorem Flow.step {base : ℕ} (h : History κ τ) (i : ℕ × Event τ) (hring : InRing h i) (hflow : Flow base h) :
    Flow base (h.step P i) := by
  have hreceiving := hflow.receiving.step (P := P) h i hring
  have hup := hflow.receiving.upholds_step (P := P) i
  have hheld := hflow.held
  have hbuffered := hflow.buffered
  have hmaxData := hflow.initial.1.trans hup.maxData
  have htold := hflow.told_step (P := P) (i := i)
  obtain ⟨now, e⟩ := i
  have hconn : (h.step P (now, e)).conn = h.conn.step P now e := h.step_conn P (now, e)
  cases recvStep_of_step P h.conn now e with
  | keep he hkept =>
    refine ⟨hreceiving, ?_, ?_, ?_, ⟨hmaxData, ?_⟩, htold⟩ <;> rw [hconn]
    · rw [hkept.dataConsumed, hkept.recvStreams, hkept.dataReceived]
      exact hheld
    · rw [hkept.dataReceived, hkept.maxData]
      exact hflow.advertised
    · rw [hkept.recvBuffered, hkept.dataReceived, hkept.dataConsumed]
      exact hbuffered
    · rw [hkept.recvStreams]
      exact hflow.initial.2
  | accept he hrecv =>
    have hsame : (h.conn.step P now e).rest.recv = { h.conn.rest.recv with
        openedStreams := h.conn.rest.recv.popAcceptedStream.1.openedStreams } := by
      rw [hrecv, popAcceptedStream]
      split <;> rfl
    refine ⟨hreceiving, ?_, ?_, ?_, ⟨hmaxData, ?_⟩, htold⟩ <;> rw [hconn, hsame]
    · exact hheld
    · exact hflow.advertised
    · exact hbuffered
    · exact hflow.initial.2
  | touch he sid s s' got used hmove htouch =>
    have hsound := hflow.receiving.sound_of_touch htouch
    have hmoved := hmove.moved hsound
    have hsum := htouch.held hsound hmoved
    refine ⟨hreceiving, ?_, ?_, ?_, ⟨hmaxData, fun k t ht => ?_⟩, htold⟩
    · rw [hconn, htouch.dataConsumed, htouch.dataReceived]
      omega
    · rw [hconn, htouch.dataReceived, htouch.maxData]
      exact hmove.advertised hflow.advertised
    · rw [hconn, htouch.recvBuffered, htouch.dataConsumed, htouch.dataReceived, hbuffered]
      omega
    · rw [hconn, htouch.streams] at ht
      split_ifs at ht
      · obtain rfl := Option.some.inj ht
        rw [hmoved.recvMax]
        rcases htouch.was with hs | ⟨-, t, rfl⟩
        · exact hflow.initial.2 sid s hs
        · exact le_rfl
      · exact hflow.initial.2 k t ht
  | raise padToWire he hraised =>
    have hr := hraised hflow.receiving.limited
    refine ⟨hreceiving, ?_, ?_, ?_, ⟨hmaxData, fun k t ht => ?_⟩, htold⟩
    · rw [hconn, hr.dataConsumed, hr.dataReceived, ← hr.streams.sum_eq fun k s s' hs => ?_]
      · exact hheld
      · rw [hs.eq]
        rfl
    · rw [hconn, hr.dataReceived]
      exact hflow.advertised.trans hr.maxData
    · rw [hconn, hr.recvBuffered, hr.dataReceived, hr.dataConsumed]
      exact hbuffered
    · rw [hconn] at ht
      obtain ⟨s, hs, hraise⟩ := hr.streams.of_some ht
      exact (hflow.initial.2 k s hs).trans hraise.le
  | reap he hrecv =>
    have hforgot := forgot_foldl h.conn.reapCandidates h.conn.rest.recv
    have hsum := sum_forgetRecv_le h.conn.reapCandidates h.conn.rest.recv
    rw [← hrecv] at hforgot hsum
    refine ⟨hreceiving, ?_, ?_, ?_, ⟨hmaxData, fun k t ht => ?_⟩, htold⟩
    · rw [hconn, hforgot.dataConsumed, hforgot.dataReceived]
      omega
    · rw [hconn, hforgot.dataReceived, hforgot.maxData]
      exact hflow.advertised
    · rw [hconn, hforgot.recvBuffered, hforgot.dataReceived, hforgot.dataConsumed]
      exact hbuffered
    · rw [hconn, hforgot.streams] at ht
      split_ifs at ht
      exact hflow.initial.2 k t ht

theorem settled_of_accepted {now code : ℕ}
    (hreaped : h.conn.rest.recv.isReaped sid = false)
    (hgoes : (h.conn.dispatchFrame now .oneRtt (.resetStream sid code finalSize)).2 = true) :
    Settled sid finalSize (h.step P (now, .frame .oneRtt (.resetStream sid code finalSize))) := by
  have hrecv : (h.conn.step P now (.frame .oneRtt (.resetStream sid code finalSize))).rest.recv =
      (h.conn.rest.recv.receiveReset h.conn.isClient sid code finalSize).1 := by
    have hframe : ∀ padToWire, Event.frame (τ := τ) .oneRtt (.resetStream sid code finalSize) ≠
        .oneRtt padToWire := by simp
    rw [h.conn.step_recv P now hframe, Conn.recvAfter, if_neg (by simp [hreaped])]
  have hnone : (h.conn.rest.recv.receiveReset h.conn.isClient sid code finalSize).2 = none := by
    simp only [Conn.dispatchFrame, Conn.processResetStream, hreaped, Conn.settle, if_true,
      Bool.false_eq_true, if_false] at hgoes
    split at hgoes
    · assumption
    · cases hgoes
  obtain ⟨s, hs, hhigh, hcons⟩ := receiveReset_accepted hnone
  refine .inr ⟨s, ?_, hhigh.ge, fun _ => hcons⟩
  rw [h.step_conn, hrecv]
  exact hs

/-- **Receive flow control**, where the frames for reaped streams find their ids in the ring. -/
theorem receive_flow_control {c : Conn κ τ} (hfresh : c.Fresh) {is : List (ℕ × Event τ)}
    (hring : Along (History.step P) InRing { conn := c } is) :
    let h := run P { conn := c } is
    let r := h.conn.rest.recv
    (∀ sid s, r.recvStreams.get? sid = some s →
      s.consumed ≤ s.offset ∧ s.offset ≤ s.recvHigh ∧ s.recvHigh ≤ s.recvMax) ∧
    (r.dataConsumed ≤ r.dataReceived ∧ r.dataReceived ≤ r.maxDataAdvertised) ∧
    (∀ js, Along (step P) InRing h js →
      let r' := (run P h js).conn.rest.recv
      r.maxDataAdvertised ≤ r'.maxDataAdvertised ∧
      ∀ sid s s', r.recvStreams.get? sid = some s → r'.recvStreams.get? sid = some s' →
        s.recvMax ≤ s'.recvMax) ∧
    (∀ p ∈ h.packets, (∀ v, .maxData v ∈ p → v ≤ r.maxDataAdvertised) ∧
      ∀ sid v s, .maxStreamData sid v ∈ p → r.recvStreams.get? sid = some s → v ≤ s.recvMax) ∧
    (initialMaxData ≤ r.maxDataAdvertised ∧
      ∀ sid s, r.recvStreams.get? sid = some s → initialMaxStreamData ≤ s.recvMax) ∧
    (∀ now sid code finalSize, r.isReaped sid = false →
      (h.conn.dispatchFrame now .oneRtt (.resetStream sid code finalSize)).2 = true →
      ∀ js now', let reset := Event.frame .oneRtt (.resetStream sid code finalSize)
      Along (step P) InRing h ((now, reset) :: js ++ [(now', reset)]) →
      (run P h ((now, reset) :: js ++ [(now', reset)])).conn.rest.recv.counters =
        (run P h ((now, reset) :: js)).conn.rest.recv.counters) ∧
    r.drop.recvBuffered = c.rest.recv.recvBuffered := by
  intro h r
  have hflow : Flow c.rest.recv.recvBuffered h := hring.invariant Flow.step (flow_of_fresh hfresh)
  have hgone : ∀ {h' : History κ τ}, Receiving h' → ∀ {sid s},
      h'.conn.rest.recv.recvStreams.get? sid = some s → sid ∉ h'.reaped := by
    intro h' hrec sid s hs hmem
    rw [hrec.gone sid hmem] at hs
    cases hs
  refine ⟨fun sid s hs => ?_, ⟨(Nat.le_add_right _ _).trans hflow.held, hflow.advertised⟩, ?_,
    fun p hp => ⟨fun v hv => hflow.told p hp _ hv, fun sid v s hv hs => ?_⟩, hflow.initial, ?_, ?_⟩
  · have hsound := hflow.receiving.sound sid s hs
    exact ⟨Nat.sub_le _ _, hsound.within.offset_le, hsound.high_le⟩
  · intro js hjs
    have hrun : Receiving (run P h js) ∧ Upholds h (run P h js) :=
      hjs.invariant (I := fun h' => Receiving h' ∧ Upholds h h')
        (fun h' i hi hh => ⟨hh.1.step h' i hi, hh.2.trans (hh.1.upholds_step i)⟩)
        ⟨hflow.receiving, .refl h⟩
    refine ⟨hrun.2.maxData, fun sid s s' hs hs' => ?_⟩
    obtain ⟨t, ht, hle⟩ := (hrun.2.streams sid s hs).resolve_left (hgone hrun.1 hs')
    obtain rfl : s' = t := Option.some.inj (hs'.symm.trans ht)
    exact hle
  · obtain ⟨t, ht, hle⟩ := (hflow.told p hp _ hv).resolve_left (hgone hflow.receiving hs)
    obtain rfl : s = t := Option.some.inj (hs.symm.trans ht)
    exact hle
  · intro now sid code finalSize hreaped hgoes js now' reset halong
    rw [List.cons_append, Runs.Along, Runs.along_append] at halong
    obtain ⟨hfirst, hjs, hagain, -⟩ := halong
    have hrun : Receiving (run P (h.step P (now, reset)) js) ∧
        Settled sid finalSize (run P (h.step P (now, reset)) js) :=
      hjs.invariant (I := fun h' => Receiving h' ∧ Settled sid finalSize h')
        (fun h' i hi hh => ⟨hh.1.step h' i hi, hh.2.step hh.1 i⟩)
        ⟨hflow.receiving.step h _ hfirst, settled_of_accepted hreaped hgoes⟩
    rw [run_append]
    exact hrun.2.counters hrun.1 hagain
  · show r.recvBuffered - (r.dataReceived - r.dataConsumed) = _
    rw [hflow.buffered, Nat.add_sub_cancel]

/-- The reset of `request` and its replay. -/
theorem receive_flow_control_replayed :
    let h := run samplePrimitives { conn := sampleConn } (request ++ opening ++ [clientReset])
    h.conn.rest.recv.counters = (1, 1, 0) ∧ h.conn.rest.recv.drop.recvBuffered = 0 := by
  intro h
  exact ⟨by decide +kernel, (receive_flow_control (P := samplePrimitives) fresh_sampleConn
    (by decide +kernel)).2.2.2.2.2.2⟩

/-- After 256 more reaped streams the same reset is counted again. -/
theorem reset_counted_twice :
    let h := run samplePrimitives { conn := sampleConn } opening
    let js := [(0, .reset 0 0), (0, .reap)] ++ emptyRequests 256 ++ opening
    h.conn.rest.recv.isReaped 0 = false ∧
    (h.conn.dispatchFrame 0 .oneRtt (.resetStream 0 0 1)).2 = true ∧
    (run samplePrimitives h (clientReset :: js ++ [clientReset])).conn.rest.recv.counters ≠
      (run samplePrimitives h (clientReset :: js)).conn.rest.recv.counters := by
  intro h js
  refine ⟨by decide +kernel, by decide +kernel, fun heq => ?_⟩
  have hrecord := record_after_replay
  simp only [Prod.mk.injEq] at hrecord
  obtain ⟨-, -, -, -, -, hbefore, hafter⟩ := hrecord
  have hrun : run samplePrimitives h (clientReset :: js) =
      run samplePrimitives { conn := sampleConn } (request ++ emptyRequests 256 ++ opening) := by
    simp only [request, h, js, run_append, run_cons]
  rw [run_append, hrun, run_cons, run_nil] at heq
  have hcount := hafter.symm.trans ((dataConsumed_of_counters heq).trans hbefore)
  omega

end Waitless.Quic
