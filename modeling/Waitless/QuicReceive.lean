import Waitless.QuicSteps
import Waitless.RecentRing

/-! # The receive side, step by step

An event can raise limits, hand a stream to the application, forget streams, or move one stream
(`recvStep_of_step`).

`Receiving` is what every event keeps: the ring holds the latest reaped ids, limits fit a frame,
and a reaped stream is not live. -/

namespace Waitless.Quic

open Waitless.AesGcm Conn List RecvSide RecvStream
open Waitless.Tcp (CongestionControl)

/-- `got` bytes arrived and `used` were consumed. -/
inductive StreamMove {τ : Type} (r : RecvSide) (sid : ℕ) (s : RecvStream) :
    Event τ → RecvStream → ℕ → ℕ → Prop where
  /-- The application reads or discards. -/
  | drain (e : Event τ) (n : ℕ) (he : e.streamEnd = none) (hlive : r.recvStreams.get? sid = some s)
      (hn : n ≤ s.buffer.length) : StreamMove r sid s e { s with buffer := s.buffer.drop n } 0 n
  /-- A frame that closes the connection. -/
  | refused (e : Event τ) (upTo : ℕ) (he : e.streamEnd = some (sid, upTo))
      (hreaped : r.isReaped sid = false) : StreamMove r sid s e s 0 0
  | data (offset : ℕ) (data : Bytes) (fin : Bool) (hreaped : r.isReaped sid = false)
      (hmax : offset + data.length ≤ s.recvMax)
      (hconn : r.dataReceived + (offset + data.length - s.recvHigh) ≤ r.maxDataAdvertised) :
      StreamMove r sid s (.frame .oneRtt (.stream sid offset data fin))
        ({ s with recvHigh := max s.recvHigh (offset + data.length) }.ingest offset data fin).1
        (offset + data.length - s.recvHigh) 0
  | reset (code finalSize : ℕ) (hreaped : r.isReaped sid = false) (hhigh : s.recvHigh ≤ finalSize)
      (hfin : ∀ f, s.finOffset = some f → f = finalSize) (hmax : finalSize ≤ s.recvMax)
      (hconn : r.dataReceived + (finalSize - s.recvHigh) ≤ r.maxDataAdvertised) :
      StreamMove r sid s (.frame .oneRtt (.resetStream sid code finalSize)) (s.applyReset finalSize)
        (finalSize - s.recvHigh) (finalSize - s.consumed)

/-- One stream gets `got` bytes and is read by `used`. -/
structure Touch (isClient : Bool) (r r' : RecvSide) (sid : ℕ) (s s' : RecvStream) (got used : ℕ) :
    Prop where
  was : r.recvStreams.get? sid = some s ∨ r.recvStreams.get? sid = none ∧ ∃ t, s = { rxUs := t }
  streams : ∀ k, r'.recvStreams.get? k = if k = sid then some s' else r.recvStreams.get? k
  dataReceived : r'.dataReceived = r.dataReceived + got
  dataConsumed : r'.dataConsumed = r.dataConsumed + used
  recvBuffered : r'.recvBuffered = r.recvBuffered + got - used
  maxData : r'.maxDataAdvertised = r.maxDataAdvertised
  reapedStreams : r'.reapedStreams = r.reapedStreams
  reapedIdx : r'.reapedIdx = r.reapedIdx
  opened : r'.openedStreams = r.openedStreams ∨ r'.openedStreams = r.openedStreams ++ [sid] ∧
    (isClient = false → sid % 4 = 0 → r.recvStreams.get? sid = none)

/-- Nothing but flags and stream counts changes. -/
structure Kept (r r' : RecvSide) : Prop where
  recvStreams : r'.recvStreams = r.recvStreams
  openedStreams : r'.openedStreams = r.openedStreams
  reapedStreams : r'.reapedStreams = r.reapedStreams
  reapedIdx : r'.reapedIdx = r.reapedIdx
  dataConsumed : r'.dataConsumed = r.dataConsumed
  dataReceived : r'.dataReceived = r.dataReceived
  recvBuffered : r'.recvBuffered = r.recvBuffered
  maxData : r'.maxDataAdvertised = r.maxDataAdvertised

theorem Kept.refl (r : RecvSide) : Kept r r := ⟨rfl, rfl, rfl, rfl, rfl, rfl, rfl, rfl⟩

structure RecvStream.Sound (s : RecvStream) : Prop where
  within : s.Within s.recvHigh
  high_le : s.recvHigh ≤ s.recvMax

theorem RecvStream.sound_fresh (t : ℕ) : RecvStream.Sound { rxUs := t } :=
  ⟨⟨le_rfl, fun _ _ hget => (by cases hget), le_rfl⟩, Nat.zero_le _⟩

variable {s : RecvStream}

theorem RecvStream.Sound.consumed_le (h : s.Sound) : s.consumed ≤ s.recvHigh :=
  (Nat.sub_le _ _).trans h.within.offset_le

theorem RecvSide.StreamRaised.sound {s' : RecvStream} (h : RecvSide.StreamRaised s s') (hs : s.Sound) :
    s'.Sound := by
  obtain ⟨heq, hle⟩ := h
  rw [heq]
  exact ⟨⟨hs.within.offset_le, hs.within.staged, hs.within.buffer_le⟩, hs.high_le.trans hle⟩

theorem RecvStream.Sound.within_max (h : s.Sound) (n : ℕ) :
    RecvStream.Within (max s.recvHigh n) { s with recvHigh := max s.recvHigh n } :=
  ⟨h.within.offset_le.trans (le_max_left _ _),
    fun off v hget => (h.within.staged off v hget).trans (le_max_left _ _), h.within.buffer_le⟩

structure Moved (s s' : RecvStream) (got used : ℕ) : Prop where
  sound : s'.Sound
  recvMax : s'.recvMax = s.recvMax
  recvHigh : s'.recvHigh = s.recvHigh + got
  consumed : s'.consumed = s.consumed + used

theorem StreamMove.moved {τ : Type} {r : RecvSide} {sid : ℕ} {s' : RecvStream} {e : Event τ}
    {got used : ℕ} (h : StreamMove r sid s e s' got used) (hs : s.Sound) : Moved s s' got used := by
  have hmax' := hs.within_max
  obtain ⟨hwithin, hhigh⟩ := hs
  have hbuf := hwithin.buffer_le
  cases h with
  | drain _ n he hlive hn =>
    refine ⟨⟨⟨hwithin.offset_le, hwithin.staged, ?_⟩, hhigh⟩, rfl, rfl, ?_⟩
    · simp only [length_drop]
      omega
    · simp only [consumed, length_drop]
      omega
  | refused _ upTo he hreaped => exact ⟨⟨hwithin, hhigh⟩, rfl, rfl, rfl⟩
  | data offset data fin hreaped hmax hconn =>
    have hg := (hmax' (offset + data.length)).grows_ingest (le_max_right _ _) fin
    refine ⟨⟨?_, ?_⟩, hg.recvMax, ?_, hg.consumed⟩
    · rw [hg.recvHigh]
      exact hg.within
    · rw [hg.recvHigh, hg.recvMax]
      exact max_le hhigh hmax
    · rw [hg.recvHigh]
      show max _ _ = _
      omega
  | reset code finalSize hreaped hle hfin hmax hconn =>
    have hcons : s.consumed ≤ finalSize := ((Nat.sub_le _ _).trans hwithin.offset_le).trans hle
    refine ⟨⟨⟨le_rfl, fun _ _ hget => (by cases hget), Nat.zero_le _⟩, hmax⟩, rfl, ?_, ?_⟩
    · show finalSize = _
      omega
    · show finalSize - 0 = _
      omega

/-- What an event can do to the receive side. -/
inductive RecvStep {κ τ : Type} (c : Conn κ τ) (e : Event τ) (r' : RecvSide) : Prop where
  | keep (he : e ≠ .reap ∧ e ≠ .accept) (h : Kept c.rest.recv r')
  | accept (he : e = .accept) (h : r' = c.rest.recv.popAcceptedStream.1)
  | touch (he : e ≠ .reap ∧ e ≠ .accept) (sid : ℕ) (s s' : RecvStream) (got used : ℕ)
      (hmove : StreamMove c.rest.recv sid s e s' got used)
      (htouch : Touch c.isClient c.rest.recv r' sid s s' got used)
  | raise (padToWire : Option ℕ) (he : e = .oneRtt padToWire)
      (h : c.rest.recv.Limited → c.rest.recv.Raised r')
  | reap (he : e = .reap) (h : r' = c.reapCandidates.foldl Conn.forgetRecv c.rest.recv)

namespace RecvSide

variable (r : RecvSide) {τ : Type}

theorem discardLoop_eq (fuel : ℕ) (s : RecvStream) (total : ℕ) (h : s.buffer.length < fuel) :
    discardLoop fuel s total = ({ s with buffer := [] }, total + s.buffer.length) := by
  induction fuel generalizing s total with
  | zero => omega
  | succ fuel ih =>
    unfold discardLoop
    simp only [drain]
    rcases hbuf : s.buffer with _ | ⟨b, bs⟩
    · simp
    · have htake : (b :: bs).take (min 2048 (b :: bs).length) =
          b :: bs.take (min 2048 (b :: bs).length - 1) := by
        rw [show min 2048 (b :: bs).length = min 2048 (b :: bs).length - 1 + 1 by simp]
        rfl
      rw [hbuf, length_cons] at h
      rw [htake]
      simp only
      rw [← htake, ih _ _ (by simp; omega)]
      simp only [length_drop, length_take, length_cons]
      congr 1
      omega

variable {s : RecvStream} {sid : ℕ}

variable (isClient : Bool)

theorem touch_drain (n : ℕ) (hs : r.recvStreams.get? sid = some s) :
    Touch isClient r ({ r with
        recvStreams := r.recvStreams.insert sid { s with buffer := s.buffer.drop n } }.credit n)
      sid s { s with buffer := s.buffer.drop n } 0 n :=
  ⟨.inl hs, fun k => by simp [credit], rfl, rfl, rfl, rfl, rfl, rfl, .inl rfl⟩

theorem streamRecv_cases {e : Event τ} (he : e.streamEnd = none) (sid room : ℕ) :
    Kept r (r.streamRecv sid room).1 ∨ ∃ s s' got used, StreamMove r sid s e s' got used ∧
      Touch isClient r (r.streamRecv sid room).1 sid s s' got used := by
  unfold streamRecv
  split
  · exact .inl (.refl r)
  next s hs =>
    have hlen : (s.buffer.take (min room s.buffer.length)).length = min room s.buffer.length := by
      rw [length_take]
      omega
    simp only [drain, hlen]
    exact .inr ⟨s, _, 0, _, .drain e _ he hs (min_le_right _ _), r.touch_drain isClient _ hs⟩

theorem discardRecv_cases {e : Event τ} (he : e.streamEnd = none) (sid : ℕ) :
    Kept r (r.discardRecv sid) ∨ ∃ s s' got used, StreamMove r sid s e s' got used ∧
      Touch isClient r (r.discardRecv sid) sid s s' got used := by
  unfold discardRecv
  split
  · exact .inl (.refl r)
  next s hs =>
    rw [discardLoop_eq _ s 0 (Nat.lt_succ_self _)]
    have htouch := r.touch_drain isClient s.buffer.length hs
    have hmove := StreamMove.drain e s.buffer.length he hs le_rfl
    rw [drop_length] at htouch hmove
    simp only [Nat.zero_add]
    exact .inr ⟨s, _, 0, _, hmove, htouch⟩

theorem touch_refused
    (hs : r.recvStreams.get? sid = some s ∨ r.recvStreams.get? sid = none ∧ ∃ t, s = { rxUs := t }) :
    Touch isClient r (r.putStream sid s) sid s s 0 0 :=
  ⟨hs, fun k => by simp [putStream], rfl, rfl, by simp [putStream], rfl, rfl, rfl, .inl rfl⟩

theorem noteOpened_kept (sid : ℕ) : Kept r (r.noteOpened isClient sid) := by
  unfold noteOpened
  simp only
  split_ifs <;> exact ⟨rfl, rfl, rfl, rfl, rfl, rfl, rfl, rfl⟩

theorem touch_ingestOn (wasNew : Bool) {offset : ℕ} {data : Bytes}
    (fin : Bool)
    (hs : r.recvStreams.get? sid = some s ∨ r.recvStreams.get? sid = none ∧ ∃ t, s = { rxUs := t })
    (hnew : wasNew = true → r.recvStreams.get? sid = none)
    (hlimit : ¬(offset + data.length > s.recvMax ∨
      r.dataReceived + (offset + data.length - s.recvHigh) > r.maxDataAdvertised)) :
    Touch isClient r (r.ingestOn isClient wasNew s sid offset data fin).1 sid s
      ({ s with recvHigh := max s.recvHigh (offset + data.length) }.ingest offset data fin).1
      (offset + data.length - s.recvHigh) 0 := by
  unfold ingestOn
  extract_lets frameEnd connDelta s' r1 r2
  rw [if_neg hlimit]
  have hr2 : Kept r1 r2 := by
    simp only [r2]
    split_ifs
    · exact r1.noteOpened_kept isClient sid
    · exact .refl r1
  split_ifs with hannounce
  · refine ⟨hs, fun k => ?_, hr2.dataReceived, hr2.dataConsumed, hr2.recvBuffered, hr2.maxData,
      hr2.reapedStreams, hr2.reapedIdx, .inr ⟨by rw [announce, hr2.openedStreams]; rfl, ?_⟩⟩
    · rw [announce, hr2.recvStreams]
      simp [r1, s', frameEnd, putStream, charge]
    · rintro rfl hsid
      simp only [announces, hsid, Bool.false_eq_true, if_false] at hannounce
      exact hnew hannounce
  · refine ⟨hs, fun k => ?_, hr2.dataReceived, hr2.dataConsumed, hr2.recvBuffered, hr2.maxData,
      hr2.reapedStreams, hr2.reapedIdx, .inl (by rw [hr2.openedStreams]; rfl)⟩
    rw [hr2.recvStreams]
    simp [r1, s', frameEnd, putStream, charge]

theorem ingestOn_cases (wasNew : Bool) (offset : ℕ) (data : Bytes)
    (fin : Bool) (hreaped : r.isReaped sid = false)
    (hs : r.recvStreams.get? sid = some s ∨ r.recvStreams.get? sid = none ∧ ∃ t, s = { rxUs := t })
    (hnew : wasNew = true → r.recvStreams.get? sid = none) :
    ∃ s' got used, StreamMove (τ := τ) r sid s (.frame .oneRtt (.stream sid offset data fin)) s' got used ∧
      Touch isClient r (r.ingestOn isClient wasNew s sid offset data fin).1 sid s s' got used := by
  by_cases hlimit : offset + data.length > s.recvMax ∨
      r.dataReceived + (offset + data.length - s.recvHigh) > r.maxDataAdvertised
  · have hrefused : r.ingestOn isClient wasNew s sid offset data fin =
        (r.putStream sid s, some (0x03, "flow control")) := if_pos hlimit
    rw [hrefused]
    exact ⟨s, 0, 0, .refused _ _ rfl hreaped, r.touch_refused isClient hs⟩
  · have htouch := r.touch_ingestOn isClient wasNew fin hs hnew hlimit
    rw [not_or, not_lt, not_lt] at hlimit
    exact ⟨_, _, _, .data offset data fin hreaped hlimit.1 hlimit.2, htouch⟩

theorem receiveStream_cases (curRxUs : ℕ) (offset : ℕ) (data : Bytes)
    (fin : Bool) (hreaped : r.isReaped sid = false) :
    Kept r (r.receiveStream isClient curRxUs sid offset data fin).1 ∨
    ∃ s s' got used, StreamMove (τ := τ) r sid s (.frame .oneRtt (.stream sid offset data fin)) s' got used ∧
      Touch isClient r (r.receiveStream isClient curRxUs sid offset data fin).1 sid s s' got used := by
  unfold receiveStream
  split
  next s hs =>
    exact .inr ⟨s, r.ingestOn_cases isClient false offset data fin hreaped (.inl hs) (by simp)⟩
  next hs =>
    split_ifs
    · exact .inl (.refl r)
    · exact .inr ⟨_, r.ingestOn_cases isClient true offset data fin hreaped (.inr ⟨hs, _, rfl⟩)
        fun _ => hs⟩

theorem recordPeerReset_kept (sid code : ℕ) : Kept r (r.recordPeerReset sid code) := by
  unfold recordPeerReset
  split_ifs <;> exact ⟨rfl, rfl, rfl, rfl, rfl, rfl, rfl, rfl⟩

theorem resetOn_cases (wasNew : Bool) (code finalSize : ℕ)
    (hreaped : r.isReaped sid = false)
    (hs : r.recvStreams.get? sid = some s ∨ r.recvStreams.get? sid = none ∧ ∃ t, s = { rxUs := t })
    (hnew : wasNew = true → r.recvStreams.get? sid = none) :
    ∃ s' got used, StreamMove (τ := τ) r sid s (.frame .oneRtt (.resetStream sid code finalSize)) s' got
        used ∧
      Touch isClient r (r.resetOn isClient wasNew s sid code finalSize).1 sid s s' got used := by
  unfold resetOn
  extract_lets connDelta newlyConsumed r1 accept
  split_ifs with hfinal hlimit hannounce
  · exact ⟨s, 0, 0, .refused _ finalSize rfl hreaped, r.touch_refused isClient hs⟩
  · exact ⟨s, 0, 0, .refused _ finalSize rfl hreaped, r.touch_refused isClient hs⟩
  all_goals
    rw [not_or, not_lt] at hfinal hlimit
    rw [not_lt] at hlimit
    have hfin : ∀ f, s.finOffset = some f → f = finalSize := by
      intro f hf
      have := hfinal.2
      simpa [hf] using this
    have hr1 := (((r.charge connDelta).putStream sid (s.applyReset finalSize)).credit
      newlyConsumed).recordPeerReset_kept sid code
    refine ⟨s.applyReset finalSize, connDelta, newlyConsumed,
      .reset code finalSize hreaped hfinal.1 hfin hlimit.1 hlimit.2, ?_⟩
  · refine ⟨hs, fun k => ?_, hr1.dataReceived, hr1.dataConsumed, hr1.recvBuffered, hr1.maxData,
      hr1.reapedStreams, hr1.reapedIdx, .inr ⟨by rw [announce, hr1.openedStreams]; rfl,
        fun _ _ => hnew hannounce.1⟩⟩
    rw [announce, hr1.recvStreams]
    simp [credit, putStream, charge]
  · refine ⟨hs, fun k => ?_, hr1.dataReceived, hr1.dataConsumed, hr1.recvBuffered, hr1.maxData,
      hr1.reapedStreams, hr1.reapedIdx, .inl (by rw [hr1.openedStreams]; rfl)⟩
    rw [hr1.recvStreams]
    simp [credit, putStream, charge]

theorem receiveReset_cases (code finalSize : ℕ)
    (hreaped : r.isReaped sid = false) :
    Kept r (r.receiveReset isClient sid code finalSize).1 ∨
    ∃ s s' got used, StreamMove (τ := τ) r sid s (.frame .oneRtt (.resetStream sid code finalSize)) s' got
        used ∧
      Touch isClient r (r.receiveReset isClient sid code finalSize).1 sid s s' got used := by
  unfold receiveReset
  extract_lets ourUni
  by_cases hown : sid % 4 = ourUni
  · rw [if_pos hown]
    exact .inl (.refl r)
  · rw [if_neg hown]
    split
    next s hs =>
      exact .inr ⟨s, r.resetOn_cases isClient false code finalSize hreaped (.inl hs) (by simp)⟩
    next hs =>
      split_ifs
      · exact .inl (.refl r)
      · exact .inr ⟨_, r.resetOn_cases isClient true code finalSize hreaped (.inr ⟨hs, 0, rfl⟩)
          fun _ => hs⟩

theorem noteBlocked_kept (kind : UInt8) : Kept r (r.noteBlocked kind) := by
  unfold noteBlocked
  split_ifs <;> exact ⟨rfl, rfl, rfl, rfl, rfl, rfl, rfl, rfl⟩

end RecvSide

variable {κ τ : Type}

structure Forgot (sids : List ℕ) (r r' : RecvSide) : Prop where
  streams : ∀ k, r'.recvStreams.get? k = if k ∈ sids then none else r.recvStreams.get? k
  openedStreams : r'.openedStreams = r.openedStreams
  dataConsumed : r'.dataConsumed = r.dataConsumed
  dataReceived : r'.dataReceived = r.dataReceived
  recvBuffered : r'.recvBuffered = r.recvBuffered
  maxData : r'.maxDataAdvertised = r.maxDataAdvertised

theorem forgot_foldl (sids : List ℕ) (r : RecvSide) : Forgot sids r (sids.foldl Conn.forgetRecv r) := by
  induction sids generalizing r with
  | nil => exact ⟨by simp, rfl, rfl, rfl, rfl, rfl⟩
  | cons sid sids ih =>
    have h := ih (forgetRecv r sid)
    refine ⟨fun k => ?_, h.openedStreams, h.dataConsumed, h.dataReceived, h.recvBuffered, h.maxData⟩
    rw [foldl_cons, h.streams]
    simp only [forgetRecv, markReaped, SortedMap.get?_erase, mem_cons]
    by_cases hk : k = sid
    · simp [hk]
    · simp only [hk, if_false, false_or]

theorem remembers_foldl (sids : List ℕ) {r : RecvSide} {log : List ℕ}
    (hcap : r.reapedStreams.length = reapedStreamsCap)
    (h : RecentRing.Remembers r.reapedStreams r.reapedIdx log) :
    let r' := sids.foldl forgetRecv r
    r'.reapedStreams.length = reapedStreamsCap ∧
      RecentRing.Remembers r'.reapedStreams r'.reapedIdx (sids.reverse ++ log) ∧
      ∀ x ∈ r'.reapedStreams, x ∈ sids ∨ x ∈ r.reapedStreams := by
  induction sids generalizing r log with
  | nil => exact ⟨hcap, h, fun x hx => .inr hx⟩
  | cons sid sids ih =>
    have hstep := h.push sid
    rw [hcap] at hstep
    have hcap' : (forgetRecv r sid).reapedStreams.length = reapedStreamsCap := by
      rw [forgetRecv, markReaped, length_set]
      exact hcap
    obtain ⟨hcells, hring, hids⟩ := ih hcap' hstep
    rw [reverse_cons, append_assoc]
    refine ⟨hcells, hring, fun x hx => ?_⟩
    rcases hids x hx with hmem | hmem
    · exact .inl (mem_cons_of_mem _ hmem)
    · rcases mem_or_eq_of_mem_set hmem with hold | rfl
      · exact .inr hold
      · exact .inl mem_cons_self

section

variable [CongestionControl κ] [Tls τ] (P : Primitives)

theorem recvStep_of_step (c : Conn κ τ) (now : ℕ) (e : Event τ) :
    RecvStep c e (c.step P now e).rest.recv := by
  have htouch : ∀ {sid : ℕ} {r' : RecvSide}, e ≠ .reap ∧ e ≠ .accept →
      (Kept c.rest.recv r' ∨ ∃ s s' got used, StreamMove c.rest.recv sid s e s' got used ∧
        Touch c.isClient c.rest.recv r' sid s s' got used) → RecvStep c e r' := by
    rintro sid r' he (h | ⟨s, s', got, used, hmove, htouch⟩)
    · exact .keep he h
    · exact .touch he sid s s' got used hmove htouch
  by_cases hbuild : ∃ padToWire, e = .oneRtt padToWire
  · obtain ⟨padToWire, rfl⟩ := hbuild
    exact .raise padToWire rfl fun h => (c.step_oneRtt_recv P now padToWire h).1
  · rw [c.step_recv P now (not_exists.1 hbuild)]
    cases e with
    | recv sid room => exact htouch (by simp) (c.rest.recv.streamRecv_cases c.isClient rfl sid room)
    | discardRecv sid => exact htouch (by simp) (c.rest.recv.discardRecv_cases c.isClient rfl sid)
    | stopSending sid code => exact htouch (by simp) (c.rest.recv.discardRecv_cases c.isClient rfl sid)
    | accept => exact .accept rfl rfl
    | reap => exact .reap rfl rfl
    | frame level f =>
      cases level with
      | oneRtt =>
        cases f with
        | stream sid offset data fin =>
          simp only [recvAfter]
          split_ifs with hreaped
          · exact .keep (by simp) (.refl _)
          · exact htouch (by simp) (c.rest.recv.receiveStream_cases c.isClient _ offset data
              fin (Bool.eq_false_iff.2 hreaped))
        | resetStream sid code finalSize =>
          simp only [recvAfter]
          split_ifs with hreaped
          · exact .keep (by simp) (.refl _)
          · exact htouch (by simp) (c.rest.recv.receiveReset_cases c.isClient code finalSize
              (Bool.eq_false_iff.2 hreaped))
        | skipped kind => exact .keep (by simp) (c.rest.recv.noteBlocked_kept kind)
        | _ => exact .keep (by simp) (.refl _)
      | initial =>
        cases f with
        | skipped kind => exact .keep (by simp) (c.rest.recv.noteBlocked_kept kind)
        | _ => exact .keep (by simp) (.refl _)
      | handshake =>
        cases f with
        | skipped kind => exact .keep (by simp) (c.rest.recv.noteBlocked_kept kind)
        | _ => exact .keep (by simp) (.refl _)
    | _ => exact .keep (by simp) (.refl _)

end

variable {c : Conn κ τ} {e : Event τ}

variable {r' : RecvSide}

/-- **Where a live stream comes from.** -/
theorem RecvStep.origin (h : RecvStep c e r')
    (hlim : c.rest.recv.Limited) {sid : ℕ} {s' : RecvStream} (hs' : r'.recvStreams.get? sid = some s') :
    ∃ s, (c.rest.recv.recvStreams.get? sid = some s ∨
        c.rest.recv.recvStreams.get? sid = none ∧ ∃ t, s = { rxUs := t }) ∧
      (RecvSide.StreamRaised s s' ∧ c.rest.recv.recvStreams.get? sid = some s ∨
        ∃ got used, StreamMove c.rest.recv sid s e s' got used) := by
  cases h with
  | keep he hkept =>
    rw [hkept.recvStreams] at hs'
    exact ⟨s', .inl hs', .inl ⟨.refl s', hs'⟩⟩
  | accept he hrecv =>
    rw [hrecv, popAcceptedStream] at hs'
    split at hs' <;> exact ⟨s', .inl hs', .inl ⟨.refl s', hs'⟩⟩
  | touch he k t t' got used hmove htouch =>
    rw [htouch.streams] at hs'
    split_ifs at hs' with hk
    · subst hk
      obtain rfl := Option.some.inj hs'
      exact ⟨t, htouch.was, .inr ⟨got, used, hmove⟩⟩
    · exact ⟨s', .inl hs', .inl ⟨.refl s', hs'⟩⟩
  | raise padToWire he hraised =>
    obtain ⟨s, hs, hraise⟩ := (hraised hlim).streams.of_some hs'
    exact ⟨s, .inl hs, .inl ⟨hraise, hs⟩⟩
  | reap he hrecv =>
    rw [hrecv, (forgot_foldl c.reapCandidates c.rest.recv).streams] at hs'
    split_ifs at hs'
    exact ⟨s', .inl hs', .inl ⟨.refl s', hs'⟩⟩

theorem RecvStep.reaped (h : RecvStep c e r') (hlim : c.rest.recv.Limited)
    (he : e ≠ .reap) :
    r'.reapedStreams = c.rest.recv.reapedStreams ∧ r'.reapedIdx = c.rest.recv.reapedIdx := by
  cases h with
  | keep _ hkept => exact ⟨hkept.reapedStreams, hkept.reapedIdx⟩
  | accept _ hrecv =>
    rw [hrecv, popAcceptedStream]
    split <;> exact ⟨rfl, rfl⟩
  | touch _ _ _ _ _ _ _ htouch => exact ⟨htouch.reapedStreams, htouch.reapedIdx⟩
  | raise _ _ hraised => exact ⟨(hraised hlim).reapedStreams, (hraised hlim).reapedIdx⟩
  | reap hreap _ => exact absurd hreap he

theorem RecvStep.limited (h : RecvStep c e r')
    (hlim : c.rest.recv.Limited)
    (hsound : ∀ sid s, c.rest.recv.recvStreams.get? sid = some s → s.Sound) : r'.Limited := by
  cases h with
  | keep he hkept => exact ⟨hkept.maxData ▸ hlim.maxData, hkept.recvStreams ▸ hlim.recvMax⟩
  | accept he hrecv =>
    rw [hrecv, popAcceptedStream]
    split
    · exact hlim
    · exact ⟨hlim.maxData, hlim.recvMax⟩
  | touch he sid s s' got used hmove htouch =>
    have hs : s.Sound ∧ s.recvMax ≤ maxVarint := by
      rcases htouch.was with hs | ⟨-, t, rfl⟩
      · exact ⟨hsound sid s hs, hlim.recvMax sid s hs⟩
      · refine ⟨sound_fresh t, ?_⟩
        show initialMaxStreamData ≤ maxVarint
        decide
    refine ⟨htouch.maxData ▸ hlim.maxData, fun k t hk => ?_⟩
    rw [htouch.streams] at hk
    split_ifs at hk with hsid
    · obtain rfl := Option.some.inj hk
      rw [(hmove.moved hs.1).recvMax]
      exact hs.2
    · exact hlim.recvMax k t hk
  | raise padToWire he hraised => exact (hraised hlim).limited
  | reap he hrecv =>
    have hforgot := forgot_foldl c.reapCandidates c.rest.recv
    rw [← hrecv] at hforgot
    refine ⟨hforgot.maxData ▸ hlim.maxData, fun k t hk => ?_⟩
    rw [hforgot.streams] at hk
    split_ifs at hk
    exact hlim.recvMax k t hk

/-- Frames for reaped streams find them in the ring. -/
def InRing (h : History κ τ) (i : ℕ × Event τ) : Prop :=
  ∀ e ∈ i.2.streamEnd, e.1 ∈ h.reaped → e.1 ∈ h.reaped.take reapedStreamsCap

instance (h : History κ τ) (i : ℕ × Event τ) : Decidable (InRing h i) :=
  inferInstanceAs (Decidable (∀ e ∈ i.2.streamEnd, _))

/-- The ring, the limits, live and reaped streams. -/
structure Receiving (h : History κ τ) : Prop where
  limited : h.conn.rest.recv.Limited
  cells : h.conn.rest.recv.reapedStreams.length = reapedStreamsCap
  ring : RecentRing.Remembers h.conn.rest.recv.reapedStreams h.conn.rest.recv.reapedIdx h.reaped
  ids : ∀ sid s, h.conn.rest.recv.recvStreams.get? sid = some s → h.conn.rest.recv.isReaped sid = false
  sound : ∀ sid s, h.conn.rest.recv.recvStreams.get? sid = some s → s.Sound
  gone : ∀ sid ∈ h.reaped, h.conn.rest.recv.recvStreams.get? sid = none

theorem receiving_of_fresh (hfresh : c.Fresh) : Receiving { conn := c } := by
  have hrecv : c.rest.recv = { recvBuffered := c.rest.recv.recvBuffered } := hfresh.recv
  refine ⟨?_, ?_, ?_, ?_, ?_, fun sid hsid => by cases hsid⟩
  · rw [hrecv]
    exact ⟨by simp only; decide, fun sid s hs => by cases hs⟩
  · rw [hrecv]
    exact length_replicate
  · rw [hrecv]
    exact RecentRing.remembers_nil (by rw [length_replicate]; exact Nat.succ_pos 255)
  · rw [hrecv]
    exact fun sid s hs => by cases hs
  · rw [hrecv]
    intro sid s hs
    cases hs

theorem StreamMove.of_none {r : RecvSide} {sid : ℕ} {s s' : RecvStream} {got used : ℕ}
    (h : StreamMove r sid s e s' got used) (hnone : r.recvStreams.get? sid = none) :
    (∃ upTo, e.streamEnd = some (sid, upTo)) ∧ r.isReaped sid = false := by
  cases h with
  | drain _ n he hlive hn => rw [hnone] at hlive; cases hlive
  | refused _ upTo he hreaped => exact ⟨⟨upTo, he⟩, hreaped⟩
  | data offset data fin hreaped hmax hconn => exact ⟨⟨_, rfl⟩, hreaped⟩
  | reset code finalSize hreaped hhigh hfin hmax hconn => exact ⟨⟨_, rfl⟩, hreaped⟩

namespace Receiving

variable {h : History κ τ} {i : ℕ × Event τ} {sid : ℕ} {s s' : RecvStream} {got used : ℕ}

theorem not_mem_reaped (hrec : Receiving h) (hring : InRing h i)
    (hmove : StreamMove h.conn.rest.recv sid s i.2 s' got used) : sid ∉ h.reaped := by
  intro hmem
  obtain ⟨⟨upTo, he⟩, hreaped⟩ := hmove.of_none (hrec.gone sid hmem)
  have hlatest : sid ∈ h.conn.rest.recv.reapedStreams := by
    refine hrec.ring.mem ?_
    rw [hrec.cells]
    exact hring (sid, upTo) he hmem
  rw [isReaped, contains_iff_mem.2 hlatest] at hreaped
  cases hreaped

theorem sound_of_touch (hrec : Receiving h) {isClient : Bool} {r' : RecvSide}
    (htouch : Touch isClient h.conn.rest.recv r' sid s s' got used) : s.Sound := by
  rcases htouch.was with hs | ⟨-, t, rfl⟩
  · exact hrec.sound sid s hs
  · exact sound_fresh t

variable [CongestionControl κ] [Tls τ] {P : Primitives}

/-- **What becomes of a live stream.** -/
theorem live_step (hrec : Receiving h) (i : ℕ × Event τ)
    (hs : h.conn.rest.recv.recvStreams.get? sid = some s) :
    (i.2 = .reap ∧ sid ∈ h.conn.reapCandidates) ∨
    ∃ s', (h.step P i).conn.rest.recv.recvStreams.get? sid = some s' ∧
      (RecvSide.StreamRaised s s' ∨ ∃ got used, StreamMove h.conn.rest.recv sid s i.2 s' got used) := by
  rw [h.step_conn]
  cases recvStep_of_step P h.conn i.1 i.2 with
  | keep he hkept => exact .inr ⟨s, by rw [hkept.recvStreams]; exact hs, .inl (.refl s)⟩
  | accept he hrecv =>
    refine .inr ⟨s, ?_, .inl (.refl s)⟩
    rw [hrecv, popAcceptedStream]
    split <;> exact hs
  | touch he k t t' got used hmove htouch =>
    by_cases hk : sid = k
    · subst hk
      obtain rfl : t = s := by
        rcases htouch.was with ht | ⟨ht, -⟩
        · exact Option.some.inj (ht.symm.trans hs)
        · rw [ht] at hs
          cases hs
      exact .inr ⟨t', by rw [htouch.streams, if_pos rfl], .inr ⟨got, used, hmove⟩⟩
    · exact .inr ⟨s, by rw [htouch.streams, if_neg hk]; exact hs, .inl (.refl s)⟩
  | raise padToWire he hraised =>
    obtain ⟨s', hs', hraise⟩ := (hraised hrec.limited).streams.to_some hs
    exact .inr ⟨s', hs', .inl hraise⟩
  | reap he hrecv =>
    by_cases hmem : sid ∈ h.conn.reapCandidates
    · exact .inl ⟨he, hmem⟩
    · refine .inr ⟨s, ?_, .inl (.refl s)⟩
      rw [hrecv, (forgot_foldl h.conn.reapCandidates h.conn.rest.recv).streams, if_neg hmem]
      exact hs

theorem origin_step (hrec : Receiving h) (i : ℕ × Event τ)
    (hs' : (h.step P i).conn.rest.recv.recvStreams.get? sid = some s') :
    ∃ s, (h.conn.rest.recv.recvStreams.get? sid = some s ∨
        h.conn.rest.recv.recvStreams.get? sid = none ∧ ∃ t, s = { rxUs := t }) ∧
      (RecvSide.StreamRaised s s' ∧ h.conn.rest.recv.recvStreams.get? sid = some s ∨
        ∃ got used, StreamMove h.conn.rest.recv sid s i.2 s' got used) := by
  rw [h.step_conn] at hs'
  exact (recvStep_of_step P h.conn i.1 i.2).origin hrec.limited hs'

theorem step (h : History κ τ) (i : ℕ × Event τ) (hring : InRing h i) (hrec : Receiving h) :
    Receiving (h.step P i) := by
  obtain ⟨now, e⟩ := i
  have hconn := h.step_conn P (now, e)
  have hlimited : (h.step P (now, e)).conn.rest.recv.Limited := by
    rw [hconn]
    exact (recvStep_of_step P h.conn now e).limited hrec.limited hrec.sound
  by_cases he : e = .reap
  · subst he
    have hrecv : (h.conn.step P now .reap).rest.recv =
        h.conn.reapCandidates.foldl forgetRecv h.conn.rest.recv := h.conn.step_recv P now nofun
    have hforgot := forgot_foldl h.conn.reapCandidates h.conn.rest.recv
    obtain ⟨hcells, hring, hids⟩ := remembers_foldl h.conn.reapCandidates hrec.cells hrec.ring
    rw [← hrecv] at hforgot hcells hring hids
    have hlive : ∀ k t, (h.conn.step P now .reap).rest.recv.recvStreams.get? k = some t →
        h.conn.rest.recv.recvStreams.get? k = some t := by
      intro k t hk
      rw [hforgot.streams] at hk
      split_ifs at hk
      exact hk
    refine ⟨hlimited, hcells, hring, fun k t hk => ?_,
      fun k t hk => hrec.sound k t (hlive k t hk), fun k hk => ?_⟩
    · refine Bool.eq_false_iff.2 fun hreaped => ?_
      rcases hids k (contains_iff_mem.1 hreaped) with hnew | hold
      · rw [hconn, hforgot.streams, if_pos hnew] at hk
        cases hk
      · have hnot := hrec.ids k t (hlive k t hk)
        rw [isReaped, contains_iff_mem.2 hold] at hnot
        cases hnot
    · rw [hconn, hforgot.streams]
      split_ifs with hmem
      · rfl
      · rcases mem_append.1 hk with hnew | hold
        · exact absurd (mem_reverse.1 hnew) hmem
        · exact hrec.gone k hold
  · have hreaped := History.step_reaped P (h := h) (i := (now, e)) he
    obtain ⟨hcells, hidx⟩ := (recvStep_of_step P h.conn now e).reaped hrec.limited he
    refine ⟨hlimited, ?_, ?_, fun k t hk => ?_, fun k t hk => ?_, fun k hk => ?_⟩
    · rw [hconn, hcells, hrec.cells]
    · rw [hconn, hreaped, hcells, hidx]
      exact hrec.ring
    · obtain ⟨s, hwas, hbecame⟩ := hrec.origin_step (now, e) hk
      unfold isReaped
      rw [hconn, hcells]
      rcases hbecame with ⟨-, hs⟩ | ⟨got, used, hmove⟩
      · exact hrec.ids k s hs
      · rcases hwas with hs | ⟨hnone, -⟩
        · exact hrec.ids k s hs
        · exact (hmove.of_none hnone).2
    · obtain ⟨s, hwas, hbecame⟩ := hrec.origin_step (now, e) hk
      rcases hbecame with ⟨hraise, hs⟩ | ⟨got, used, hmove⟩
      · exact hraise.sound (hrec.sound k s hs)
      · refine (hmove.moved ?_).sound
        rcases hwas with hs | ⟨-, t, rfl⟩
        · exact hrec.sound k s hs
        · exact sound_fresh t
    · rw [hreaped] at hk
      refine Option.eq_none_iff_forall_ne_some.2 fun t ht => ?_
      obtain ⟨s, -, hbecame⟩ := hrec.origin_step (now, e) ht
      rcases hbecame with ⟨-, hs⟩ | ⟨got, used, hmove⟩
      · rw [hrec.gone k hk] at hs
        cases hs
      · exact hrec.not_mem_reaped hring hmove hk

end Receiving

end Waitless.Quic
