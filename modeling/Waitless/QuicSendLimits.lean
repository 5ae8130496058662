import Waitless.QuicSteps

/-! # The limits of the send side

A peer limits what we send: per stream, by its transport parameters and MAX_STREAM_DATA frames, and
in total, by MAX_DATA.

In every run the frames stay within the limits of their streams, of the connection and of the
congestion window (`emitted_within_limits`). -/

namespace Waitless.Quic

open Waitless.AesGcm DataSide SendSide SendStream
open Waitless.Tcp (CongestionControl)

def initialLimit (isClient : Bool) (p : PeerParams) (sid : ℕ) : ℕ :=
  if isBidirectional sid then
    if decide (sid % 2 = 0) = isClient then p.initialMaxStreamDataBidiRemote
    else p.initialMaxStreamDataBidiLocal
  else p.initialMaxStreamDataUni

namespace Event

variable {τ : Type}

def creditFor (sid : ℕ) : Event τ → ℕ
  | .frame _ (.maxStreamData k maximum) => if k = sid then maximum else 0
  | _ => 0

/-- The stream whose send side an event makes if there is none. -/
def opens : Event τ → Option ℕ
  | .send sid _ => some sid
  | .close sid => some sid
  | .reset sid _ => some sid
  | .frame .oneRtt (.stopSending sid _) => some sid
  | _ => none

end Event

/-- A connection, the limits of its streams and the fresh bytes emitted. -/
structure Ledger (κ τ : Type) where
  conn : Conn κ τ
  limit : ℕ → ℕ
  emitted : ℕ := 0

def Body.streamFrames (b : Body) : List StreamRetx := b.frames.filterMap fun
  | .stream sid offset fin data => some ⟨sid, offset, fin, data⟩
  | _ => none

namespace Ledger

variable {κ τ : Type} [CongestionControl κ] [Tls τ] (P : Primitives)

def emits (c : Conn κ τ) (now : ℕ) : Event τ → ℕ
  | .oneRtt _ => dataLength (History.builtBody c now).handed
  | _ => 0

def step (s : Ledger κ τ) (i : ℕ × Event τ) : Ledger κ τ where
  conn := s.conn.step P i.1 i.2
  limit sid := max (s.limit sid) (i.2.creditFor sid)
  emitted := s.emitted + emits s.conn i.1 i.2

end Ledger

def DataSide.seed (d : DataSide) (sid : ℕ) : ℕ := if isBidirectional sid then d.initialBidi else d.initialUni

/-- Raised limits, data sent up to them, new streams. -/
structure DataSide.Moves {τ : Type} (e : Event τ) (sent : ℕ) (d d' : DataSide) : Prop where
  applied : d'.applied = d.applied
  seed : d'.seed = d.seed
  peerMaxData : d.peerMaxData ≤ d'.peerMaxData
  dataSent : d'.dataSent = d.dataSent + sent
  streams : ∀ sid t', d'.streams.get? sid = some t' →
    (∃ t, d.streams.get? sid = some t ∧ t'.sendOffset ≤ t.reach ∧
      t'.peerMaxStreamData = max t.peerMaxStreamData (e.creditFor sid)) ∨
    d.streams.get? sid = none ∧ e.opens = some sid ∧ e.creditFor sid = 0 ∧ t'.sendOffset = 0 ∧
      t'.peerMaxStreamData = d.seed sid

namespace DataSide

variable {τ : Type} {d d' : DataSide} {e : Event τ}

theorem Moves.refl (d : DataSide) (hc : ∀ sid, e.creditFor sid = 0) : Moves e 0 d d :=
  ⟨rfl, rfl, le_rfl, rfl, fun sid t ht => .inl ⟨t, ht, le_max_left _ _, by rw [hc, Nat.max_zero]⟩⟩

theorem Moves.of_limits {n : ℕ} {d₁ : DataSide} (h : Moves e n d d₁) (hl : d'.limits = d₁.limits) :
    Moves e n d d' := by
  have hproj {α : Type} (f : DataSide → α) : f d'.limits = f d₁.limits := congrArg f hl
  refine ⟨(hproj DataSide.applied).trans h.applied, Eq.trans ?_ h.seed,
    h.peerMaxData.trans (hproj DataSide.peerMaxData).ge, (hproj DataSide.dataSent).trans h.dataSent, ?_⟩
  · exact hproj DataSide.seed
  · rw [show d'.streams = d₁.streams from hproj DataSide.streams]
    exact h.streams

theorem Moves.of_advanced {n : ℕ} (hs : Advanced d.streams d'.streams) (hc : ∀ sid, e.creditFor sid = 0)
    (hd : d'.limits = { d with streams := d'.streams, dataSent := d.dataSent + n }.limits) :
    Moves e n d d' := by
  have hproj {α : Type} (f : DataSide → α) : f d'.limits = _ := congrArg f hd
  refine ⟨hproj DataSide.applied, hproj DataSide.seed, (hproj DataSide.peerMaxData).ge,
    hproj DataSide.dataSent, fun sid t' ht' => ?_⟩
  obtain ⟨t, ht, hoff, hmax⟩ := hs.of_some ht'
  exact .inl ⟨t, ht, hoff, by rw [hmax, hc, Nat.max_zero]⟩

end DataSide

namespace Conn

variable {κ τ : Type} [Tls τ] {c : Conn κ τ}

theorem ensureSendStream_data (happlied : c.rest.send.peerFcApplied = true) (sid : ℕ) :
    (c.ensureSendStream sid).rest.send.data = { c.rest.send.data with
      streams := (c.ensureSendStream sid).rest.send.sendStreams } ∧
    ∃ t, (c.ensureSendStream sid).rest.send.sendStreams.get? sid = some t ∧
      (∀ k, k ≠ sid → (c.ensureSendStream sid).rest.send.sendStreams.get? k =
        c.rest.send.sendStreams.get? k) ∧
      (c.rest.send.sendStreams.get? sid = some t ∨ c.rest.send.sendStreams.get? sid = none ∧
        t.sendOffset = 0 ∧ t.peerMaxStreamData = c.rest.send.data.seed sid) := by
  unfold ensureSendStream
  split_ifs with h
  · obtain ⟨t, ht⟩ := SortedMap.contains_iff.1 h
    exact ⟨rfl, t, ht, fun _ _ => rfl, .inl ht⟩
  · have hnone : c.rest.send.sendStreams.get? sid = none :=
      Option.eq_none_iff_forall_ne_some.2 fun t ht => h (SortedMap.contains_iff.2 ⟨t, ht⟩)
    have hc : c.applyPeerFlowControl = c := if_pos happlied
    simp only [hc]
    refine ⟨rfl, c.freshSendStream sid, by simp, fun k hk => by simp [hk], .inr ⟨hnone, rfl, rfl⟩⟩

variable {e : Event τ} {sid : ℕ}

theorem moves_of_update (happlied : c.rest.send.peerFcApplied = true)
    (hopens : e.opens = some sid) (hcredit : ∀ k, e.creditFor k = 0) {d' : DataSide}
    (hd : d'.limits = { (c.ensureSendStream sid).rest.send.data with streams := d'.streams }.limits)
    (hothers : ∀ k, k ≠ sid → d'.streams.get? k = (c.ensureSendStream sid).rest.send.sendStreams.get? k)
    (hsid : ∀ t t', (c.ensureSendStream sid).rest.send.sendStreams.get? sid = some t →
      d'.streams.get? sid = some t' →
      t'.sendOffset = t.sendOffset ∧ t'.peerMaxStreamData = t.peerMaxStreamData) :
    c.rest.send.data.Moves e 0 d' := by
  obtain ⟨heq, t, ht, hrest, hnew⟩ := ensureSendStream_data happlied sid
  rw [heq] at hd
  have hproj {α : Type} (f : DataSide → α) : f d'.limits = _ := congrArg f hd
  refine ⟨hproj applied, ?_, (hproj peerMaxData).ge, hproj dataSent, ?_⟩
  · funext k
    unfold seed
    rw [show d'.initialBidi = _ from hproj initialBidi,
      show d'.initialUni = _ from hproj initialUni]
    rfl
  · intro k t' ht'
    by_cases hk : k = sid
    · subst hk
      obtain ⟨hoff, hmax⟩ := hsid t t' ht ht'
      rcases hnew with hold | ⟨hnone, hzero, hseed⟩
      · refine .inl ⟨t, hold, hoff ▸ le_max_left _ _, ?_⟩
        rw [hmax, hcredit, Nat.max_zero]
      · exact .inr ⟨hnone, hopens, hcredit k, hoff.trans hzero, hmax.trans hseed⟩
    · rw [hothers k hk, hrest k hk] at ht'
      exact .inl ⟨t', ht', le_max_left _ _, by rw [hcredit, Nat.max_zero]⟩

theorem moves_modifySendStream (happlied : c.rest.send.peerFcApplied = true)
    (hopens : e.opens = some sid) (hcredit : ∀ k, e.creditFor k = 0) {f : SendStream → SendStream}
    (hf : ∀ t, (f t).sendOffset = t.sendOffset ∧ (f t).peerMaxStreamData = t.peerMaxStreamData) :
    c.rest.send.data.Moves e 0 (c.modifySendStream sid f).rest.send.data := by
  apply moves_of_update happlied hopens hcredit
  all_goals unfold modifySendStream; simp only
  · split <;> rfl
  · intro k hk
    split
    · rfl
    · simp [data, hk]
  · intro t t' ht ht'
    rw [ht] at ht'
    obtain rfl : f t = t' := by simpa [data] using ht'
    exact hf t

theorem moves_resetStream (happlied : c.rest.send.peerFcApplied = true)
    (hopens : e.opens = some sid) (hcredit : ∀ k, e.creditFor k = 0) (code : ℕ) :
    c.rest.send.data.Moves e 0 (c.resetStream sid code).rest.send.data := by
  apply moves_of_update happlied hopens hcredit
  all_goals unfold resetStream; simp only
  · split
    · rfl
    · split_ifs <;> rfl
  · intro k hk
    split
    · rfl
    · split_ifs
      · rfl
      · simp [data, hk]
  · intro t t' ht ht'
    rw [ht] at ht'
    simp only at ht'
    split_ifs at ht'
    · obtain rfl : t = t' := Option.some.inj (ht.symm.trans ht')
      exact ⟨rfl, rfl⟩
    · obtain rfl : t.abort.1 = t' := by simpa [data] using ht'
      exact ⟨rfl, rfl⟩

omit [Tls τ] in
theorem moves_raiseStreamLimit (c : Conn κ τ) (level : CryptoLevel) (sid maximum : ℕ) :
    c.rest.send.data.Moves (.frame level (.maxStreamData sid maximum) : Event τ) 0
      (c.raiseStreamLimit sid maximum).rest.send.data := by
  unfold raiseStreamLimit
  split
  next hnone =>
    refine ⟨rfl, rfl, le_rfl, rfl, fun k t ht => .inl ⟨t, ht, le_max_left _ _, ?_⟩⟩
    have hk : sid ≠ k := fun h => nomatch (h ▸ hnone).symm.trans ht
    rw [Event.creditFor, if_neg hk, Nat.max_zero]
  next t ht =>
    refine ⟨rfl, rfl, le_rfl, rfl, fun k t' ht' => .inl ?_⟩
    by_cases hk : k = sid
    · subst hk
      obtain rfl : { t with peerMaxStreamData := max t.peerMaxStreamData maximum } = t' := by
        simpa [data] using ht'
      exact ⟨t, ht, le_max_left _ _, by rw [Event.creditFor, if_pos rfl]⟩
    · refine ⟨t', by simpa [data, hk] using ht', le_max_left _ _, ?_⟩
      rw [Event.creditFor, if_neg (Ne.symm hk), Nat.max_zero]

theorem get?_forgetSend {s : SendSide} {sids : List ℕ} {sid : ℕ} {t : SendStream}
    (h : (sids.foldl forgetSend s).sendStreams.get? sid = some t) : s.sendStreams.get? sid = some t := by
  induction sids generalizing s with
  | nil => exact h
  | cons k sids ih =>
    have hrest := ih h
    rw [forgetSend, SortedMap.get?_erase] at hrest
    split_ifs at hrest
    exact hrest

variable [CongestionControl κ] (P : Primitives)

omit [CongestionControl κ] in
theorem moves_dataAfter (happlied : c.rest.send.peerFcApplied = true) (e : Event τ) :
    c.rest.send.data.Moves e 0 (c.dataAfter e) := by
  cases e with
  | send sid data =>
    refine moves_modifySendStream happlied rfl (fun _ => rfl) fun t => ?_
    unfold writeIobuf
    split_ifs <;> exact ⟨rfl, rfl⟩
  | close sid =>
    refine moves_modifySendStream happlied rfl (fun _ => rfl) fun t => ?_
    unfold close
    split_ifs <;> exact ⟨rfl, rfl⟩
  | reset sid code => exact moves_resetStream happlied rfl (fun _ => rfl) code
  | applyPeerFlowControl =>
    rw [dataAfter, show c.applyPeerFlowControl = c from if_pos happlied]
    exact .refl _ fun _ => rfl
  | frame level f =>
    cases f with
    | stopSending sid code =>
      cases level with
      | oneRtt =>
        rcases c.view_processStopSending sid code with h | h
        · rw [dataAfter, show data _ = _ from congrArg View.data h]
          exact .refl _ fun _ => rfl
        · rw [dataAfter, show data _ = _ from congrArg View.data h]
          exact moves_resetStream happlied rfl (fun _ => rfl) code
      | _ => exact .refl _ fun _ => rfl
    | maxData maximum =>
      have h : c.rest.send.data.Moves (.frame level (.maxData maximum) : Event τ) 0
          { c.rest.send.data with peerMaxData := max c.rest.send.peerMaxData maximum } :=
        ⟨rfl, rfl, le_max_left _ _, rfl, fun k t ht => .inl ⟨t, ht, le_max_left _ _, by simp [Event.creditFor]⟩⟩
      cases level <;> exact h
    | maxStreamData sid maximum => cases level <;> exact c.moves_raiseStreamLimit _ sid maximum
    | _ => cases level <;> exact .refl _ fun _ => rfl
  | reap =>
    rw [dataAfter, data_forgetSend]
    refine ⟨rfl, rfl, le_rfl, rfl, fun k t ht => .inl ⟨t, get?_forgetSend ht, le_max_left _ _, ?_⟩⟩
    exact (Nat.max_zero _).symm
  | _ => exact .refl _ fun _ => rfl

theorem moves_step (happlied : c.rest.send.peerFcApplied = true) (now : ℕ) (e : Event τ) :
    c.rest.send.data.Moves e (Ledger.emits c now e) (c.step P now e).rest.send.data := by
  by_cases he : ∃ padToWire, e = .oneRtt padToWire
  · obtain ⟨padToWire, rfl⟩ := he
    obtain ⟨c1, hsends, h⟩ := c.step_oneRtt_cases P now padToWire
    refine DataSide.Moves.of_limits (?_ : DataSide.Moves _ _ _ c1.rest.send.data) hsends.limits
    rcases h with ⟨-, hdrawn, hempty⟩ | ⟨retx, handed, hbuilt⟩
    · rw [Ledger.emits, hempty]
      refine .of_advanced hdrawn.streams (fun _ => rfl) ?_
      rw [hdrawn.eq]
      rfl
    · rw [Ledger.emits, hbuilt.fresh]
      refine .of_advanced hbuilt.gave.streams (fun _ => rfl) ?_
      rw [hbuilt.gave.eq]
      rfl
  · have he' := not_exists.1 he
    have hemits : Ledger.emits c now e = 0 := by
      cases e <;> first | rfl | exact absurd rfl (he' _)
    rw [hemits]
    exact (moves_dataAfter happlied e).of_limits (stepped P he').limits

end Conn

section

variable {κ τ : Type}

/-- The peer's parameters are known, and nothing has been sent. -/
structure Applied (p : PeerParams) (c : Conn κ τ) : Prop where
  applied : c.rest.send.peerFcApplied = true
  bidi : c.rest.send.peerInitialMaxStreamDataBidi =
    if c.isClient then p.initialMaxStreamDataBidiRemote else p.initialMaxStreamDataBidiLocal
  uni : c.rest.send.peerInitialMaxStreamDataUni = p.initialMaxStreamDataUni
  streams : ∀ sid t, c.rest.send.sendStreams.get? sid = some t →
    t.sendOffset = 0 ∧ t.peerMaxStreamData ≤ initialLimit c.isClient p sid
  dataSent : c.rest.send.dataSent = 0
  retained : ∀ f, ¬ c.view.Retains f

theorem Applied.seed {p : PeerParams} {c : Conn κ τ} (h : Applied p c) {sid : ℕ} (hsid : sid % 4 ≠ 1) :
    c.rest.send.data.seed sid = initialLimit c.isClient p sid := by
  unfold DataSide.seed initialLimit
  by_cases hbidi : isBidirectional sid
  · have heven : sid % 2 = 0 := by
      simp only [isBidirectional, decide_eq_true_eq] at hbidi
      omega
    rw [if_pos hbidi, if_pos hbidi, show initialBidi _ = _ from h.bidi, heven]
    cases c.isClient <;> rfl
  · rw [if_neg hbidi, if_neg hbidi]
    exact h.uni

variable [CongestionControl κ] [Tls τ] {P : Primitives}

/-- No stream is made that a server opens to send both ways. -/
def NoServerBidi (_ : Ledger κ τ) (i : ℕ × Event τ) : Prop := ∀ sid ∈ i.2.opens, sid % 4 ≠ 1

/-- Everything sent and kept is within the limits. -/
structure Within (s : Ledger κ τ) : Prop where
  applied : s.conn.rest.send.peerFcApplied = true
  seed : ∀ sid, sid % 4 ≠ 1 → s.conn.rest.send.data.seed sid ≤ s.limit sid
  streams : ∀ sid t, s.conn.rest.send.sendStreams.get? sid = some t →
    t.sendOffset ≤ t.peerMaxStreamData ∧ t.peerMaxStreamData ≤ s.limit sid
  retained : ∀ f, s.conn.view.Retains f → f.offset + f.data.length ≤ s.limit f.sid
  dataSent : s.conn.rest.send.dataSent ≤ s.conn.rest.send.peerMaxData
  emitted : s.emitted = s.conn.rest.send.dataSent

variable {s : Ledger κ τ}

omit [Tls τ] in
theorem Within.handed (h : Within s) {c' : Conn κ τ} {b : Body} {retx handed : List StreamRetx}
    (hbuilt : s.conn.Built c' b retx handed) :
    ∀ f ∈ retx ++ handed, f.offset + f.data.length ≤ s.limit f.sid := by
  intro f hf
  rcases List.mem_append.1 hf with hf | hf
  · apply h.retained
    left
    show f ∈ s.conn.rest.send.data.retxQueue
    rw [hbuilt.gave.retxQueue]
    exact List.mem_append_left _ hf
  · obtain ⟨t, ht, hle⟩ := hbuilt.gave.within f hf
    obtain ⟨hoff, hmax⟩ := h.streams f.sid t ht
    exact hle.trans (max_le (hoff.trans hmax) hmax)

theorem Within.retained_step (h : Within s) (i : ℕ × Event τ) {f : StreamRetx}
    (hf : (s.conn.step P i.1 i.2).view.Retains f) : f.offset + f.data.length ≤ s.limit f.sid := by
  obtain ⟨now, e⟩ := i
  by_cases he : ∃ padToWire, e = .oneRtt padToWire
  · obtain ⟨padToWire, rfl⟩ := he
    obtain ⟨c1, hsends, hcases⟩ := s.conn.step_oneRtt_cases P now padToWire
    have hret := hsends.retained hf
    rcases hcases with ⟨hbuilding, hdrawn, -⟩ | ⟨retx, handed, hbuilt⟩
    · have hsent : c1.view.sent = s.conn.view.sent := congrArg (fun x => x.1.sentPackets) hbuilding.fixed
      apply h.retained
      rcases hret with hq | hst | hsentf
      · exact .inl (hdrawn.retxQueue.subset hq)
      · refine .inr (.inl ?_)
        rw [show c1.view.data = _ from hdrawn.eq] at hst
        exact hst
      · rw [hsent] at hsentf
        exact .inr (.inr hsentf)
    · have hsent : c1.view.sent = s.conn.view.sent := congrArg (fun x => x.1.sentPackets) hbuilt.fixed
      rcases hret with hq | hst | hsentf
      · refine h.retained f (.inl ?_)
        show f ∈ s.conn.rest.send.data.retxQueue
        rw [hbuilt.gave.retxQueue]
        exact List.mem_append_right _ hq
      · rw [show c1.view.data = _ from hbuilt.gave.eq] at hst
        simp only at hst
        split_ifs at hst
        · exact h.retained f (.inr (.inl hst))
        · exact h.handed hbuilt f hst
      · rw [hsent] at hsentf
        exact h.retained f (.inr (.inr hsentf))
  · exact h.retained f ((Conn.stepped P (not_exists.1 he)).retained f hf)

theorem emits_le (c : Conn κ τ) (P : Primitives) (now : ℕ) (e : Event τ) :
    Ledger.emits c now e ≤ c.rest.send.peerMaxData - c.rest.send.dataSent := by
  cases e with
  | oneRtt padToWire =>
    obtain ⟨c1, -, ⟨-, -, hempty⟩ | ⟨retx, handed, hbuilt⟩⟩ := c.step_oneRtt_cases P now padToWire
    · rw [Ledger.emits, hempty]
      exact Nat.zero_le _
    · rw [Ledger.emits, hbuilt.fresh]
      exact hbuilt.gave.fresh
  | _ => exact Nat.zero_le _

theorem Within.step (s : Ledger κ τ) (i : ℕ × Event τ) (hi : NoServerBidi s i) (h : Within s) :
    Within (s.step P i) := by
  have hmoves := Conn.moves_step P h.applied i.1 i.2
  have hemits := emits_le s.conn P i.1 i.2
  refine ⟨hmoves.applied.trans h.applied, fun sid hsid => ?_, fun sid t' ht' => ?_, fun f hf => ?_, ?_, ?_⟩
  · rw [Ledger.step, hmoves.seed]
    exact (h.seed sid hsid).trans (le_max_left _ _)
  · rcases hmoves.streams sid t' ht' with ⟨t, ht, hoff, hmax⟩ | ⟨-, hopens, -, hzero, hseed⟩
    · obtain ⟨hsent, hlimit⟩ := h.streams sid t ht
      rw [hmax]
      refine ⟨hoff.trans ?_, max_le_max hlimit le_rfl⟩
      rw [reach, max_eq_right hsent]
      exact le_max_left _ _
    · rw [hzero, hseed]
      exact ⟨Nat.zero_le _, (h.seed sid (hi sid hopens)).trans (le_max_left _ _)⟩
  · exact (h.retained_step i hf).trans (le_max_left _ _)
  · show (s.conn.step P i.1 i.2).rest.send.data.dataSent ≤ _
    rw [hmoves.dataSent]
    refine le_trans ?_ hmoves.peerMaxData
    have := h.dataSent
    show s.conn.rest.send.dataSent + _ ≤ s.conn.rest.send.peerMaxData
    omega
  · show s.emitted + _ = (s.conn.step P i.1 i.2).rest.send.data.dataSent
    rw [hmoves.dataSent, h.emitted]
    rfl

omit [Tls τ] in
theorem streamFrames_of_built {c c' : Conn κ τ} {b : Body} {retx handed : List StreamRetx}
    (h : c.Built c' b retx handed) : b.streamFrames = retx ++ handed := by
  obtain ⟨pre, hframes, hpre⟩ := h.frames
  have hnone : pre.filterMap (fun
      | .stream sid offset fin data => some ⟨sid, offset, fin, data⟩
      | _ => none) = ([] : List StreamRetx) := by
    refine List.filterMap_eq_nil_iff.2 fun f hf => ?_
    cases f with
    | stream sid offset fin data => exact absurd (hpre _ hf) (by simp [TxFrame.isPlain, TxFrame.isCredit])
    | _ => rfl
  rw [Body.streamFrames, hframes, List.filterMap_append, hnone, List.nil_append, List.filterMap_map]
  exact List.filterMap_some

/-- **Sending within the limits**, but for one retransmitted frame. -/
theorem emitted_within_limits {p : PeerParams} {c : Conn κ τ} (hstart : Applied p c)
    {is : List (ℕ × Event τ)} (hrun : Runs.Along (Ledger.step P) NoServerBidi
      ⟨c, initialLimit c.isClient p, 0⟩ is) :
    let s := is.foldl (Ledger.step P) ⟨c, initialLimit c.isClient p, 0⟩
    s.emitted = s.conn.rest.send.dataSent ∧
    s.conn.rest.send.dataSent ≤ s.conn.rest.send.peerMaxData ∧
    ∀ now, let b := History.builtBody s.conn now
      (∀ f ∈ b.streamFrames, f.offset + f.data.length ≤ s.limit f.sid) ∧
      (dataLength b.streamFrames ≤
          windowOf s.conn.rest.recovery.cc - s.conn.rest.recovery.bytesInFlight ∨
        s.conn.rest.recovery.bytesInFlight = 0 ∧ ∃ f rest, b.streamFrames = f :: rest ∧
          f ∈ s.conn.rest.send.retxQueue ∧ dataLength rest = 0) := by
  intro s
  have h : Within s := by
    refine hrun.invariant Within.step ⟨hstart.applied, fun sid hsid => (hstart.seed hsid).le,
      fun sid t ht => ?_, fun f hf => absurd hf (hstart.retained f), ?_, hstart.dataSent.symm⟩
    · obtain ⟨hzero, hle⟩ := hstart.streams sid t ht
      exact ⟨hzero ▸ Nat.zero_le _, hle⟩
    · rw [hstart.dataSent]
      exact Nat.zero_le _
  refine ⟨h.emitted, h.dataSent, fun now => ?_⟩
  obtain ⟨c1, -, ⟨-, -, hempty⟩ | ⟨retx, handed, hbuilt⟩⟩ := s.conn.step_oneRtt_cases P now none
  · simp only [hempty]
    exact ⟨nofun, .inl (Nat.zero_le _)⟩
  · simp only [streamFrames_of_built hbuilt]
    refine ⟨h.handed hbuilt, hbuilt.gave.window.imp_right ?_⟩
    rintro ⟨hflight, f, rest, hretx, hzero⟩
    refine ⟨hflight, f, rest ++ handed, by rw [hretx, List.cons_append], ?_, hzero⟩
    show f ∈ s.conn.rest.send.data.retxQueue
    rw [hbuilt.gave.retxQueue, hretx]
    exact List.mem_cons_self

def sampleParams : PeerParams where
  initialMaxData := 1 <<< 20
  initialMaxStreamDataBidiLocal := 1 <<< 20
  initialMaxStreamDataUni := 1 <<< 20

theorem applied_sampleConn : Applied sampleParams sampleConn.applyPeerFlowControl := by
  refine ⟨rfl, rfl, rfl, nofun, rfl, ?_⟩
  rintro f (h | h | ⟨level, pkt, h, -⟩)
  · cases h
  · cases h
  · cases level <;> cases h

def sampleLedger (is : List (ℕ × Event QuietTls)) : Ledger Waitless.Tcp.ConstantWindow QuietTls :=
  is.foldl (Ledger.step samplePrimitives)
    ⟨sampleConn.applyPeerFlowControl, initialLimit false sampleParams, 0⟩

theorem emitted_within_limits_byte :
    (sampleLedger [(1, .send 0 [7]), (2, .oneRtt none)]).emitted = 1 ∧
    (sampleLedger [(1, .send 0 [7]), (2, .oneRtt none)]).conn.rest.send.dataSent ≤
      (sampleLedger [(1, .send 0 [7]), (2, .oneRtt none)]).conn.rest.send.peerMaxData := by
  refine ⟨by decide +kernel, (emitted_within_limits applied_sampleConn ?_).2.1⟩
  refine ⟨?_, nofun, trivial⟩
  rintro sid ⟨⟩
  decide

/-- A byte on a bidirectional stream of this server is past the limit. -/
theorem server_bidi_past_limit :
    ∃ f ∈ (History.builtBody (sampleLedger [(1, .send 1 [7])]).conn 2).streamFrames,
      (sampleLedger [(1, .send 1 [7])]).limit f.sid < f.offset + f.data.length := by
  decide +kernel

/-- Streams are made before their first credit, and none by a server to send both ways. -/
def NoEarlyCredit (isClient : Bool) (p : PeerParams) (s : Ledger κ τ) (i : ℕ × Event τ) : Prop :=
  ∀ sid ∈ i.2.opens, s.conn.rest.send.sendStreams.get? sid = none →
    sid % 4 ≠ 1 ∧ s.limit sid = initialLimit isClient p sid

/-- The limits of the streams are the peer's. -/
structure Credited (isClient : Bool) (p : PeerParams) (s : Ledger κ τ) : Prop where
  applied : s.conn.rest.send.peerFcApplied = true
  seed : ∀ sid, sid % 4 ≠ 1 → s.conn.rest.send.data.seed sid = initialLimit isClient p sid
  streams : ∀ sid t, s.conn.rest.send.sendStreams.get? sid = some t → t.peerMaxStreamData = s.limit sid

theorem Credited.step {isClient : Bool} {p : PeerParams} (s : Ledger κ τ) (i : ℕ × Event τ)
    (hi : NoEarlyCredit isClient p s i) (h : Credited isClient p s) : Credited isClient p (s.step P i) := by
  have hmoves := Conn.moves_step P h.applied i.1 i.2
  refine ⟨hmoves.applied.trans h.applied, fun sid hsid => ?_, fun sid t' ht' => ?_⟩
  · rw [Ledger.step, hmoves.seed]
    exact h.seed sid hsid
  · rcases hmoves.streams sid t' ht' with ⟨t, ht, -, hmax⟩ | ⟨hnone, hopens, hcredit, -, hnew⟩
    · rw [hmax, h.streams sid t ht]
      rfl
    · obtain ⟨hsid, hlimit⟩ := hi sid hopens hnone
      show _ = max (s.limit sid) _
      rw [hnew, h.seed sid hsid, hcredit, hlimit, Nat.max_zero]

end

end Waitless.Quic
