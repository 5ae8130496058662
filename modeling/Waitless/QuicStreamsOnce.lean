import Waitless.QuicReceive

/-! # Request streams are handed over once

`streams_accepted_once` is what a server connection keeps while frames for reaped streams find
their ids in the ring: no request stream is handed to the application twice, a frame is charged only for
the bytes past those charged before, and no reaped stream comes back. -/

namespace Waitless.Quic

open History List

open Runs (Along)
open Waitless.Tcp (CongestionControl)

variable {κ τ : Type}

def chargedTo (arrived : List (ℕ × ℕ × ℕ)) (sid : ℕ) : ℕ :=
  ((arrived.filter (·.1 = sid)).map (·.2.2)).sum

/-- A frame is charged for nothing, or for the bytes not charged before. -/
def ChargedOnce (arrived : List (ℕ × ℕ × ℕ)) : Prop :=
  ∀ before a after, arrived = before ++ a :: after →
    a.2.2 = 0 ∨ chargedTo before a.1 + a.2.2 = a.2.1

theorem chargedTo_append (arrived arrived' : List (ℕ × ℕ × ℕ)) (sid : ℕ) :
    chargedTo (arrived ++ arrived') sid = chargedTo arrived sid + chargedTo arrived' sid := by
  simp only [chargedTo, filter_append, map_append, sum_append]

theorem ChargedOnce.append {arrived : List (ℕ × ℕ × ℕ)} (h : ChargedOnce arrived)
    {a : ℕ × ℕ × ℕ} (ha : a.2.2 = 0 ∨ chargedTo arrived a.1 + a.2.2 = a.2.1) :
    ChargedOnce (arrived ++ [a]) := by
  intro before b after heq
  rcases eq_nil_or_concat after with rfl | ⟨after', x, rfl⟩
  · obtain ⟨rfl, hab⟩ := append_inj' heq rfl
    obtain rfl : a = b := singleton_inj.1 hab
    exact ha
  · rw [concat_eq_append, ← cons_append, ← append_assoc] at heq
    exact h before b after' (append_inj' heq rfl).1

theorem ChargedOnce.le {arrived : List (ℕ × ℕ × ℕ)} (h : ChargedOnce arrived) {B : ℕ} (sid : ℕ)
    (hends : ∀ a ∈ arrived, a.2.1 ≤ B) : chargedTo arrived sid ≤ B := by
  induction arrived using reverseRecOn with
  | nil => exact Nat.zero_le B
  | append_singleton arrived a ih =>
    have hrest : chargedTo arrived sid ≤ B := by
      refine ih (fun before b after heq => ?_) fun b hb => hends b (mem_append_left _ hb)
      exact h before b (after ++ [a]) (by rw [heq]; simp)
    have hend := hends a (mem_append_right _ mem_cons_self)
    rw [chargedTo_append]
    simp only [chargedTo, filter_cons, filter_nil, decide_eq_true_eq] at hrest ⊢
    split_ifs with hsid
    · subst hsid
      rcases h arrived a [] rfl with hzero | hfull
      · simpa [hzero] using hrest
      · simp only [chargedTo] at hfull
        simpa [hfull] using hend
    · simpa using hrest

theorem StreamMove.got_eq {r : RecvSide} {sid : ℕ} {s s' : RecvStream} {e : Event τ} {got used : ℕ}
    (h : StreamMove r sid s e s' got used) :
    got = 0 ∨ ∃ upTo, e.streamEnd = some (sid, upTo) ∧ s.recvHigh + got = upTo := by
  cases h with
  | drain _ n he hlive hn => exact .inl rfl
  | refused _ upTo he hreaped => exact .inl rfl
  | data offset data fin hreaped hmax hconn =>
    by_cases hle : offset + data.length ≤ s.recvHigh
    · exact .inl (by omega)
    · exact .inr ⟨_, rfl, by omega⟩
  | reset code finalSize hreaped hhigh hfin hmax hconn => exact .inr ⟨_, rfl, by omega⟩

/-- The streams of `h` are handed over and charged once. -/
structure Once (h : History κ τ) : Prop where
  receiving : Receiving h
  server : h.conn.isClient = false
  nodup : ((h.accepted ++ h.conn.rest.recv.openedStreams).filter (· % 4 = 0)).Nodup
  known : ∀ sid ∈ h.accepted ++ h.conn.rest.recv.openedStreams, sid % 4 = 0 → sid ∉ h.reaped →
    ∃ s, h.conn.rest.recv.recvStreams.get? sid = some s
  account : ∀ sid ∉ h.reaped,
    chargedTo h.arrived sid = (h.conn.rest.recv.recvStreams.get? sid).elim 0 RecvStream.recvHigh
  once : ChargedOnce h.arrived

theorem once_of_fresh {c : Conn κ τ} (hfresh : c.Fresh) (hserver : c.isClient = false) :
    Once { conn := c } := by
  have hopened : c.rest.recv.openedStreams = [] := by rw [hfresh.recv]
  refine ⟨receiving_of_fresh hfresh, hserver, ?_, fun sid hsid => ?_, fun sid _ => ?_, ?_⟩
  · simp [hopened]
  · simp [hopened] at hsid
  · rw [show c.rest.recv.recvStreams = .empty by rw [hfresh.recv]]
    rfl
  · rintro (_ | _) a after h <;> cases h

variable [CongestionControl κ] [Tls τ] {P : Primitives}

theorem arrived_step {h : History κ τ} {i : ℕ × Event τ} {d : ℕ}
    (hd : (h.conn.step P i.1 i.2).rest.recv.dataReceived = h.conn.rest.recv.dataReceived + d) :
    (h.step P i).arrived = h.arrived ++ i.2.streamEnd.toList.map fun e => (e.1, e.2, d) := by
  rw [h.step_arrived P i, hd, Nat.add_sub_cancel_left]

theorem charges_nothing {h : History κ τ} {i : ℕ × Event τ} (hh : ChargedOnce h.arrived)
    (hd : (h.conn.step P i.1 i.2).rest.recv.dataReceived = h.conn.rest.recv.dataReceived) :
    ChargedOnce (h.step P i).arrived ∧
      ∀ sid, chargedTo (h.step P i).arrived sid = chargedTo h.arrived sid := by
  rw [arrived_step (d := 0) hd]
  cases i.2.streamEnd with
  | none => simpa using hh
  | some e =>
    refine ⟨hh.append (.inl rfl), fun sid => ?_⟩
    rw [chargedTo_append]
    simp only [chargedTo, Option.toList_some, map_cons, map_nil, filter_cons,
      filter_nil]
    split_ifs <;> rfl

namespace Once

variable {h : History κ τ} {i : ℕ × Event τ}

theorem charges (hh : Once h) (hring : InRing h i) {r' : RecvSide} {sid : ℕ} {s s' : RecvStream}
    {got used : ℕ} (hr' : (h.conn.step P i.1 i.2).rest.recv = r')
    (hmove : StreamMove h.conn.rest.recv sid s i.2 s' got used)
    (htouch : Touch h.conn.isClient h.conn.rest.recv r' sid s s' got used) :
    ChargedOnce (h.step P i).arrived ∧
      ∀ k, chargedTo (h.step P i).arrived k = chargedTo h.arrived k + if k = sid then got else 0 := by
  have hreaped := hh.receiving.not_mem_reaped hring hmove
  have hhigh : chargedTo h.arrived sid = s.recvHigh := by
    rw [hh.account sid hreaped]
    rcases htouch.was with hs | ⟨hs, t, rfl⟩ <;> rw [hs] <;> rfl
  rcases hmove.got_eq with rfl | ⟨upTo, he, hgot⟩
  · have h0 := charges_nothing (P := P) (i := i) hh.once (by rw [hr', htouch.dataReceived]; rfl)
    simpa using h0
  · rw [arrived_step (d := got) (by rw [hr', htouch.dataReceived]), he]
    refine ⟨hh.once.append (.inr (by rw [hhigh]; exact hgot)), fun k => ?_⟩
    rw [chargedTo_append]
    simp only [chargedTo, Option.toList_some, map_cons, map_nil, filter_cons,
      filter_nil, decide_eq_true_eq, eq_comm (a := sid)]
    split_ifs <;> simp

theorem quiet (hh : Once h) (hreceiving : Receiving (h.step P i))
    (hdata : (h.conn.step P i.1 i.2).rest.recv.dataReceived = h.conn.rest.recv.dataReceived)
    (hlists : (h.step P i).accepted ++ (h.conn.step P i.1 i.2).rest.recv.openedStreams =
      h.accepted ++ h.conn.rest.recv.openedStreams)
    (hlive : ∀ k ∉ (h.step P i).reaped, k ∉ h.reaped ∧
      ((h.conn.step P i.1 i.2).rest.recv.recvStreams.get? k).map RecvStream.recvHigh =
        (h.conn.rest.recv.recvStreams.get? k).map RecvStream.recvHigh) : Once (h.step P i) := by
  obtain ⟨honce, hcharged⟩ := charges_nothing hh.once hdata
  have hconn := h.step_conn P i
  refine ⟨hreceiving, ?_, ?_, fun k hk hk4 hkr => ?_, fun k hk => ?_, honce⟩
  · rw [hconn, (h.conn.step_numbers P i.1 i.2).1, hh.server]
  · rw [hconn, hlists]
    exact hh.nodup
  · rw [hconn, hlists] at hk
    obtain ⟨hold, hmap⟩ := hlive k hkr
    obtain ⟨s, hs⟩ := hh.known k hk hk4 hold
    rw [hs] at hmap
    obtain ⟨s', hs', -⟩ := Option.map_eq_some_iff.1 hmap
    exact ⟨s', by rw [hconn]; exact hs'⟩
  · obtain ⟨hold, hmap⟩ := hlive k hk
    have hhigh := congrArg (Option.elim · 0 id) hmap
    simp only [Option.elim_map] at hhigh
    rw [hcharged, hh.account k hold, hconn]
    exact hhigh.symm

theorem step (h : History κ τ) (i : ℕ × Event τ) (hring : InRing h i) (hh : Once h) :
    Once (h.step P i) := by
  have hreceiving := hh.receiving.step (P := P) h i hring
  obtain ⟨now, e⟩ := i
  have hconn := h.step_conn P (now, e)
  cases recvStep_of_step P h.conn now e with
  | keep he hkept =>
    refine hh.quiet hreceiving hkept.dataReceived ?_ fun k hk => ?_
    · rw [History.step_accepted P (h := h) (i := (now, e)) he.2, hkept.openedStreams]
    · rw [History.step_reaped P (h := h) (i := (now, e)) he.1] at hk
      rw [hkept.recvStreams]
      exact ⟨hk, rfl⟩
  | accept he hrecv =>
    subst he
    refine hh.quiet hreceiving ?_ ?_ fun k hk => ?_
    · rw [hrecv, RecvSide.popAcceptedStream]
      split <;> rfl
    · -- the id moves from one list to the other
      rw [hrecv]
      simp only [History.step, RecvSide.popAcceptedStream]
      split <;> simp_all
    · rw [History.step_reaped P (h := h) (i := (now, .accept)) (by simp)] at hk
      rw [hrecv, RecvSide.popAcceptedStream]
      split <;> exact ⟨hk, rfl⟩
  | touch he sid s s' got used hmove htouch =>
    have hreaped := History.step_reaped P (h := h) (i := (now, e)) he.1
    have haccepted := History.step_accepted P (h := h) (i := (now, e)) he.2
    have hfresh := hh.receiving.not_mem_reaped hring hmove
    have hmoved := hmove.moved (hh.receiving.sound_of_touch htouch)
    obtain ⟨honce, hcharged⟩ := hh.charges (P := P) hring rfl hmove htouch
    have hserver : (h.step P (now, e)).conn.isClient = false := by
      rw [hconn, (h.conn.step_numbers P now e).1, hh.server]
    refine ⟨hreceiving, hserver, ?_, fun k hk hk4 hkr => ?_, fun k hk => ?_, honce⟩
    · rw [haccepted, hconn]
      rcases htouch.opened with hsame | ⟨hnew, hnone⟩
      · rw [hsame]
        exact hh.nodup
      · rw [hnew, ← List.append_assoc, List.filter_append]
        by_cases hsid : sid % 4 = 0
        · have hnot : sid ∉ h.accepted ++ h.conn.rest.recv.openedStreams := by
            intro hmem
            obtain ⟨t, ht⟩ := hh.known sid hmem hsid hfresh
            rw [hnone hh.server hsid] at ht
            cases ht
          rw [List.filter_cons_of_pos (by simpa using hsid), List.filter_nil, List.nodup_append]
          refine ⟨hh.nodup, List.nodup_singleton _, fun x hx y hy => ?_⟩
          rintro rfl
          rw [List.mem_singleton] at hy
          subst hy
          exact hnot (List.mem_of_mem_filter hx)
        · rw [List.filter_cons_of_neg (by simpa using hsid), List.filter_nil, List.append_nil]
          exact hh.nodup
    · rw [haccepted, hconn] at hk
      rw [hreaped] at hkr
      rw [hconn, htouch.streams]
      split_ifs with hsid
      · exact ⟨s', rfl⟩
      · refine hh.known k ?_ hk4 hkr
        rcases htouch.opened with hsame | ⟨hnew, -⟩
        · rwa [hsame] at hk
        · rw [hnew, ← List.append_assoc] at hk
          exact (List.mem_append.1 hk).resolve_right fun hmem => hsid (List.mem_singleton.1 hmem)
    · rw [hreaped] at hk
      rw [hcharged, hh.account k hk, hconn, htouch.streams]
      split_ifs with hsid
      · subst hsid
        rw [Option.elim_some, hmoved.recvHigh]
        rcases htouch.was with hs | ⟨hs, t, rfl⟩ <;> rw [hs] <;> rfl
      · rfl
  | raise padToWire he hraised =>
    subst he
    have hr := hraised hh.receiving.limited
    refine hh.quiet hreceiving hr.dataReceived (by rw [hr.openedStreams]; rfl) fun k hk => ⟨hk, ?_⟩
    cases hs : h.conn.rest.recv.recvStreams.get? k with
    | none => rw [hr.streams.get?_eq_none_iff.2 hs]
    | some s =>
      obtain ⟨s', hs', hraise⟩ := hr.streams.to_some hs
      rw [hs', Option.map_some, Option.map_some, hraise.eq]
  | reap he hrecv =>
    subst he
    have hforgot := forgot_foldl h.conn.reapCandidates h.conn.rest.recv
    rw [← hrecv] at hforgot
    refine hh.quiet hreceiving hforgot.dataReceived (by rw [hforgot.openedStreams]; rfl) fun k hk => ?_
    have hk' : k ∉ h.conn.reapCandidates.reverse ++ h.reaped := hk
    rw [List.mem_append, List.mem_reverse, not_or] at hk'
    rw [hforgot.streams, if_neg hk'.1]
    exact ⟨hk'.2, rfl⟩

end Once

/-- **Request streams are handed over and charged once** where reaped ids are in the ring. -/
theorem streams_accepted_once {c : Conn κ τ} (hfresh : c.Fresh) (hserver : c.isClient = false)
    {is : List (ℕ × Event τ)} (hring : Along (History.step P) InRing { conn := c } is) :
    let h := run P { conn := c } is
    (h.accepted.filter (· % 4 = 0)).Nodup ∧ ChargedOnce h.arrived ∧
      ∀ sid ∈ h.reaped, h.conn.rest.recv.recvStreams.get? sid = none := by
  intro h
  have hh : Once h := hring.invariant Once.step (once_of_fresh hfresh hserver)
  refine ⟨hh.nodup.sublist ?_, hh.once, hh.receiving.gone⟩
  exact (sublist_append_left _ _).filter _

def opening : List (ℕ × Event QuietTls) :=
  [(0, .frame .oneRtt (.stream 0 0 [7] false)), (0, .accept)]

/-- The client resets stream 0. -/
def clientReset : ℕ × Event QuietTls := (0, .frame .oneRtt (.resetStream 0 0 1))

def request : List (ℕ × Event QuietTls) := opening ++ clientReset :: [(0, .reset 0 0), (0, .reap)]

def emptyRequests (n : ℕ) : List (ℕ × Event QuietTls) :=
  (List.range n).flatMap fun k =>
    [(0, .frame .oneRtt (.stream (4 * (k + 1)) 0 [] true)), (0, .accept),
      (0, .reset (4 * (k + 1)) 0), (0, .reap)]

/-- Replayed at once, a frame finds the id in the ring. -/
theorem streams_accepted_once_replayed :
    let h := run samplePrimitives { conn := sampleConn } (request ++ opening)
    h.reaped = [0] ∧ (h.accepted.filter (· % 4 = 0)).Nodup := by
  intro h
  exact ⟨by decide +kernel,
    (streams_accepted_once (P := samplePrimitives) fresh_sampleConn rfl (by decide +kernel)).1⟩

theorem record_after_replay :
    let h := run samplePrimitives { conn := sampleConn } (request ++ emptyRequests 256 ++ opening)
    (h.accepted.count 0, chargedTo h.arrived 0, h.arrived.all (·.2.1 ≤ 1), h.reaped.contains 0,
      h.conn.rest.recv.recvStreams.contains 0, h.conn.rest.recv.dataConsumed,
      (h.step samplePrimitives clientReset).conn.rest.recv.dataConsumed) =
        (2, 2, true, true, true, 1, 2) := by
  decide +kernel

/-- Replayed after 256 more streams were reaped, it opens the stream again. -/
theorem accepted_twice :
    let h := run samplePrimitives { conn := sampleConn } (request ++ emptyRequests 256 ++ opening)
    ¬ (h.accepted.filter (· % 4 = 0)).Nodup ∧ ¬ ChargedOnce h.arrived ∧
      0 ∈ h.reaped ∧ h.conn.rest.recv.recvStreams.get? 0 ≠ none := by
  intro h
  have hrecord := record_after_replay
  simp only [Prod.mk.injEq] at hrecord
  obtain ⟨haccepted, hcharged, hends, hreaped, hlive, -⟩ := hrecord
  refine ⟨fun hnodup => ?_, fun honce => ?_, contains_iff_mem.1 hreaped, ?_⟩
  · have hcount := nodup_iff_count_le_one.1 hnodup 0
    rw [count_filter (by rfl), haccepted] at hcount
    omega
  · have hle := honce.le 0 fun a ha => of_decide_eq_true (all_eq_true.1 hends a ha)
    rw [hcharged] at hle
    omega
  · obtain ⟨s, hs⟩ := SortedMap.contains_iff.1 hlive
    rw [hs]
    nofun

end Waitless.Quic
