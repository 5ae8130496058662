import Waitless.QuicReceive

/-! # What a receive stream holds

As long as no frame is staged over a part of another one, the buffer and the staged frames fit below
the largest offset received (`RecvStream.held_le`), in every such run (`receive_memory_bounded`).
Frames that overlap are staged side by side, and only the number of start offsets in the window
bounds their sum (`overlaps_exceed_window`). -/

namespace Waitless.Quic

open Waitless.AesGcm History RecvSide RecvStream SortedMap
open Waitless.Tcp (CongestionControl)
open Runs

def Apart (a b : ℕ × Bytes) : Prop := a.1 + a.2.length ≤ b.1 ∨ b.1 + b.2.length ≤ a.1

instance (a b : ℕ × Bytes) : Decidable (Apart a b) := inferInstanceAs (Decidable (_ ∨ _))

theorem sum_lengths_le {es : List (ℕ × Bytes)} {lo hi : ℕ}
    (hsorted : es.Pairwise fun a b => a.1 < b.1) (hapart : es.Pairwise Apart)
    (hlo : ∀ e ∈ es, lo ≤ e.1) (hhi : ∀ e ∈ es, e.1 + e.2.length ≤ hi) (hroom : lo ≤ hi) :
    lo + (es.map fun e => e.2.length).sum ≤ hi := by
  induction es generalizing lo with
  | nil => simpa using hroom
  | cons e es ih =>
    obtain ⟨hbefore, hsorted⟩ := List.pairwise_cons.mp hsorted
    obtain ⟨hfree, hapart⟩ := List.pairwise_cons.mp hapart
    have hbehind : ∀ d ∈ es, e.1 + e.2.length ≤ d.1 := by
      intro d hd
      rcases hfree d hd with h | h
      · exact h
      · have := hbefore d hd
        omega
    have hrest := ih hsorted hapart hbehind (fun d hd => hhi d (List.mem_cons_of_mem _ hd))
      (hhi e List.mem_cons_self)
    have := hlo e List.mem_cons_self
    rw [List.map_cons, List.sum_cons]
    omega

namespace RecvStream

def heldBytes (s : RecvStream) : ℕ := s.buffer.length + s.gapBuffer.sum fun _ v => v.length

/-- Staged frames are past the end and do not overlap. -/
structure Compact (s : RecvStream) : Prop where
  gapped : s.Gapped
  apart : ∀ off v off' v', s.gapBuffer.get? off = some v → s.gapBuffer.get? off' = some v' →
    off ≠ off' → Apart (off, v) (off', v')

variable {s : RecvStream}

/-- **What a compact stream holds** was received and not consumed. -/
theorem held_le (hs : s.Sound) (hc : s.Compact) : s.heldBytes ≤ s.recvMax - s.consumed := by
  have hbuf := hs.within.buffer_le
  have hmax := hs.high_le
  have hsum : s.offset + (s.gapBuffer.entries.map fun e => e.2.length).sum ≤ s.recvHigh := by
    refine sum_lengths_le s.gapBuffer.sorted ?_ (fun e he => ?_) (fun e he => ?_) hs.within.offset_le
    · refine s.gapBuffer.sorted.imp_of_mem fun {a b} ha hb hlt => ?_
      exact hc.apart a.1 a.2 b.1 b.2 (get?_eq_some.mpr ha) (get?_eq_some.mpr hb) hlt.ne
    · exact (hc.gapped e.1 e.2 (get?_eq_some.mpr he)).le
    · exact hs.within.staged e.1 e.2 (get?_eq_some.mpr he)
  unfold heldBytes consumed
  rw [sum]
  omega

theorem compact_of_empty (h : s.gapBuffer = .empty) : s.Compact :=
  ⟨fun off v hget => by simp [h] at hget, fun off v off' v' hget => by simp [h] at hget⟩

theorem Compact.congr {t : RecvStream} (h : s.Compact) (ho : t.offset = s.offset)
    (hg : t.gapBuffer = s.gapBuffer) : t.Compact :=
  ⟨fun off v hget => ho ▸ h.gapped off v (hg ▸ hget),
    fun off v off' v' hget hget' => h.apart off v off' v' (hg ▸ hget) (hg ▸ hget')⟩

/-- A staged frame overlaps none at another offset. -/
def StagesApart (s : RecvStream) (off : ℕ) (data : Bytes) : Prop :=
  s.offset < off → data ≠ [] → ∀ e ∈ s.gapBuffer.entries, e.1 ≠ off → Apart (off, data) e

instance (s : RecvStream) (off : ℕ) (data : Bytes) : Decidable (s.StagesApart off data) :=
  inferInstanceAs (Decidable (_ → _ → ∀ e ∈ _, _))

theorem Compact.stage (h : s.Compact) {off : ℕ} {data : Bytes} (hoff : s.offset < off)
    (hapart : s.StagesApart off data) : (s.stage off data).Compact := by
  unfold RecvStream.stage
  split_ifs with hnil hkeep
  · exact h
  · have hold : ∀ off' v', s.gapBuffer.get? off' = some v' → off' ≠ off → Apart (off, data) (off', v') :=
      fun off' v' hget hne => hapart hoff hnil (off', v') (get?_eq_some.mp hget) hne
    refine ⟨fun off' v' hget => ?_, fun off1 v1 off2 v2 hget1 hget2 hne => ?_⟩
    · rw [get?_insert] at hget
      split_ifs at hget with heq
      · exact heq ▸ hoff
      · exact h.gapped off' v' hget
    · rw [get?_insert] at hget1 hget2
      split_ifs at hget1 hget2 with heq1 heq2 heq2
      · exact absurd (heq1.trans heq2.symm) hne
      · obtain rfl := Option.some.inj hget1
        subst heq1
        exact hold off2 v2 hget2 heq2
      · obtain rfl := Option.some.inj hget2
        subst heq2
        exact (hold off1 v1 hget1 heq1).symm
      · exact h.apart off1 v1 off2 v2 hget1 hget2 hne
  · exact h

theorem Compact.append (h : s.Compact) (tail : Bytes) (produced : Bool) :
    (foldGaps s.gapBuffer.size
      { s with buffer := s.buffer ++ tail, offset := s.offset + tail.length } produced).1.Compact := by
  obtain ⟨hapart, hgapped⟩ := foldGaps_rec
    (I := fun t => ∀ off v, t.gapBuffer.get? off = some v → s.gapBuffer.get? off = some v)
    (s := { s with buffer := s.buffer ++ tail, offset := s.offset + tail.length })
    (fun t off v _ _ ht off' v' hget' => by
      rw [absorb, get?_erase] at hget'
      split_ifs at hget'
      exact ht off' v' hget')
    s.gapBuffer.size le_rfl (fun _ _ hget => hget) produced
  exact ⟨hgapped, fun off v off' v' hget hget' =>
    h.apart off v off' v' (hapart off v hget) (hapart off' v' hget')⟩

theorem Compact.ingest (h : s.Compact) {off : ℕ} {data : Bytes} (fin : Bool)
    (hapart : s.StagesApart off data) : (s.ingest off data fin).1.Compact := by
  have hfin : ∀ {t : RecvStream} (n : ℕ), t.Compact → (t.recordFin n).Compact :=
    fun n ht => ht.congr rfl rfl
  have hclose : ∀ {t : RecvStream}, t.Compact → t.maybeClose.Compact := by
    intro t ht
    unfold maybeClose
    split
    · split_ifs
      · exact ht.congr rfl rfl
      · exact ht
    · exact ht
  unfold RecvStream.ingest
  by_cases hstale : off + data.length ≤ s.offset
  · rw [if_pos hstale]
    cases fin with
    | true => exact hfin _ h
    | false => exact h
  · rw [if_neg hstale]
    by_cases hcont : off + (s.offset - off) = s.offset
    · simp only [if_pos hcont]
      have hgrown := h.append (data.drop (s.offset - off)) (!(data.drop (s.offset - off)).isEmpty)
      cases fin with
      | true => exact hfin _ hgrown
      | false => exact hclose hgrown
    · have hz : s.offset - off = 0 := by omega
      have hne : ¬off = s.offset := by omega
      simp only [hz, Nat.add_zero, List.drop_zero, if_neg hne]
      have hstaged := h.stage (by omega) hapart
      cases fin with
      | true => exact hfin _ hstaged
      | false => exact hclose hstaged

end RecvStream

section

variable {κ τ : Type}

def Event.dataFrame? : Event τ → Option (ℕ × ℕ × Bytes)
  | .frame .oneRtt (.stream sid off data _) => some (sid, off, data)
  | _ => none

def DataApart (h : History κ τ) (i : ℕ × Event τ) : Prop :=
  ∀ d ∈ i.2.dataFrame?, ∀ s ∈ h.conn.rest.recv.recvStreams.get? d.1, s.StagesApart d.2.1 d.2.2

instance (h : History κ τ) (i : ℕ × Event τ) : Decidable (DataApart h i) :=
  inferInstanceAs (Decidable (∀ d ∈ i.2.dataFrame?, ∀ s ∈ _, _))

/-- Limits fit a frame, and live streams are sound and compact. -/
structure Holding (h : History κ τ) : Prop where
  limited : h.conn.rest.recv.Limited
  sound : ∀ sid s, h.conn.rest.recv.recvStreams.get? sid = some s → s.Sound
  compact : ∀ sid s, h.conn.rest.recv.recvStreams.get? sid = some s → s.Compact

theorem StreamMove.compact {r : RecvSide} {sid : ℕ} {s s' : RecvStream} {e : Event τ} {got used : ℕ}
    (h : StreamMove r sid s e s' got used) (hs : s.Compact)
    (hapart : ∀ off data fin, e = .frame .oneRtt (.stream sid off data fin) → s.StagesApart off data) :
    s'.Compact := by
  cases h with
  | drain _ n he hlive hn => exact hs.congr rfl rfl
  | refused _ upTo he hreaped => exact hs
  | data offset data fin hreaped hmax hconn =>
    have hcounted : RecvStream.Compact { s with recvHigh := max s.recvHigh (offset + data.length) } :=
      hs.congr rfl rfl
    exact hcounted.ingest fin (hapart offset data fin rfl)
  | reset code finalSize hreaped hhigh hfin hmax hconn => exact compact_of_empty rfl

theorem holding_of_fresh {c : Conn κ τ} (hfresh : c.Fresh) : Holding { conn := c } := by
  have hrec := receiving_of_fresh hfresh
  refine ⟨hrec.limited, hrec.sound, fun sid s hs => ?_⟩
  have hrecv : c.rest.recv = { recvBuffered := c.rest.recv.recvBuffered } := hfresh.recv
  rw [hrecv] at hs
  cases hs

variable [CongestionControl κ] [Tls τ] {P : Primitives}

theorem Holding.step (h : History κ τ) (i : ℕ × Event τ) (hi : DataApart h i) (hh : Holding h) :
    Holding (h.step P i) := by
  have hstep := recvStep_of_step P h.conn i.1 i.2
  rw [← h.step_conn] at hstep
  have hlive : ∀ sid s', (h.step P i).conn.rest.recv.recvStreams.get? sid = some s' →
      s'.Sound ∧ s'.Compact := by
    intro sid s' hs'
    obtain ⟨s, hwas, hbecame⟩ := hstep.origin hh.limited hs'
    have hs : s.Sound ∧ s.Compact := by
      rcases hwas with hs | ⟨-, t, rfl⟩
      · exact ⟨hh.sound sid s hs, hh.compact sid s hs⟩
      · exact ⟨sound_fresh t, compact_of_empty rfl⟩
    rcases hbecame with ⟨hraise, -⟩ | ⟨got, used, hmove⟩
    · refine ⟨hraise.sound hs.1, ?_⟩
      rw [hraise.eq]
      exact hs.2.congr rfl rfl
    · refine ⟨(hmove.moved hs.1).sound, hmove.compact hs.2 fun off data fin he => ?_⟩
      rcases hwas with hget | ⟨-, t, rfl⟩
      · exact hi (sid, off, data) (by rw [he]; rfl) s hget
      · exact fun _ _ e hmem => (nomatch hmem)
  exact ⟨hstep.limited hh.limited hh.sound, fun sid s hs => (hlive sid s hs).1,
    fun sid s hs => (hlive sid s hs).2⟩

/-- **A stream holds at most one window** where no frame is staged over a part of another one. -/
theorem receive_memory_bounded {c : Conn κ τ} (hfresh : c.Fresh) {is : List (ℕ × Event τ)}
    (hapart : Along (History.step P) DataApart { conn := c } is) (sid : ℕ) (s : RecvStream)
    (hs : (run P { conn := c } is).conn.rest.recv.recvStreams.get? sid = some s) :
    s.buffer.length + (s.gapBuffer.sum fun _ v => v.length) ≤ s.recvMax - s.consumed := by
  have hh : Holding (run P { conn := c } is) :=
    hapart.invariant Holding.step (holding_of_fresh hfresh)
  exact held_le (hh.sound sid s hs) (hh.compact sid s hs)

/-- Two frames past a gap that a third one closes in part. -/
theorem receive_memory_bounded_gaps :
    ∃ s, (History.run samplePrimitives { conn := sampleConn }
        [(0, .frame .oneRtt (.stream 0 7 [8, 9] false)), (0, .frame .oneRtt (.stream 0 3 [4, 5] false)),
          (0, .frame .oneRtt (.stream 0 0 [1, 2, 3, 4] false)), (0, .recv 0 2)]).conn.rest.recv.recvStreams.get?
            0 = some s ∧
      s.buffer.length + (s.gapBuffer.sum fun _ v => v.length) ≤ s.recvMax - s.consumed := by
  obtain ⟨s, hs⟩ := Option.isSome_iff_exists.mp (show (run samplePrimitives { conn := sampleConn }
    [(0, .frame .oneRtt (.stream 0 7 [8, 9] false)), (0, .frame .oneRtt (.stream 0 3 [4, 5] false)),
      (0, .frame .oneRtt (.stream 0 0 [1, 2, 3, 4] false)), (0, .recv 0 2)]).conn.rest.recv.recvStreams.get?
        0 |>.isSome by decide +kernel)
  exact ⟨s, hs, receive_memory_bounded fresh_sampleConn (by decide +kernel) 0 s hs⟩

end

def kilobyte : Bytes := List.replicate 1000 0

@[simp] theorem length_kilobyte : kilobyte.length = 1000 := List.length_replicate

/-- A thousand bytes at every offset from the second one on. -/
def overlapping {τ : Type} (n : ℕ) : List (ℕ × Event τ) :=
  (List.range n).map fun k => (0, .frame .oneRtt (.stream 0 (k + 1) kilobyte false))

/-- The stream after `n` of the frames: all of them are staged. -/
structure RecvStream.Heaped (n : ℕ) (s : RecvStream) : Prop where
  offset : s.offset = 0
  state : s.state = .opened
  recvMax : s.recvMax = initialMaxStreamData
  recvHigh : s.recvHigh ≤ n + 1000
  staged : (s.gapBuffer.sum fun _ v => v.length) = 1000 * n
  keys : ∀ off v, s.gapBuffer.get? off = some v → off ≤ n

theorem RecvStream.heaped_fresh (t : ℕ) : RecvStream.Heaped 0 { rxUs := t } :=
  ⟨rfl, rfl, rfl, Nat.zero_le _, rfl, fun _ _ hget => (nomatch hget)⟩

variable {n : ℕ} {s : RecvStream}

theorem RecvStream.Heaped.ingest {high : ℕ} (h : s.Heaped n)
    (hhigh : high ≤ n + 1 + 1000) :
    let s' := ({ s with recvHigh := high }.ingest (n + 1) kilobyte false).1
    s'.Heaped (n + 1) ∧ s'.recvHigh = high := by
  intro s'
  obtain ⟨hoffset, hstate, hmax, -, hsum, hkeys⟩ := h
  have hnew : s.gapBuffer.get? (n + 1) = none := by
    rw [Option.eq_none_iff_forall_ne_some]
    intro v hv
    have := hkeys _ v hv
    omega
  have hdata : kilobyte ≠ [] := List.ne_nil_of_length_pos (by simp)
  have hingest : s' =
      { s with recvHigh := high, gapBuffer := s.gapBuffer.insert (n + 1) kilobyte } := by
    simp [s', RecvStream.ingest, RecvStream.stage, RecvStream.maybeClose, hoffset, hnew, hstate, hdata]
  rw [hingest]
  refine ⟨⟨hoffset, hstate, hmax, hhigh, ?_, fun off v hget => ?_⟩, rfl⟩
  · have hinsert := SortedMap.sum_insert_add (fun _ v => v.length) s.gapBuffer (n + 1) kilobyte
    rw [hnew, hsum, Option.elim_none, length_kilobyte] at hinsert
    omega
  · rw [SortedMap.get?_insert] at hget
    split_ifs at hget with hoff
    · exact hoff.le
    · exact (hkeys off v hget).trans (Nat.le_succ n)

/-- One stream holds `n` frames past a gap. -/
structure RecvSide.Heaped (n : ℕ) (r : RecvSide) (s : RecvStream) : Prop where
  stream : s.Heaped n
  reaped : r.isReaped 0 = false
  maxData : r.maxDataAdvertised = initialMaxData
  received : r.dataReceived = s.recvHigh

theorem RecvSide.Heaped.fits {r : RecvSide} (h : r.Heaped n s)
    (hn : n + 1 + 1000 ≤ initialMaxStreamData) :
    ¬(n + 1 + kilobyte.length > s.recvMax ∨
      r.dataReceived + (n + 1 + kilobyte.length - s.recvHigh) > r.maxDataAdvertised) := by
  have hhigh := h.stream.recvHigh
  have hroom : initialMaxStreamData ≤ initialMaxData := by decide
  rw [length_kilobyte, h.stream.recvMax, h.maxData, h.received]
  omega

theorem RecvSide.Heaped.next {r r' : RecvSide} (h : r.Heaped n s)
    {isClient : Bool}
    (htouch : Touch isClient r r' 0 s
      ({ s with recvHigh := max s.recvHigh (n + 1 + kilobyte.length) }.ingest (n + 1) kilobyte false).1
      (n + 1 + kilobyte.length - s.recvHigh) 0) :
    ∃ s', r'.recvStreams.get? 0 = some s' ∧ r'.Heaped (n + 1) s' := by
  obtain ⟨hs, hreaped, hmaxData, hreceived⟩ := h
  have hhigh := hs.recvHigh
  rw [length_kilobyte] at htouch
  obtain ⟨hs', hhigh'⟩ := hs.ingest (show max s.recvHigh (n + 1 + 1000) ≤ n + 1 + 1000 by omega)
  refine ⟨_, by rw [htouch.streams, if_pos rfl], hs', ?_, htouch.maxData.trans hmaxData, ?_⟩
  · unfold isReaped
    rw [htouch.reapedStreams]
    exact hreaped
  · rw [htouch.dataReceived, hhigh', hreceived]
    omega

section

variable {κ τ : Type} [CongestionControl κ] [Tls τ] {P : Primitives}

theorem heaped_overlapping {c : Conn κ τ} (hfresh : c.Fresh) (n : ℕ)
    (hn : n + 1 + 1000 ≤ initialMaxStreamData) :
    ∃ s, (History.run P { conn := c } (overlapping (n + 1))).conn.rest.recv.recvStreams.get? 0 = some s ∧
      (run P { conn := c } (overlapping (n + 1))).conn.rest.recv.Heaped (n + 1) s := by
  have hstep : ∀ (h : History κ τ) (k : ℕ), h.conn.rest.recv.isReaped 0 = false →
      (h.step P (0, .frame .oneRtt (.stream 0 (k + 1) kilobyte false))).conn.rest.recv =
        (h.conn.rest.recv.receiveStream h.conn.isClient h.conn.rest.misc.curRxUs 0 (k + 1) kilobyte
          false).1 := by
    intro h k hreaped
    rw [step_conn, Conn.step_recv _ _ _ (by nofun), Conn.recvAfter, hreaped]
    exact if_neg Bool.false_ne_true
  induction n with
  | zero =>
    have hrecv : c.rest.recv = { recvBuffered := c.rest.recv.recvBuffered } := hfresh.recv
    have hreaped : c.rest.recv.isReaped 0 = false := by
      rw [hrecv]
      show (List.replicate reapedStreamsCap reapedStreamEmpty).contains 0 = false
      decide +kernel
    have hnone : c.rest.recv.recvStreams.get? 0 = none := by rw [hrecv]; rfl
    have hlimit : c.rest.recv.overLimit c.isClient 0 = false := by
      rw [hrecv]
      cases c.isClient <;> rfl
    have hheaped : c.rest.recv.Heaped 0 { rxUs := c.rest.misc.curRxUs } :=
      ⟨heaped_fresh _, hreaped, by rw [hrecv], by rw [hrecv]⟩
    have hrun : run P { conn := c } (overlapping (0 + 1)) =
        step P { conn := c } (0, .frame .oneRtt (.stream 0 (0 + 1) kilobyte false)) := rfl
    rw [hrun, hstep _ 0 hreaped, receiveStream, hnone]
    rw [hlimit, if_neg Bool.false_ne_true]
    exact hheaped.next (touch_ingestOn _ _ _ _ (.inr ⟨hnone, _, rfl⟩) (fun _ => hnone)
      (hheaped.fits hn))
  | succ n ih =>
    obtain ⟨s, hlive, hheaped⟩ := ih (by omega)
    have hrun : run P { conn := c } (overlapping (n + 1 + 1)) =
        (run P { conn := c } (overlapping (n + 1))).step P
          (0, .frame .oneRtt (.stream 0 (n + 1 + 1) kilobyte false)) := by
      rw [overlapping, List.range_succ, List.map_append, run_append]
      rfl
    rw [hrun, hstep _ _ hheaped.reaped, receiveStream, hlive]
    exact hheaped.next (touch_ingestOn _ _ _ _ (.inl hlive) (by simp) (hheaped.fits hn))

end

/-- Overlapping frames are held side by side, and outgrow the window. -/
theorem overlaps_exceed_window :
    ∃ s, (History.run samplePrimitives { conn := sampleConn } (overlapping 2098)).conn.rest.recv.recvStreams.get?
        0 = some s ∧
      ¬s.buffer.length + (s.gapBuffer.sum fun _ v => v.length) ≤ s.recvMax - s.consumed := by
  obtain ⟨s, hlive, hheaped⟩ := heaped_overlapping (P := samplePrimitives) fresh_sampleConn 2097 (by decide)
  rw [show 2097 + 1 = 2098 from rfl] at hlive hheaped
  refine ⟨s, hlive, ?_⟩
  rw [hheaped.stream.staged, hheaped.stream.recvMax]
  unfold initialMaxStreamData
  omega

end Waitless.Quic
