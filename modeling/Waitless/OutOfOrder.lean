import Waitless.SerialNumber
import Waitless.TcpRecvQueue

/-! # The out-of-order queue

The receive path inserts segments while the queue is *settled*: nothing in it begins at or below
`rcv_nxt`. `Driven` is this discipline call by call, to which the loop of `drain_ooo` keeps
(`drainLoop_driven`). -/

namespace Waitless.Tcp.OooQueue

open SerialNumber List

/-- Between segments, or within `drain_ooo`. -/
inductive Phase where
  | settled
  | draining
deriving DecidableEq

def tailOf (r : UInt32) (s : OooSeg) : Bytes := s.bytes.drop (r - s.seqStart).toNat

/-- The states the calls of the receive path lead to. -/
inductive Driven : Phase → UInt32 → OooQueue → Prop
  | new (r : UInt32) : Driven .settled r .new
  | insert {r : UInt32} {q : OooQueue} (seqStart : UInt32) (bytes : Bytes) :
      Driven .settled r q → Driven .settled r (q.insert r seqStart bytes).1
  /-- In-order data moved `rcv_nxt` on. -/
  | advance {r : UInt32} {q : OooQueue} {n : ℕ} :
      Driven .settled r q → n < 2 ^ 31 → Driven .draining (r + UInt32.ofNat n) q
  | done {r : UInt32} {q q' : OooQueue} :
      Driven .draining r q → q.takeAt r = (none, q') → Driven .settled r q'
  /-- The ring filled up in the middle of the segment. -/
  | full {r : UInt32} {q q' : OooQueue} {s : OooSeg} {pushed : ℕ} :
      Driven .draining r q → q.takeAt r = (some s, q') → pushed < (tailOf r s).length →
      Driven .settled (r + UInt32.ofNat pushed) q'
  | next {r : UInt32} {q q' : OooQueue} {s : OooSeg} :
      Driven .draining r q → q.takeAt r = (some s, q') →
      Driven .draining (r + UInt32.ofNat (tailOf r s).length) q'

def stop (r : UInt32) (s : OooSeg) : ℤ := ahead r s.seqStart + s.bytes.length

def Holds (r : UInt32) (s : OooSeg) (x : UInt32) : Prop :=
  ahead r s.seqStart ≤ ahead r x ∧ ahead r x < stop r s

def heldBytes (segs : List OooSeg) : ℕ := (segs.map fun s => s.bytes.length).sum

/-- Ascending, disjoint, and not past the window. -/
structure Ordered (r : UInt32) (segs : List OooSeg) : Prop where
  ascending : segs.Pairwise fun s t => stop r s ≤ ahead r t.seqStart
  within : ∀ s ∈ segs, 0 < s.bytes.length ∧ stop r s ≤ oooMaxBytes

/-- Sorted without overlap, and within its budget. -/
structure Sound (phase : Phase) (r : UInt32) (q : OooQueue) : Prop where
  ordered : Ordered r q.segs
  settled : phase = .settled → ∀ s ∈ q.segs, 0 < ahead r s.seqStart
  total : q.totalBytes = heldBytes q.segs
  budget : q.totalBytes ≤ oooMaxBytes
  count : q.segs.length ≤ oooMaxSegs

variable {q : OooQueue} {r : UInt32} {segs : List OooSeg}

theorem Ordered.suffix {rest : List OooSeg} (h : Ordered r segs)
    (hs : rest <:+ segs) : Ordered r rest :=
  ⟨h.ascending.sublist hs.sublist, fun s hmem => h.within s (hs.mem hmem)⟩

theorem Ordered.advance {r : UInt32} {segs : List OooSeg} (h : Ordered r segs) (n : ℕ)
    (hlow : ∀ s ∈ segs, -2 ^ 31 ≤ ahead r s.seqStart - n) :
    Ordered (r + UInt32.ofNat n) segs := by
  have hshift : ∀ s ∈ segs, ahead (r + UInt32.ofNat n) s.seqStart = ahead r s.seqStart - n :=
    fun s hs => ahead_advance n (hlow s hs)
  refine ⟨h.ascending.imp_of_mem fun hs ht hst => ?_, fun s hs => ⟨(h.within s hs).1, ?_⟩⟩
  · simp only [stop, hshift _ hs, hshift _ ht] at hst ⊢
    omega
  · have := (h.within s hs).2
    simp only [stop, hshift _ hs] at this ⊢
    omega

theorem insertSorted_perm (r : UInt32) (new : OooSeg) (segs : List OooSeg) :
    (insertSorted r new segs).Perm (new :: segs) := by
  induction segs with
  | nil => exact .refl _
  | cons s rest ih =>
    rw [insertSorted]
    split_ifs
    · exact .refl _
    · exact (ih.cons s).trans (.swap ..)

theorem insertSorted_ordered {new : OooSeg} (h : Ordered r segs)
    (hsettled : ∀ s ∈ segs, 0 < ahead r s.seqStart) (hnew : 0 < ahead r new.seqStart)
    (hlen : 0 < new.bytes.length) (hstop : stop r new ≤ oooMaxBytes)
    (hfree : ∀ s ∈ segs, overlaps r (offset r new) (offset r new + new.bytes.length) s = false) :
    Ordered r (insertSorted r new segs) := by
  have hoffset : ∀ s, 0 < ahead r s.seqStart → (offset r s : ℤ) = ahead r s.seqStart :=
    fun s hs => toNat_sub_of_ahead hs.le
  have hside : ∀ s ∈ segs, stop r new ≤ ahead r s.seqStart ∨ stop r s ≤ ahead r new.seqStart := by
    intro s hs
    have hov := hfree s hs
    rw [overlaps, Bool.and_eq_false_iff, decide_eq_false_iff_not, decide_eq_false_iff_not] at hov
    have h1 := hoffset s (hsettled s hs)
    have h2 := hoffset new hnew
    rw [stop, stop]
    omega
  refine ⟨?_, fun s hs => ?_⟩
  · induction segs with
    | nil => exact pairwise_singleton ..
    | cons s rest ih =>
      have hpair := pairwise_cons.mp h.ascending
      have hs := mem_cons_self (a := s) (l := rest)
      rw [insertSorted]
      split_ifs with hlt
      · refine pairwise_cons.mpr ⟨fun t ht => ?_, h.ascending⟩
        have hst : ahead r s.seqStart ≤ ahead r t.seqStart := by
          rcases mem_cons.mp ht with rfl | ht'
          · exact le_rfl
          · have := hpair.1 t ht'
            rw [stop] at this
            omega
        have h1 := hoffset s (hsettled s hs)
        have h2 := hoffset new hnew
        have := hside t ht
        simp only [stop] at this ⊢
        omega
      · have hrest := ih ⟨hpair.2, fun t ht => h.within t (mem_cons_of_mem s ht)⟩
          (fun t ht => hsettled t (mem_cons_of_mem s ht))
          (fun t ht => hfree t (mem_cons_of_mem s ht))
          fun t ht => hside t (mem_cons_of_mem s ht)
        refine pairwise_cons.mpr ⟨fun t ht => ?_, hrest⟩
        rcases mem_cons.mp ((insertSorted_perm r new rest).mem_iff.mp ht) with rfl | ht'
        · have h1 := hoffset s (hsettled s hs)
          have h2 := hoffset t hnew
          have := hside s hs
          simp only [stop] at this ⊢
          omega
        · exact hpair.1 t ht'
  · rcases mem_cons.mp ((insertSorted_perm r new segs).mem_iff.mp hs) with rfl | hs'
    · exact ⟨hlen, hstop⟩
    · exact h.within s hs'

theorem insert_sound (h : Sound .settled r q) (seqStart : UInt32)
    (bytes : Bytes) : Sound .settled r (q.insert r seqStart bytes).1 := by
  unfold insert
  split
  · exact h
  rename_i hroom
  dsimp only
  split
  · exact h
  split
  · exact h
  rename_i hfree
  split
  · exact h
  rename_i hbudget
  have hmax : oooMaxBytes = 16384 := rfl
  have hpos := ahead_of_lt (x := seqStart) (r := r) (by omega)
  have hne : 0 < bytes.length ∧ q.segs.length < oooMaxSegs := by
    rw [Bool.or_eq_true, not_or, List.isEmpty_iff, decide_eq_true_iff] at hroom
    exact ⟨length_pos_iff.2 hroom.1, not_le.mp hroom.2⟩
  generalize hcut : bytes.take (oooMaxBytes - (seqStart - r).toNat) = cut at hfree hbudget ⊢
  have hlen : cut.length = min (oooMaxBytes - (seqStart - r).toNat) bytes.length := by
    rw [← hcut, length_take]
  have hperm := insertSorted_perm r ⟨seqStart, cut⟩ q.segs
  refine ⟨insertSorted_ordered h.ordered (h.settled rfl) ?_ ?_ ?_ ?_, fun _ s hs => ?_, ?_, ?_, ?_⟩
  · change 0 < ahead r seqStart
    omega
  · change 0 < cut.length
    omega
  · change ahead r seqStart + cut.length ≤ oooMaxBytes
    omega
  · intro s hs
    by_contra hov
    exact hfree (any_eq_true.2 ⟨s, hs, (Bool.not_eq_false _).mp hov⟩)
  · rcases mem_cons.mp (hperm.mem_iff.mp hs) with rfl | hs'
    · change 0 < ahead r seqStart
      omega
    · exact h.settled rfl s hs'
  · have := (hperm.map fun s => s.bytes.length).sum_eq
    rw [heldBytes, this, map_cons, sum_cons, h.total, heldBytes, Nat.add_comm]
  · exact not_lt.mp hbudget
  · rw [hperm.length_eq, length_cons]
    exact hne.2

theorem takeLoop_split (h : Ordered r segs) (total : ℕ) :
    ∃ dropped, segs = dropped ++ ((takeLoop r segs total).1.toList ++ (takeLoop r segs total).2.segs) ∧
      (∀ s ∈ dropped, stop r s ≤ 0) ∧
      (takeLoop r segs total).2.totalBytes =
        total - heldBytes dropped - heldBytes (takeLoop r segs total).1.toList ∧
      ((takeLoop r segs total).1 = none →
        ∀ s ∈ (takeLoop r segs total).2.segs, 0 < ahead r s.seqStart) ∧
      ∀ s ∈ (takeLoop r segs total).1, Holds r s r := by
  induction segs generalizing total with
  | nil => exact ⟨[], by simp [takeLoop, heldBytes]⟩
  | cons s rest ih =>
    have hpair := pairwise_cons.mp h.ascending
    have hlt : 0 < (s.seqStart - r).toInt32 ↔ 0 < ahead r s.seqStart := by
      rw [Int32.lt_iff_toInt_lt, Int32.toInt_zero, ahead]
    rw [takeLoop]
    simp only [hlt]
    split_ifs with hgap hreach
    · refine ⟨[], by simp, by simp, by simp [heldBytes], fun _ t ht => ?_, by simp⟩
      rcases mem_cons.mp ht with rfl | ht'
      · exact hgap
      · have := hpair.1 t ht'
        rw [stop] at this
        omega
    · refine ⟨[], by simp, by simp, by simp [heldBytes], by simp, fun t ht => ?_⟩
      obtain rfl : s = t := by simpa using ht
      rw [Holds, ahead_self, stop]
      exact ⟨not_lt.mp hgap, hreach⟩
    · obtain ⟨dropped, hsplit, hbelow, htotal, hnone, hsome⟩ :=
        ih (h.suffix (suffix_cons s rest)) (total - s.bytes.length)
      refine ⟨s :: dropped, by rw [cons_append, ← hsplit], fun t ht => ?_, ?_, hnone, hsome⟩
      · rcases mem_cons.mp ht with rfl | ht'
        · exact not_lt.mp hreach
        · exact hbelow t ht'
      · rw [htotal]
        simp only [heldBytes, map_cons, sum_cons]
        omega

theorem takeAt_sound {phase : Phase} (h : Sound phase r q) :
    Sound .draining r (q.takeAt r).2 := by
  obtain ⟨dropped, hsplit, -, htotal, -⟩ := takeLoop_split h.ordered q.totalBytes
  rw [takeAt]
  generalize takeLoop r q.segs q.totalBytes = res at hsplit htotal ⊢
  obtain ⟨o, q'⟩ := res
  have hsuffix : q'.segs <:+ q.segs := by
    rw [hsplit, ← append_assoc]
    exact suffix_append ..
  have hsum : q.totalBytes = heldBytes dropped + (heldBytes o.toList + heldBytes q'.segs) := by
    rw [h.total, hsplit]
    simp [heldBytes]
  have hbudget := h.budget
  dsimp only at htotal ⊢
  exact ⟨h.ordered.suffix hsuffix, by simp, by omega, by omega, hsuffix.length_le.trans h.count⟩

theorem length_tailOf {s : OooSeg} (h : Holds r s r) :
    ((tailOf r s).length : ℤ) = stop r s := by
  rw [Holds, ahead_self] at h
  have := toNat_sub_of_behind h.1
  rw [tailOf, length_drop, stop]
  rw [stop] at h
  omega

theorem taken_sound {q' : OooQueue} {s : OooSeg} (h : Sound .draining r q)
    (htake : q.takeAt r = (some s, q')) {n : ℕ} (hn : n ≤ (tailOf r s).length) :
    Sound .draining (r + UInt32.ofNat n) q' ∧
      (n < (tailOf r s).length → Sound .settled (r + UInt32.ofNat n) q') := by
  have hq' := takeAt_sound h
  obtain ⟨dropped, hsplit, -, -, -, hholds⟩ := takeLoop_split h.ordered q.totalBytes
  rw [takeAt] at htake hq'
  rw [htake] at hsplit hholds hq'
  have htail := length_tailOf (hholds s rfl)
  have hrest : ∀ t ∈ q'.segs, stop r s ≤ ahead r t.seqStart := by
    have hpair := h.ordered.ascending
    rw [hsplit] at hpair
    have := (pairwise_append.mp hpair).2.1
    exact (pairwise_cons.mp this).1
  have hordered := hq'.ordered.advance n fun t ht => by
    have := hrest t ht
    omega
  have hdrain : Sound .draining (r + UInt32.ofNat n) q' :=
    ⟨hordered, by simp, hq'.total, hq'.budget, hq'.count⟩
  refine ⟨hdrain, fun hlt => ⟨hordered, fun _ t ht => ?_, hq'.total, hq'.budget, hq'.count⟩⟩
  have := hrest t ht
  rw [ahead_advance n (by omega)]
  omega

theorem Driven.sound {phase : Phase} (h : Driven phase r q) :
    Sound phase r q := by
  induction h with
  | new r => exact ⟨⟨.nil, by simp [OooQueue.new]⟩, by simp [OooQueue.new], rfl, by simp [OooQueue.new],
      by simp [OooQueue.new]⟩
  | insert seqStart bytes _ ih => exact insert_sound ih seqStart bytes
  | @advance r q n _ hn ih =>
    have hordered := ih.ordered.advance n fun s hs => by
      have := ih.settled rfl s hs
      omega
    exact ⟨hordered, by simp, ih.total, ih.budget, ih.count⟩
  | @done r q q' _ htake ih =>
    have hq' := takeAt_sound ih
    obtain ⟨dropped, -, -, -, hnone, -⟩ := takeLoop_split ih.ordered q.totalBytes
    rw [takeAt] at htake hq'
    rw [htake] at hnone hq'
    exact ⟨hq'.ordered, fun _ => hnone rfl, hq'.total, hq'.budget, hq'.count⟩
  | full _ htake hn ih => exact (taken_sound ih htake hn.le).2 hn
  | next _ htake ih => exact (taken_sound ih htake le_rfl).1

theorem rxRingPush_frame (r : RecvHalf) (payload : Bytes) :
    (r.rxRingPush payload).1.ooo = r.ooo ∧ (r.rxRingPush payload).1.rcvNxt = r.rcvNxt ∧
      (r.rxRingPush payload).2 ≤ payload.length := by
  rw [RecvHalf.rxRingPush]
  split_ifs
  · exact ⟨rfl, rfl, Nat.zero_le _⟩
  · exact ⟨rfl, rfl, Nat.zero_le _⟩
  · cases r.rxRing with
    | none => exact ⟨rfl, rfl, Nat.zero_le _⟩
    | some mem => exact ⟨rfl, rfl, Nat.min_le_left ..⟩

/-- **The loop of `drain_ooo`** settles the queue. -/
theorem drainLoop_driven {rounds : ℕ} {r : RecvHalf} (delivered : ℕ)
    (h : Driven .draining r.rcvNxt r.ooo) (hlen : r.ooo.segs.length < rounds) :
    Driven .settled (r.drainLoop rounds delivered).1.rcvNxt (r.drainLoop rounds delivered).1.ooo := by
  induction rounds generalizing r delivered with
  | zero => omega
  | succ rounds ih =>
    rw [RecvHalf.drainLoop]
    obtain ⟨dropped, hsplit, -⟩ := takeLoop_split h.sound.ordered r.ooo.totalBytes
    rw [← takeAt] at hsplit
    rcases htake : r.ooo.takeAt r.rcvNxt with ⟨_ | s, q⟩
    · exact h.done htake
    · rw [htake] at hsplit
      have hshort : q.segs.length < rounds := by
        have := congrArg length hsplit
        simp only [Option.toList_some, length_append, length_cons] at this
        omega
      obtain ⟨hooo, hnxt, hpushed⟩ :=
        rxRingPush_frame { r with ooo := q } (s.bytes.drop (r.rcvNxt - s.seqStart).toNat)
      dsimp only
      generalize RecvHalf.rxRingPush { r with ooo := q }
        (s.bytes.drop (r.rcvNxt - s.seqStart).toNat) = res at hooo hnxt hpushed ⊢
      obtain ⟨r', pushed⟩ := res
      dsimp only at hooo hnxt hpushed ⊢
      split_ifs with hfull
      · rw [hooo, hnxt]
        exact h.full htake hfull
      · refine ih (delivered + pushed) ?_ (by simpa only [hooo] using hshort)
        rw [hooo, hnxt, le_antisymm hpushed (not_lt.mp hfull)]
        exact h.next htake

def InBlock (r : UInt32) (b : UInt32 × UInt32) (x : UInt32) : Prop :=
  ahead r b.1 ≤ ahead r x ∧ ahead r x < ahead r b.2

/-- The bytes of the segments, up to `lo` at most. -/
structure Blocks (r : UInt32) (lo : ℤ) (segs : List OooSeg) (out : List (UInt32 × UInt32)) : Prop where
  ascending : out.Pairwise fun b a => ahead r a.2 < ahead r b.1
  proper : ∀ b ∈ out, ahead r b.1 < ahead r b.2 ∧ ahead r b.2 ≤ lo
  truth : ∀ x, (∃ b ∈ out, InBlock r b x) ↔ ∃ s ∈ segs, Holds r s x

section Blocks

variable {r : UInt32} {lo : ℤ} {segs : List OooSeg} {out : List (UInt32 × UInt32)} {s : OooSeg}

theorem ahead_right (hstop : stop r s ≤ oooMaxBytes) :
    ahead r (s.seqStart + UInt32.ofNat s.bytes.length) = stop r s := by
  have hmax : oooMaxBytes = 16384 := rfl
  rw [stop] at hstop ⊢
  exact ahead_add _ (by omega)

theorem Blocks.push (h : Blocks r lo segs out) (hlo : lo ≤ ahead r s.seqStart)
    (hapart : ∀ b ∈ out, ahead r b.2 < ahead r s.seqStart) (hlen : 0 < s.bytes.length)
    (hstop : stop r s ≤ oooMaxBytes) :
    Blocks r (stop r s) (segs ++ [s])
      ((s.seqStart, s.seqStart + UInt32.ofNat s.bytes.length) :: out) := by
  have hright := ahead_right hstop
  have hlt : ahead r s.seqStart < stop r s := by
    rw [stop]
    omega
  refine ⟨pairwise_cons.mpr ⟨fun b hb => hapart b hb, h.ascending⟩, fun b hb => ?_, fun x => ?_⟩
  · rcases mem_cons.mp hb with rfl | hb'
    · exact ⟨by rw [hright]; exact hlt, hright.le⟩
    · have := h.proper b hb'
      exact ⟨this.1, by omega⟩
  · have hself : InBlock r (s.seqStart, s.seqStart + UInt32.ofNat s.bytes.length) x ↔ Holds r s x := by
      rw [InBlock, Holds, hright]
    simp only [mem_cons, mem_append, or_and_right, exists_or, exists_eq_left,
      not_mem_nil, or_false, ← h.truth x, hself]
    exact or_comm

theorem Blocks.extend {l : UInt32} (h : Blocks r lo segs ((l, s.seqStart) :: out))
    (hlen : 0 < s.bytes.length) (hstop : stop r s ≤ oooMaxBytes) :
    Blocks r (stop r s) (segs ++ [s]) ((l, s.seqStart + UInt32.ofNat s.bytes.length) :: out) := by
  have hright := ahead_right hstop
  have hlt : ahead r s.seqStart < stop r s := by
    rw [stop]
    omega
  have hhead := (h.proper _ (mem_cons_self ..)).1
  have hpair := pairwise_cons.mp h.ascending
  refine ⟨pairwise_cons.mpr ⟨hpair.1, hpair.2⟩, fun b hb => ?_, fun x => ?_⟩
  · rcases mem_cons.mp hb with rfl | hb'
    · exact ⟨by rw [hright]; exact hhead.trans hlt, hright.le⟩
    · have hb1 := h.proper b (mem_cons_of_mem _ hb')
      have hb2 := hpair.1 b hb'
      dsimp only at hb2 hhead
      exact ⟨hb1.1, by omega⟩
  · have hself : InBlock r (l, s.seqStart + UInt32.ofNat s.bytes.length) x ↔
        InBlock r (l, s.seqStart) x ∨ Holds r s x := by
      simp only [InBlock, Holds, hright] at hhead ⊢
      omega
    have htruth := h.truth x
    simp only [mem_cons, exists_eq_or_imp] at htruth
    simp only [mem_cons, mem_append, or_and_right, exists_or, exists_eq_left,
      not_mem_nil, or_false, ← htruth, hself]
    exact or_right_comm

theorem sackBlocks_go (room : ℕ) {rest : List OooSeg} (h : Blocks r lo segs out)
    (hordered : Ordered r rest) (hlo : ∀ s ∈ rest, lo ≤ ahead r s.seqStart) (hroom : out.length ≤ room) :
    ∃ lo' segs', Blocks r lo' segs' (sackBlocks.go room rest out).reverse ∧
      segs' <+: segs ++ rest ∧ (sackBlocks.go room rest out).length ≤ room ∧
      ((sackBlocks.go room rest out).length < room → segs' = segs ++ rest) := by
  induction rest generalizing lo segs out with
  | nil =>
    rw [sackBlocks.go, reverse_reverse, length_reverse]
    exact ⟨lo, segs, h, by simp, hroom, by simp⟩
  | cons s rest ih =>
    have hpair := pairwise_cons.mp hordered.ascending
    have hs := hordered.within s (mem_cons_self ..)
    have hslo := hlo s (mem_cons_self ..)
    have hrest := hordered.suffix (suffix_cons s rest)
    have hgo : ∀ {out'}, Blocks r (stop r s) (segs ++ [s]) out' → out'.length ≤ room →
        ∃ lo' segs', Blocks r lo' segs' (sackBlocks.go room rest out').reverse ∧
          segs' <+: segs ++ s :: rest ∧ (sackBlocks.go room rest out').length ≤ room ∧
          ((sackBlocks.go room rest out').length < room → segs' = segs ++ s :: rest) := by
      intro out' hout hlen
      simpa using ih hout hrest hpair.1 hlen
    cases out with
    | nil =>
      rw [sackBlocks.go]
      split_ifs with hzero
      · exact ⟨lo, segs, by simpa using h, prefix_append .., by simp, by simp [hzero]⟩
      · exact hgo (h.push hslo (by simp) hs.1 hs.2) (by simp; omega)
    | cons b out =>
      obtain ⟨l, right⟩ := b
      rw [sackBlocks.go]
      split_ifs with habut hfull
      · subst habut
        exact hgo (h.extend hs.1 hs.2) (by simpa using hroom)
      · rw [reverse_reverse, length_reverse, hfull]
        exact ⟨lo, segs, h, prefix_append .., le_rfl, fun hlt => absurd hlt (lt_irrefl _)⟩
      · refine hgo (h.push hslo (fun b hb => ?_) hs.1 hs.2) ?_
        · -- the last block ends before the segment, the others before that
          have hne : ahead r right ≠ ahead r s.seqStart := fun he => habut (ahead_inj he)
          have hlast := h.proper (l, right) (mem_cons_self ..)
          rcases mem_cons.mp hb with rfl | hb'
          · dsimp only at hlast ⊢
            omega
          · have := (pairwise_cons.mp h.ascending).1 b hb'
            omega
        · simp only [length_cons] at hroom hfull ⊢
          omega

end Blocks

theorem sackBlocks_spec {r : UInt32} {q : OooQueue} (h : Ordered r q.segs) (room : ℕ) :
    ∃ lo segs, Blocks r lo segs (q.sackBlocks room).reverse ∧ segs <+: q.segs ∧
      (q.sackBlocks room).length ≤ room ∧ ((q.sackBlocks room).length < room → segs = q.segs) := by
  have hnil : Blocks r (-2 ^ 31) [] [] := ⟨.nil, by simp, by simp⟩
  exact sackBlocks_go room hnil h (fun s _ => (ahead_bounds r s.seqStart).1) (Nat.zero_le _)

/-- **The out-of-order queue** after any calls of the receive path. -/
theorem queue_representation {phase : Phase} {r : UInt32} {q : OooQueue} (h : Driven phase r q) :
    (q.segs.Pairwise (fun s t => stop r s ≤ ahead r t.seqStart) ∧
      (∀ s ∈ q.segs, 0 < s.bytes.length ∧ stop r s ≤ oooMaxBytes ∧
        (phase = .settled → 0 < ahead r s.seqStart)) ∧
      q.totalBytes = heldBytes q.segs ∧ q.totalBytes ≤ oooMaxBytes ∧ q.segs.length ≤ oooMaxSegs) ∧
    (((q.takeAt r).1.isSome = true ↔ ∃ s ∈ q.segs, Holds r s r) ∧
      (∀ s ∈ (q.takeAt r).1, Holds r s r) ∧
      ∃ dropped, q.segs = dropped ++ ((q.takeAt r).1.toList ++ (q.takeAt r).2.segs) ∧
        ∀ s ∈ dropped, stop r s ≤ 0) ∧
    ∀ room, (q.sackBlocks room).length ≤ room ∧
      (q.sackBlocks room).Pairwise (fun a b => ahead r a.2 < ahead r b.1) ∧
      (∀ b ∈ q.sackBlocks room, ahead r b.1 < ahead r b.2) ∧
      (∀ b ∈ q.sackBlocks room, ∀ x, InBlock r b x → ∃ s ∈ q.segs, Holds r s x) ∧
      ((q.sackBlocks room).length < room →
        ∀ s ∈ q.segs, ∀ x, Holds r s x → ∃ b ∈ q.sackBlocks room, InBlock r b x) := by
  have hs := h.sound
  refine ⟨⟨hs.ordered.ascending, fun s hmem => ⟨(hs.ordered.within s hmem).1,
    (hs.ordered.within s hmem).2, fun hp => hs.settled hp s hmem⟩, hs.total, hs.budget, hs.count⟩,
    ?_, fun room => ?_⟩
  · obtain ⟨dropped, hsplit, hbelow, -, hnone, hholds⟩ := takeLoop_split hs.ordered q.totalBytes
    rw [← takeAt] at hsplit hnone hholds
    refine ⟨⟨fun hsome => ?_, fun hcover => ?_⟩, hholds, dropped, hsplit, hbelow⟩
    · obtain ⟨s, hs'⟩ := Option.isSome_iff_exists.mp hsome
      exact ⟨s, by rw [hsplit, hs']; simp, hholds s hs'⟩
    · -- what covers `rcv_nxt` is not wholly below it, and not past it
      obtain ⟨s, hmem, hcover⟩ := hcover
      by_contra hfalse
      have hnil : (q.takeAt r).1 = none := by simpa using hfalse
      rw [Holds, ahead_self] at hcover
      rw [hsplit, hnil, Option.toList_none, nil_append] at hmem
      rcases mem_append.mp hmem with hd | hd
      · have := hbelow s hd
        omega
      · have := hnone hnil s hd
        omega
  · obtain ⟨lo, segs, hblocks, hprefix, hlen, hall⟩ := sackBlocks_spec hs.ordered room
    refine ⟨hlen, pairwise_reverse.mp hblocks.ascending, fun b hb =>
      (hblocks.proper b (mem_reverse.mpr hb)).1, fun b hb x hx => ?_, fun hroom s hmem x hx => ?_⟩
    · obtain ⟨s, hmem, hholds⟩ := (hblocks.truth x).mp ⟨b, mem_reverse.mpr hb, hx⟩
      exact ⟨s, hprefix.subset hmem, hholds⟩
    · obtain ⟨b, hb, hin⟩ := (hblocks.truth x).mpr ⟨s, by rw [hall hroom]; exact hmem, hx⟩
      exact ⟨b, mem_reverse.mp hb, hin⟩

def sampleQueue : OooQueue :=
  ((OooQueue.new.insert 0xfffffffa 2 [1, 2, 3]).1.insert 0xfffffffa 5 [4, 5]).1

/-- In-order data has come up to the middle of the first segment. -/
theorem queue_representation_sample :
    ((sampleQueue.takeAt (0xfffffffa + UInt32.ofNat 9)).1.isSome = true ↔
      ∃ s ∈ sampleQueue.segs, Holds (0xfffffffa + UInt32.ofNat 9) s (0xfffffffa + UInt32.ofNat 9)) ∧
    (sampleQueue.takeAt (0xfffffffa + UInt32.ofNat 9)).1 = some ⟨2, [1, 2, 3]⟩ ∧
    sampleQueue.sackBlocks 3 = [(2, 7)] := by
  have h := queue_representation
    ((((Driven.new 0xfffffffa).insert 2 [1, 2, 3]).insert 5 [4, 5]).advance (n := 9) (by decide))
  exact ⟨h.2.1.1, by decide, by decide⟩

-- An insertion before the drain would not keep the segments apart: byte 16 is held already.
example :
    let q := (OooQueue.new.insert 0 10 [0, 1, 2, 3, 4, 5, 6, 7, 8, 9]).1
    (q.insert 15 16 [6]).2 = true ∧ (q.insert 0 16 [6]).2 = false := by
  decide

end Waitless.Tcp.OooQueue
