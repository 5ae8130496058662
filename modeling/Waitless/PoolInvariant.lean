import Waitless.LinkedChain
import Waitless.TcpFrames

/-! # The invariant of the pool

`PoolInv`: the free list is a chain of exactly the slots nobody owns, every slot knows its index,
an unowned slot has no timer armed, and the links and hash entries point into the pool. An
operation may hold one slot in transit, taken from the free list and without an owner yet. -/

namespace Waitless.Tcp

open LinkedChain List SlotLink TcpConnection

variable {κ : Type}

/-- Of a listener, a connection or a failed connect. -/
def TcpConnection.Owned (c : TcpConnection κ) : Prop :=
  c.state ≠ .closed ∨ c.connectFailure ≠ .none

instance (c : TcpConnection κ) : Decidable c.Owned :=
  inferInstanceAs (Decidable (_ ∨ _))

/-- A slot an application can hold a handle of. -/
def TcpConnection.Held (c : TcpConnection κ) : Prop :=
  c.Owned ∧ (c.accepted = true ∨ c.state = .listen)

theorem TcpConnection.Live.owned {c : TcpConnection κ} (h : c.Live) : c.Owned := .inl h.1

namespace Core

def Link (s : Core κ) (i : ℕ) : Prop := i = nullSlot ∨ i < s.capacity

/-- `transit` is off the free list, without an owner. -/
structure PoolInv (s : Core κ) (transit : Option ℕ) : Prop where
  freeList : ∃ free, Chain (fun i => (s.slots i).nextFree) nullSlot s.freeHead free ∧
    ∀ i, i ∈ free ↔ i < s.capacity ∧ ¬(s.slots i).Owned ∧ transit ≠ some i
  unlinked : ∀ i < s.capacity, (s.slots i).Owned ∨ transit = some i →
    (s.slots i).nextFree = nullSlot
  transit_lt : ∀ i, transit = some i → i < s.capacity ∧ ¬(s.slots i).Owned
  outside : ∀ i, s.capacity ≤ i → ¬(s.slots i).Owned ∧ (s.slots i).generation = 0
  slotIndex : ∀ i < s.capacity, (s.slots i).slotIndex = i
  clean : ∀ i < s.capacity, ¬(s.slots i).Owned →
    ¬(s.slots i).Armed ∧ (s.slots i).tickInList = false
  tickHead : s.Link s.tickHead
  tickNext : ∀ i < s.capacity, s.Link (s.slots i).tickNext
  hash : s.hash.All 0 (· < s.capacity)
  segments : s.segments ≤ maxSegments

theorem PoolInv.owned_lt {s : Core κ} {transit : Option ℕ} (hs : s.PoolInv transit) (i : ℕ)
    (h : (s.slots i).Owned) : i < s.capacity := by
  by_contra hge
  exact (hs.outside i (Nat.not_lt.1 hge)).1 h

section Accessors

variable (s : Core κ) (i j : ℕ) (c : TcpConnection κ) (l : Local κ)

@[simp] theorem setSlot_slots_self : (s.setSlot i c).slots i = c := by simp [setSlot]

theorem setSlot_slots (h : j ≠ i) : (s.setSlot i c).slots j = s.slots j := by
  simp [setSlot, h]

@[simp] theorem setSlot_capacity : (s.setSlot i c).capacity = s.capacity := rfl
@[simp] theorem setSlot_freeHead : (s.setSlot i c).freeHead = s.freeHead := rfl
@[simp] theorem setSlot_tickHead : (s.setSlot i c).tickHead = s.tickHead := rfl
@[simp] theorem setSlot_hash : (s.setSlot i c).hash = s.hash := rfl
@[simp] theorem setSlot_segments : (s.setSlot i c).segments = s.segments := rfl
@[simp] theorem putLocal_capacity : (s.putLocal i l).capacity = s.capacity := rfl
@[simp] theorem putLocal_freeHead : (s.putLocal i l).freeHead = s.freeHead := rfl
@[simp] theorem putLocal_tickHead : (s.putLocal i l).tickHead = l.tickHead := rfl
@[simp] theorem putLocal_hash : (s.putLocal i l).hash = s.hash := rfl
@[simp] theorem putLocal_segments : (s.putLocal i l).segments = s.segments := rfl
@[simp] theorem putLocal_slots_self : (s.putLocal i l).slots i = l.conn := by simp [putLocal]

theorem putLocal_slots (h : j ≠ i) : (s.putLocal i l).slots j = s.slots j := by
  simp [putLocal, setSlot, h]

@[simp] theorem localAt_conn : (s.localAt i).conn = s.slots i := rfl
@[simp] theorem localAt_tickHead : (s.localAt i).tickHead = s.tickHead := rfl

theorem capacity_lt_nullSlot (h : s.segments ≤ maxSegments) : s.capacity < nullSlot := by
  unfold capacity segmentSize nullSlot
  unfold maxSegments at h
  omega

end Accessors

def Bridged (s s' : Core κ) (i j : ℕ) : Prop :=
  s'.slots j = s.slots j ∨ s'.slots j = { s.slots j with tickNext := (s.slots i).tickNext }

theorem unlinkLoop_spec (slot rounds prev : ℕ) (s : Core κ) :
    ∃ slots', unlinkLoop slot rounds prev s = { s with slots := slots' } ∧
      ∀ j, Bridged s { s with slots := slots' } slot j := by
  induction rounds generalizing prev with
  | zero => exact ⟨s.slots, rfl, fun j => .inl rfl⟩
  | succ rounds ih =>
    unfold unlinkLoop
    dsimp only
    split
    · refine ⟨_, rfl, fun j => ?_⟩
      by_cases hj : j = prev
      · subst hj
        exact .inr (by simp)
      · exact .inl (by simp [hj])
    split
    · exact ⟨s.slots, rfl, fun j => .inl rfl⟩
    · exact ih _

theorem unlinkTick_spec (s : Core κ) (slot : ℕ) :
    ∃ slots' head', s.unlinkTick slot = { s with slots := slots', tickHead := head' } ∧
      (∀ j, Bridged s { s with slots := slots', tickHead := head' } slot j) ∧
      (head' = s.tickHead ∨ head' = (s.slots slot).tickNext) := by
  unfold unlinkTick
  split_ifs
  · exact ⟨s.slots, _, rfl, fun j => .inl rfl, .inr rfl⟩
  · exact ⟨s.slots, _, rfl, fun j => .inl rfl, .inl rfl⟩
  · obtain ⟨slots', hs, hb⟩ := unlinkLoop_spec slot s.capacity s.tickHead s
    exact ⟨slots', s.tickHead, hs, hb, .inl rfl⟩
  · exact ⟨s.slots, _, rfl, fun j => .inl rfl, .inl rfl⟩

structure Freed [CongestionControl κ] (s : Core κ) (i : ℕ) (s' : Core κ) : Prop where
  self : s'.slots i =
    { (s.slots i).resetPreserving ((s.slots i).generation + 1) with nextFree := s.freeHead }
  other : ∀ j, j ≠ i → Bridged s s' i j
  freeHead : s'.freeHead = i
  tickHead : s'.tickHead = s.tickHead ∨ s'.tickHead = (s.slots i).tickNext
  segments : s'.segments = s.segments
  hash : s'.hash = if (s.slots i).Live then (s.tcpHashRemove (keyOf (s.slots i))).hash else s.hash

variable [CongestionControl κ]

variable {i : ℕ} {s s' : Core κ}

theorem freeConnection_freed
    (h : (s.slots i).state = .closed → (s.slots i).nextFree = nullSlot) :
    Freed s i (s.freeConnection i) := by
  unfold freeConnection
  dsimp only
  rw [if_neg (fun hc => hc.2 (h hc.1))]
  obtain ⟨s0, hs0, hslots, hhead, hfree, hseg, hhash⟩ :
      ∃ s0 : Core κ, (if (s.slots i).Live then s.tcpHashRemove (keyOf (s.slots i)) else s) = s0 ∧
        s0.slots = s.slots ∧ s0.tickHead = s.tickHead ∧ s0.freeHead = s.freeHead ∧
        s0.segments = s.segments ∧
        s0.hash = if (s.slots i).Live then (s.tcpHashRemove (keyOf (s.slots i))).hash else s.hash := by
    refine ⟨_, rfl, ?_⟩
    split
    · exact ⟨rfl, rfl, rfl, rfl, rfl⟩
    · exact ⟨rfl, rfl, rfl, rfl, rfl⟩
  rw [hs0]
  obtain ⟨slots', head', hun, hb, hhead'⟩ := unlinkTick_spec s0 i
  rw [hun]
  simp only [Bridged, hslots, hhead] at hb hhead'
  refine ⟨?_, fun j hj => ?_, rfl, hhead', hseg, hhash⟩
  · rcases hb i with hi | hi
    · simp [freeSlot, setSlot, hi, hfree, resetPreserving]
    · simp [freeSlot, setSlot, hi, hfree, resetPreserving]
  · simpa [Bridged, freeSlot, setSlot, hj] using hb j

theorem reset_unowned (c : TcpConnection κ) (g : UInt16) (n : ℕ) :
    ¬({ c.resetPreserving g with nextFree := n } : TcpConnection κ).Owned := by
  rintro (h | h)
  · exact h rfl
  · exact h rfl

omit [CongestionControl κ] in
theorem Bridged.frame {j : ℕ} (h : Bridged s s' i j) :
    (s'.slots j).toSlotLink = (s.slots j).toSlotLink ∧ ((s'.slots j).Owned ↔ (s.slots j).Owned) ∧
      ((s'.slots j).Armed ↔ (s.slots j).Armed) ∧
      (s'.slots j).tickInList = (s.slots j).tickInList ∧
      ((s'.slots j).tickNext = (s.slots j).tickNext ∨
        (s'.slots j).tickNext = (s.slots i).tickNext) := by
  rcases h with h | h
  · rw [h]
    exact ⟨rfl, .rfl, .rfl, rfl, .inl rfl⟩
  · rw [h]
    exact ⟨rfl, .rfl, .rfl, rfl, .inr rfl⟩

/-- **Freeing** an owned slot, or the one in transit. -/
theorem PoolInv.freeConnection {transit : Option ℕ} (hs : s.PoolInv transit)
    (hi : i < s.capacity) (hown : (s.slots i).Owned ∧ transit = none ∨ transit = some i) :
    (s.freeConnection i).PoolInv none := by
  have hnull : (s.slots i).nextFree = nullSlot := hs.unlinked i hi (hown.imp And.left id)
  have hf := freeConnection_freed (s := s) (i := i) fun _ => hnull
  generalize s.freeConnection i = s' at hf ⊢
  have hcap : s'.capacity = s.capacity := by simp [capacity, hf.segments]
  have hnew : ¬(s'.slots i).Owned := by rw [hf.self]; exact reset_unowned _ _ _
  have hb := fun j hj => (hf.other j hj).frame
  obtain ⟨free, hchain, hmem⟩ := hs.freeList
  have hnot : i ∉ free := by
    rw [hmem]
    rintro ⟨-, hno, htr⟩
    rcases hown with ⟨h, -⟩ | h
    · exact hno h
    · exact htr h
  have hlink : ∀ {n}, s.Link n → s'.Link n := fun h => by unfold Link; rwa [hcap]
  refine ⟨⟨i :: free, ?_, fun j => ?_⟩, fun j hj hjo => ?_, by simp, fun j hjo => ?_,
    fun j hj => ?_, fun j hj hjo => ?_, ?_, fun j hj => ?_, ?_, ?_⟩
  · rw [hf.freeHead]
    refine hchain.push ?_ (fun j hj => ?_) ?_
    · have := capacity_lt_nullSlot s hs.segments
      omega
    · have hji : j ≠ i := fun h => hnot (h ▸ hj)
      exact congrArg nextFree (hb j hji).1
    · rw [hf.self]
  · by_cases hji : j = i
    · subst hji
      simp [hnew, hcap, hi]
    · rw [mem_cons, hmem, hcap, (hb j hji).2.1]
      rcases hown with ⟨-, h⟩ | h
      · simp [hji, h]
      · simp [hji, h, Ne.symm hji]
  · have hji : j ≠ i := by
      rintro rfl
      simp [hnew] at hjo
    rw [(hb j hji).2.1] at hjo
    rw [congrArg nextFree (hb j hji).1]
    exact hs.unlinked j (hcap ▸ hj) (.inl (by simpa using hjo))
  · have hji : j ≠ i := by omega
    rw [(hb j hji).2.1, congrArg generation (hb j hji).1]
    exact hs.outside j (hcap ▸ hjo)
  · by_cases hji : j = i
    · subst hji
      rw [hf.self]
      exact hs.slotIndex j hi
    · rw [congrArg SlotLink.slotIndex (hb j hji).1]
      exact hs.slotIndex j (hcap ▸ hj)
  · by_cases hji : j = i
    · subst hji
      rw [hf.self]
      exact ⟨fun h => h rfl, rfl⟩
    · rw [(hb j hji).2.1] at hjo
      rw [(hb j hji).2.2.1, (hb j hji).2.2.2.1]
      exact hs.clean j (hcap ▸ hj) hjo
  · rcases hf.tickHead with h | h
    · rw [h]; exact hlink hs.tickHead
    · rw [h]; exact hlink (hs.tickNext i hi)
  · by_cases hji : j = i
    · subst hji
      rw [hf.self]
      exact .inl rfl
    · rcases (hb j hji).2.2.2.2 with h | h
      · rw [h]; exact hlink (hs.tickNext j (hcap ▸ hj))
      · rw [h]; exact hlink (hs.tickNext i hi)
  · rw [hf.hash, hcap]
    split
    · exact hs.hash.remove _
    · exact hs.hash
  · rw [hf.segments]
    exact hs.segments

/-- New contents; whether it counts as free stays. -/
structure Change (s : Core κ) (i : ℕ) (c' : TcpConnection κ) (transit transit' : Option ℕ) :
    Prop where
  slotLink : c'.toSlotLink = (s.slots i).toSlotLink
  free : (c'.Owned ∨ transit' = some i) ↔ ((s.slots i).Owned ∨ transit = some i)
  elsewhere : ∀ j, j ≠ i → (transit' = some j ↔ transit = some j)
  still : transit' = some i → transit = some i ∧ ¬c'.Owned
  clean : i < s.capacity → ¬c'.Owned → ¬c'.Armed ∧ c'.tickInList = false
  tickNext : i < s.capacity → s.Link c'.tickNext

omit [CongestionControl κ] in
theorem PoolInv.change {c : TcpConnection κ} {transit transit' : Option ℕ}
    (hs : s.PoolInv transit) (hc : Change s i c transit transit')
    (hslots : s'.slots = Function.update s.slots i c) (hfree : s'.freeHead = s.freeHead)
    (hseg : s'.segments = s.segments) (hhash : s'.hash.All 0 (· < s.capacity))
    (hhead : s.Link s'.tickHead) : s'.PoolInv transit' := by
  have hcap : s'.capacity = s.capacity := by simp [capacity, hseg]
  have hself : s'.slots i = c := by simp [hslots]
  have hother : ∀ j, j ≠ i → s'.slots j = s.slots j := fun j hj => by simp [hslots, hj]
  have hsl : ∀ j, (s'.slots j).toSlotLink = (s.slots j).toSlotLink := by
    intro j
    by_cases hj : j = i
    · subst hj; rw [hself, hc.slotLink]
    · rw [hother j hj]
  have hheld : ∀ j, ((s'.slots j).Owned ∨ transit' = some j) ↔
      ((s.slots j).Owned ∨ transit = some j) := by
    intro j
    by_cases hj : j = i
    · subst hj; rw [hself]; exact hc.free
    · rw [hother j hj, hc.elsewhere j hj]
  obtain ⟨free, hchain, hmem⟩ := hs.freeList
  refine ⟨⟨free, ?_, fun j => ?_⟩, fun j hj hjo => ?_, fun j hj => ?_, fun j hjo => ?_,
    fun j hj => ?_, fun j hj hjo => ?_, ?_, fun j hj => ?_, hcap ▸ hhash, hseg ▸ hs.segments⟩
  · rw [hfree]
    exact hchain.congr fun j _ => congrArg nextFree (hsl j)
  · have := hheld j
    rw [hmem, hcap]
    tauto
  · rw [congrArg nextFree (hsl j)]
    exact hs.unlinked j (hcap ▸ hj) ((hheld j).1 hjo)
  · by_cases hji : j = i
    · subst hji
      obtain ⟨ht, hno⟩ := hc.still hj
      exact ⟨hcap ▸ (hs.transit_lt j ht).1, hself ▸ hno⟩
    · rw [hother j hji, hcap]
      exact hs.transit_lt j ((hc.elsewhere j hji).1 hj)
  · rw [hcap] at hjo
    obtain ⟨hno, hgen⟩ := hs.outside j hjo
    refine ⟨fun ho => ?_, (congrArg generation (hsl j)).trans hgen⟩
    rcases (hheld j).1 (.inl ho) with h | h
    · exact hno h
    · have := (hs.transit_lt j h).1
      omega
  · rw [congrArg SlotLink.slotIndex (hsl j)]
    exact hs.slotIndex j (hcap ▸ hj)
  · by_cases hji : j = i
    · subst hji
      rw [hself] at hjo ⊢
      exact hc.clean (hcap ▸ hj) hjo
    · rw [hother j hji] at hjo ⊢
      exact hs.clean j (hcap ▸ hj) hjo
  · unfold Link; rw [hcap]; exact hhead
  · by_cases hji : j = i
    · subst hji
      rw [hself]
      unfold Link; rw [hcap]
      exact hc.tickNext (hcap ▸ hj)
    · rw [hother j hji]
      unfold Link; rw [hcap]
      exact hs.tickNext j (hcap ▸ hj)

omit [CongestionControl κ] in
theorem freeSlots_spec (js : List ℕ) (s : Core κ) (free : List ℕ)
    (hchain : Chain (fun i => (s.slots i).nextFree) nullSlot s.freeHead free)
    (hnd : (js ++ free).Nodup) (hnull : ∀ j ∈ js, j ≠ nullSlot) :
    ∃ slots' head', js.foldr (fun i s => s.freeSlot i) s = { s with slots := slots', freeHead := head' } ∧
      Chain (fun i => (slots' i).nextFree) nullSlot head' (js ++ free) ∧
      ∀ j, (j ∉ js → slots' j = s.slots j) ∧ ∃ n, slots' j = { s.slots j with nextFree := n } := by
  induction js with
  | nil => exact ⟨s.slots, s.freeHead, rfl, hchain, fun j => ⟨fun _ => rfl, _, rfl⟩⟩
  | cons i js ih =>
    rw [cons_append, nodup_cons] at hnd
    obtain ⟨slots', head', heq, hch, hsl⟩ := ih hnd.2 fun j hj => hnull j (by simp [hj])
    refine ⟨Function.update slots' i { slots' i with nextFree := head' }, i, ?_, ?_, fun j => ?_⟩
    · rw [foldr_cons, heq]
      rfl
    · refine hch.push (hnull i (by simp)) (fun j hj => ?_) (by simp)
      have hji : j ≠ i := fun h => hnd.1 (h ▸ hj)
      simp [hji]
    · obtain ⟨hsame, n, hn⟩ := hsl j
      by_cases hji : j = i
      · subst hji
        refine ⟨fun h => absurd (by simp) h, head', ?_⟩
        simp [hn]
      · simp only [Function.update_of_ne hji, mem_cons, hji, false_or]
        exact ⟨hsame, n, hn⟩

theorem growSegment_spec {ok : Bool} (hs : s.PoolInv none)
    (h : s.growSegment ok = some s') :
    s'.segments = s.segments + 1 ∧ s.segments < maxSegments ∧ s'.tickHead = s.tickHead ∧
      s'.hash = s.hash ∧ (∀ j, j < s.capacity ∨ s'.capacity ≤ j → s'.slots j = s.slots j) ∧
      (∀ j, s.capacity ≤ j → j < s'.capacity →
        ∃ n, s'.slots j = { TcpConnection.new with slotIndex := j, nextFree := n }) ∧
      ∃ free, Chain (fun i => (s'.slots i).nextFree) nullSlot s'.freeHead free ∧
        ∀ i, i ∈ free ↔ i < s'.capacity ∧ ¬(s'.slots i).Owned := by
  unfold growSegment at h
  split_ifs at h with hmax hok
  obtain ⟨free, hchain, hmem⟩ := hs.freeList
  have hseg : s.segments < maxSegments := by omega
  have hcap' : s.addSegment.capacity = s.capacity + segmentSize := by
    simp [addSegment, capacity, Nat.add_mul]
  have hnull : s.addSegment.capacity < nullSlot := capacity_lt_nullSlot _ hseg
  have hold : ∀ j, j < s.capacity ∨ s.capacity + segmentSize ≤ j →
      s.addSegment.slots j = s.slots j := by
    intro j hj
    simp only [addSegment]
    rw [if_neg (by omega)]
  have hnew : ∀ j, s.capacity ≤ j → j < s.capacity + segmentSize →
      s.addSegment.slots j = { new with slotIndex := j } := by
    intro j hj hj'
    simp only [addSegment]
    rw [if_pos ⟨hj, hj'⟩]
  have hjs : ∀ j, j ∈ (range segmentSize).map (s.capacity + ·) ↔
      s.capacity ≤ j ∧ j < s.capacity + segmentSize := by
    intro j
    simp only [mem_map, mem_range]
    exact ⟨by rintro ⟨k, hk, rfl⟩; omega, fun hj => ⟨j - s.capacity, by omega, by omega⟩⟩
  obtain ⟨slots', head', heq, hch, hsl⟩ := freeSlots_spec
    ((range segmentSize).map (s.capacity + ·)) s.addSegment free
    (hchain.congr fun j hj => by rw [hold j (.inl ((hmem j).1 hj).1)])
    (by
      refine List.Nodup.append ?_ hchain.nodup ?_
      · exact nodup_range.map fun a b hab => Nat.add_left_cancel hab
      · intro j hj hj'
        have := (hjs j).1 hj
        have := ((hmem j).1 hj').1
        omega)
    (fun j hj => by have := (hjs j).1 hj; omega)
  rw [heq] at h
  cases h
  have hown : ∀ j, (slots' j).Owned ↔ (s.addSegment.slots j).Owned := by
    intro j
    obtain ⟨-, n, hn⟩ := hsl j
    rw [hn]
    exact .rfl
  refine ⟨rfl, hseg, rfl, rfl, fun j hj => ?_, fun j hj hj' => ?_, _, hch, fun j => ?_⟩
  · have hj' : j < s.capacity ∨ s.capacity + segmentSize ≤ j := hj.imp id fun h => hcap' ▸ h
    rw [← hold j hj']
    refine (hsl j).1 fun hmem' => ?_
    have := (hjs j).1 hmem'
    omega
  · obtain ⟨n, hn⟩ := (hsl j).2
    refine ⟨n, ?_⟩
    have hj'' : j < s.capacity + segmentSize := hcap' ▸ hj'
    show slots' j = _
    rw [hn, hnew j hj hj'']
  · show _ ↔ j < s.addSegment.capacity ∧ ¬(slots' j).Owned
    rw [mem_append, hjs, hmem, hown, hcap']
    by_cases hj : j < s.capacity
    · rw [hold j (.inl hj)]
      simp [hj, Nat.not_le.2 hj]
      omega
    · by_cases hj' : j < s.capacity + segmentSize
      · rw [hnew j (by omega) hj']
        simp [hj, hj', Nat.not_lt.1 hj]
        rintro (h | h)
        · exact h rfl
        · exact h rfl
      · simp [hj, hj']

theorem PoolInv.growSegment {ok : Bool} (hs : s.PoolInv none)
    (h : s.growSegment ok = some s') : s'.PoolInv none := by
  obtain ⟨hseg, hlt, hhead, hhash, hold, hnew, free, hch, hmem⟩ := growSegment_spec hs h
  have hcap : s.capacity ≤ s'.capacity := by simp [capacity, hseg, Nat.add_mul]
  have hlink : ∀ {n}, s.Link n → s'.Link n := fun h => h.imp id fun h => Nat.lt_of_lt_of_le h hcap
  have hfresh : ∀ j, s.capacity ≤ j → j < s'.capacity → ¬(s'.slots j).Owned := by
    intro j hj hj'
    obtain ⟨n, hn⟩ := hnew j hj hj'
    rw [hn]
    rintro (h | h)
    · exact h rfl
    · exact h rfl
  refine ⟨⟨free, hch, fun i => ?_⟩, fun j hj hjo => ?_, by simp, fun j hjo => ?_, fun j hj => ?_,
    fun j hj hjo => ?_, ?_, fun j hj => ?_, ?_, by omega⟩
  · simp [hmem]
  · have hj' : j < s.capacity := by
      by_contra hge
      exact hfresh j (by omega) hj (by simpa using hjo)
    rw [hold j (.inl hj')] at hjo ⊢
    exact hs.unlinked j hj' hjo
  · rw [hold j (.inr hjo)]
    exact hs.outside j (Nat.le_trans hcap hjo)
  · by_cases hj' : j < s.capacity
    · rw [hold j (.inl hj')]; exact hs.slotIndex j hj'
    · obtain ⟨n, hn⟩ := hnew j (by omega) hj
      rw [hn]
  · by_cases hj' : j < s.capacity
    · rw [hold j (.inl hj')] at hjo ⊢; exact hs.clean j hj' hjo
    · obtain ⟨n, hn⟩ := hnew j (by omega) hj
      rw [hn]
      exact ⟨fun h => h rfl, rfl⟩
  · rw [hhead]; exact hlink hs.tickHead
  · by_cases hj' : j < s.capacity
    · rw [hold j (.inl hj')]; exact hlink (hs.tickNext j hj')
    · obtain ⟨n, hn⟩ := hnew j (by omega) hj
      rw [hn]
      exact .inl rfl
  · rw [hhash]
    exact fun j hj => Nat.lt_of_lt_of_le (hs.hash j hj) hcap

def take (s : Core κ) : Core κ :=
  { s with
    freeHead := (s.slots s.freeHead).nextFree
    slots := Function.update s.slots s.freeHead
      ((s.slots s.freeHead).resetPreserving (s.slots s.freeHead).generation) }

omit [CongestionControl κ] in
theorem PoolInv.head (hs : s.PoolInv none) (h : s.freeHead ≠ nullSlot) :
    s.freeHead < s.capacity ∧ ¬(s.slots s.freeHead).Owned := by
  obtain ⟨free, hch, hmem⟩ := hs.freeList
  cases free with
  | nil => exact absurd hch h
  | cons i free =>
    obtain ⟨hi, -, -⟩ := hch
    have := (hmem i).1 (by simp)
    rw [hi]
    exact ⟨this.1, this.2.1⟩

theorem PoolInv.take (hs : s.PoolInv none) (h : s.freeHead ≠ nullSlot) :
    s.take.PoolInv (some s.freeHead) := by
  obtain ⟨hlt, hun⟩ := hs.head h
  obtain ⟨free, hch, hmem⟩ := hs.freeList
  have hself : s.take.slots s.freeHead =
      (s.slots s.freeHead).resetPreserving (s.slots s.freeHead).generation := by simp [Core.take]
  have hother : ∀ j, j ≠ s.freeHead → s.take.slots j = s.slots j := fun j hj => by
    simp [Core.take, hj]
  have hun' : ¬(s.take.slots s.freeHead).Owned := by
    rw [hself]
    rintro (h | h)
    · exact h rfl
    · exact h rfl
  cases free with
  | nil => exact absurd hch h
  | cons i free =>
    obtain ⟨hi, hne, hrest⟩ := hch
    have hnd : (i :: free).Nodup := (show Chain (fun i => (s.slots i).nextFree) nullSlot i
      (i :: free) from ⟨rfl, hne, hrest⟩).nodup
    have hiff : i ∉ free := (nodup_cons.1 hnd).1
    rw [← hi] at hiff hrest
    refine ⟨⟨free, ?_, fun j => ?_⟩, fun j hj hjo => ?_, fun j hj => ?_, fun j hjo => ?_,
      fun j hj => ?_, fun j hj hjo => ?_, hs.tickHead, fun j hj => ?_, hs.hash, hs.segments⟩
    · refine hrest.congr fun j hj => ?_
      rw [hother j fun h => hiff (h ▸ hj)]
    · by_cases hj : j = s.freeHead
      · subst hj
        simp [hiff]
      · rw [hother j hj]
        have := hmem j
        rw [mem_cons, ← hi] at this
        simp only [hj, false_or] at this
        rw [this]
        simp [Core.take, capacity, Ne.symm hj]
    · by_cases hjh : j = s.freeHead
      · subst hjh
        rw [hself]
        rfl
      · rw [hother j hjh] at hjo ⊢
        refine hs.unlinked j hj (hjo.imp id fun h => ?_)
        exact absurd (Option.some.inj h).symm hjh
    · obtain rfl := Option.some.inj hj
      exact ⟨hlt, hun'⟩
    · have hjo' : s.capacity ≤ j := hjo
      rw [hother j (by omega)]
      exact hs.outside j hjo'
    · by_cases hjh : j = s.freeHead
      · subst hjh
        rw [hself]
        exact hs.slotIndex _ hlt
      · rw [hother j hjh]
        exact hs.slotIndex j hj
    · by_cases hjh : j = s.freeHead
      · subst hjh
        rw [hself]
        exact ⟨fun h => h rfl, rfl⟩
      · rw [hother j hjh] at hjo ⊢
        exact hs.clean j hj hjo
    · by_cases hjh : j = s.freeHead
      · subst hjh
        rw [hself]
        exact .inl rfl
      · rw [hother j hjh]
        exact hs.tickNext j hj

end Core

end Waitless.Tcp
