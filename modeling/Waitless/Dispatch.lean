import Waitless.Handles

/-! # Segment dispatch

The hash of a core indexes its live connections by a 64-bit key. `HashInv` says that it maps the key
of every live connection to its slot, and nothing else.

After every run whose opens do not clash, a segment is dispatched by its identity if and only if it
does not clash either (`dispatch_by_identity`). -/

namespace Waitless.Tcp

open OpenAddressing Audit Finset Option

variable {κ : Type}

/-- The peer's address and port, and the own port. -/
abbrev Identity : Type := IpAddr × UInt16 × UInt16

def Segment.identity (seg : Segment) : Identity := (seg.srcIp, seg.srcPort, seg.dstPort)

namespace Core

def keyOfIdentity (id : Identity) : UInt64 := tcpHashKey id.1 id.2.1 id.2.2

def identity (c : TcpConnection κ) : Option Identity :=
  if c.Live then some (c.remoteIp, c.remotePort, c.localPort) else none

section Identity

variable {c c' : TcpConnection κ} {id : Identity}

theorem identity_eq_some :
    identity c = some id ↔ c.Live ∧ Matches c id.1 id.2.1 id.2.2 := by
  unfold identity Matches
  split
  next h =>
    obtain ⟨a, p, q⟩ := id
    simp only [some.injEq, Prod.mk.injEq, h, true_and]
    tauto
  · simp_all

theorem identity_congr (hl : c'.Live ↔ c.Live) (he : c'.toEndpoints = c.toEndpoints) :
    identity c' = identity c := by
  have h1 : c'.remoteIp = c.remoteIp := congrArg Endpoints.remoteIp he
  have h2 : c'.remotePort = c.remotePort := congrArg Endpoints.remotePort he
  have h3 : c'.localPort = c.localPort := congrArg Endpoints.localPort he
  unfold identity
  rw [h1, h2, h3]
  simp only [hl]

theorem identity_of_not_live (h : ¬c.Live) : identity c = none := if_neg h

theorem identity_of_not_owned (h : ¬c.Owned) : identity c = none :=
  identity_of_not_live fun hl => h hl.owned

theorem keyOf_eq (h : identity c = some id) : keyOf c = keyOfIdentity id := by
  obtain ⟨-, h1, h2, h3⟩ := identity_eq_some.1 h
  unfold keyOf keyOfIdentity
  rw [h1, h2, h3]

end Identity

theorem keyOfIdentity_ne_zero (id : Identity) : keyOfIdentity id ≠ 0 := by
  intro h
  have hbit := congrArg (fun k : UInt64 => k.toBitVec.getLsbD 63) h
  simp [keyOfIdentity, tcpHashKey] at hbit

theorem tcpHashBucket_lt (k : UInt64) : tcpHashBucket k < tcpHashSize := by
  unfold tcpHashBucket tcpHashSize
  rw [UInt64.toNat_shiftRight]
  have := (k * 0x9E3779B97F4A7C15).toNat_lt
  simp only [UInt64.reduceToNat, Nat.reduceMod, Nat.shiftRight_eq_div_pow]
  omega

/-- The hash maps the key of every live connection to its slot, and no other. -/
structure HashInv (s : Core κ) : Prop where
  wf : s.hash.WF tcpHashSize tcpHashBucket 0
  maps : ∀ k i, k ≠ 0 → (s.hash.Maps tcpHashSize k i ↔
    ∃ id, identity (s.slots i) = some id ∧ keyOfIdentity id = k)

section HashInv

variable {s s' : Core κ}

theorem HashInv.roomy (h : s.HashInv) (hs : s.PoolInv none) : s.hash.Roomy tcpHashSize 0 := by
  have hcap : s.capacity ≤ 65472 := Nat.mul_le_mul_right segmentSize hs.segments
  have hcard : ((range s.capacity).image fun i => keyOf (s.slots i)).card ≤ s.capacity := by
    simpa using card_image_le (s := range s.capacity) (f := fun i => keyOf (s.slots i))
  -- an occupied cell names the slot of a live connection
  refine h.wf.distinct.roomy ((range s.capacity).image fun i => keyOf (s.slots i))
    (fun j hj hne => ?_) (by unfold tcpHashSize; omega)
  obtain ⟨id, hid, hkey⟩ := (h.maps _ (s.hash.vals j) hne).1 ⟨j, hj, rfl, rfl⟩
  have hlt := hs.owned_lt _ (identity_eq_some.1 hid).1.owned
  exact mem_image.mpr ⟨_, mem_range.mpr hlt, (keyOf_eq hid).trans hkey⟩

theorem HashInv.free_cell (h : s.HashInv) (hs : s.PoolInv none) :
    ∃ e < tcpHashSize, s.hash.keys e = 0 := by
  obtain ⟨e, he, -, -, -, hempty, -⟩ := h.roomy hs
  exact ⟨e, he, hempty⟩

variable {i : ℕ} {id : Identity}

theorem HashInv.find (h : s.HashInv) (hs : s.PoolInv none) {k : UInt64} (hk : k ≠ 0) :
    s.tcpHashFind k = some i ↔ ∃ id, identity (s.slots i) = some id ∧ keyOfIdentity id = k :=
  (Table.find_eq_some_iff tcpHashBucket_lt h.wf (h.free_cell hs) hk).trans (h.maps k i hk)

theorem HashInv.unique (h : s.HashInv) {j : ℕ} {id' : Identity}
    (hi : identity (s.slots i) = some id) (hj : identity (s.slots j) = some id')
    (hk : keyOfIdentity id = keyOfIdentity id') : i = j := by
  have hne := keyOfIdentity_ne_zero id'
  exact h.wf.maps_unique hne ((h.maps _ i hne).2 ⟨id, hi, hk⟩) ((h.maps _ j hne).2 ⟨id', hj, rfl⟩)

theorem HashInv.same (h : s.HashInv) (hhash : s'.hash = s.hash)
    (hid : ∀ j, identity (s'.slots j) = identity (s.slots j)) : s'.HashInv := by
  refine ⟨hhash ▸ h.wf, fun k i hk => ?_⟩
  rw [hhash, h.maps k i hk, hid]

theorem HashInv.leave (h : s.HashInv) (hs : s.PoolInv none)
    (hi : identity (s.slots i) = some id)
    (hhash : s'.hash = (s.tcpHashRemove (keyOfIdentity id)).hash)
    (hself : identity (s'.slots i) = none)
    (hother : ∀ j, j ≠ i → identity (s'.slots j) = identity (s.slots j)) : s'.HashInv := by
  obtain ⟨hwf, hmaps⟩ := Table.remove_spec tcpHashBucket_lt h.wf (h.free_cell hs) 0
    (keyOfIdentity_ne_zero id)
  refine ⟨hhash ▸ hwf, fun k j hk => ?_⟩
  rw [hhash]
  refine (hmaps k j hk).trans ?_
  rw [h.maps k j hk]
  by_cases hji : j = i
  · subst hji
    rw [hself, hi]
    constructor
    · rintro ⟨hne, id', hid', rfl⟩
      exact absurd (congrArg keyOfIdentity (some.inj hid').symm) hne
    · rintro ⟨id', hid', -⟩
      cases hid'
  · rw [hother j hji]
    constructor
    · exact And.right
    · rintro ⟨id', hid', rfl⟩
      exact ⟨fun he => hji (h.unique hid' hi he), id', hid', rfl⟩

theorem HashInv.enter (h : s.HashInv) (hs : s.PoolInv none)
    (hi : identity (s.slots i) = none)
    (hfresh : ∀ j id', identity (s.slots j) = some id' → keyOfIdentity id' ≠ keyOfIdentity id)
    (hhash : s'.hash = (s.tcpHashInsert (keyOfIdentity id) i).hash)
    (hself : identity (s'.slots i) = some id)
    (hother : ∀ j, j ≠ i → identity (s'.slots j) = identity (s.slots j)) : s'.HashInv := by
  have hne := keyOfIdentity_ne_zero id
  refine ⟨hhash ▸ Table.insert_wf tcpHashBucket_lt h.wf ((h.roomy hs).spare _) hne i, fun k j hk => ?_⟩
  rw [hhash]
  refine (Table.maps_insert tcpHashBucket_lt h.wf ((h.roomy hs).spare _) hne hk).trans ?_
  rw [h.maps k j hk]
  by_cases hji : j = i
  · subst hji
    rw [hself, hi]
    constructor
    · rintro (⟨rfl, -⟩ | ⟨-, id', hid', -⟩)
      · exact ⟨id, rfl, rfl⟩
      · cases hid'
    · rintro ⟨id', hid', rfl⟩
      rw [← some.inj hid']
      exact .inl ⟨rfl, rfl⟩
  · rw [hother j hji]
    constructor
    · rintro (⟨-, hj⟩ | ⟨-, h'⟩)
      · exact absurd hj hji
      · exact h'
    · rintro ⟨id', hid', rfl⟩
      exact .inr ⟨hfresh j id' hid', id', hid', rfl⟩

def Fresh (s : Core κ) (id : Identity) : Prop :=
  ∀ j id', identity (s.slots j) = some id' → keyOfIdentity id' ≠ keyOfIdentity id

/-- Another live connection has the key of `id`. -/
def Clash (s : Core κ) (id : Identity) : Prop :=
  ∃ j id', identity (s.slots j) = some id' ∧ keyOfIdentity id' = keyOfIdentity id ∧ id' ≠ id

theorem clash_iff (hs : s.PoolInv none) :
    s.Clash id ↔ ∃ j < s.capacity, (s.slots j).Live ∧ keyOf (s.slots j) = keyOfIdentity id ∧
      ¬Matches (s.slots j) id.1 id.2.1 id.2.2 := by
  constructor
  · rintro ⟨j, id', hj, hk, hne⟩
    obtain ⟨hlive, -⟩ := identity_eq_some.1 hj
    refine ⟨j, hs.owned_lt j hlive.owned, hlive, (keyOf_eq hj).trans hk, fun hm => hne ?_⟩
    have hid := identity_eq_some.2 ⟨hlive, hm⟩
    rw [hj] at hid
    exact some.inj hid
  · rintro ⟨j, -, hlive, hk, hno⟩
    obtain ⟨id', hj⟩ : ∃ id', identity (s.slots j) = some id' := ⟨_, if_pos hlive⟩
    refine ⟨j, id', hj, (keyOf_eq hj).symm.trans hk, ?_⟩
    rintro rfl
    exact hno (identity_eq_some.1 hj).2

theorem HashInv.find_identity (h : s.HashInv) (hs : s.PoolInv none) (hclash : ¬s.Clash id) {i : ℕ} :
    s.tcpHashFind (keyOfIdentity id) = some i ↔ identity (s.slots i) = some id := by
  rw [h.find hs (keyOfIdentity_ne_zero id)]
  constructor
  · rintro ⟨id', hid', hk⟩
    have heq : id' = id := by
      by_contra hne
      exact hclash ⟨i, id', hid', hk, hne⟩
    rw [hid', heq]
  · intro hid
    exact ⟨id, hid, rfl⟩

theorem HashInv.fresh_of_find_none (h : s.HashInv) (hs : s.PoolInv none)
    (hnone : s.tcpHashFind (keyOfIdentity id) = none) : s.Fresh id := by
  intro j id' hj hk
  have := (h.find hs (keyOfIdentity_ne_zero id)).2 ⟨id', hj, hk⟩
  rw [hnone] at this
  cases this

theorem allocEphemeralPort_free {remoteIp : IpAddr} {remotePort port : UInt16} {p : Placement}
    (h : (s.allocEphemeralPort remoteIp remotePort p).1 = some port) :
    s.tupleInUse remoteIp remotePort port = false := by
  unfold allocEphemeralPort at h
  dsimp only at h
  split at h
  next off hfind =>
    cases h
    have := List.find?_some hfind
    simp only [Bool.and_eq_true, Bool.not_eq_true'] at this
    exact this.1
  · split at h
    next off hfind =>
      cases h
      have := List.find?_some hfind
      simpa using this
    · cases h

theorem fresh_of_alloc (hs : s.PoolInv none) (h : s.HashInv) {remoteIp : IpAddr}
    {remotePort port : UInt16} {p : Placement} (hclash : ¬s.Clash (remoteIp, remotePort, port))
    (hport : (s.allocEphemeralPort remoteIp remotePort p).1 = some port) :
    s.Fresh (remoteIp, remotePort, port) := by
  intro j id hj hk
  have heq : id = (remoteIp, remotePort, port) := by
    by_contra hne
    exact hclash ⟨j, id, hj, hk, hne⟩
  subst heq
  have hfind := (h.find_identity hs hclash).2 hj
  obtain ⟨hlive, hmatch⟩ := identity_eq_some.1 hj
  have hfree := allocEphemeralPort_free hport
  unfold tupleInUse at hfree
  unfold keyOfIdentity at hfind
  rw [hfind] at hfree
  simp only [decide_eq_false_iff_not] at hfree
  exact hfree ⟨hlive.1, hmatch⟩

theorem lookup_of_find {seg : Segment} {i : ℕ}
    (h : s.tcpHashFind (keyOfIdentity seg.identity) = some i) : s.lookup seg = some i := by
  change s.tcpHashFind (tcpHashKey seg.srcIp seg.srcPort seg.dstPort) = some i at h
  unfold lookup
  rw [h]

def ByIdentity (s : Core κ) (seg : Segment) : Prop :=
  (∀ i, s.dispatch seg = some i → Matches (s.slots i) seg.srcIp seg.srcPort seg.dstPort) ∧
    ∀ i < s.capacity, (s.slots i).Live → Matches (s.slots i) seg.srcIp seg.srcPort seg.dstPort →
      s.dispatch seg = some i

/-- **Dispatch is by identity exactly where the key does not clash.** -/
theorem byIdentity_iff (hs : s.PoolInv none) (h : s.HashInv) (seg : Segment) :
    s.ByIdentity seg ↔ ¬s.Clash seg.identity := by
  constructor
  · -- a clash sends the segment to the other connection
    rintro ⟨honly, -⟩ ⟨j, id, hj, hk, hne⟩
    have hfind := (h.find hs (keyOfIdentity_ne_zero seg.identity)).2 ⟨id, hj, hk⟩
    have hdis : s.dispatch seg = some j := filter_eq_some_iff.2
      ⟨lookup_of_find hfind, decide_eq_true (identity_eq_some.1 hj).1⟩
    have hid : identity (s.slots j) = some seg.identity :=
      identity_eq_some.2 ⟨(identity_eq_some.1 hj).1, honly j hdis⟩
    rw [hj] at hid
    exact hne (some.inj hid)
  · intro hclash
    constructor
    · intro i hdis
      obtain ⟨hl, hlive⟩ := filter_eq_some_iff.1 hdis
      unfold lookup at hl
      split at hl
      next j hfind =>
        obtain rfl := some.inj hl
        exact (identity_eq_some.1 ((h.find_identity hs hclash).1 hfind)).2
      · exact (tcpLinearFind_spec hl).2.2
    · intro i hi hlive hmatch
      have hid : identity (s.slots i) = some seg.identity := identity_eq_some.2 ⟨hlive, hmatch⟩
      exact filter_eq_some_iff.2
        ⟨lookup_of_find ((h.find_identity hs hclash).2 hid), decide_eq_true hlive⟩

/-- Nothing changes, or a connection leaves the index. -/
def Reindexed (s s' : Core κ) : Prop :=
  (s'.hash = s.hash ∧ ∀ j, identity (s'.slots j) = identity (s.slots j)) ∨
    ∃ i id, identity (s.slots i) = some id ∧
      s'.hash = (s.tcpHashRemove (keyOfIdentity id)).hash ∧ identity (s'.slots i) = none ∧
      ∀ j, j ≠ i → identity (s'.slots j) = identity (s.slots j)

theorem Reindexed.hashInv (hm : Reindexed s s') (hs : s.PoolInv none) (h : s.HashInv) :
    s'.HashInv := by
  rcases hm with ⟨hhash, hid⟩ | ⟨i, id, hi, hhash, hself, hother⟩
  · exact h.same hhash hid
  · exact h.leave hs hi hhash hself hother

theorem Reindexed.shrinks (hm : Reindexed s s') {j : ℕ} {id : Identity}
    (hj : identity (s'.slots j) = some id) : identity (s.slots j) = some id := by
  rcases hm with ⟨-, hid⟩ | ⟨i, id', -, -, hself, hother⟩
  · rw [← hid, hj]
  · by_cases hji : j = i
    · rw [hji, hself] at hj
      cases hj
    · rw [← hother j hji, hj]

theorem reindexed_update {c : TcpConnection κ} (hhash : s'.hash = s.hash)
    (hslots : s'.slots = Function.update s.slots i c) (hid : identity c = identity (s.slots i)) :
    Reindexed s s' := by
  refine .inl ⟨hhash, fun j => ?_⟩
  rw [hslots]
  by_cases hj : j = i
  · rw [hj, Function.update_self, hid]
  · rw [Function.update_of_ne hj]

theorem Relinks.reindexed {s' : Core κ} (hr : Relinks s s') : Reindexed s s' := by
  obtain ⟨i, tick, hr⟩ := hr
  exact reindexed_update hr.hash hr.slots (identity_congr .rfl rfl)

end HashInv

variable [CongestionControl κ]

section Reindexed

variable {s s' : Core κ}

variable {i : ℕ}

theorem free_reindexed (h : (s.slots i).state = .closed → (s.slots i).nextFree = nullSlot) :
    Reindexed s (s.freeConnection i) := by
  have hf := freeConnection_freed h
  generalize s.freeConnection i = s' at hf ⊢
  have hself : identity (s'.slots i) = none := by
    rw [hf.self]
    exact identity_of_not_owned (reset_unowned _ _ _)
  have hother : ∀ j, j ≠ i → identity (s'.slots j) = identity (s.slots j) := by
    intro j hj
    rcases hf.other j hj with h | h
    · rw [h]
    · rw [h]
      exact identity_congr .rfl rfl
  by_cases hlive : (s.slots i).Live
  · obtain ⟨id, hid⟩ : ∃ id, identity (s.slots i) = some id := ⟨_, if_pos hlive⟩
    refine .inr ⟨i, id, hid, ?_, hself, hother⟩
    rw [hf.hash, if_pos hlive, keyOf_eq hid]
  · refine .inl ⟨by rw [hf.hash, if_neg hlive], fun j => ?_⟩
    by_cases hj : j = i
    · rw [hj, hself, identity_of_not_live hlive]
    · exact hother j hj

theorem take_identity (hs : s.PoolInv none) (hne : s.freeHead ≠ nullSlot) (j : ℕ) :
    identity (s.take.slots j) = identity (s.slots j) := by
  by_cases hj : j = s.freeHead
  · rw [hj, identity_of_not_owned (hs.head hne).2,
      identity_of_not_owned ((hs.take hne).transit_lt _ rfl).2]
  · simp [take, hj]

theorem Move.reindexed {w : ℕ} (hm : Move w s s') (hs : s.PoolInv none) : Reindexed s s' := by
  cases hm with
  | house slots segments freeHead hash tickHead => exact .inl ⟨hash, fun j => by rw [slots]⟩
  | @quiet _ i l' hq =>
    obtain ⟨hf, -⟩ := hq
    simp only [Local.frame, Frame.mk.injEq] at hf
    obtain ⟨-, hend, -, -, hst, -, -⟩ := hf
    refine reindexed_update rfl rfl (identity_congr ?_ hend)
    unfold TcpConnection.Live
    rw [hst]
    rfl
  | @keep _ i l' hi hown hk =>
    refine reindexed_update rfl rfl (identity_congr ?_ hk.1.endpoints)
    unfold TcpConnection.Live
    rw [hk.2]
    rfl
  | @synAnswer _ i seg now hi hst =>
    obtain ⟨ht, hst'⟩ := Local.handleSynSent_touch (s.localAt i) seg now
    refine reindexed_update rfl rfl (identity_congr ?_ ht.endpoints)
    rw [localAt_conn, hst] at hst'
    unfold TcpConnection.Live
    rcases hst' with h | h <;> simp [h, hst]
  | @fin _ i l' now hi _ hc =>
    obtain ⟨ht, hst⟩ := Local.close_touch hc
    refine reindexed_update rfl rfl (identity_congr ?_ ht.endpoints)
    rw [localAt_conn] at hst
    unfold TcpConnection.Live
    rcases hst with ⟨h, h'⟩ | ⟨h, h'⟩ <;> simp [h, h']
  | free hi hown => exact free_reindexed fun _ => hs.unlinked _ hi (.inl hown)
  | @failConnect _ i failure hi hst hf =>
    have hlive : (s.slots i).Live := by simp [TcpConnection.Live, hst]
    obtain ⟨id, hid⟩ : ∃ id, identity (s.slots i) = some id := ⟨_, if_pos hlive⟩
    refine .inr ⟨i, id, hid, ?_, ?_, fun j hj => ?_⟩
    · rw [← keyOf_eq hid]
      rfl
    · unfold Core.failConnect
      rw [setSlot_slots_self]
      exact identity_of_not_live fun h => h.1 rfl
    · unfold Core.failConnect
      rw [setSlot_slots _ i j _ hj]
      rfl
  | @accept _ i port hacc =>
    exact reindexed_update (c := { s.slots i with accepted := true }) rfl rfl
      (identity_congr .rfl rfl)
  | grow hg =>
    obtain ⟨-, -, -, hhash, hold, hnew, -⟩ := growSegment_spec hs hg
    refine .inl ⟨hhash, fun j => ?_⟩
    by_cases hj : j < s.capacity ∨ s'.capacity ≤ j
    · rw [hold j hj]
    · rw [not_or, Nat.not_lt, Nat.not_le] at hj
      obtain ⟨n, hn⟩ := hnew j hj.1 hj.2
      rw [hn, identity_of_not_owned fun ho => absurd (hs.owned_lt j ho) (by omega)]
      exact identity_of_not_live fun h => h.1 rfl
  | @listen _ port hne =>
    refine .inl ⟨rfl, fun j => ?_⟩
    by_cases hj : j = s.freeHead
    · rw [hj, setSlot_slots_self, identity_of_not_owned (hs.head hne).2]
      exact identity_of_not_live fun h => h.2 rfl
    · rw [setSlot_slots _ _ j _ hj, take_identity hs hne]
  | giveBack hne =>
    have hf : Reindexed s.take (s.take.freeConnection s.freeHead) :=
      free_reindexed fun _ => (hs.take hne).unlinked _ (hs.head hne).1 (.inr rfl)
    rcases hf with ⟨hhash, hid⟩ | ⟨i, id, hi, hhash, hself, hother⟩
    · exact .inl ⟨hhash, fun j => (hid j).trans (take_identity hs hne j)⟩
    · refine .inr ⟨i, id, ?_, hhash, hself, fun j hj => ?_⟩
      · rw [← take_identity hs hne, hi]
      · rw [hother j hj, take_identity hs hne]

theorem Arrival.reindexed {seg : Segment} {l' : Local κ} {established : Bool}
    (ha : Arrival s s' i seg l' established) : Reindexed s s' := by
  obtain ⟨ht, mid, hack, hst⟩ := ha.touch
  have hst' := AckStep_ne_closed ha.live.1 hack hst
  rw [ha.core]
  exact reindexed_update rfl rfl (identity_congr
    ⟨fun _ => ha.live, fun _ => ⟨hst'.1, hst'.2 ha.live.2⟩⟩ ht.endpoints)

end Reindexed

section Opening

variable {s s₁ : Core κ} {n : ℕ} {id : Identity}

theorem Steps.hashInv (hst : Steps NoExtra n s s₁) (hs : s.PoolInv none) (h : s.HashInv) :
    s₁.HashInv :=
  (hst.invariant (P := HashInv) (fun _ _ ha => ha.elim)
    (fun _ _ _ hm hs => (hm.reindexed hs).hashInv hs) (fun _ _ ha => ha.elim) hs h).2

theorem Steps.shrinks (hst : Steps NoExtra n s s₁) (hs : s.PoolInv none) {j : ℕ}
    (hj : identity (s₁.slots j) = some id) : identity (s.slots j) = some id :=
  (hst.invariant (P := fun t => identity (t.slots j) = some id → identity (s.slots j) = some id)
    (fun _ _ ha => ha.elim) (fun _ _ _ hm hs ih hj => ih ((hm.reindexed hs).shrinks hj))
    (fun _ _ ha => ha.elim) hs fun h => h).2 hj

theorem Steps.fresh (hst : Steps NoExtra n s s₁) (hs : s.PoolInv none) (h : s.Fresh id) :
    s₁.Fresh id :=
  fun j id' hj => h j id' (hst.shrinks hs hj)

theorem Claim.hashInv {c : TcpConnection κ} (hc : Claim s s₁ c) (hs : s.PoolInv none)
    (h : s.HashInv) (hf : s.Fresh (c.remoteIp, c.remotePort, c.localPort)) : s₁.HashInv := by
  have hlive : c.Live := by rcases hc.state with h | h <;> simp [TcpConnection.Live, h.1]
  have hself : s₁.slots s.freeHead = c := by simp [hc.core, tcpHashInsert]
  refine h.enter hs (i := s.freeHead) (identity_of_not_owned (hs.head hc.head).2) hf ?_ ?_ ?_
  · rw [hc.core]
    rfl
  · rw [hself]
    exact if_pos hlive
  · intro j hj
    rw [← take_identity hs hc.head j, hc.core]
    unfold tcpHashInsert
    rw [setSlot_slots _ _ j _ hj]

theorem admitSyn_hashInv (hs : s.PoolInv none) (h : s.HashInv) (seg : Segment) (env : Env)
    (hf : s.Fresh seg.identity) : (s.admitSyn seg env).HashInv := by
  rcases admitSyn_steps hs seg env with
    ⟨n, -, hst⟩ | ⟨n, s0, s2, c, -, hst, hc, hip, hrp, hlp, -, -, hst'⟩
  · exact hst.hashInv hs h
  · have hs0 := hst.poolInv hs
    have hf' : s0.Fresh (c.remoteIp, c.remotePort, c.localPort) := by
      rw [hip, hrp, hlp]
      exact hst.fresh hs hf
    exact hst'.hashInv (hc.poolInv hs0) (hc.hashInv hs0 (hst.hashInv hs h) hf')

theorem receiveSyn_hashInv (hs : s.PoolInv none) (h : s.HashInv) (seg : Segment) (env : Env)
    (hclash : ¬s.Clash seg.identity) : (s.receiveSyn seg env).HashInv := by
  have hrst : (s.sendRst seg.dstIp seg.srcIp seg.dstPort seg.srcPort 0 (seg.seq + 1)).HashInv :=
    h.same rfl fun _ => rfl
  unfold receiveSyn
  split
  next i hit =>
    obtain ⟨hfind, -⟩ := filter_eq_some_iff.1 hit
    have hid : identity (s.slots i) = some seg.identity := (h.find_identity hs hclash).1 hfind
    have hlive := (identity_eq_some.1 hid).1
    dsimp only
    split_ifs with h1 h2 h3
    · exact (sendChallengeAck_steps s i seg env.now).hashInv hs h
    · exact h
    · exact hrst
    · -- the old connection with this identity leaves first
      have hi := hs.owned_lt i hlive.owned
      have hm : Move 1 s (s.freeConnection i) := .free hi hlive.owned
      have hre := hm.reindexed hs
      refine admitSyn_hashInv (hm.poolInv hs) (hre.hashInv hs h) seg env fun j id' hj hk => ?_
      obtain rfl := h.unique (hre.shrinks hj) hid hk
      have hf := freeConnection_freed (s := s) (i := j) fun hc => absurd hc hlive.1
      rw [hf.self, identity_of_not_owned (reset_unowned _ _ _)] at hj
      cases hj
  next hmiss =>
    split_ifs
    · exact hrst
    · refine admitSyn_hashInv hs h seg env (h.fresh_of_find_none hs ?_)
      cases hfind : s.tcpHashFind (keyOfIdentity seg.identity) with
      | none => rfl
      | some i =>
        have hid := (h.find_identity hs hclash).1 hfind
        have hmatch : Matches (s.slots i) seg.srcIp seg.srcPort seg.dstPort :=
          (identity_eq_some.1 hid).2
        have hit : s.synHit seg = some i :=
          filter_eq_some_iff.2 ⟨hfind, decide_eq_true hmatch⟩
        rw [hmiss] at hit
        cases hit

theorem connectOnCore_hashInv (hs : s.PoolInv none) (h : s.HashInv) (localIp remoteIp : IpAddr)
    (remotePort : UInt16) (p : Placement) (env : Env)
    (hclash : ∀ port, (s.allocEphemeralPort remoteIp remotePort p).1 = some port →
      ¬s.Clash (remoteIp, remotePort, port)) :
    (s.connectOnCore localIp remoteIp remotePort p env).1.HashInv := by
  rcases connectOnCore_steps hs localIp remoteIp remotePort p env with
    ⟨n, -, hst, -⟩ | ⟨n, s0, s₁, c, port, -, hport, hst, hc, hip, hrp, hlp, -, -, hst', -⟩
  · exact hst.hashInv hs h
  · have hs0 := hst.poolInv hs
    have hf' : s0.Fresh (c.remoteIp, c.remotePort, c.localPort) := by
      rw [hip, hrp, hlp]
      exact hst.fresh hs (fresh_of_alloc hs h (hclash port hport) hport)
    exact hst'.hashInv (hc.poolInv hs0) (hc.hashInv hs0 (hst.hashInv hs h) hf')

end Opening

/-- An opened connection does not clash with a live one. -/
def OpensApart (s : Core κ) : Op → Prop
  | .receive srcIp dstIp parts _ => ∀ seg, Segment.parse srcIp dstIp parts = some seg →
      BareSyn seg → ¬s.Clash seg.identity
  | .connect _ remoteIp remotePort place _ => ∀ port,
      (s.allocEphemeralPort remoteIp remotePort place).1 = some port →
        ¬s.Clash (remoteIp, remotePort, port)
  | _ => True

section Operations

variable {s : Core κ}

theorem tcpReceive_hashInv (hs : s.PoolInv none) (h : s.HashInv) (srcIp dstIp : IpAddr)
    (parts : List Bytes) (env : Env)
    (hclash : ∀ seg, Segment.parse srcIp dstIp parts = some seg → BareSyn seg →
      ¬s.Clash seg.identity) : (s.tcpReceive srcIp dstIp parts env).HashInv := by
  unfold tcpReceive
  split
  next seg hseg =>
    unfold receiveSegment
    split_ifs with hrst hsyn
    · obtain ⟨n, -, hst⟩ := receiveRst_steps s seg
      exact hst.hashInv hs h
    · refine receiveSyn_hashInv hs h seg env (hclash seg hseg ?_)
      simp only [Bool.and_eq_true, Bool.not_eq_true'] at hsyn
      exact ⟨by simpa using hrst, hsyn⟩
    · split
      next i hdis =>
        obtain ⟨hi, hlive⟩ := dispatch_spec hs hdis
        rcases receiveAt_steps hi hlive seg env with ⟨n, -, hst⟩ | ⟨s₁, l', est, harr, -, hst, -⟩
        · exact hst.hashInv hs h
        · exact hst.hashInv (harr.poolInv hs) (harr.reindexed.hashInv hs h)
      · exact h
  · exact h

theorem step_hashInv (hs : s.PoolInv none) (h : s.HashInv) {op : Op} (hop : s.OpOk op)
    (hopen : s.OpensApart op) : (s.step op).HashInv := by
  have hsteps := step_steps hs hop
  cases op with
  | connect localIp remoteIp remotePort place env =>
    exact connectOnCore_hashInv hs h localIp remoteIp remotePort place env hopen
  | receive srcIp dstIp parts env => exact tcpReceive_hashInv hs h srcIp dstIp parts env hopen
  | tick now =>
    obtain ⟨n, -, hst⟩ := hsteps
    exact (hst.invariant (P := HashInv) (fun _ _ => extraMoves_poolInv)
      (fun _ _ _ hm hs => (hm.reindexed hs).hashInv hs) (fun _ _ hr hs => hr.reindexed.hashInv hs) hs h).2
  | _ =>
    obtain ⟨n, -, hst⟩ := hsteps
    exact hst.hashInv hs h

end Operations

theorem init_hashInv : (init : Core κ).HashInv := by
  have hkeys : ∀ j, (init : Core κ).hash.keys j = 0 := fun _ => rfl
  refine ⟨⟨fun i _ j _ hne _ => absurd (hkeys i) hne, fun j _ hne => absurd (hkeys j) hne⟩,
    fun k i hk => ?_⟩
  constructor
  · rintro ⟨j, -, hj, -⟩
    exact absurd (hj.symm.trans (hkeys j)) hk
  · rintro ⟨id, hid, -⟩
    exact absurd rfl (identity_eq_some.1 hid).1.1

end Core

/-- Opens do not clash, and `close` gets a known handle. -/
def Audit.OpensApart [CongestionControl κ] (a : Audit κ) (op : Op) : Prop :=
  a.CloseIssued op ∧ a.core.OpensApart op

/-- **Segment dispatch** is by identity exactly where keys do not clash. -/
theorem dispatch_by_identity [CongestionControl κ] {ops : List Op}
    (h : Runs.Along Audit.step Audit.OpensApart (Audit.init : Audit κ) ops) :
    let s := (ops.foldl step (init : Audit κ)).core
    ∀ seg, s.ByIdentity seg ↔ ¬s.Clash seg.identity := by
  intro s seg
  have hrun := h.invariant (I := fun a => a.AuditInv ∧ a.core.HashInv)
    (fun a op hop ha => ⟨ha.1.step hop.1, Core.step_hashInv ha.1.pool ha.2 (ha.1.opOk hop.1) hop.2⟩)
    ⟨init_auditInv, Core.init_hashInv⟩
  exact Core.byIdentity_iff hrun.1.pool hrun.2 seg

def dataSegment (peer : IpAddr) : Segment where
  srcIp := peer
  dstIp := here
  srcPort := 5000
  dstPort := 80
  seq := 101
  ack := 1001
  flags := tcpAck ||| tcpPsh
  dataOffset := 20
  window := 65535
  parts := [List.replicate 20 0 ++ [1, 2, 3, 4]]

/-- The run opens its one connection apart. -/
theorem dispatch_by_identity_handshake :
    let s := (handshakeRun.foldl step (init : Audit ConstantWindow)).core
    s.ByIdentity (dataSegment (.v4 #v[10, 0, 0, 1])) ∧
      s.dispatch (dataSegment (.v4 #v[10, 0, 0, 1])) = some 1 := by
  intro s
  have hrun : Runs.Along step Audit.OpensApart (init : Audit ConstantWindow)
      handshakeRun := by
    refine ⟨⟨trivial, trivial⟩, ⟨trivial, fun seg hseg hsyn => ?_⟩,
      ⟨trivial, fun seg hseg hsyn => ?_⟩, trivial⟩
    · -- nothing is live yet
      let a : Audit ConstantWindow := init.step (.listen 80 (.granting 0))
      have hop : (init : Audit ConstantWindow).CloseIssued (.listen 80 (.granting 0)) := trivial
      have ha : a.AuditInv := init_auditInv.step hop
      have hno : ∀ j < a.core.capacity, ¬(a.core.slots j).Live := by decide +kernel
      intro hclash
      obtain ⟨j, hj, hlive, -⟩ := (Core.clash_iff ha.pool).1 hclash
      exact hno j hj hlive
    · -- the acknowledgment opens nothing
      cases hseg
      exact absurd hsyn.2.1 (by decide)
  have hclash : ¬s.Clash (dataSegment (.v4 #v[10, 0, 0, 1])).identity := by
    have hs : s.PoolInv none := (run_auditInv (hrun.mono fun _ _ h => h.1)).pool
    rw [Core.clash_iff hs]
    decide +kernel
  exact ⟨(dispatch_by_identity hrun _).2 hclash, by decide +kernel⟩

/-- **Distinct peers share a key**: a segment of one is read by the application of the other. -/
theorem foreign_segment_accepted :
    let s := (handshakeRun.foldl step (init : Audit ConstantWindow)).core
    let seg := dataSegment (.v4 #v[138, 0, 0, 1])
    s.dispatch seg = some 1 ∧ (s.slots 1).remoteIp = .v4 #v[10, 0, 0, 1] ∧
      ¬s.ByIdentity seg ∧
      ((s.receiveSegment seg (.granting 3)).asyncRecv 1 0 100).2 = [1, 2, 3, 4] := by
  intro s seg
  have hdis : s.dispatch seg = some 1 := by decide +kernel
  have hip : (s.slots 1).remoteIp = .v4 #v[10, 0, 0, 1] := by decide +kernel
  refine ⟨hdis, hip, fun h => ?_, by decide +kernel⟩
  have := (h.1 1 hdis).1
  rw [hip] at this
  exact absurd this (by decide)

end Waitless.Tcp
