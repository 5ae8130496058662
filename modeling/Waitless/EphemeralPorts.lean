import Waitless.Dispatch

/-! # Ephemeral ports across cores

`alloc_ephemeral_port` scans the dynamic range for a free port whose replies the flow hash sends to
the calling core, and falls back to the core's slice of the range, where it does not ask the hash.
Free means that no live connection of this core has the tuple; no core looks at another.

What keeps two cores from opening the same tuple is therefore the flow hash: a port it maps home
belongs to one core. While no open takes a port by the fallback (`OpensHome`), every live connection
is at `Home`, and then a port that is handed out is unused on all cores exactly if a free port hashes
home, or the first free one of the slice is not in use where it is home (`client_tuples_unique`).
The slice holds ports that are home on other cores, so a second core can open a tuple that is live
(`client_tuple_shared`). No port means that all of the range is in use on a machine with one core,
and otherwise that those at home and those of the slice are. -/

namespace Waitless.Tcp

open Audit Waitless.Tcp.Core

variable {κ : Type}

/-- One engine a core. -/
abbrev Machine (κ : Type) : Type := ℕ → Audit κ

namespace Machine

variable [CongestionControl κ]

def init : Machine κ := fun _ => Audit.init

def step (m : Machine κ) (e : ℕ × Op) : Machine κ := Function.update m e.1 ((m e.1).step e.2)

end Machine

/-- Every live connection of the core belongs to it. -/
def Core.Home (owner : Identity → ℕ) (core : ℕ) (s : Core κ) : Prop :=
  ∀ j id, identity (s.slots j) = some id → owner id = core

namespace Core

/-- No live connection to another destination has the key of one to this destination. -/
def Apart (s : Core κ) (remoteIp : IpAddr) (remotePort : UInt16) : Prop :=
  ∀ j id, identity (s.slots j) = some id → (id.1, id.2.1) ≠ (remoteIp, remotePort) →
    keyOfIdentity id ≠ keyOfIdentity (remoteIp, remotePort, id.2.2)

/-- A free port hashes home. -/
def FreeHome (s : Core κ) (remoteIp : IpAddr) (remotePort : UInt16) (p : Placement) : Prop :=
  ∃ off < ephemeralCount, p.affine (UInt16.ofNat (ephemeralLo + off)) = true ∧
    s.tupleInUse remoteIp remotePort (UInt16.ofNat (ephemeralLo + off)) = false

/-- The first free port of the slice. -/
def fallbackPort (s : Core κ) (remoteIp : IpAddr) (remotePort : UInt16) (p : Placement) :
    Option UInt16 :=
  (((List.range p.sliceLen).map (p.sliceBase + ·)).find? fun off =>
    !s.tupleInUse remoteIp remotePort (UInt16.ofNat (ephemeralLo + off))).map
      fun off => UInt16.ofNat (ephemeralLo + off)

end Core

section Owner

-- `flow_owner` of a reply from the remote end to the local address
variable (owner : IpAddr → Identity → ℕ) (numCores : ℕ) (localIp : IpAddr)

/-- What `alloc_ephemeral_port` knows of its core. -/
def placement (core : ℕ) (remoteIp : IpAddr) (remotePort : UInt16) : Placement where
  affine port := owner localIp (remoteIp, remotePort, port) == core
  sliceBase := core % max numCores 1 * (ephemeralCount / max numCores 1)
  sliceLen := ephemeralCount / max numCores 1

/-- An active open that takes no port by the fallback, or a close. -/
def OpensHome (m : Machine κ) : ℕ × Op → Prop
  | (core, .connect ip remoteIp remotePort place _) =>
    ip = localIp ∧ place = placement owner numCores localIp core remoteIp remotePort ∧
      (m core).core.Apart remoteIp remotePort ∧
        ((m core).core.FreeHome remoteIp remotePort place ∨
          (m core).core.fallbackPort remoteIp remotePort place = none)
  | (core, .close slot generation _) => (m core).Issued slot generation
  | _ => False

end Owner

namespace Core

section Ports

variable {s : Core κ} {remoteIp : IpAddr} {remotePort port : UInt16} {p : Placement}

theorem tcpHashKey_toUInt16 (ip : IpAddr) (remotePort port : UInt16) :
    (tcpHashKey ip remotePort port).toUInt16 = port := by
  have h32 : ((foldIp ip).toUInt64 <<< 32).toUInt16 = 0 := by
    apply UInt16.toBitVec_inj.mp
    ext i hi
    simp
  have h16 : (remotePort.toUInt64 <<< 16).toUInt16 = 0 := by
    apply UInt16.toBitVec_inj.mp
    ext i hi
    simp
  have h63 : ((1 : UInt64) <<< 63).toUInt16 = 0 := by decide
  have hfam : (familyBit ip).toUInt16 = 0 := by
    cases ip with
    | v4 => rfl
    | v6 => exact (by decide : ((1 : UInt64) <<< 62).toUInt16 = 0)
  rw [tcpHashKey, UInt64.toUInt16_or, UInt64.toUInt16_or, UInt64.toUInt16_or, UInt64.toUInt16_or,
    hfam, h32, h16, h63]
  simp

theorem Apart.not_clash (h : s.Apart remoteIp remotePort) (port : UInt16) :
    ¬s.Clash (remoteIp, remotePort, port) := by
  rintro ⟨j, ⟨ip, rport, lport⟩, hj, hkey, hne⟩
  obtain rfl : lport = port := by
    have := congrArg UInt64.toUInt16 hkey
    rwa [keyOfIdentity, keyOfIdentity, tcpHashKey_toUInt16, tcpHashKey_toUInt16] at this
  refine h j _ hj (fun e => hne ?_) hkey
  obtain ⟨rfl, rfl⟩ := Prod.mk.inj e
  rfl

theorem tupleInUse_iff [CongestionControl κ] (hs : s.PoolInv none) (h : s.HashInv)
    (hclash : ¬s.Clash (remoteIp, remotePort, port)) :
    s.tupleInUse remoteIp remotePort port = true ↔
      ∃ slot, identity (s.slots slot) = some (remoteIp, remotePort, port) := by
  have hfind : ∀ i, s.tcpHashFind (tcpHashKey remoteIp remotePort port) = some i ↔ _ :=
    fun i => h.find_identity hs hclash
  unfold tupleInUse
  cases hf : s.tcpHashFind (tcpHashKey remoteIp remotePort port) with
  | none =>
    refine ⟨nofun, fun ⟨slot, hslot⟩ => ?_⟩
    rw [(hfind slot).mpr hslot] at hf
    cases hf
  | some i =>
    have hi := (hfind i).mp hf
    obtain ⟨hlive, hmatch⟩ := identity_eq_some.mp hi
    exact ⟨fun _ => ⟨i, hi⟩, fun _ => decide_eq_true ⟨hlive.1, hmatch⟩⟩

/-- The scan meets every offset, wherever the cursor stands. -/
theorem mem_offsets (cursor : ℕ) {off : ℕ} (hoff : off < ephemeralCount) :
    off ∈ (List.range ephemeralCount).map fun i => (cursor + i) % ephemeralCount := by
  refine List.mem_map.mpr ⟨(off + (ephemeralCount - cursor % ephemeralCount)) % ephemeralCount,
    List.mem_range.mpr (Nat.mod_lt _ (by decide)), ?_⟩
  unfold ephemeralCount at hoff ⊢
  omega

theorem allocEphemeralPort_home (h : s.FreeHome remoteIp remotePort p) :
    ∃ port, (s.allocEphemeralPort remoteIp remotePort p).1 = some port ∧ p.affine port = true := by
  obtain ⟨off, hoff, haff, hfree⟩ := h
  unfold allocEphemeralPort
  dsimp only
  split
  · next off' hfind =>
    have := List.find?_some hfind
    rw [Bool.and_eq_true] at this
    exact ⟨_, rfl, this.2⟩
  · next hnone =>
    have := List.find?_eq_none.mp hnone off (mem_offsets s.nextOffset hoff)
    rw [haff, hfree] at this
    exact absurd rfl this

theorem allocEphemeralPort_fallback (h : ¬s.FreeHome remoteIp remotePort p) :
    (s.allocEphemeralPort remoteIp remotePort p).1 = s.fallbackPort remoteIp remotePort p := by
  unfold allocEphemeralPort fallbackPort
  dsimp only
  split
  · next off hfind =>
    have hgood := List.find?_some hfind
    rw [Bool.and_eq_true, Bool.not_eq_true'] at hgood
    obtain ⟨i, -, rfl⟩ := List.mem_map.mp (List.mem_of_find?_eq_some hfind)
    exact absurd ⟨_, Nat.mod_lt _ (by decide), hgood.2, hgood.1⟩ h
  · split
    · next hfind => rw [hfind]; rfl
    · next hfind => rw [hfind]; rfl

theorem allocEphemeralPort_none (h : (s.allocEphemeralPort remoteIp remotePort p).1 = none) {off : ℕ}
    (hoff : off < ephemeralCount) (hp : p.affine (UInt16.ofNat (ephemeralLo + off)) = true ∨
      p.sliceBase ≤ off ∧ off < p.sliceBase + p.sliceLen) :
    s.tupleInUse remoteIp remotePort (UInt16.ofNat (ephemeralLo + off)) = true := by
  have hhome : ¬s.FreeHome remoteIp remotePort p := by
    intro hfree
    obtain ⟨port, hport, -⟩ := allocEphemeralPort_home hfree
    rw [hport] at h
    cases h
  rcases hp with haff | hin
  · by_contra huse
    exact hhome ⟨off, hoff, haff, by simpa using huse⟩
  · rw [allocEphemeralPort_fallback hhome, fallbackPort, Option.map_eq_none_iff,
      List.find?_eq_none] at h
    have hmem : off ∈ (List.range p.sliceLen).map (p.sliceBase + ·) :=
      List.mem_map.mpr ⟨off - p.sliceBase, List.mem_range.mpr (by omega), by omega⟩
    simpa using h off hmem

end Ports

variable [CongestionControl κ] {owner : Identity → ℕ} {core n : ℕ} {s s₁ : Core κ}

theorem Steps.home (hst : Steps NoExtra n s s₁) (hs : s.PoolInv none) (h : s.Home owner core) :
    s₁.Home owner core :=
  fun j id hj => h j id (hst.shrinks hs hj)

theorem Claim.home {c : TcpConnection κ} (hc : Claim s s₁ c) (hs : s.PoolInv none)
    (h : s.Home owner core) (hown : owner (c.remoteIp, c.remotePort, c.localPort) = core) :
    s₁.Home owner core := by
  intro j id hj
  by_cases hjs : j = s.freeHead
  · have hself : s₁.slots s.freeHead = c := by simp [hc.core, tcpHashInsert]
    rw [hjs, hself, identity_eq_some] at hj
    obtain ⟨-, h1, h2, h3⟩ := hj
    rw [h1, h2, h3] at hown
    exact hown
  · rw [hc.core] at hj
    unfold tcpHashInsert at hj
    rw [setSlot_slots _ _ j _ hjs, take_identity hs hc.head] at hj
    exact h j id hj

end Core

section History

variable {owner : IpAddr → Identity → ℕ} {numCores : ℕ} {localIp : IpAddr}

/-- What holds of every core in a run whose opens stay at home. -/
def Sound (owner : Identity → ℕ) (m : Machine κ) : Prop :=
  ∀ i, (m i).AuditInv ∧ (m i).core.HashInv ∧ (m i).core.Home owner i

variable {m : Machine κ} {core : ℕ} {op : Op}

theorem OpensHome.apart [CongestionControl κ]
    (h : OpensHome owner numCores localIp m (core, op)) : (m core).OpensApart op := by
  cases op with
  | connect ip remoteIp remotePort place env => exact ⟨trivial, fun port _ => h.2.2.1.not_clash port⟩
  | close slot generation env => exact ⟨h, trivial⟩
  | _ => exact h.elim

/-- A port that is taken hashes home. -/
theorem owner_of_alloc {remoteIp : IpAddr} {remotePort port : UInt16} {env : Env} {ip : IpAddr}
    {place : Placement}
    (h : OpensHome owner numCores localIp m (core, .connect ip remoteIp remotePort place env))
    (hport : ((m core).core.allocEphemeralPort remoteIp remotePort place).1 = some port) :
    owner localIp (remoteIp, remotePort, port) = core := by
  obtain ⟨-, hplace, -, hhome⟩ := h
  by_cases hfree : (m core).core.FreeHome remoteIp remotePort place
  · obtain ⟨port', hport', haff⟩ := allocEphemeralPort_home hfree
    cases hport'.symm.trans hport
    rw [hplace] at haff
    exact beq_iff_eq.mp haff
  · rw [allocEphemeralPort_fallback hfree, hhome.resolve_left hfree] at hport
    cases hport

/-- A connection of the machine has this tuple. -/
def Machine.Live (m : Machine κ) (id : Identity) : Prop :=
  ∃ i slot, identity ((m i).core.slots slot) = some id

/-- A connection of this core has it. -/
def Machine.LiveOn (m : Machine κ) (core : ℕ) (id : Identity) : Prop :=
  ∃ slot, identity ((m core).core.slots slot) = some id

theorem Sound.live_iff (h : Sound (owner localIp) m) (id : Identity) :
    m.Live id ↔ m.LiveOn (owner localIp id) id := by
  refine ⟨fun ⟨i, slot, hslot⟩ => ?_, fun ⟨slot, hslot⟩ => ⟨_, slot, hslot⟩⟩
  rw [(h i).2.2 slot id hslot]
  exact ⟨slot, hslot⟩

variable [CongestionControl κ]

theorem OpensHome.home (h : OpensHome owner numCores localIp m (core, op))
    (hs : (m core).core.PoolInv none) (hop : (m core).core.OpOk op)
    (hh : (m core).core.Home (owner localIp) core) :
    ((m core).core.step op).Home (owner localIp) core := by
  cases op with
  | connect ip remoteIp remotePort place env =>
    rcases connectOnCore_steps hs ip remoteIp remotePort place env with
      ⟨n, -, hst, -⟩ | ⟨n, s, s₁, c, port, -, hport, hst, hc, hip, hrp, hlp, -, -, hst', -⟩
    · exact hst.home hs hh
    · have hs' := hst.poolInv hs
      refine hst'.home (hc.poolInv hs') (hc.home hs' (hst.home hs hh) ?_)
      rw [hip, hrp, hlp]
      exact owner_of_alloc h hport
  | close slot generation env =>
    obtain ⟨n, -, hst⟩ := step_steps hs hop
    exact hst.home hs hh
  | _ => exact h.elim

theorem Sound.step (h : Sound (owner localIp) m)
    (he : OpensHome owner numCores localIp m (core, op)) :
    Sound (owner localIp) (m.step (core, op)) := by
  intro i
  by_cases hi : i = core
  · subst hi
    obtain ⟨ha, hh, hho⟩ := h i
    obtain ⟨hclose, hapart⟩ := he.apart
    rw [Machine.step, Function.update_self]
    exact ⟨ha.step hclose, step_hashInv ha.pool hh (ha.opOk hclose) hapart,
      he.home ha.pool (ha.opOk hclose) hho⟩
  · rw [Machine.step, Function.update_of_ne hi]
    exact h i

/-- **Client tuples are unique** exactly if a free port hashes home, or the first free one of the
slice is not in use at its home. No port means that home and slice are in use, and so all ports are
exactly if the others are in use at their homes; with one core there are no others. -/
theorem client_tuples_unique {ops : List (ℕ × Op)}
    (h : Runs.Along Machine.step (OpensHome owner numCores localIp) (Machine.init : Machine κ) ops)
    (core : ℕ) (remoteIp : IpAddr) (remotePort : UInt16)
    (hapart : ((ops.foldl Machine.step (Machine.init : Machine κ)) core).core.Apart remoteIp remotePort) :
    let m := ops.foldl Machine.step (Machine.init : Machine κ)
    let p := placement owner numCores localIp core remoteIp remotePort
    let answer := ((m core).core.allocEphemeralPort remoteIp remotePort p).1
    let tuple := fun port => ((remoteIp, remotePort, port) : Identity)
    let home := fun port => owner localIp (tuple port)
    ((∀ port, answer = some port → ¬m.Live (tuple port)) ↔
      (m core).core.FreeHome remoteIp remotePort p ∨
        ∀ port, (m core).core.fallbackPort remoteIp remotePort p = some port →
          ¬m.LiveOn (home port) (tuple port)) ∧
    (answer = none →
      ((∀ off < ephemeralCount, m.Live (tuple (UInt16.ofNat (ephemeralLo + off)))) ↔
        ∀ off < ephemeralCount, home (UInt16.ofNat (ephemeralLo + off)) ≠ core →
          ¬(p.sliceBase ≤ off ∧ off < p.sliceBase + p.sliceLen) →
            m.LiveOn (home (UInt16.ofNat (ephemeralLo + off)))
              (tuple (UInt16.ofNat (ephemeralLo + off))))) ∧
    (numCores ≤ 1 → answer = none →
      ∀ off < ephemeralCount, m.Live (tuple (UInt16.ofNat (ephemeralLo + off)))) := by
  intro m p answer tuple home
  have hm : Sound (owner localIp) m := h.invariant (fun _ _ he hs => hs.step he)
    fun i => ⟨init_auditInv, init_hashInv, fun j id hj => absurd rfl (identity_eq_some.1 hj).1.1⟩
  obtain ⟨ha, hh, -⟩ := hm core
  have huse : ∀ port, (m core).core.tupleInUse remoteIp remotePort port = true ↔
      m.LiveOn core (tuple port) := fun port => tupleInUse_iff ha.pool hh (hapart.not_clash port)
  have hnone : answer = none → ∀ off < ephemeralCount, home (UInt16.ofNat (ephemeralLo + off)) = core ∨
      p.sliceBase ≤ off ∧ off < p.sliceBase + p.sliceLen →
        m.Live (tuple (UInt16.ofNat (ephemeralLo + off))) := by
    intro hans off hoff hin
    have := allocEphemeralPort_none hans hoff (hin.imp_left fun hown => beq_iff_eq.mpr hown)
    exact ⟨core, (huse _).mp this⟩
  refine ⟨⟨fun huniq => ?_, fun hcond port hport hlive => ?_⟩, fun hans => ⟨?_, ?_⟩, fun hone hans => ?_⟩
  · refine or_iff_not_imp_left.mpr fun hfree port hport hlive => huniq port ?_ ⟨_, hlive⟩
    exact (allocEphemeralPort_fallback hfree).trans hport
  · have hat := (hm.live_iff _).mp hlive
    by_cases hfree : (m core).core.FreeHome remoteIp remotePort p
    · -- a port at home is in use on this core, or on none
      obtain ⟨port', hport', haff⟩ := allocEphemeralPort_home hfree
      cases hport'.symm.trans hport
      have hhome : home port = core := beq_iff_eq.mp haff
      have := (huse port).mpr (hhome ▸ hat)
      rw [allocEphemeralPort_free hport] at this
      cases this
    · exact hcond.resolve_left hfree port ((allocEphemeralPort_fallback hfree).symm.trans hport) hat
  · exact fun hall off hoff _ _ => (hm.live_iff _).mp (hall off hoff)
  · intro hothers off hoff
    by_cases hin : home (UInt16.ofNat (ephemeralLo + off)) = core ∨
        p.sliceBase ≤ off ∧ off < p.sliceBase + p.sliceLen
    · exact hnone hans off hoff hin
    · obtain ⟨h1, h2⟩ := not_or.mp hin
      exact (hm.live_iff _).mpr (hothers off hoff h1 h2)
  · intro off hoff
    refine hnone hans off hoff (.inr ?_)
    have hmax : max numCores 1 = 1 := max_eq_right hone
    simp only [p, placement, hmax, Nat.mod_one, Nat.zero_mul, Nat.div_one]
    omega

end History

/-- A core that is alone opens a second connection to the same server. -/
theorem client_tuples_unique_single :
    let owner : IpAddr → Identity → ℕ := fun _ _ => 0
    let p := placement owner 1 here 0 there 80
    let m := (Machine.init : Machine ConstantWindow).step (0, .connect here there 80 p (.granting 0))
    identity ((m 0).core.slots 0) = some (there, 80, 49152) ∧
      ((m 0).core.allocEphemeralPort there 80 p).1 = some 49153 ∧ ¬m.Live (there, 80, 49153) := by
  intro owner p m
  have hempty : ∀ j id, identity (((Machine.init : Machine ConstantWindow) 0).core.slots j) ≠ some id :=
    fun j id hj => absurd rfl (identity_eq_some.1 hj).1.1
  have hrun : Runs.Along Machine.step (OpensHome owner 1 here)
      (Machine.init : Machine ConstantWindow) [(0, .connect here there 80 p (.granting 0))] := by
    refine ⟨⟨rfl, rfl, fun j id hj => absurd hj (hempty j id), .inl ⟨0, by decide, rfl, ?_⟩⟩, trivial⟩
    decide +kernel
  have hslot : identity ((m 0).core.slots 0) = some (there, 80, 49152) ∧
      ((m 0).core.allocEphemeralPort there 80 p).1 = some 49153 := by decide +kernel
  have hother : ∀ j < (m 0).core.capacity, j ≠ 0 → ¬((m 0).core.slots j).Live := by decide +kernel
  have hapart : (m 0).core.Apart there 80 := by
    intro j id hj hne
    have hpool : (m 0).core.PoolInv none := by
      have hclose : (Audit.init : Audit ConstantWindow).CloseIssued
        (.connect here there 80 p (.granting 0)) := trivial
      rw [show m 0 = Audit.init.step _ from Function.update_self ..]
      exact (init_auditInv.step hclose).pool
    obtain ⟨hlive, -⟩ := identity_eq_some.mp hj
    have hzero : j = 0 := by_contra fun h => hother j (hpool.owned_lt j hlive.owned) h hlive
    rw [hzero, hslot.1] at hj
    cases hj
    exact absurd rfl hne
  refine ⟨hslot.1, hslot.2, (client_tuples_unique hrun 0 there 80 hapart).1.mpr ?_ 49153 hslot.2⟩
  exact .inl ⟨1, by decide, rfl, by decide +kernel⟩

/-- **Two cores open one tuple**: what is home on core 1 is in the slice of core 0. -/
theorem client_tuple_shared :
    let owner : IpAddr → Identity → ℕ := fun _ id => if id.2.2 = 49152 then 1 else 2
    let m := (Machine.init : Machine ConstantWindow).step
      (1, .connect here there 80 (placement owner 3 here 1 there 80) (.granting 0))
    identity ((m 1).core.slots 0) = some (there, 80, 49152) ∧
      ((m 0).core.allocEphemeralPort there 80 (placement owner 3 here 0 there 80)).1 =
        some 49152 := by
  decide +kernel

end Waitless.Tcp
