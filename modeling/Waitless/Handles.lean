import Waitless.Runs
import Waitless.SlotHistory

/-! # Handles

`listen`, `connect` and `accept` return a slot and its generation; `Audit` records them with the
number of times the slot had been reused.

Every run in which the application closes only handles it was given (`CloseIssued`) keeps
`AuditInv`: the pool is in order, and a handle whose slot has not been reused refers to a slot its
owner holds. -/

namespace Waitless.Tcp

variable {κ : Type} [CongestionControl κ]

namespace Core

def handedOut (s : Core κ) : Op → Option (ℕ × UInt16)
  | .listen port env =>
    let r := s.listenOnCore port env
    r.2.map fun slot => (slot, (r.1.slots slot).generation)
  | .connect localIp remoteIp remotePort place env =>
    (s.connectOnCore localIp remoteIp remotePort place env).2
  | .accept port => (s.acceptOnPortCore port).2
  | _ => none

omit [CongestionControl κ] in
theorem acceptOnPortCore_some {s : Core κ} {port : UInt16} {i : ℕ} {g : UInt16}
    (h : (s.acceptOnPortCore port).2 = some (i, g)) :
    Acceptable (s.slots i) port ∧ g = (s.slots i).generation ∧
      (s.acceptOnPortCore port).1.slots = Function.update s.slots i { s.slots i with accepted := true } := by
  obtain ⟨t, ht, hacc⟩ := acceptLoop_eq port (2 ^ 32) s
  unfold acceptOnPortCore at h ⊢
  generalize acceptLoop port (2 ^ 32) s = r at ht hacc h ⊢
  obtain ⟨o, s'⟩ := r
  dsimp only at ht hacc h ⊢
  subst ht
  cases o with
  | some j =>
    cases h
    exact ⟨hacc i rfl, rfl, rfl⟩
  | none =>
    dsimp only at h ⊢
    split at h
    next j hfind =>
      cases h
      exact ⟨of_decide_eq_true (List.find?_some
        (p := fun i => decide (Acceptable (s.slots i) port)) hfind), rfl, rfl⟩
    · cases h

omit [CongestionControl κ] in
theorem listenerRegister_slots (s : Core κ) (port : UInt16) (slot : ℕ) :
    (s.listenerRegister port slot).slots = s.slots := by
  unfold listenerRegister
  dsimp only
  split <;> rfl

theorem handedOut_held {s : Core κ} (hs : s.PoolInv none) {op : Op} {slot : ℕ} {g : UInt16}
    (h : s.handedOut op = some (slot, g)) :
    ((s.step op).slots slot).Held ∧ ((s.step op).slots slot).generation = g := by
  cases op with
  | listen port env =>
    obtain ⟨slot', hr, heq⟩ := Option.map_eq_some_iff.1 h
    cases heq
    refine ⟨?_, rfl⟩
    change ((s.listenOnCore port env).1.slots slot).Held
    unfold listenOnCore at hr ⊢
    split at hr
    · cases hr
    · cases hr
      simp only [listenerRegister_slots, setSlot_slots_self]
      exact ⟨.inl (by simp), .inr rfl⟩
  | connect localIp remoteIp remotePort place env =>
    unfold handedOut at h
    unfold step
    dsimp only at h ⊢
    rcases connectOnCore_steps hs localIp remoteIp remotePort place env with
      ⟨n, hn, -, hnone⟩ | ⟨n, s0, s1, c, port, hn, -, hst, hc, -, -, -, hsyn, hacc, hst', hret⟩
    · rw [hnone] at h
      cases h
    · rw [hret] at h
      cases h
      have hs0 := hst.poolInv hs
      have hself : s1.slots s0.freeHead = c := by simp [hc.core, tcpHashInsert]
      have hheld : (s1.slots s0.freeHead).Held := by
        rw [hself]
        exact ⟨.inl (by simp [hsyn]), .inl hacc⟩
      have hs1 := hc.poolInv hs0
      obtain ⟨-, m, hm, hp⟩ := hst'.slotPath noExtra_traced hs1 s0.freeHead
      obtain rfl := Nat.le_zero.1 hm
      obtain ⟨hg, hh⟩ := hp.generation
      exact ⟨(hh rfl).2 hheld, by simpa using hg⟩
  | accept port =>
    unfold step
    obtain ⟨hacc, hg, hsl⟩ := acceptOnPortCore_some h
    rw [hsl, Function.update_self]
    exact ⟨⟨.inl (by simp [hacc.1]), .inl rfl⟩, hg.symm⟩
  | _ => cases h

end Core

/-- `epoch` is how often its slot had been reused. -/
structure Handle where
  slot : ℕ
  generation : UInt16
  epoch : ℕ
  deriving DecidableEq

/-- With the reuses of each slot and the handles. -/
structure Audit (κ : Type) where
  core : Core κ
  reuses : ℕ → ℕ
  issued : List Handle

namespace Audit

def init : Audit κ := ⟨.init, fun _ => 0, []⟩

def reusesAfter (a : Audit κ) (op : Op) (i : ℕ) : ℕ :=
  a.reuses i + (((a.core.step op).slots i).generation - (a.core.slots i).generation).toNat

def step (a : Audit κ) (op : Op) : Audit κ where
  core := a.core.step op
  reuses := a.reusesAfter op
  issued :=
    match a.core.handedOut op with
    | some (slot, g) => ⟨slot, g, a.reusesAfter op slot⟩ :: a.issued
    | none => a.issued

/-- Handed out fewer than `65536` reuses of its slot ago. -/
def Issued (a : Audit κ) (slot : ℕ) (generation : UInt16) : Prop :=
  ∃ h ∈ a.issued, h.slot = slot ∧ h.generation = generation ∧ a.reuses slot < h.epoch + 65536

/-- `close` gets a handle that was handed out. -/
def CloseIssued (a : Audit κ) : Op → Prop
  | .close slot generation _ => a.Issued slot generation
  | _ => True

/-- A handle of the current generation finds its slot held. -/
structure AuditInv (a : Audit κ) : Prop where
  pool : a.core.PoolInv none
  generation : ∀ i, (a.core.slots i).generation = UInt16.ofNat (a.reuses i)
  stamp : ∀ h ∈ a.issued, h.generation = UInt16.ofNat h.epoch
  past : ∀ h ∈ a.issued, h.epoch ≤ a.reuses h.slot
  held : ∀ h ∈ a.issued, h.epoch = a.reuses h.slot → (a.core.slots h.slot).Held

theorem init_auditInv : (init : Audit κ).AuditInv where
  pool := Core.init_poolInv
  generation := fun _ => rfl
  stamp := by simp [init]
  past := by simp [init]
  held := by simp [init]

variable {a : Audit κ} {op : Op}

omit [CongestionControl κ] in
theorem AuditInv.current (ha : a.AuditInv) {h : Handle} (hh : h ∈ a.issued)
    (hlt : a.reuses h.slot < h.epoch + 65536)
    (hg : (a.core.slots h.slot).generation = h.generation) : h.epoch = a.reuses h.slot := by
  rw [ha.generation, ha.stamp h hh] at hg
  have := congrArg UInt16.toNat hg
  simp only [UInt16.toNat_ofNat'] at this
  change a.reuses h.slot % 65536 = h.epoch % 65536 at this
  have := ha.past h hh
  omega

omit [CongestionControl κ] in
theorem AuditInv.opOk (ha : a.AuditInv) (hop : a.CloseIssued op) :
    a.core.OpOk op := by
  cases op with
  | close slot generation env =>
    obtain ⟨h, hh, rfl, rfl, hlt⟩ := hop
    exact fun hv => ha.held h hh (ha.current hh hlt hv.2)
  | _ => trivial

theorem mem_issued_step {h : Handle} (hh : h ∈ (a.step op).issued) :
    h ∈ a.issued ∨ ∃ slot g, a.core.handedOut op = some (slot, g) ∧
      h = ⟨slot, g, a.reusesAfter op slot⟩ := by
  unfold step at hh
  split at hh
  next slot g hout =>
    exact (List.mem_cons.1 hh).symm.imp id fun h => ⟨slot, g, hout, h⟩
  · exact .inl hh

theorem AuditInv.step (ha : a.AuditInv) (hop : a.CloseIssued op) :
    (a.step op).AuditInv := by
  have hok := ha.opOk hop
  have hgen : ∀ i, ((a.core.step op).slots i).generation = UInt16.ofNat (a.reusesAfter op i) := by
    intro i
    unfold reusesAfter
    rw [UInt16.ofNat_add, ← ha.generation, UInt16.ofNat_toNat]
    rw [UInt16.add_comm, UInt16.sub_add_cancel]
  have hmono : ∀ i, a.reuses i ≤ a.reusesAfter op i := fun i => Nat.le_add_right _ _
  have hheld : ∀ h ∈ a.issued, h.epoch = a.reusesAfter op h.slot →
      ((a.core.step op).slots h.slot).Held := by
    intro h hh he
    have hsame : h.epoch = a.reuses h.slot :=
      Nat.le_antisymm (ha.past h hh) (he ▸ hmono h.slot)
    refine Core.held_of_generation ha.pool hok (ha.held h hh hsame) ?_
    rw [hgen, ha.generation, ← he, hsame]
  refine ⟨Core.step_poolInv ha.pool hok, hgen, fun h hh => ?_, fun h hh => ?_, fun h hh => ?_⟩
  · rcases mem_issued_step hh with hh | ⟨slot, g, hout, rfl⟩
    · exact ha.stamp h hh
    · rw [← hgen]
      exact (Core.handedOut_held ha.pool hout).2.symm
  · rcases mem_issued_step hh with hh | ⟨slot, g, hout, rfl⟩
    · exact Nat.le_trans (ha.past h hh) (hmono h.slot)
    · exact Nat.le_refl _
  · rcases mem_issued_step hh with hh | ⟨slot, g, hout, rfl⟩
    · exact hheld h hh
    · exact fun _ => (Core.handedOut_held ha.pool hout).1

theorem run_auditInv {ops : List Op} (h : Runs.Along step CloseIssued (init : Audit κ) ops) :
    (ops.foldl step (init : Audit κ)).AuditInv :=
  h.invariant (fun _ _ hop ha => ha.step hop) init_auditInv

end Audit

def here : IpAddr := .v4 #v[10, 0, 0, 2]

def there : IpAddr := .v4 #v[10, 0, 0, 1]

/-- A listener on port 80 and a handshake with `10.0.0.1:5000`. -/
def handshakeRun : List Op :=
  let syn : Bytes :=
    [0x13, 0x88, 0, 80, 0, 0, 0, 100, 0, 0, 0, 0, 0x50, 0x02, 0xFF, 0xFF, 0, 0, 0, 0]
  let ack : Bytes :=
    [0x13, 0x88, 0, 80, 0, 0, 0, 101, 0, 0, 3, 0xE9, 0x50, 0x10, 0xFF, 0xFF, 0, 0, 0, 0]
  [.listen 80 (.granting 0), .receive there here [syn] (.granting 1),
    .receive there here [ack] (.granting 2)]

/-- The connection of `handshakeRun`, as its application gets it. -/
def handshakeLink : Local ConstantWindow :=
  (handshakeRun.foldl Audit.step (Audit.init : Audit ConstantWindow)).core.localAt 1

end Waitless.Tcp
