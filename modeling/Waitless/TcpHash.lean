import Waitless.Dispatch

/-! # The index of connections as a map

`tcp_hash_insert`, `tcp_hash_remove` and `tcp_hash_find` called in any order, with any keys but the
one that marks an empty cell.

Each call refines a map of the keys as long as one cell stays free, and so do whole runs
(`hash_refines_map`). -/

namespace Waitless.Tcp.Core

open OpenAddressing
open List

/-- A call on the table. -/
inductive HashOp where
  | insert (key : UInt64) (slot : ℕ)
  | remove (key : UInt64)
  | find (key : UInt64)

namespace HashOp

variable {κ : Type}

def key : HashOp → UInt64
  | insert key _ | remove key | find key => key

def call (s : Core κ) : HashOp → Core κ
  | insert key slot => s.tcpHashInsert key (slot % 2 ^ 16)
  | remove key => s.tcpHashRemove key
  | find _ => s

def apply (m : UInt64 → Option ℕ) : HashOp → UInt64 → Option ℕ
  | insert key slot => Function.update m key (some slot)
  | remove key => Function.update m key none
  | find _ => m

def touch (ks : Finset UInt64) : HashOp → Finset UInt64
  | insert key _ => Insert.insert key ks
  | remove key => ks.erase key
  | find _ => ks

/-- The slot of the latest insertion not removed since. -/
def entries (ops : List HashOp) : UInt64 → Option ℕ := ops.foldl apply fun _ => none

def present (ops : List HashOp) : Finset UInt64 := ops.foldl touch ∅

theorem mem_present_iff (ops : List HashOp) (k : UInt64) : k ∈ present ops ↔ entries ops k ≠ none := by
  induction ops using reverseRecOn with
  | nil => simp [present, entries]
  | append_singleton ops op ih =>
    simp only [present, entries, foldl_append, foldl_cons, foldl_nil] at ih ⊢
    cases op with
    | insert key slot => by_cases hk : k = key <;> simp [touch, apply, hk, ih]
    | remove key => by_cases hk : k = key <;> simp [touch, apply, hk, ih]
    | find key => exact ih

end HashOp

open HashOp

/-- The table holds the map, each slot as a `u16`. -/
structure Refines (t : Table UInt64 ℕ) (m : UInt64 → Option ℕ) : Prop where
  wf : t.WF tcpHashSize tcpHashBucket 0
  maps : ∀ k ≠ 0, ∀ v, t.Maps tcpHashSize k v ↔ (m k).map (· % 2 ^ 16) = some v

section Refines

variable {t : Table UInt64 ℕ} {m : UInt64 → Option ℕ} {ks : Finset UInt64} {k : UInt64}

theorem Refines.occupied (h : Refines t m) (hks : ∀ k, k ∈ ks ↔ m k ≠ none) :
    ∀ j < tcpHashSize, t.keys j ≠ 0 → t.keys j ∈ ks := by
  intro j hj hne
  rw [hks]
  intro hnone
  have := (h.maps _ hne _).mp ⟨j, hj, rfl, rfl⟩
  simp [hnone] at this

theorem Refines.find (h : Refines t m) (hfree : ∃ e < tcpHashSize, t.keys e = 0) (hk : k ≠ 0) :
    t.find tcpHashSize tcpHashBucket 0 k = (m k).map (· % 2 ^ 16) := by
  ext v
  rw [Table.find_eq_some_iff tcpHashBucket_lt h.wf hfree hk, h.maps k hk]

theorem Refines.insert (h : Refines t m) (hks : ∀ k, k ∈ ks ↔ m k ≠ none)
    (hcard : (Insert.insert k ks).card < tcpHashSize) (hk : k ≠ 0) (slot : ℕ) :
    Refines (t.insert tcpHashSize tcpHashBucket 0 k (slot % 2 ^ 16))
      (Function.update m k (some slot)) := by
  have hspare : t.Spare tcpHashSize tcpHashBucket 0 k := by
    by_cases hmem : k ∈ ks
    · obtain ⟨v, hv⟩ := Option.ne_none_iff_exists'.mp ((hks k).mp hmem)
      rw [Finset.insert_eq_of_mem hmem] at hcard
      exact h.wf.spare tcpHashBucket_lt (h.wf.distinct.free_cell ks (h.occupied hks) hcard) hk
        ((h.maps k hk (v % 2 ^ 16)).mpr (by rw [hv]; rfl))
    · rw [Finset.card_insert_of_notMem hmem] at hcard
      exact (h.wf.distinct.roomy ks (h.occupied hks) hcard).spare k
  refine ⟨Table.insert_wf tcpHashBucket_lt h.wf hspare hk _, fun k' hk' v => ?_⟩
  rw [Table.maps_insert tcpHashBucket_lt h.wf hspare hk hk', h.maps k' hk']
  by_cases hkk : k' = k
  · simp [hkk, eq_comm]
  · simp [hkk]

theorem Refines.remove (h : Refines t m) (hfree : ∃ e < tcpHashSize, t.keys e = 0) (hk : k ≠ 0) :
    Refines (t.remove tcpHashSize tcpHashBucket 0 0 k) (Function.update m k none) := by
  obtain ⟨hwf, hmaps⟩ := Table.remove_spec tcpHashBucket_lt h.wf hfree 0 hk
  refine ⟨hwf, fun k' hk' v => ?_⟩
  rw [hmaps k' v hk', h.maps k' hk']
  by_cases hkk : k' = k
  · simp [hkk]
  · simp [hkk]

end Refines

variable {κ : Type}

theorem refines_run {s : Core κ} (hs : ∀ i, s.hash.keys i = 0) (ops : List HashOp)
    (hkeys : ∀ op ∈ ops, op.key ≠ 0) (hroom : ∀ l, l <+: ops → (present l).card < tcpHashSize) :
    Refines (ops.foldl HashOp.call s).hash (entries ops) := by
  induction ops using reverseRecOn with
  | nil =>
    refine ⟨⟨fun i _ j _ hi => absurd (hs i) hi, fun j _ hj => absurd (hs j) hj⟩, fun k hk v => ?_⟩
    constructor
    · rintro ⟨j, -, hj, -⟩
      exact absurd (hj.symm.trans (hs j)) hk
    · rintro ⟨⟩
  | append_singleton ops op ih =>
    have hpre : ops <+: ops ++ [op] := prefix_append ..
    have hr := ih (fun o ho => hkeys o (by simp [ho])) fun l hl => hroom l (hl.trans hpre)
    have hop := hkeys op (by simp)
    have hfree := hr.wf.distinct.free_cell (present ops) (hr.occupied (mem_present_iff ops))
      (hroom ops hpre)
    have hlast := hroom _ prefix_rfl
    simp only [present, foldl_append, foldl_cons, foldl_nil] at hlast
    simp only [entries, foldl_append, foldl_cons, foldl_nil]
    cases op with
    | insert key slot => exact hr.insert (mem_present_iff ops) hlast hop slot
    | remove key => exact hr.remove hfree hop
    | find key => exact hr

/-- **The hash refines a finite map**, after any calls that never take its last free cell. -/
theorem hash_refines_map (s : Core κ) (hs : ∀ i, s.hash.keys i = 0) (ops : List HashOp)
    (hkeys : ∀ op ∈ ops, op.key ≠ 0) (hroom : ∀ l, l <+: ops → (present l).card < tcpHashSize) :
    (∀ k ≠ 0, (ops.foldl HashOp.call s).tcpHashFind k = (entries ops k).map (· % 2 ^ 16)) ∧
    (∀ k ≠ 0, ∀ slot < 2 ^ 16, entries ops k = some slot →
      (ops.foldl HashOp.call s).tcpHashFind k = some slot) ∧
    (∀ i < tcpHashSize, ∀ j < tcpHashSize, (ops.foldl HashOp.call s).hash.keys i ≠ 0 →
      (ops.foldl HashOp.call s).hash.keys i = (ops.foldl HashOp.call s).hash.keys j → i = j) ∧
    ∀ k i, (ops.foldl HashOp.call s).hash.seek tcpHashSize 0 k tcpHashSize (tcpHashBucket k) = some i →
      Table.Shifts tcpHashSize tcpHashBucket 0 0 ((i + 1) % tcpHashSize)
        ((ops.foldl HashOp.call s).hash.set i 0 0)
        ((ops.foldl HashOp.call s).tcpHashRemove k).hash := by
  have hr := refines_run hs ops hkeys hroom
  have hfree := hr.wf.distinct.free_cell (present ops) (hr.occupied (mem_present_iff ops))
    (hroom ops prefix_rfl)
  refine ⟨fun k hk => hr.find hfree hk, fun k hk slot hslot hentry => ?_, hr.wf.distinct,
    fun k i hseek => ?_⟩
  · rw [tcpHashFind, hr.find hfree hk, hentry, Option.map_some, Nat.mod_eq_of_lt hslot]
  · exact Table.remove_shifts tcpHashBucket_lt hr.wf hfree 0 hseek
      (Table.seek_lt (tcpHashBucket_lt k) hseek)

def sampleOps : List HashOp :=
  [.insert 1 5, .insert 2 6, .insert 1 7, .find 2, .remove 2, .insert 3 8]

/-- The keys 1 and 2: one inserted twice, one removed. -/
theorem hash_refines_map_sample :
    (sampleOps.foldl HashOp.call (init : Core ConstantWindow)).tcpHashFind 1 = some 7 ∧
      (sampleOps.foldl HashOp.call (init : Core ConstantWindow)).tcpHashFind 2 = none := by
  have hinits : ∀ l ∈ sampleOps.inits, (present l).card < tcpHashSize := by decide
  have h := hash_refines_map (init : Core ConstantWindow) (fun _ => rfl) sampleOps (by decide)
    fun l hl => hinits l ((mem_inits l sampleOps).mpr hl)
  exact ⟨h.2.1 1 (by decide) 7 (by decide) (by decide), (h.1 2 (by decide)).trans (by decide)⟩

end Waitless.Tcp.Core
