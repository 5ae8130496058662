import Mathlib

/-! # The boot heap

The model of `init_heap` (`mm.rs`): the ranges of the boot memory map that the allocator is given.
The ranges are all pages of available regions outside the kernel image, each once. An
identity-mapped boot skips regions from 4 GiB on, but claims a region across 4 GiB whole
(`heap_claims_sound`, `heap_claims_unmapped`). -/

namespace Waitless.Boot

def pageSize : ℕ := 4096

/-- An identity-mapped boot maps memory up to here. -/
def identityLimit : ℕ := 0x100000000

structure MemoryRegion where
  base : ℕ
  length : ℕ
  available : Bool

structure BootInfo where
  kernelPhysBase : ℕ
  hhdmOffset : ℕ
  memoryMap : List MemoryRegion

def alignUpPage (val : ℕ) : ℕ := (val + pageSize - 1) % 2 ^ 64 / pageSize * pageSize

/-- `val & !(PAGE_SIZE - 1)` -/
def alignDownPage (val : ℕ) : ℕ := val / pageSize * pageSize

/-- One turn of the loop: start and end of what is claimed. -/
def claimRegion (info : BootInfo) (kernEnd : ℕ) (r : MemoryRegion) : List (ℕ × ℕ) :=
  let kernStart := info.kernelPhysBase
  let rstart := alignUpPage r.base
  let rend := alignDownPage ((r.base + r.length) % 2 ^ 64)
  let hi := alignDownPage kernStart
  let afterKern := alignUpPage kernEnd
  if r.available = false then []
  else if info.hhdmOffset = 0 ∧ identityLimit ≤ r.base then []
  else if rend ≤ rstart then []
  else if ¬(kernStart < rend ∧ rstart < kernEnd) then [(rstart, rend)]
  else
    (if rstart < kernStart ∧ rstart < hi then [(rstart, hi)] else []) ++
      if afterKern < rend then [(afterKern, rend)] else []

def initHeap (info : BootInfo) (kernEnd : ℕ) : List (ℕ × ℕ) :=
  info.memoryMap.flatMap (claimRegion info kernEnd)

def Apart (a b : ℕ × ℕ) : Prop := a.2 ≤ b.1 ∨ b.2 ≤ a.1

variable {info : BootInfo} {kernEnd : ℕ} {r : MemoryRegion}

theorem claimRegion_spec (hk : info.kernelPhysBase ≤ kernEnd) (hke : kernEnd + pageSize ≤ 2 ^ 64)
    (hend : r.base + r.length < 2 ^ 64) (hbase : r.base + pageSize ≤ 2 ^ 64) {c : ℕ × ℕ}
    (hc : c ∈ claimRegion info kernEnd r) :
    r.available = true ∧ (info.hhdmOffset = 0 → r.base < identityLimit) ∧
      (c.1 % pageSize = 0 ∧ c.2 % pageSize = 0) ∧ (r.base ≤ c.1 ∧ c.1 < c.2 ∧ c.2 ≤ r.base + r.length) ∧
        Apart c (info.kernelPhysBase, kernEnd) := by
  unfold claimRegion alignUpPage alignDownPage at hc
  unfold Apart
  unfold pageSize at *
  dsimp only at hc
  split_ifs at hc with h1 h2 h3 h4 h5 h6 h7 <;>
    simp only [List.mem_append, List.mem_singleton, List.not_mem_nil, or_false, false_or] at hc
  all_goals refine ⟨by simpa using h1, fun h => by omega, ?_⟩
  · rcases hc with rfl | rfl
    · dsimp only
      omega
    · dsimp only
      omega
  all_goals
    subst hc
    dsimp only
    omega

theorem claimRegion_pairwise (hk : info.kernelPhysBase ≤ kernEnd)
    (hke : kernEnd + pageSize ≤ 2 ^ 64) : (claimRegion info kernEnd r).Pairwise Apart := by
  unfold claimRegion
  dsimp only
  split_ifs <;> simp [Apart]
  unfold alignUpPage alignDownPage pageSize at *
  omega

theorem claimRegion_covers (hke : kernEnd + pageSize ≤ 2 ^ 64)
    (hend : r.base + r.length < 2 ^ 64) (hbase : r.base + pageSize ≤ 2 ^ 64)
    (havail : r.available = true) {page : ℕ} (hpage : page % pageSize = 0) (hlo : r.base ≤ page)
    (hhi : page + pageSize ≤ r.base + r.length)
    (hkern : Apart (page, page + pageSize) (alignDownPage info.kernelPhysBase, alignUpPage kernEnd))
    (hmap : info.hhdmOffset = 0 → r.base < identityLimit) :
    ∃ c ∈ claimRegion info kernEnd r, c.1 ≤ page ∧ page + pageSize ≤ c.2 := by
  unfold claimRegion
  unfold Apart at hkern
  dsimp only at hkern ⊢
  rw [if_neg (by simp [havail]), if_neg (by omega)]
  unfold alignUpPage alignDownPage pageSize at *
  rw [if_neg (by omega)]
  split_ifs with h1 h2 h3 h3
  all_goals simp
  all_goals omega

/-- A whole page of the region that the page-rounded kernel image leaves free. -/
def FreePage (info : BootInfo) (kernEnd : ℕ) (r : MemoryRegion) (page : ℕ) : Prop :=
  page % pageSize = 0 ∧ r.base ≤ page ∧ page + pageSize ≤ r.base + r.length ∧
    Apart (page, page + pageSize) (alignDownPage info.kernelPhysBase, alignUpPage kernEnd)

/-- The last page of a claimed range is a free page. -/
theorem claimRegion_last (hk : info.kernelPhysBase ≤ kernEnd) (hke : kernEnd + pageSize ≤ 2 ^ 64)
    (hend : r.base + r.length < 2 ^ 64) (hbase : r.base + pageSize ≤ 2 ^ 64) {c : ℕ × ℕ}
    (hc : c ∈ claimRegion info kernEnd r) :
    c.1 + pageSize ≤ c.2 ∧ FreePage info kernEnd r (c.2 - pageSize) := by
  obtain ⟨-, -, ⟨h1, h2⟩, hin, hkern⟩ := claimRegion_spec hk hke hend hbase hc
  unfold FreePage
  unfold Apart alignUpPage alignDownPage pageSize at *
  dsimp only at hkern ⊢
  omega

/-- **The heap gets the free pages**, and only mapped ones exactly where no region from below 4 GiB
has a free page above. -/
theorem heap_claims_sound (info : BootInfo) (kernEnd : ℕ) (hk : info.kernelPhysBase ≤ kernEnd)
    (hke : kernEnd + pageSize ≤ 2 ^ 64)
    (hfit : ∀ r ∈ info.memoryMap, r.base + r.length < 2 ^ 64 ∧ r.base + pageSize ≤ 2 ^ 64)
    (hdisj : info.memoryMap.Pairwise fun r s => r.available = true → s.available = true →
      Apart (r.base, r.base + r.length) (s.base, s.base + s.length)) :
    let claims := initHeap info kernEnd
    (∀ c ∈ claims, (c.1 % pageSize = 0 ∧ c.2 % pageSize = 0) ∧
      (∃ r ∈ info.memoryMap, r.available = true ∧
        r.base ≤ c.1 ∧ c.1 < c.2 ∧ c.2 ≤ r.base + r.length) ∧
      Apart c (info.kernelPhysBase, kernEnd)) ∧
    claims.Pairwise Apart ∧
    (∀ r ∈ info.memoryMap, r.available = true → ∀ page, FreePage info kernEnd r page →
      (info.hhdmOffset = 0 → page < identityLimit) →
        ∃ c ∈ claims, c.1 ≤ page ∧ page + pageSize ≤ c.2) ∧
    (info.hhdmOffset = 0 → ((∀ c ∈ claims, c.2 ≤ identityLimit) ↔
      ∀ r ∈ info.memoryMap, r.available = true → r.base < identityLimit →
        ∀ page, FreePage info kernEnd r page → page < identityLimit)) := by
  intro claims
  have hspec : ∀ r ∈ info.memoryMap, ∀ c ∈ claimRegion info kernEnd r, _ :=
    fun r hr c hc => claimRegion_spec hk hke (hfit r hr).1 (hfit r hr).2 hc
  have hcover : ∀ r ∈ info.memoryMap, r.available = true → ∀ page, FreePage info kernEnd r page →
      (info.hhdmOffset = 0 → r.base < identityLimit) →
        ∃ c ∈ claims, c.1 ≤ page ∧ page + pageSize ≤ c.2 := by
    intro r hr havail page ⟨hpage, hlo, hhi, hkern⟩ hmap
    obtain ⟨c, hc, hcov⟩ :=
      claimRegion_covers hke (hfit r hr).1 (hfit r hr).2 havail hpage hlo hhi hkern hmap
    exact ⟨c, List.mem_flatMap.mpr ⟨r, hr, hc⟩, hcov⟩
  refine ⟨fun c hc => ?_, ?_, fun r hr havail page hpage hmap =>
    hcover r hr havail page hpage fun h => hpage.2.1.trans_lt (hmap h), fun hhdm => ⟨?_, ?_⟩⟩
  · obtain ⟨r, hr, hcr⟩ := List.mem_flatMap.mp hc
    obtain ⟨havail, -, halign, hin, hkern⟩ := hspec r hr c hcr
    exact ⟨halign, ⟨r, hr, havail, hin⟩, hkern⟩
  · refine List.pairwise_flatMap.mpr ⟨fun r _ => claimRegion_pairwise hk hke, ?_⟩
    refine hdisj.imp_of_mem fun {r s} hr hs h c hc d hd => ?_
    obtain ⟨hra, -, -, hcin, -⟩ := hspec r hr c hc
    obtain ⟨hsa, -, -, hdin, -⟩ := hspec s hs d hd
    have hapart := h hra hsa
    unfold Apart at hapart ⊢
    dsimp only at hapart
    omega
  · intro hbelow r hr havail hbase page hpage
    obtain ⟨c, hc, -, hend⟩ := hcover r hr havail page hpage fun _ => hbase
    have := hbelow c hc
    unfold pageSize at hend
    omega
  · intro hfree c hc
    obtain ⟨r, hr, hcr⟩ := List.mem_flatMap.mp hc
    obtain ⟨havail, hbase, ⟨-, halign⟩, -⟩ := hspec r hr c hcr
    obtain ⟨hlen, hlast⟩ := claimRegion_last hk hke (hfit r hr).1 (hfit r hr).2 hcr
    have := hfree r hr havail (hbase hhdm) _ hlast
    unfold identityLimit pageSize at *
    omega

/-- A region of four pages, with the kernel in the second. -/
theorem heap_claims_sound_hole :
    let info : BootInfo := ⟨0x2010, 0, [⟨0x1000, 0x4000, true⟩]⟩
    initHeap info 0x2100 = [(0x1000, 0x2000), (0x3000, 0x5000)] ∧
      ∀ c ∈ initHeap info 0x2100, c.2 ≤ identityLimit := by
  intro info
  have h := heap_claims_sound info 0x2100 (by decide) (by decide) (by decide) (by simp [info])
  refine ⟨by decide, (h.2.2.2 rfl).2 fun r hr _ _ page hpage => ?_⟩
  obtain rfl := List.mem_singleton.mp hr
  have : page + 0x1000 ≤ 0x1000 + 0x4000 := hpage.2.2.1
  unfold identityLimit
  omega

/-- A region across 4 GiB is claimed to its end. -/
theorem heap_claims_unmapped :
    initHeap ⟨0x100000, 0, [⟨0xFFFFF000, 0x2000, true⟩]⟩ 0x200000 =
      [(0xFFFFF000, identityLimit + pageSize)] := by
  decide

end Waitless.Boot
