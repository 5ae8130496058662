import Mathlib.Data.List.Nodup
import Mathlib.Data.List.Perm.Subperm
import Mathlib.Logic.Function.Basic
import Mathlib.Data.Nat.Notation

/-! # Intrusive singly linked lists

A linked list threaded through an array: `next i` is the link stored in cell `i`, and `null` ends
the list. `Chain next null head xs` says that following the links from `head` visits exactly `xs`.
A head determines its list (`Chain.unique`), so a chain never repeats a cell (`Chain.nodup`). -/

namespace LinkedChain

open List

/-- Following `next` from `head` visits `xs` and ends at `null`. -/
def Chain (next : ℕ → ℕ) (null : ℕ) : ℕ → List ℕ → Prop
  | head, [] => head = null
  | head, i :: is => head = i ∧ i ≠ null ∧ Chain next null (next i) is

instance instDecidableChain (next : ℕ → ℕ) (null : ℕ) :
    (head : ℕ) → (xs : List ℕ) → Decidable (Chain next null head xs)
  | head, [] => inferInstanceAs (Decidable (head = null))
  | head, i :: is =>
    have := instDecidableChain next null (next i) is
    inferInstanceAs (Decidable (head = i ∧ i ≠ null ∧ Chain next null (next i) is))

variable {next next' : ℕ → ℕ} {null head i prev : ℕ} {xs ys : List ℕ}

@[simp] theorem chain_nil : Chain next null head [] ↔ head = null := Iff.rfl

@[simp] theorem chain_cons :
    Chain next null head (i :: xs) ↔ head = i ∧ i ≠ null ∧ Chain next null (next i) xs := Iff.rfl

theorem chain_null : Chain next null null xs ↔ xs = [] := by
  cases xs with
  | nil => simp
  | cons i is =>
    simp only [chain_cons, reduceCtorEq, iff_false, not_and]
    intro h hne
    exact absurd h.symm hne

namespace Chain

theorem congr (h : Chain next null head xs) (hn : ∀ i ∈ xs, next' i = next i) :
    Chain next' null head xs := by
  induction xs generalizing head with
  | nil => exact h
  | cons i is ih =>
    obtain ⟨rfl, hne, ht⟩ := h
    refine ⟨rfl, hne, ?_⟩
    rw [hn _ (by simp)]
    exact ih ht fun j hj => hn j (by simp [hj])

theorem unique (h : Chain next null head xs) (h' : Chain next null head ys) : xs = ys := by
  induction xs generalizing head ys with
  | nil =>
    cases ys with
    | nil => rfl
    | cons j js =>
      obtain ⟨rfl, hne, -⟩ := h'
      exact absurd h hne
  | cons i is ih =>
    obtain ⟨rfl, hne, ht⟩ := h
    cases ys with
    | nil => exact absurd h' hne
    | cons j js =>
      obtain ⟨rfl, -, ht'⟩ := h'
      rw [ih ht ht']

theorem suffix (h : Chain next null head (xs ++ i :: ys)) : Chain next null i (i :: ys) := by
  induction xs generalizing head with
  | nil => exact ⟨rfl, h.2⟩
  | cons j js ih => exact ih h.2.2

theorem nodup (h : Chain next null head xs) : xs.Nodup := by
  induction xs generalizing head with
  | nil => exact nodup_nil
  | cons i is ih =>
    obtain ⟨rfl, hne, ht⟩ := h
    refine nodup_cons.2 ⟨fun hmem => ?_, ih ht⟩
    -- a second occurrence would start a chain both longer and shorter than the first
    obtain ⟨as, bs, rfl⟩ := append_of_mem hmem
    have heq := unique (show Chain next null head (head :: (as ++ head :: bs)) from
      ⟨rfl, hne, ht⟩) ht.suffix
    have := congrArg length heq
    simp only [length_cons, length_append] at this
    omega

theorem length_le (h : Chain next null head xs) {size : ℕ} (hlt : ∀ i ∈ xs, i < size) :
    xs.length ≤ size := by
  have hsub : xs ⊆ range size := fun i hi => mem_range.2 (hlt i hi)
  simpa using (subperm_of_subset h.nodup hsub).length_le

theorem head_ne (h : Chain next null head (xs ++ prev :: i :: ys)) : head ≠ i ∧ head ≠ null := by
  have hnd := h.nodup
  cases xs with
  | nil =>
    obtain ⟨rfl, hne, -⟩ := h
    refine ⟨?_, hne⟩
    rintro rfl
    simp at hnd
  | cons j js =>
    obtain ⟨rfl, hne, -⟩ := h
    refine ⟨?_, hne⟩
    rintro rfl
    simp at hnd

theorem push (h : Chain next null head xs) (hi : i ≠ null)
    (hn : ∀ j ∈ xs, next' j = next j) (hhead : next' i = head) :
    Chain next' null i (i :: xs) := by
  refine ⟨rfl, hi, ?_⟩
  rw [hhead]
  exact h.congr hn

theorem unlink_next (h : Chain next null head (xs ++ prev :: i :: ys))
    (hn : ∀ j, j ≠ prev → j ≠ i → next' j = next j) (hprev : next' prev = next i) :
    Chain next' null head (xs ++ prev :: ys) := by
  have hnd := h.nodup
  induction xs generalizing head with
  | nil =>
    obtain ⟨rfl, hne, rfl, hne', ht⟩ := h
    refine ⟨rfl, hne, ?_⟩
    rw [hprev]
    refine ht.congr fun j hj => hn j ?_ ?_
    · rintro rfl
      simp [hj] at hnd
    · rintro rfl
      simp [hj] at hnd
  | cons j js ih =>
    obtain ⟨rfl, hne, ht⟩ := h
    rw [cons_append, nodup_cons] at hnd
    refine ⟨rfl, hne, ?_⟩
    rw [hn]
    · exact ih ht hnd.2
    · rintro rfl
      simp at hnd
    · rintro rfl
      simp at hnd

end Chain

end LinkedChain
