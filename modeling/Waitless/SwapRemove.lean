import Mathlib

/-! # Bags with swap removal

A bag is kept in a list; removing the element at an index puts the last element in its place.
`drainWhere` is the loop that visits a bag from an index on and removes what satisfies a test,
visiting the element swapped in before it moves on. -/

namespace SwapRemove

open List

variable {α : Type*}

def swapRemove (l : List α) (i : ℕ) : List α :=
  match l.getLast? with
  | none => []
  | some last => (l.set i last).dropLast

theorem swapRemove_concat_last (l : List α) (a : α) : swapRemove (l ++ [a]) l.length = l := by
  simp [swapRemove]

variable {i : ℕ} {l : List α}

theorem swapRemove_concat (h : i < l.length) (a : α) :
    swapRemove (l ++ [a]) i = l.set i a := by
  simp [swapRemove, set_append_left _ _ h]

theorem set_perm (h : i < l.length) (a : α) :
    (l ++ [a]).Perm (l[i] :: l.set i a) := by
  have hsplit : l = l.take i ++ l[i] :: l.drop (i + 1) := by simp
  have hset : l.set i a = l.take i ++ a :: l.drop (i + 1) := set_eq_take_append_cons_drop.trans
    (if_pos h)
  rw [hset]
  calc l ++ [a]
      = l.take i ++ l[i] :: (l.drop (i + 1) ++ [a]) := by
        rw [← cons_append, ← append_assoc, ← hsplit]
    _ ~ l[i] :: (l.take i ++ (l.drop (i + 1) ++ [a])) := perm_middle
    _ ~ l[i] :: (l.take i ++ a :: l.drop (i + 1)) :=
        ((perm_append_singleton a _).append_left _).cons _

theorem swapRemove_perm (h : i < l.length) :
    l.Perm (l[i] :: swapRemove l i) := by
  induction l using reverseRecOn with
  | nil => simp at h
  | append_singleton l a =>
    rw [length_append, length_singleton] at h
    by_cases hlast : i = l.length
    · subst hlast
      rw [swapRemove_concat_last, getElem_concat_length rfl]
      exact perm_append_singleton a l
    · have hi : i < l.length := by omega
      rw [swapRemove_concat hi, getElem_append_left hi]
      exact set_perm hi a

theorem length_swapRemove (h : i < l.length) :
    (swapRemove l i).length + 1 = l.length := by
  have := (swapRemove_perm h).length_eq
  simp only [length_cons] at this
  omega

theorem take_swapRemove (h : i < l.length) :
    (swapRemove l i).take i = l.take i := by
  induction l using reverseRecOn with
  | nil => simp at h
  | append_singleton l a =>
    rw [length_append, length_singleton] at h
    by_cases hlast : i = l.length
    · subst hlast
      rw [swapRemove_concat_last]
      simp
    · have hi : i < l.length := by omega
      rw [swapRemove_concat hi, take_append_of_le_length hi.le, take_set_of_le (le_refl i)]

/-- What is left of the bag and what was taken out. -/
def drainWhere (p : α → Bool) : ℕ → List α → ℕ → List α × List α
  | 0, l, _ => (l, [])
  | rounds + 1, l, i =>
    match l[i]? with
    | none => (l, [])
    | some a =>
      if p a then
        let (rest, taken) := drainWhere p rounds (swapRemove l i) i
        (rest, a :: taken)
      else drainWhere p rounds l (i + 1)

theorem drainWhere_spec (p : α → Bool) {rounds : ℕ}
    (h : l.length ≤ rounds + i) :
    (drainWhere p rounds l i).1.Perm (l.take i ++ (l.drop i).filter fun a => !p a) ∧
      (drainWhere p rounds l i).2.Perm ((l.drop i).filter p) := by
  induction rounds generalizing l i with
  | zero =>
    have hend : l.length ≤ i := by omega
    simp [drainWhere, take_of_length_le hend, drop_of_length_le hend]
  | succ rounds ih =>
    unfold drainWhere
    cases hi : l[i]? with
    | none =>
      have hend : l.length ≤ i := getElem?_eq_none_iff.1 hi
      simp [take_of_length_le hend, drop_of_length_le hend]
    | some a =>
      obtain ⟨hlt, rfl⟩ := List.getElem?_eq_some_iff.1 hi
      dsimp only
      have hdrop : l.drop i = l[i] :: l.drop (i + 1) := drop_eq_getElem_cons hlt
      split
      next hp =>
        have hlen := length_swapRemove hlt
        -- what is left to visit is what was left, without the element taken
        have hrest : (l.drop (i + 1)).Perm ((swapRemove l i).drop i) := by
          have hall := swapRemove_perm hlt
          rw [← take_append_drop i (swapRemove l i), take_swapRemove hlt] at hall
          nth_rewrite 1 [← take_append_drop i l] at hall
          rw [hdrop] at hall
          exact (perm_append_left_iff _).1
            (perm_cons _ |>.1 (perm_middle.symm.trans hall))
        obtain ⟨h1, h2⟩ := ih (l := swapRemove l i) (i := i) (by omega)
        refine ⟨h1.trans ?_, ?_⟩
        · rw [take_swapRemove hlt, hdrop, filter_cons_of_neg (by simp [hp])]
          exact (hrest.symm.filter _).append_left _
        · rw [hdrop, filter_cons_of_pos hp]
          exact (h2.trans (hrest.symm.filter _)).cons _
      next hp =>
        obtain ⟨h1, h2⟩ := ih (l := l) (i := i + 1) (by omega)
        refine ⟨h1.trans ?_, h2.trans ?_⟩
        · rw [hdrop, filter_cons_of_pos (by simpa using hp),
            take_succ_eq_append_getElem hlt, append_assoc]
          exact List.Perm.refl _
        · rw [hdrop, filter_cons_of_neg hp]

theorem drainWhere_all (p : α → Bool) (l : List α) :
    (drainWhere p l.length l 0).1.Perm (l.filter fun a => !p a) ∧
      (drainWhere p l.length l 0).2.Perm (l.filter p) := by
  have h : l.length ≤ l.length + 0 := le_refl _
  simpa using drainWhere_spec p h

end SwapRemove
