import Mathlib

/-! # Binary trees of a prefix code

A code book is a list of bit strings with their symbols.

When no code word is the beginning of another, placing them one after the other succeeds and every
code word leads from the root to its symbol, over inner nodes only (`build_sound`). -/

namespace CodeTree

open List

/-- Where a bit leads. -/
inductive Child (σ : Type*) where
  | none
  | inner (next : ℕ)
  | leaf (sym : σ)

/-- Nodes with children for the bits 0 and 1. -/
abbrev Tree (σ : Type*) := List (Child σ × Child σ)

variable {σ : Type*}

namespace Tree

def child (t : Tree σ) (node : ℕ) (bit : Bool) : Child σ :=
  match t[node]? with
  | some c => if bit then c.2 else c.1
  | none => .none

def setChild (t : Tree σ) (node : ℕ) (bit : Bool) (c : Child σ) : Tree σ :=
  t.modify node fun old => if bit then (old.1, c) else (c, old.2)

def grow (t : Tree σ) : Tree σ := t ++ [(.none, .none)]

/-- Puts the symbol at the end of the word, unless that runs into a leaf. -/
def place (sym : σ) : List Bool → Tree σ → ℕ → Option (Tree σ)
  | [], t, _ => some t
  | bit :: word, t, cursor =>
    match t.child cursor bit with
    | .leaf _ => none
    | .inner next =>
      if word = [] then some (t.setChild cursor bit (.leaf sym)) else place sym word t next
    | .none =>
      if word = [] then some (t.setChild cursor bit (.leaf sym))
      else place sym word (t.grow.setChild cursor bit (.inner t.length)) t.length

def build (book : List (List Bool × σ)) : Option (Tree σ) :=
  book.foldlM (fun t e => t.place e.2 e.1 0) (grow [])

def go (t : Tree σ) (node : ℕ) : List Bool → Option ℕ
  | [] => some node
  | bit :: path =>
    match t.child node bit with
    | .inner next => go t next path
    | _ => none

variable {node : ℕ} {t : Tree σ}

theorem child_of_le (h : t.length ≤ node) (bit : Bool) :
    t.child node bit = .none := by
  rw [child, getElem?_eq_none h]

theorem child_grow (t : Tree σ) (node : ℕ) (bit : Bool) :
    t.grow.child node bit = t.child node bit := by
  rcases lt_trichotomy node t.length with h | rfl | h
  · rw [child, child, grow, getElem?_append_left h]
  · rw [child_of_le le_rfl, child, grow, getElem?_append_right le_rfl]
    simp
  · rw [child_of_le h.le, child_of_le]
    simp only [grow, length_append, length_singleton]
    omega

@[simp] theorem length_grow (t : Tree σ) : t.grow.length = t.length + 1 := by simp [grow]

@[simp] theorem length_setChild (t : Tree σ) (node : ℕ) (bit : Bool) (c : Child σ) :
    (t.setChild node bit c).length = t.length := by simp [setChild]

theorem child_setChild_self (h : node < t.length) (bit : Bool)
    (c : Child σ) : (t.setChild node bit c).child node bit = c := by
  rw [child, setChild, getElem?_modify_eq, getElem?_eq_getElem h]
  cases bit <;> rfl

theorem child_setChild_ne (t : Tree σ) {node' : ℕ} {bit bit' : Bool} (c : Child σ)
    (h : ¬ (node' = node ∧ bit' = bit)) :
    (t.setChild node bit c).child node' bit' = t.child node' bit' := by
  rw [child, child, setChild]
  by_cases hn : node' = node
  · subst hn
    have hb : bit' ≠ bit := fun e => h ⟨rfl, e⟩
    rw [getElem?_modify_eq]
    cases t[node']? with
    | none => rfl
    | some old => cases bit <;> cases bit' <;> simp at hb ⊢
  · rw [getElem?_modify_ne _ _ (Ne.symm hn)]

theorem go_append (t : Tree σ) (node : ℕ) (p q : List Bool) :
    t.go node (p ++ q) = (t.go node p).bind fun n => t.go n q := by
  induction p generalizing node with
  | nil => rfl
  | cons bit p ih =>
    rw [cons_append, go, go]
    cases t.child node bit with
    | none => rfl
    | leaf s => rfl
    | inner next => exact ih next

theorem go_concat_iff {p : List Bool} {bit : Bool} {m : ℕ} :
    t.go 0 (p ++ [bit]) = some m ↔ ∃ n, t.go 0 p = some n ∧ t.child n bit = .inner m := by
  rw [go_append, Option.bind_eq_some_iff]
  refine exists_congr fun n => and_congr_right fun _ => ?_
  rw [go]
  cases t.child n bit <;> simp [go]

/-- The word leads to a leaf with the symbol. -/
def Leads (t : Tree σ) (word : List Bool) (sym : σ) : Prop :=
  ∃ p bit n, word = p ++ [bit] ∧ t.go 0 p = some n ∧ t.child n bit = .leaf sym

/-- The tree decodes what is placed, and has no other paths. -/
structure Sound (t : Tree σ) (placed book : List (List Bool × σ)) : Prop where
  root : 0 < t.length
  inner_lt : ∀ {n bit m}, t.child n bit = .inner m → n < m ∧ m < t.length
  parent : ∀ {n bit n' bit' m}, t.child n bit = .inner m → t.child n' bit' = .inner m →
    n = n' ∧ bit = bit'
  word : ∀ e ∈ placed, t.Leads e.1 e.2
  inner : ∀ {p n}, t.go 0 p = some n → p = [] ∨ ∃ e ∈ book, p <+: e.1 ∧ p ≠ e.1
  leaf : ∀ {p n bit s}, t.go 0 p = some n → t.child n bit = .leaf s → (p ++ [bit], s) ∈ placed

namespace Sound

variable {t : Tree σ} {placed book : List (List Bool × σ)}

theorem initial : Sound (grow ([] : Tree σ)) [] [] := by
  have hnone (n : ℕ) (bit : Bool) : (grow ([] : Tree σ)).child n bit = .none :=
    (child_grow _ _ _).trans rfl
  refine ⟨by simp, fun h => ?_, fun h => ?_, fun e he => ?_, fun {p n} hp => ?_, fun _ h => ?_⟩
  · cases (hnone ..).symm.trans h
  · cases (hnone ..).symm.trans h
  · cases he
  · cases p with
    | nil => exact .inl rfl
    | cons bit p => rw [go, hnone] at hp; cases hp
  · cases (hnone ..).symm.trans h

variable {cursor : ℕ} {p : List Bool}

variable (ht : t.Sound placed book)
include ht

theorem path_unique {q : List Bool} {n : ℕ}
    (hp : t.go 0 p = some n) (hq : t.go 0 q = some n) : p = q := by
  -- from the end of both paths: a node has one parent, and the root has none
  induction p using reverseRecOn generalizing q n with
  | nil =>
    obtain rfl := Option.some.inj hp
    rcases eq_nil_or_concat' q with rfl | ⟨q, bit, rfl⟩
    · rfl
    · obtain ⟨m, -, hchild⟩ := go_concat_iff.mp hq
      exact absurd (ht.inner_lt hchild).1 (Nat.not_lt_zero m)
  | append_singleton p bit ih =>
    obtain ⟨m, hm, hchild⟩ := go_concat_iff.mp hp
    rcases eq_nil_or_concat' q with rfl | ⟨q, bit', rfl⟩
    · obtain rfl := Option.some.inj hq
      exact absurd (ht.inner_lt hchild).1 (Nat.not_lt_zero m)
    · obtain ⟨m', hm', hchild'⟩ := go_concat_iff.mp hq
      obtain ⟨rfl, rfl⟩ := ht.parent hchild hchild'
      rw [ih hm hm']

theorem go_root {q : List Bool} (h : t.go 0 q = some 0) : q = [] := by
  cases q using reverseRecOn with
  | nil => rfl
  | append_singleton p bit =>
    obtain ⟨n, -, hchild⟩ := go_concat_iff.mp h
    exact absurd (ht.inner_lt hchild).1 (Nat.not_lt_zero n)

theorem mono {book' : List (List Bool × σ)} (h : book ⊆ book') :
    t.Sound placed book' where
  root := ht.root
  inner_lt := ht.inner_lt
  parent := ht.parent
  word := ht.word
  leaf := ht.leaf
  inner hp := (ht.inner hp).imp_right fun ⟨e, he, hpe⟩ => ⟨e, h he, hpe⟩

theorem setLeaf {bit : Bool} (sym : σ)
    (hp : t.go 0 p = some cursor) (hfree : t.child cursor bit = .none) (hlt : cursor < t.length) :
    (t.setChild cursor bit (.leaf sym)).Sound ((p ++ [bit], sym) :: placed) book := by
  have hself := child_setChild_self hlt bit (.leaf sym)
  have hinner {n b m} : (t.setChild cursor bit (.leaf sym)).child n b = .inner m ↔
      t.child n b = .inner m := by
    by_cases h : n = cursor ∧ b = bit
    · obtain ⟨rfl, rfl⟩ := h
      rw [hself, hfree]
      exact ⟨nofun, nofun⟩
    · rw [child_setChild_ne t _ h]
  have hgo (n : ℕ) (q : List Bool) :
      (t.setChild cursor bit (.leaf sym)).go n q = t.go n q := by
    induction q generalizing n with
    | nil => rfl
    | cons b q ih =>
      rw [go, go]
      by_cases h : n = cursor ∧ b = bit
      · obtain ⟨rfl, rfl⟩ := h
        rw [hself, hfree]
      · rw [child_setChild_ne t _ h]
        cases t.child n b with
        | none => rfl
        | leaf s => rfl
        | inner next => exact ih next
  refine ⟨by simpa using ht.root, fun h => ?_, fun h h' => ht.parent (hinner.mp h) (hinner.mp h'),
    fun e he => ?_, fun h => ht.inner ((hgo ..).symm.trans h), fun {q n b s} h hs => ?_⟩
  · rw [length_setChild]
    exact ht.inner_lt (hinner.mp h)
  · rcases mem_cons.mp he with rfl | he
    · exact ⟨p, bit, cursor, rfl, (hgo ..).trans hp, hself⟩
    · obtain ⟨q, b, n, heq, hn, hleaf⟩ := ht.word e he
      refine ⟨q, b, n, heq, (hgo ..).trans hn, ?_⟩
      rwa [child_setChild_ne]
      rintro ⟨rfl, rfl⟩
      cases hfree.symm.trans hleaf
  · rw [hgo] at h
    by_cases hc : n = cursor ∧ b = bit
    · obtain ⟨rfl, rfl⟩ := hc
      rw [hself] at hs
      obtain rfl := Child.leaf.inj hs
      rw [ht.path_unique h hp]
      exact mem_cons_self
    · rw [child_setChild_ne t _ hc] at hs
      exact mem_cons_of_mem _ (ht.leaf h hs)

theorem addNode {bit : Bool}
    (hp : t.go 0 p = some cursor) (hfree : t.child cursor bit = .none) (hlt : cursor < t.length)
    (hway : ∃ e ∈ book, p ++ [bit] <+: e.1 ∧ p ++ [bit] ≠ e.1) :
    (t.grow.setChild cursor bit (.inner t.length)).Sound placed book ∧
      (t.grow.setChild cursor bit (.inner t.length)).go 0 (p ++ [bit]) = some t.length := by
  set t' := t.grow.setChild cursor bit (.inner t.length) with ht'
  have hself : t'.child cursor bit = .inner t.length :=
    child_setChild_self (by rw [length_grow]; omega) ..
  have hother {n b} (h : ¬ (n = cursor ∧ b = bit)) : t'.child n b = t.child n b := by
    rw [ht', child_setChild_ne _ _ h, child_grow]
  have hkeep {n q m} (h : t.go n q = some m) : t'.go n q = some m := by
    induction q generalizing n with
    | nil => exact h
    | cons b q ih =>
      rw [go] at h ⊢
      have hc : ¬ (n = cursor ∧ b = bit) := by
        rintro ⟨rfl, rfl⟩
        rw [hfree] at h
        cases h
      rw [hother hc]
      cases hchild : t.child n b with
      | none => rw [hchild] at h; cases h
      | leaf s => rw [hchild] at h; cases h
      | inner next => rw [hchild] at h; exact ih h
  have hpath {q m} (h : t'.go 0 q = some m) :
      t.go 0 q = some m ∨ (q = p ++ [bit] ∧ m = t.length) := by
    induction q using reverseRecOn generalizing m with
    | nil => exact .inl h
    | append_singleton q b ih =>
      obtain ⟨n, hn, hchild⟩ := go_concat_iff.mp h
      rcases ih hn with hold | ⟨-, rfl⟩
      · by_cases hc : n = cursor ∧ b = bit
        · obtain ⟨rfl, rfl⟩ := hc
          rw [hself] at hchild
          exact .inr ⟨by rw [ht.path_unique hold hp], (Child.inner.inj hchild).symm⟩
        · rw [hother hc] at hchild
          exact .inl (go_concat_iff.mpr ⟨n, hold, hchild⟩)
      · rw [hother (by omega), child_of_le le_rfl] at hchild
        cases hchild
  have hinner {n b m} (h : t'.child n b = .inner m) :
      (n = cursor ∧ b = bit ∧ m = t.length) ∨ t.child n b = .inner m := by
    by_cases hc : n = cursor ∧ b = bit
    · obtain ⟨rfl, rfl⟩ := hc
      rw [hself] at h
      exact .inl ⟨rfl, rfl, (Child.inner.inj h).symm⟩
    · exact .inr (by rwa [hother hc] at h)
  refine ⟨⟨?_, fun {n b m} h => ?_, fun {n b n' b' m} h h' => ?_, fun e he => ?_,
    fun {q m} h => ?_, fun {q n b s} h hs => ?_⟩, go_concat_iff.mpr ⟨cursor, hkeep hp, hself⟩⟩
  · simp [ht']
  · rw [ht', length_setChild, length_grow]
    rcases hinner h with ⟨rfl, -, rfl⟩ | h
    · omega
    · exact ⟨(ht.inner_lt h).1, (ht.inner_lt h).2.trans (Nat.lt_succ_self _)⟩
  · rcases hinner h with ⟨rfl, rfl, rfl⟩ | hold <;> rcases hinner h' with ⟨rfl, rfl, hm⟩ | hold'
    · exact ⟨rfl, rfl⟩
    · exact absurd (ht.inner_lt hold').2 (lt_irrefl _)
    · subst hm
      exact absurd (ht.inner_lt hold).2 (lt_irrefl _)
    · exact ht.parent hold hold'
  · obtain ⟨q, b, n, heq, hn, hleaf⟩ := ht.word e he
    refine ⟨q, b, n, heq, hkeep hn, ?_⟩
    rwa [hother]
    rintro ⟨rfl, rfl⟩
    cases hfree.symm.trans hleaf
  · rcases hpath h with hold | ⟨rfl, -⟩
    · exact ht.inner hold
    · exact .inr hway
  · have hc : ¬ (n = cursor ∧ b = bit) := by
      rintro ⟨rfl, rfl⟩
      cases hself.symm.trans hs
    rw [hother hc] at hs
    rcases hpath h with hold | ⟨-, rfl⟩
    · exact ht.leaf hold hs
    · cases (child_of_le le_rfl b).symm.trans hs

omit ht

theorem place (sym : σ) {word : List Bool} {t : Tree σ}
    (ht : t.Sound placed ((p ++ word, sym) :: placed)) (hword : word ≠ [])
    (hp : t.go 0 p = some cursor) (hlt : cursor < t.length)
    (hfree : ∀ e ∈ placed, ¬ e.1 <+: p ++ word ∧ ¬ p ++ word <+: e.1) :
    ∃ t', t.place sym word cursor = some t' ∧
      t'.Sound ((p ++ word, sym) :: placed) ((p ++ word, sym) :: placed) := by
  induction word generalizing t p cursor with
  | nil => exact absurd rfl hword
  | cons bit word ih =>
    have hsplit : p ++ bit :: word = (p ++ [bit]) ++ word := by simp
    rw [Tree.place]
    cases hchild : t.child cursor bit with
    | leaf s =>
      refine absurd ?_ (hfree _ (ht.leaf hp hchild)).1
      exact ⟨word, by simp⟩
    | inner next =>
      have hnext := go_concat_iff.mpr ⟨cursor, hp, hchild⟩
      by_cases hlast : word = []
      · subst hlast
        obtain hnil | ⟨e, he, hpre, hne⟩ := ht.inner hnext
        · simp at hnil
        · rcases mem_cons.mp he with rfl | he
          · exact absurd rfl hne
          · exact absurd hpre (hfree e he).2
      · rw [hsplit] at ht hfree ⊢
        simp only [if_neg hlast]
        exact ih ht hlast hnext (ht.inner_lt hchild).2 hfree
    | none =>
      by_cases hlast : word = []
      · subst hlast
        exact ⟨_, rfl, ht.setLeaf sym hp hchild hlt⟩
      · rw [hsplit] at ht hfree ⊢
        simp only [if_neg hlast]
        obtain ⟨hadd, hgo⟩ := ht.addNode hp hchild hlt
          ⟨_, mem_cons_self, prefix_append _ _, by simpa using hlast⟩
        refine ih hadd hlast hgo ?_ hfree
        rw [length_setChild, length_grow]
        exact Nat.lt_succ_self _

end Sound

/-- **The tree of a prefix code**: the words, and nothing else, lead to leaves. -/
theorem build_sound {book : List (List Bool × σ)} (hne : ∀ e ∈ book, e.1 ≠ [])
    (hfree : book.Pairwise fun e f => ¬ e.1 <+: f.1 ∧ ¬ f.1 <+: e.1) :
    ∃ t, build book = some t ∧ t.Sound book.reverse book.reverse := by
  induction book using reverseRecOn with
  | nil => exact ⟨_, rfl, .initial⟩
  | append_singleton book e ih =>
    obtain ⟨hbook, -, hapart⟩ := pairwise_append.mp hfree
    obtain ⟨t, hbuild, ht⟩ := ih (fun f hf => hne f (mem_append_left _ hf)) hbook
    have hmem : e ∈ book ++ [e] := mem_append_right _ mem_cons_self
    obtain ⟨t', hplace, ht'⟩ := Sound.place e.2 (p := [])
      (ht.mono (subset_cons_self (e.1, e.2) _)) (hne e hmem) rfl ht.root
      fun f hf => hapart f (mem_reverse.mp hf) e mem_cons_self
    refine ⟨t', ?_, by rwa [reverse_append]⟩
    rw [build, foldlM_append, ← build, hbuild]
    simpa using hplace

end Tree

end CodeTree
