import Mathlib.Data.Nat.Notation
import Mathlib.Logic.Function.Basic
import Mathlib.Tactic.SplitIfs
import Mathlib.Data.Nat.Find
import Mathlib.Data.Finset.Card
import Mathlib.Order.Interval.Finset.Nat

/-! # Linear probing

An open-addressing table with removal by re-insertion of the run behind the removed cell. A
well-formed table (`WF`) stores every key once, on a probe path without holes. As long as a cell is
free it stands for a finite map (`Maps`): `find_eq_some_iff`, `insert_wf`, `maps_insert` and
`remove_spec`. -/

namespace OpenAddressing

open Finset Function Option

/-- The two arrays of an open-addressing table. -/
structure Table (K V : Type*) where
  keys : ℕ → K
  vals : ℕ → V

namespace Table

variable {K V : Type*} [DecidableEq K]

def set (t : Table K V) (i : ℕ) (k : K) (v : V) : Table K V :=
  ⟨Function.update t.keys i k, Function.update t.vals i v⟩

/-- The cell of `k`, from `i` on; an empty cell ends the search. -/
def seek (t : Table K V) (size : ℕ) (empty k : K) : ℕ → ℕ → Option ℕ
  | 0, _ => none
  | n + 1, i =>
    if t.keys i = empty then none
    else if t.keys i = k then some i
    else seek t size empty k n ((i + 1) % size)

def find (t : Table K V) (size : ℕ) (bucket : K → ℕ) (empty k : K) : Option V :=
  (t.seek size empty k size (bucket k)).map t.vals

def room (t : Table K V) (size : ℕ) (empty k : K) : ℕ → ℕ → Option ℕ
  | 0, _ => none
  | n + 1, i =>
    if t.keys i = empty ∨ t.keys i = k then some i
    else room t size empty k n ((i + 1) % size)

/-- Overwrites an equal key; a full table drops the entry. -/
def insert (t : Table K V) (size : ℕ) (bucket : K → ℕ) (empty k : K) (v : V) : Table K V :=
  match t.room size empty k size (bucket k) with
  | some i => t.set i k v
  | none => t

def gap (t : Table K V) (size : ℕ) (empty : K) : ℕ → ℕ → ℕ
  | 0, i => i
  | n + 1, i => if t.keys i = empty then i else gap t size empty n ((i + 1) % size)

def rehash (size : ℕ) (bucket : K → ℕ) (empty : K) (blank : V) : ℕ → ℕ → Table K V → Table K V
  | 0, _, t => t
  | n + 1, i, t =>
    if t.keys i = empty then t
    else
      let k := t.keys i
      let v := t.vals i
      let t := t.set i empty blank
      rehash size bucket empty blank n ((i + 1) % size)
        (t.set (t.gap size empty size (bucket k)) k v)

def remove (t : Table K V) (size : ℕ) (bucket : K → ℕ) (empty : K) (blank : V) (k : K) :
    Table K V :=
  match t.seek size empty k size (bucket k) with
  | some i => rehash size bucket empty blank size ((i + 1) % size) (t.set i empty blank)
  | none => t

/-- The search for an empty cell from `i` on ends at `j`. -/
inductive Gap (t : Table K V) (size : ℕ) (empty : K) : ℕ → ℕ → Prop
  | here {i : ℕ} : t.keys i = empty → Gap t size empty i i
  | next {i j : ℕ} : t.keys i ≠ empty → Gap t size empty ((i + 1) % size) j → Gap t size empty i j

/-- Re-inserting the run from `i` on ends with the second table. -/
inductive Shifts (size : ℕ) (bucket : K → ℕ) (empty : K) (blank : V) :
    ℕ → Table K V → Table K V → Prop
  | done {i : ℕ} {t : Table K V} : t.keys i = empty → Shifts size bucket empty blank i t t
  | shift {i j : ℕ} {t t' : Table K V} : t.keys i ≠ empty →
      Gap (t.set i empty blank) size empty (bucket (t.keys i)) j →
      Shifts size bucket empty blank ((i + 1) % size)
        ((t.set i empty blank).set j (t.keys i) (t.vals i)) t' →
      Shifts size bucket empty blank i t t'

/-- Every occupied cell holds a value with `P`. -/
def All (t : Table K V) (empty : K) (P : V → Prop) : Prop := ∀ i, t.keys i ≠ empty → P (t.vals i)

variable {t : Table K V} {size : ℕ} {bucket : K → ℕ} {empty : K} {P : V → Prop}

namespace All

omit [DecidableEq K] in
theorem set (h : t.All empty P) {i : ℕ} {k : K} {v : V} (hv : k ≠ empty → P v) :
    (t.set i k v).All empty P := by
  intro j hj
  by_cases hji : j = i
  · subst hji
    simp only [Table.set, update_self] at hj ⊢
    exact hv hj
  · simp only [Table.set, update_of_ne hji] at hj ⊢
    exact h j hj

theorem insert (h : t.All empty P) {k : K} {v : V} (hv : P v) :
    (t.insert size bucket empty k v).All empty P := by
  unfold Table.insert
  split
  · exact h.set fun _ => hv
  · exact h

open Table

theorem rehash {blank : V} (n i : ℕ) (h : t.All empty P) :
    (Table.rehash size bucket empty blank n i t).All empty P := by
  induction n generalizing i t with
  | zero => exact h
  | succ n ih =>
    unfold rehash
    split
    · exact h
    next hne =>
      exact ih _ ((h.set fun hk => absurd rfl hk).set fun _ => h i hne)

theorem remove {blank : V} (h : t.All empty P) (k : K) :
    (t.remove size bucket empty blank k).All empty P := by
  unfold Table.remove
  split
  · exact rehash _ _ (h.set fun hk => absurd rfl hk)
  · exact h

end All

variable {k : K}

theorem seek_spec {n i j : ℕ} (h : t.seek size empty k n i = some j) :
    t.keys j = k ∧ t.keys j ≠ empty := by
  induction n generalizing i with
  | zero => cases h
  | succ n ih =>
    unfold seek at h
    split_ifs at h with h1 h2
    · obtain rfl := some.inj h
      exact ⟨h2, h1⟩
    · exact ih h

theorem seek_lt {n i j : ℕ} (hi : i < size) (h : t.seek size empty k n i = some j) :
    j < size := by
  induction n generalizing i with
  | zero => cases h
  | succ n ih =>
    unfold seek at h
    split_ifs at h
    · exact some.inj h ▸ hi
    · exact ih (Nat.mod_lt _ (by omega)) h

theorem All.find (h : t.All empty P) {v : V}
    (hf : t.find size bucket empty k = some v) : P v := by
  obtain ⟨j, hj, rfl⟩ := map_eq_some_iff.1 hf
  exact h j (seek_spec hj).2

def Maps (t : Table K V) (size : ℕ) (k : K) (v : V) : Prop :=
  ∃ j < size, t.keys j = k ∧ t.vals j = v

def Distinct (t : Table K V) (size : ℕ) (empty : K) : Prop :=
  ∀ i < size, ∀ j < size, t.keys i ≠ empty → t.keys i = t.keys j → i = j

/-- Each key once, behind an occupied path. -/
structure WF (t : Table K V) (size : ℕ) (bucket : K → ℕ) (empty : K) : Prop where
  distinct : t.Distinct size empty
  reach : ∀ j < size, t.keys j ≠ empty → ∃ n, (bucket (t.keys j) + n) % size = j ∧
    ∀ d < n, t.keys ((bucket (t.keys j) + d) % size) ≠ empty

omit [DecidableEq K] in
theorem WF.maps_unique (h : t.WF size bucket empty) {k : K} {v w : V} (hk : k ≠ empty)
    (hv : t.Maps size k v) (hw : t.Maps size k w) : v = w := by
  obtain ⟨i, hi, rfl, rfl⟩ := hv
  obtain ⟨j, hj, hij, rfl⟩ := hw
  rw [h.distinct i hi j hj hk hij.symm]

theorem Distinct.free_cells (h : t.Distinct size empty) {ks : Finset K}
    (hks : ∀ j < size, t.keys j ≠ empty → t.keys j ∈ ks) :
    size ≤ ((Finset.range size).filter fun j => t.keys j = empty).card + ks.card := by
  have hoccupied : ((range size).filter fun j => ¬t.keys j = empty).card ≤ ks.card := by
    refine card_le_card_of_injOn t.keys (fun j hj => ?_) (fun i hi j hj hij => ?_)
    · rw [mem_coe, mem_filter, mem_range] at hj
      exact hks j hj.1 hj.2
    · rw [mem_coe, mem_filter, mem_range] at hi hj
      exact h i hi.1 j hj.1 hi.2 hij
  have hsplit := card_filter_add_card_filter_not (s := range size)
    fun j => t.keys j = empty
  rw [card_range] at hsplit
  omega

theorem Distinct.free_cell (h : t.Distinct size empty) (ks : Finset K)
    (hks : ∀ j < size, t.keys j ≠ empty → t.keys j ∈ ks) (hcard : ks.card < size) :
    ∃ e < size, t.keys e = empty := by
  have hcells := h.free_cells hks
  obtain ⟨e, he⟩ : ((range size).filter fun j => t.keys j = empty).Nonempty :=
    card_pos.mp (by omega)
  rw [mem_filter, mem_range] at he
  exact ⟨e, he⟩

def cell (size e r : ℕ) : ℕ := if e + 1 + r < size then e + 1 + r else e + 1 + r - size

/-- The place of cell `j` behind `e`. -/
def place (size e j : ℕ) : ℕ := if j ≤ e then j + size - (e + 1) else j - (e + 1)

section Cells

variable {e r q j b d : ℕ}

theorem cell_lt (he : e < size) (hr : r < size) : cell size e r < size := by
  unfold cell; split <;> omega

theorem place_lt (hj : j < size) : place size e j < size := by
  unfold place; split <;> omega

theorem cell_place (he : e < size) (hj : j < size) : cell size e (place size e j) = j := by
  unfold cell place; split <;> split <;> omega

theorem cell_inj (hr : r < size) (hq : q < size)
    (h : cell size e r = cell size e q) : r = q := by
  unfold cell at h; split at h <;> split at h <;> omega

theorem cell_last (he : e < size) : cell size e (size - 1) = e := by
  unfold cell; split <;> omega

theorem cell_succ (he : e < size) (hr : r + 1 < size) :
    (cell size e r + 1) % size = cell size e (r + 1) := by
  unfold cell
  split
  · split
    · exact Nat.mod_eq_of_lt (by omega)
    · rw [show e + 1 + r + 1 = size by omega, Nat.mod_self]
      omega
  · rw [if_neg (by omega), Nat.mod_eq_of_lt (by omega)]
    omega

theorem path_cell (he : e < size) (hb : b < size) (hd : place size e b + d < size) :
    (b + d) % size = cell size e (place size e b + d) := by
  induction d with
  | zero => rw [Nat.add_zero, Nat.add_zero, cell_place he hb, Nat.mod_eq_of_lt hb]
  | succ d ih =>
    rw [← Nat.add_assoc, ← Nat.mod_add_mod, ih (by omega), cell_succ he (by omega)]
    rfl

end Cells

/-- Entries from place `i` on are still to be re-inserted. -/
structure Cut (t : Table K V) (size : ℕ) (bucket : K → ℕ) (empty : K) (e i : ℕ) : Prop where
  last : t.keys e = empty
  distinct : t.Distinct size empty
  start : ∀ r < size, t.keys (cell size e r) ≠ empty →
    place size e (bucket (t.keys (cell size e r))) ≤ r
  path : ∀ r < size, t.keys (cell size e r) ≠ empty →
    ∀ q, place size e (bucket (t.keys (cell size e r))) ≤ q → q < r →
      t.keys (cell size e q) ≠ empty ∨
        (q < i ∧ i ≤ r ∧ ∀ p, i ≤ p → p ≤ r → t.keys (cell size e p) ≠ empty)

section Cut

variable {e i : ℕ}

omit [DecidableEq K] in
theorem WF.cut (hb : ∀ k, bucket k < size) (h : t.WF size bucket empty) (he : e < size)
    (hempty : t.keys e = empty) : t.Cut size bucket empty e size := by
  have key : ∀ r < size, t.keys (cell size e r) ≠ empty → ∃ n,
      place size e (bucket (t.keys (cell size e r))) + n = r ∧
        ∀ d < n, t.keys (cell size e (place size e (bucket (t.keys (cell size e r))) + d)) ≠ empty := by
    intro r hr hne
    obtain ⟨n, hn, hpath⟩ := h.reach _ (cell_lt he hr) hne
    have hbk := hb (t.keys (cell size e r))
    generalize bucket (t.keys (cell size e r)) = b at hn hpath hbk
    have hplace := place_lt (e := e) hbk
    have hshort : place size e b + n < size := by
      by_contra hlong
      have hcut : (b + (size - 1 - place size e b)) % size = e := by
        rw [path_cell he hbk (by omega), show place size e b + (size - 1 - place size e b) = size - 1
          by omega, cell_last he]
      rcases Nat.lt_or_ge (size - 1 - place size e b) n with hlt | hge
      · exact hpath _ hlt (by rw [hcut, hempty])
      · rw [show size - 1 - place size e b = n by omega, hn] at hcut
        exact hne (by rw [hcut, hempty])
    refine ⟨n, cell_inj (e := e) hshort hr ?_, fun d hd => ?_⟩
    · rw [← path_cell he hbk hshort, hn]
    · rw [← path_cell he hbk (by omega)]
      exact hpath d hd
  refine ⟨hempty, h.distinct, fun r hr hne => ?_, fun r hr hne q hq hqr => .inl ?_⟩
  · obtain ⟨n, hn, -⟩ := key r hr hne
    omega
  · obtain ⟨n, hn, hpath⟩ := key r hr hne
    have := hpath (q - place size e (bucket (t.keys (cell size e r)))) (by omega)
    rwa [Nat.add_sub_cancel' hq] at this

omit [DecidableEq K] in
theorem Cut.wf (hb : ∀ k, bucket k < size) (he : e < size) (h : t.Cut size bucket empty e size) :
    t.WF size bucket empty := by
  refine ⟨h.distinct, fun j hj hne => ?_⟩
  have hr := place_lt (e := e) hj
  rw [← cell_place he hj] at hne ⊢
  generalize place size e j = r at hr hne ⊢
  have hstart := h.start r hr hne
  have hpath := h.path r hr hne
  have hbk := hb (t.keys (cell size e r))
  generalize bucket (t.keys (cell size e r)) = b at hstart hpath hbk
  refine ⟨r - place size e b, ?_, fun d hd => ?_⟩
  · rw [path_cell he hbk (by omega), Nat.add_sub_cancel' hstart]
  · rw [path_cell he hbk (by omega)]
    exact (hpath _ (by omega) (by omega)).resolve_right (by omega)

omit [DecidableEq K] in
theorem Cut.finish (h : t.Cut size bucket empty e i) (hi : t.keys (cell size e i) = empty) :
    t.Cut size bucket empty e size := by
  refine ⟨h.last, h.distinct, h.start, fun r hr hne q hq hqr => .inl ?_⟩
  refine (h.path r hr hne q hq hqr).resolve_right ?_
  rintro ⟨-, hir, hrun⟩
  exact hrun i (Nat.le_refl i) hir hi

variable {n : ℕ}

theorem room_cell {k : K} (he : e < size) {r q : ℕ} (hrq : r ≤ q) (hq : q < size)
    (hn : q - r < n) (hstop : t.keys (cell size e q) = empty ∨ t.keys (cell size e q) = k)
    (hgo : ∀ p, r ≤ p → p < q →
      t.keys (cell size e p) ≠ empty ∧ t.keys (cell size e p) ≠ k) :
    t.room size empty k n (cell size e r) = some (cell size e q) := by
  induction n generalizing r with
  | zero => omega
  | succ n ih =>
    unfold room
    rcases Nat.eq_or_lt_of_le hrq with rfl | hlt
    · rw [if_pos hstop]
    · obtain ⟨h1, h2⟩ := hgo r (Nat.le_refl r) hlt
      rw [if_neg (not_or.2 ⟨h1, h2⟩), cell_succ he (by omega)]
      exact ih hlt (by omega) fun p hp hpq => hgo p (by omega) hpq

/-- **Every search stops**, at the cut at the latest. -/
theorem room_spec (hempty : t.keys e = empty) (he : e < size) (k : K) {b : ℕ} (hb : b < size) :
    ∃ q, place size e b ≤ q ∧ q < size ∧ t.room size empty k size b = some (cell size e q) ∧
      (t.keys (cell size e q) = empty ∨ t.keys (cell size e q) = k) ∧
      ∀ p, place size e b ≤ p → p < q →
        t.keys (cell size e p) ≠ empty ∧ t.keys (cell size e p) ≠ k := by
  have hex : ∃ q, place size e b ≤ q ∧
      (t.keys (cell size e q) = empty ∨ t.keys (cell size e q) = k) :=
    ⟨size - 1, by have := place_lt (e := e) hb; omega, .inl (by rw [cell_last he, hempty])⟩
  classical
  obtain ⟨hle, hstop⟩ := Nat.find_spec hex
  have hq : Nat.find hex < size := by
    have := Nat.find_min' hex (m := size - 1)
      ⟨by have := place_lt (e := e) hb; omega, .inl (by rw [cell_last he, hempty])⟩
    omega
  have hgo : ∀ p, place size e b ≤ p → p < Nat.find hex →
      t.keys (cell size e p) ≠ empty ∧ t.keys (cell size e p) ≠ k := by
    intro p hp hlt
    have := Nat.find_min hex hlt
    rw [not_and, not_or] at this
    exact this hp
  refine ⟨Nat.find hex, hle, hq, ?_, hstop, hgo⟩
  have := room_cell (t := t) (k := k) he hle hq (n := size) (by omega) hstop hgo
  rwa [cell_place he hb] at this

theorem seek_eq_room (k : K) (n i : ℕ) :
    t.seek size empty k n i = (t.room size empty k n i).filter fun j => decide (t.keys j ≠ empty) := by
  induction n generalizing i with
  | zero => rfl
  | succ n ih =>
    unfold seek room
    by_cases h1 : t.keys i = empty
    · simp [Option.filter, h1]
    · by_cases h2 : t.keys i = k
      · rw [if_neg h1, if_pos h2, if_pos (.inr h2)]
        simp [Option.filter, h1]
      · rw [if_neg h1, if_neg h2, if_neg (not_or.2 ⟨h1, h2⟩), ih]

theorem gap_of_room {i j : ℕ} (h : t.room size empty empty n i = some j) :
    t.gap size empty n i = j ∧ t.Gap size empty i j := by
  induction n generalizing i with
  | zero => cases h
  | succ n ih =>
    unfold room at h
    unfold gap
    by_cases h1 : t.keys i = empty
    · rw [if_pos (.inl h1)] at h
      obtain rfl := some.inj h
      exact ⟨if_pos h1, .here h1⟩
    · rw [if_neg (not_or.2 ⟨h1, h1⟩)] at h
      rw [if_neg h1]
      exact ⟨(ih h).1, .next h1 (ih h).2⟩

omit [DecidableEq K] in
theorem Cut.stop_unique (h : t.Cut size bucket empty e size) (he : e < size) {k : K} (hk : k ≠ empty)
    {q : ℕ} (hle : place size e (bucket k) ≤ q) (hq : q < size)
    (hstop : t.keys (cell size e q) = empty ∨ t.keys (cell size e q) = k)
    (hgo : ∀ p, place size e (bucket k) ≤ p → p < q → t.keys (cell size e p) ≠ k) {j : ℕ}
    (hj : j < size) (hkj : t.keys j = k) : j = cell size e q := by
  rw [← cell_place he hj] at hkj ⊢
  have hr := place_lt (e := e) hj
  generalize place size e j = r at hr hkj ⊢
  have hne : t.keys (cell size e r) ≠ empty := hkj ▸ hk
  have hstart := h.start r hr hne
  have hpath := h.path r hr hne
  rw [hkj] at hstart hpath
  rcases Nat.lt_trichotomy r q with hlt | rfl | hgt
  · exact absurd hkj (hgo r hstart hlt)
  · rfl
  · have hqk := hstop.resolve_left ((hpath q hle hgt).resolve_right (by omega))
    exact h.distinct _ (cell_lt he hr) _ (cell_lt he hq) hne (hkj.trans hqk.symm)

theorem find_eq_some_iff (hb : ∀ k, bucket k < size) (h : t.WF size bucket empty)
    (hfree : ∃ e < size, t.keys e = empty) {k : K} (hk : k ≠ empty) {v : V} :
    t.find size bucket empty k = some v ↔ t.Maps size k v := by
  obtain ⟨e, he, hempty⟩ := hfree
  have hcut := h.cut hb he hempty
  obtain ⟨q, hle, hq, hroom, hstop, hgo⟩ := room_spec hempty he k (hb k)
  unfold find
  rw [seek_eq_room, hroom]
  by_cases hqe : t.keys (cell size e q) = empty
  · -- the search ended at an empty cell, so the key is nowhere
    simp only [Option.filter, hqe, ne_eq, not_true_eq_false, decide_false, Bool.false_eq_true,
      if_false, Option.map_none, reduceCtorEq, false_iff]
    rintro ⟨j, hj, hkj, -⟩
    have := hcut.stop_unique he hk hle hq hstop (fun p hp hpq => (hgo p hp hpq).2) hj hkj
    rw [this, hqe] at hkj
    exact hk hkj.symm
  · have hqk := hstop.resolve_left hqe
    simp only [Option.filter, hqe, ne_eq, not_false_eq_true, decide_true, if_true, Option.map_some,
      Option.some.injEq]
    constructor
    · rintro rfl
      exact ⟨_, cell_lt he hq, hqk, rfl⟩
    · rintro ⟨j, hj, hkj, rfl⟩
      rw [h.distinct _ (cell_lt he hq) j hj hqe (hqk.trans hkj.symm)]

variable {k : K} {v : V}

omit [DecidableEq K] in
theorem keys_set_self {x : K} {j : ℕ} : (t.set j x v).keys j = x := by simp [set]

omit [DecidableEq K] in
theorem keys_set_of_ne {x : K} {j j' : ℕ} (h : j' ≠ j) : (t.set j x v).keys j' = t.keys j' := by
  simp [set, h]

omit [DecidableEq K] in
theorem keys_set_place {x : K} {r q : ℕ} (hr : r < size) (hq : q < size) (h : r ≠ q) :
    (t.set (cell size e q) x v).keys (cell size e r) = t.keys (cell size e r) :=
  keys_set_of_ne fun hc => h (cell_inj (e := e) hr hq hc)

omit [DecidableEq K] in
theorem Cut.set (h : t.Cut size bucket empty e i) (he : e < size) {q : ℕ}
    (hk : k ≠ empty) (hle : place size e (bucket k) ≤ q) (hq : q < size - 1)
    (hnew : ∀ j < size, t.keys j = k → j = cell size e q)
    (hgo : ∀ p, place size e (bucket k) ≤ p → p < q → t.keys (cell size e p) ≠ empty) :
    (t.set (cell size e q) k v).Cut size bucket empty e i := by
  have hocc : ∀ r < size, t.keys (cell size e r) ≠ empty →
      (t.set (cell size e q) k v).keys (cell size e r) ≠ empty := by
    intro r hr hne
    by_cases hrq : r = q
    · rw [hrq, keys_set_self]
      exact hk
    · rwa [keys_set_place hr (by omega) hrq]
  refine ⟨?_, fun i hi j hj hne hij => ?_, fun r hr hne => ?_, fun r hr hne p hp hpr => ?_⟩
  · have hlast : (t.set (cell size e q) k v).keys (cell size e (size - 1)) = _ :=
      keys_set_place (by omega) (by omega) (by omega)
    rw [cell_last he] at hlast
    rw [hlast, h.last]
  · by_cases hi' : i = cell size e q
    · by_cases hj' : j = cell size e q
      · rw [hi', hj']
      · rw [hi', keys_set_self, keys_set_of_ne hj'] at hij
        exact absurd (hnew j hj hij.symm) hj'
    · rw [keys_set_of_ne hi'] at hne hij
      by_cases hj' : j = cell size e q
      · rw [hj', keys_set_self] at hij
        exact absurd (hnew i hi hij) hi'
      · rw [keys_set_of_ne hj'] at hij
        exact h.distinct i hi j hj hne hij
  · by_cases hrq : r = q
    · rw [hrq, keys_set_self]
      exact hle
    · rw [keys_set_place hr (by omega) hrq] at hne ⊢
      exact h.start r hr hne
  · by_cases hrq : r = q
    · rw [hrq, keys_set_self] at hp
      exact .inl (hocc p (by omega) (hgo p hp (hrq ▸ hpr)))
    · rw [keys_set_place hr (by omega) hrq] at hne hp
      rcases h.path r hr hne p hp hpr with hp' | ⟨hpi, hir, hrun⟩
      · exact .inl (hocc p (by omega) hp')
      · exact .inr ⟨hpi, hir, fun p' h1 h2 => hocc p' (by omega) (hrun p' h1 h2)⟩

/-- Free, and still free after an insertion under `k`. -/
def Spare (t : Table K V) (size : ℕ) (bucket : K → ℕ) (empty k : K) : Prop :=
  ∃ e < size, t.keys e = empty ∧ t.room size empty k size (bucket k) ≠ some e

/-- Two free cells, so that one is left after an insertion. -/
def Roomy (t : Table K V) (size : ℕ) (empty : K) : Prop :=
  ∃ e < size, ∃ e' < size, e ≠ e' ∧ t.keys e = empty ∧ t.keys e' = empty

theorem Roomy.spare (hfree : t.Roomy size empty) (k : K) : t.Spare size bucket empty k := by
  obtain ⟨e, he, e', he', hee, h1, h2⟩ := hfree
  by_cases hroom : t.room size empty k size (bucket k) = some e
  · exact ⟨e', he', h2, fun h => hee (some.inj (hroom.symm.trans h))⟩
  · exact ⟨e, he, h1, hroom⟩

theorem Distinct.roomy (h : t.Distinct size empty) (ks : Finset K)
    (hks : ∀ j < size, t.keys j ≠ empty → t.keys j ∈ ks) (hcard : ks.card + 1 < size) :
    t.Roomy size empty := by
  have hcells := h.free_cells hks
  have htwo : 1 < ((range size).filter fun j => t.keys j = empty).card := by omega
  obtain ⟨e, he, e', he', hne⟩ := one_lt_card.mp htwo
  rw [mem_filter, mem_range] at he he'
  exact ⟨e, he.1, e', he'.1, hne, he.2, he'.2⟩

theorem WF.spare (hb : ∀ k, bucket k < size) (h : t.WF size bucket empty)
    (hfree : ∃ e < size, t.keys e = empty) (hk : k ≠ empty)
    (hmaps : t.Maps size k v) : t.Spare size bucket empty k := by
  obtain ⟨e, he, hempty⟩ := hfree
  obtain ⟨q, hle, hq, hroom, hstop, hgo⟩ := room_spec hempty he k (hb k)
  obtain ⟨j, hj, hkj, -⟩ := hmaps
  have hjq := (h.cut hb he hempty).stop_unique he hk hle hq hstop
    (fun p hp hpq => (hgo p hp hpq).2) hj hkj
  refine ⟨e, he, hempty, fun hroom' => hk ?_⟩
  rw [hroom, ← hjq, some.injEq] at hroom'
  rw [← hkj, hroom', hempty]

theorem Spare.target (hb : ∀ k, bucket k < size) (hfree : t.Spare size bucket empty k)
    (h : t.WF size bucket empty) (hk : k ≠ empty) (v : V) :
    ∃ e < size, ∃ q < size - 1, t.insert size bucket empty k v = t.set (cell size e q) k v ∧
      (t.set (cell size e q) k v).Cut size bucket empty e size ∧
      (t.keys (cell size e q) = empty ∨ t.keys (cell size e q) = k) ∧
      ∀ j < size, t.keys j = k → j = cell size e q := by
  obtain ⟨e, he, hempty, hne⟩ := hfree
  have hcut := h.cut hb he hempty
  obtain ⟨q, hle, hq, hroom, hstop, hgo⟩ := room_spec hempty he k (hb k)
  have hlast : q < size - 1 := by
    by_contra hge
    rw [hroom, show q = size - 1 by omega, cell_last he] at hne
    exact hne rfl
  have hnew : ∀ j < size, t.keys j = k → j = cell size e q := fun j hj hkj =>
    hcut.stop_unique he hk hle hq hstop (fun p hp hpq => (hgo p hp hpq).2) hj hkj
  refine ⟨e, he, q, hlast, ?_, hcut.set he hk hle hlast hnew fun p hp hpq => (hgo p hp hpq).1,
    hstop, hnew⟩
  unfold insert
  rw [hroom]

theorem insert_wf (hb : ∀ k, bucket k < size) (h : t.WF size bucket empty)
    (hfree : t.Spare size bucket empty k) (hk : k ≠ empty) (v : V) :
    (t.insert size bucket empty k v).WF size bucket empty := by
  obtain ⟨e, he, q, -, hins, hcut, -⟩ := hfree.target hb h hk v
  rw [hins]
  exact hcut.wf hb he

theorem maps_insert (hb : ∀ k, bucket k < size) (h : t.WF size bucket empty) {k' : K}
    (hfree : t.Spare size bucket empty k) (hk : k ≠ empty) (hk' : k' ≠ empty) {w : V} :
    (t.insert size bucket empty k v).Maps size k' w ↔
      (k' = k ∧ w = v) ∨ (k' ≠ k ∧ t.Maps size k' w) := by
  obtain ⟨e, he, q, hq, hins, -, hstop, hnew⟩ := hfree.target hb h hk v
  rw [hins]
  have hc := cell_lt he (show q < size by omega)
  generalize cell size e q = c at hstop hnew hc
  constructor
  · rintro ⟨j, hj, hkj, rfl⟩
    by_cases hjc : j = c
    · subst hjc
      exact .inl ⟨by simpa [set] using hkj.symm, by simp [set]⟩
    · simp only [set, update_of_ne hjc] at hkj ⊢
      exact .inr ⟨fun he => hjc (hnew j hj (hkj.trans he)), j, hj, hkj, rfl⟩
  · rintro (⟨rfl, rfl⟩ | ⟨hne, j, hj, hkj, rfl⟩)
    · exact ⟨c, hc, by simp [set], by simp [set]⟩
    · have hjc : j ≠ c := by
        rintro rfl
        rcases hstop with h0 | h0
        · exact hk' (hkj.symm.trans h0)
        · exact hne (hkj.symm.trans h0)
      exact ⟨j, hj, by simpa [set, hjc] using hkj, by simp [set, hjc]⟩

omit [DecidableEq K] in
theorem Cut.blank (h : t.Cut size bucket empty e i) {q : ℕ} (hq : q < size) (hi : i = q ∨ i = size)
    (v : V) : (t.set (cell size e q) empty v).Cut size bucket empty e (q + 1) := by
  have hold : ∀ r < size, (t.set (cell size e q) empty v).keys (cell size e r) ≠ empty → r ≠ q :=
    fun r _ hne hrq => hne (hrq ▸ keys_set_self)
  refine ⟨?_, fun i hi j hj hne hij => ?_, fun r hr hne => ?_, fun r hr hne p hp hpr => ?_⟩
  · by_cases hec : e = cell size e q
    · exact (congrArg _ hec).trans keys_set_self
    · rw [keys_set_of_ne hec, h.last]
  · have hi' : i ≠ cell size e q := by
      rintro rfl
      exact hne keys_set_self
    have hj' : j ≠ cell size e q := by
      rintro rfl
      exact hne (hij.trans keys_set_self)
    rw [keys_set_of_ne hi'] at hne hij
    rw [keys_set_of_ne hj'] at hij
    exact h.distinct i hi j hj hne hij
  · have hrq := hold r hr hne
    rw [keys_set_place hr hq hrq] at hne ⊢
    exact h.start r hr hne
  · have hrq := hold r hr hne
    rw [keys_set_place hr hq hrq] at hne hp
    -- the path of an entry behind the blanked cell may cross it, and nothing else is missing
    have hbehind : p ≤ q → q < r → (∀ p', q < p' → p' < r → t.keys (cell size e p') ≠ empty) →
        p < q + 1 ∧ q + 1 ≤ r ∧ ∀ p', q + 1 ≤ p' → p' ≤ r →
          (t.set (cell size e q) empty v).keys (cell size e p') ≠ empty := by
      refine fun hpq hqr hrun => ⟨by omega, hqr, fun p' hp' hp'r => ?_⟩
      rw [keys_set_place (by omega) hq (by omega)]
      rcases Nat.eq_or_lt_of_le hp'r with rfl | hlt
      · exact hne
      · exact hrun p' hp' hlt
    rcases h.path r hr hne p hp hpr with hocc | ⟨hpi, hir, hrun⟩
    · by_cases hpq : p = q
      · exact .inr (hbehind (by omega) (by omega) fun p' h1 h2 =>
          (h.path r hr hne p' (by omega) h2).resolve_right (by omega))
      · exact .inl (by rw [keys_set_place (by omega) hq hpq]; exact hocc)
    · exact .inr (hbehind (by omega) (by omega) fun p' h1 h2 => hrun p' (by omega) (by omega))

omit [DecidableEq K] in
theorem Cut.reinsert (h : t.Cut size bucket empty e i) (he : e < size) (hi : i < size - 1) {k : K}
    {g : ℕ} {v w : V} (hk : k ≠ empty) (hki : t.keys (cell size e i) = k)
    (hle : place size e (bucket k) ≤ g) (hgi : g ≤ i)
    (hgo : ∀ p, place size e (bucket k) ≤ p → p < g → t.keys (cell size e p) ≠ empty) :
    ((t.set (cell size e i) empty w).set (cell size e g) k v).Cut size bucket empty e (i + 1) := by
  refine (h.blank (by omega) (.inl rfl) w).set he hk hle (by omega) (fun j hj hjk => ?_) fun p hp hpg => ?_
  · -- the key was at the blanked cell only
    by_cases hji : j = cell size e i
    · rw [hji, keys_set_self] at hjk
      exact absurd hjk.symm hk
    · rw [keys_set_of_ne hji] at hjk
      exact absurd (h.distinct j hj _ (cell_lt he (by omega)) (hjk ▸ hk) (hjk.trans hki.symm)) hji
  · rw [keys_set_place (by omega) (by omega) (by omega)]
    exact hgo p hp hpg

variable {k : K}

omit [DecidableEq K] in
theorem maps_move {i g : ℕ} (hi : i < size) (hg : g < size) {w : V}
    (hfree : g ≠ i → t.keys g = empty) (hk' : k ≠ empty) {v : V} :
    ((t.set i empty v).set g (t.keys i) (t.vals i)).Maps size k w ↔ t.Maps size k w := by
  have hat : ((t.set i empty v).set g (t.keys i) (t.vals i)).keys g = t.keys i ∧
      ((t.set i empty v).set g (t.keys i) (t.vals i)).vals g = t.vals i := by simp [set]
  have hother : ∀ j, j ≠ g → j ≠ i →
      ((t.set i empty v).set g (t.keys i) (t.vals i)).keys j = t.keys j ∧
        ((t.set i empty v).set g (t.keys i) (t.vals i)).vals j = t.vals j :=
    fun j hjg hji => by simp [set, hjg, hji]
  have hgone : i ≠ g → ((t.set i empty v).set g (t.keys i) (t.vals i)).keys i = empty :=
    fun h => by simp [set, h]
  constructor
  · rintro ⟨j, hj, rfl, rfl⟩
    by_cases hjg : j = g
    · rw [hjg, hat.1, hat.2]
      exact ⟨i, hi, rfl, rfl⟩
    · have hji : j ≠ i := fun h => hk' (by rw [h]; exact hgone (h ▸ hjg))
      rw [(hother j hjg hji).1, (hother j hjg hji).2]
      exact ⟨j, hj, rfl, rfl⟩
  · rintro ⟨j, hj, rfl, rfl⟩
    by_cases hji : j = i
    · rw [hji]
      exact ⟨g, hg, hat.1, hat.2⟩
    · have hjg : j ≠ g := fun h => hk' (by rw [h]; exact hfree (h ▸ hji))
      exact ⟨j, hj, (hother j hjg hji).1, (hother j hjg hji).2⟩

theorem rehash_spec (hb : ∀ k, bucket k < size) (he : e < size) (blank : V) (n : ℕ)
    (h : t.Cut size bucket empty e i) (hi : i < size) (hn : size - i ≤ n) :
    Shifts size bucket empty blank (cell size e i) t
        (rehash size bucket empty blank n (cell size e i) t) ∧
      (rehash size bucket empty blank n (cell size e i) t).Cut size bucket empty e size ∧
      ∀ k w, k ≠ empty →
        ((rehash size bucket empty blank n (cell size e i) t).Maps size k w ↔ t.Maps size k w) := by
  induction n generalizing t i with
  | zero => omega
  | succ n ih =>
    unfold rehash
    split
    next hempty =>
      exact ⟨.done hempty, h.finish hempty, fun _ _ _ => .rfl⟩
    next hne =>
      dsimp only
      have hi' : i < size - 1 := by
        by_contra hge
        rw [show i = size - 1 by omega, cell_last he, h.last] at hne
        exact hne rfl
      -- the free cell found from the bucket, in the table without the moving entry
      have hlast : (t.set (cell size e i) empty blank).keys e = empty := by
        by_cases hec : e = cell size e i
        · rw [← hec]
          simp [set]
        · simp [set, hec, h.last]
      have hplaces : ∀ r < size, r ≠ i →
          (t.set (cell size e i) empty blank).keys (cell size e r) = t.keys (cell size e r) := by
        intro r hr hri
        have : cell size e r ≠ cell size e i := fun hc => hri (cell_inj (e := e) hr hi hc)
        simp [set, this]
      obtain ⟨g, hle, hg, hroom, hstop, hgo⟩ :=
        room_spec hlast he empty (hb (t.keys (cell size e i)))
      have hgi : g ≤ i := by
        by_contra hlt
        exact (hgo i (h.start i hi hne) (by omega)).1 (by simp [set])
      rw [(gap_of_room hroom).1]
      have hfree : g ≠ i → t.keys (cell size e g) = empty := fun hgi' => by
        rw [← hplaces g hg hgi']
        exact hstop.elim id id
      have hstep := h.reinsert he hi' (w := blank) (v := t.vals (cell size e i)) hne rfl hle hgi
        fun p hp hpg => by
          rw [← hplaces p (by omega) (by omega)]
          exact (hgo p hp hpg).1
      obtain ⟨hshifts, hcut, hmaps⟩ := ih hstep (by omega) (by omega)
      rw [← cell_succ he (by omega)] at hshifts hcut hmaps
      refine ⟨.shift hne (gap_of_room hroom).2 hshifts, hcut, fun k w hk => (hmaps k w hk).trans ?_⟩
      refine maps_move (cell_lt he hi) (cell_lt he hg) (fun hc => hfree ?_) hk
      rintro rfl
      exact hc rfl

/-- **`remove` deletes one key of the map.** -/
theorem remove_spec (hb : ∀ k, bucket k < size) (h : t.WF size bucket empty)
    (hfree : ∃ e < size, t.keys e = empty) (blank : V) (hk : k ≠ empty) :
    (t.remove size bucket empty blank k).WF size bucket empty ∧ ∀ k' w, k' ≠ empty →
      ((t.remove size bucket empty blank k).Maps size k' w ↔ k' ≠ k ∧ t.Maps size k' w) := by
  obtain ⟨e, he, hempty⟩ := hfree
  have hcut := h.cut hb he hempty
  obtain ⟨q, hle, hq, hroom, hstop, hgo⟩ := room_spec hempty he k (hb k)
  have honly : ∀ j < size, t.keys j = k → j = cell size e q := fun j hj hkj =>
    hcut.stop_unique he hk hle hq hstop (fun p hp hpq => (hgo p hp hpq).2) hj hkj
  have hseek : t.seek size empty k size (bucket k) = _ := seek_eq_room k size (bucket k)
  rw [hroom] at hseek
  unfold remove
  by_cases hqe : t.keys (cell size e q) = empty
  · rw [show t.seek size empty k size (bucket k) = none by simp [hseek, hqe]]
    refine ⟨h, fun k' w hk' => ⟨fun hm => ⟨?_, hm⟩, fun hm => hm.2⟩⟩
    rintro rfl
    obtain ⟨j, hj, hkj, -⟩ := hm
    rw [honly j hj hkj, hqe] at hkj
    exact hk hkj.symm
  · have hqk := hstop.resolve_left hqe
    rw [show t.seek size empty k size (bucket k) = some (cell size e q) by
      simp [hseek, hqe]]
    have hq' : q < size - 1 := by
      by_contra hge
      rw [show q = size - 1 by omega, cell_last he] at hqe
      exact hqe hempty
    dsimp only
    rw [cell_succ he (by omega)]
    obtain ⟨-, hcut', hmaps⟩ := rehash_spec hb he blank size (hcut.blank hq (.inr rfl) blank)
      (by omega) (by omega)
    refine ⟨hcut'.wf hb he, fun k' w hk' => (hmaps k' w hk').trans ?_⟩
    constructor
    · rintro ⟨j, hj, hkj, rfl⟩
      have hjc : j ≠ cell size e q := by
        rintro rfl
        exact hk' (by simpa [set] using hkj.symm)
      simp only [set, update_of_ne hjc] at hkj ⊢
      exact ⟨fun hkk => hjc (honly j hj (hkj.trans hkk)), j, hj, hkj, rfl⟩
    · rintro ⟨hne, j, hj, hkj, rfl⟩
      have hjc : j ≠ cell size e q := by
        rintro rfl
        exact hne (hkj.symm.trans hqk)
      exact ⟨j, hj, by simpa [set, hjc] using hkj, by simp [set, hjc]⟩

theorem remove_shifts (hb : ∀ k, bucket k < size) (h : t.WF size bucket empty)
    (hfree : ∃ e < size, t.keys e = empty) (blank : V) {i : ℕ}
    (hseek : t.seek size empty k size (bucket k) = some i) (hi : i < size) :
    Shifts size bucket empty blank ((i + 1) % size) (t.set i empty blank)
      (t.remove size bucket empty blank k) := by
  obtain ⟨e, he, hempty⟩ := hfree
  unfold remove
  rw [hseek]
  dsimp only
  have hplace := place_lt (e := e) hi
  rw [← cell_place he hi] at hseek ⊢
  generalize place size e i = q at hplace hseek ⊢
  have hq : q < size - 1 := by
    by_contra hge
    rw [show q = size - 1 by omega, cell_last he] at hseek
    exact (seek_spec hseek).2 hempty
  rw [cell_succ he (by omega)]
  exact (rehash_spec hb he blank size ((h.cut hb he hempty).blank hplace (.inr rfl) blank) (by omega)
    (by omega)).1

end Cut

end Table

end OpenAddressing
