import Mathlib

/-! # Finite maps with ordered keys

A finite map is the list of its entries, in strictly increasing key order; the order is a field of
the type, so that two maps with the same lookups are equal (`SortedMap.ext_get?`). -/

/-- Entries in increasing key order. -/
structure SortedMap (K V : Type*) [LinearOrder K] where
  entries : List (K × V)
  sorted : entries.Pairwise fun a b => a.1 < b.1

namespace SortedMap

open List Option

variable {K V : Type*} [LinearOrder K]

instance [DecidableEq V] : DecidableEq (SortedMap K V) := fun m m' =>
  decidable_of_iff (m.entries = m'.entries) (by cases m; cases m'; simp)

def insertEntry (k : K) (v : V) : List (K × V) → List (K × V)
  | [] => [(k, v)]
  | e :: es => if k < e.1 then (k, v) :: e :: es else if k = e.1 then (k, v) :: es
      else e :: insertEntry k v es

theorem mem_insertEntry {k : K} {v : V} {es : List (K × V)} {e : K × V}
    (h : e ∈ insertEntry k v es) : e = (k, v) ∨ e ∈ es := by
  induction es with
  | nil => simpa [insertEntry] using h
  | cons d es ih =>
    unfold insertEntry at h
    split_ifs at h
    · simpa using h
    · rcases mem_cons.1 h with h | h
      · exact .inl h
      · exact .inr (mem_cons_of_mem _ h)
    · rcases mem_cons.1 h with h | h
      · exact .inr (h ▸ mem_cons_self)
      · exact (ih h).imp_right (mem_cons_of_mem _)

theorem pairwise_insertEntry (k : K) (v : V) {es : List (K × V)}
    (h : es.Pairwise fun a b => a.1 < b.1) :
    (insertEntry k v es).Pairwise fun a b => a.1 < b.1 := by
  induction es with
  | nil => simp [insertEntry]
  | cons d es ih =>
    obtain ⟨hd, hes⟩ := pairwise_cons.1 h
    unfold insertEntry
    split_ifs with hlt heq
    · refine pairwise_cons.2 ⟨fun e he => ?_, h⟩
      rcases mem_cons.1 he with rfl | he
      · exact hlt
      · exact hlt.trans (hd e he)
    · exact pairwise_cons.2 ⟨fun e he => heq ▸ hd e he, hes⟩
    · refine pairwise_cons.2 ⟨fun e he => ?_, ih hes⟩
      rcases mem_insertEntry he with rfl | he
      · exact lt_of_le_of_ne (not_lt.1 hlt) (Ne.symm heq)
      · exact hd e he

def empty : SortedMap K V := ⟨[], .nil⟩

variable (m : SortedMap K V)

def get? (k : K) : Option V := (m.entries.find? fun e => e.1 = k).map Prod.snd

def contains (k : K) : Bool := (m.get? k).isSome

def insert (k : K) (v : V) : SortedMap K V := ⟨insertEntry k v m.entries, pairwise_insertEntry k v m.sorted⟩

def erase (k : K) : SortedMap K V := ⟨m.entries.filter fun e => e.1 ≠ k, m.sorted.filter _⟩

def size : ℕ := m.entries.length

def first? : Option (K × V) := m.entries.head?

def values : List V := m.entries.map Prod.snd

/-- In key order with an accumulator, rewriting the values. -/
def mapAccumEntries {σ : Type*} (f : σ → K → V → σ × V) : σ → List (K × V) → σ × List (K × V)
  | s, [] => (s, [])
  | s, (k, v) :: es =>
    let r := f s k v
    let t := mapAccumEntries f r.1 es
    (t.1, (k, r.2) :: t.2)

omit [LinearOrder K] in
theorem keys_mapAccumEntries {σ : Type*} (f : σ → K → V → σ × V) (s : σ) (es : List (K × V)) :
    (mapAccumEntries f s es).2.map Prod.fst = es.map Prod.fst := by
  induction es generalizing s with
  | nil => rfl
  | cons e es ih => simp [mapAccumEntries, ih]

def mapAccum {σ : Type*} (f : σ → K → V → σ × V) (s : σ) (m : SortedMap K V) : σ × SortedMap K V :=
  ((mapAccumEntries f s m.entries).1, ⟨(mapAccumEntries f s m.entries).2, by
    have h : (m.entries.map Prod.fst).Pairwise (· < ·) := List.pairwise_map.2 m.sorted
    rw [← keys_mapAccumEntries f s] at h
    exact List.pairwise_map.1 h⟩)

variable {m}

@[simp] theorem get?_empty (k : K) : (empty : SortedMap K V).get? k = none := rfl

variable {k : K}

theorem get?_eq_some {v : V} : m.get? k = some v ↔ (k, v) ∈ m.entries := by
  obtain ⟨es, hs⟩ := m
  induction es with
  | nil => simp [get?]
  | cons e es ih =>
    obtain ⟨he, hes⟩ := pairwise_cons.1 hs
    have hrest := ih hes
    simp only [get?] at hrest ⊢
    by_cases hk : e.1 = k
    · have hnot : (k, v) ∉ es := fun hmem => absurd (he _ hmem) (by simp [hk])
      subst hk
      simp [Prod.ext_iff, eq_comm, hnot]
    · have hne : (k, v) ≠ e := fun h => hk (congrArg Prod.fst h).symm
      simp [hk, hrest, hne]

theorem contains_iff : m.contains k = true ↔ ∃ v, m.get? k = some v :=
  isSome_iff_exists

theorem get?_eq_none : m.get? k = none ↔ ∀ v, (k, v) ∉ m.entries := by
  rw [eq_none_iff_forall_ne_some]
  exact forall_congr' fun v => not_congr get?_eq_some

theorem ext_get? {m m' : SortedMap K V} (h : ∀ k, m.get? k = m'.get? k) : m = m' := by
  have hmem : ∀ e, e ∈ m.entries ↔ e ∈ m'.entries := by
    rintro ⟨k, v⟩
    rw [← get?_eq_some, ← get?_eq_some, h]
  have hnodup : ∀ n : SortedMap K V, n.entries.Nodup := fun n =>
    n.sorted.imp fun hab heq => absurd hab (by simp [heq])
  have hperm := (perm_ext_iff_of_nodup (hnodup m) (hnodup m')).2 hmem
  have heq : m.entries = m'.entries :=
    hperm.eq_of_pairwise (fun a b _ _ hab hba => absurd (hab.trans hba) (lt_irrefl _)) m.sorted m'.sorted
  cases m
  cases m'
  simpa using heq

theorem find?_insertEntry (k : K) (v : V) (es : List (K × V)) (k' : K) :
    (insertEntry k v es).find? (fun e => e.1 = k') =
      if k' = k then some (k, v) else es.find? fun e => e.1 = k' := by
  induction es with
  | nil =>
    by_cases hk : k' = k
    · simp [insertEntry, hk]
    · simp [insertEntry, hk, Ne.symm hk]
  | cons e es ih =>
    by_cases hk : k' = k
    · subst hk
      rw [if_pos rfl] at ih ⊢
      unfold insertEntry
      split_ifs with hlt heq
      · simp
      · simp
      · rw [find?_cons_of_neg (by simpa using Ne.symm heq), ih]
    · rw [if_neg hk] at ih ⊢
      unfold insertEntry
      split_ifs with hlt heq
      · rw [find?_cons_of_neg (by simpa using Ne.symm hk)]
      · have hne : e.1 ≠ k' := fun h => hk (by rw [← h, ← heq])
        rw [find?_cons_of_neg (by simpa using Ne.symm hk),
          find?_cons_of_neg (by simpa using hne)]
      · rw [find?_cons, find?_cons, ih]

@[simp] theorem get?_insert (m : SortedMap K V) (k : K) (v : V) (k' : K) :
    (m.insert k v).get? k' = if k' = k then some v else m.get? k' := by
  unfold get? insert
  rw [find?_insertEntry]
  split_ifs <;> rfl

@[simp] theorem get?_erase (m : SortedMap K V) (k k' : K) :
    (m.erase k).get? k' = if k' = k then none else m.get? k' := by
  split_ifs with hk
  · refine get?_eq_none.2 fun v hv => ?_
    simp [erase, hk] at hv
  · refine ext fun v => ?_
    rw [get?_eq_some, get?_eq_some]
    simp [erase, hk]

theorem first?_eq_some {e : K × V} (h : m.first? = some e) :
    m.get? e.1 = some e.2 ∧ ∀ k v, m.get? k = some v → e.1 ≤ k := by
  obtain ⟨es, hs⟩ := m
  cases es with
  | nil => cases h
  | cons d es =>
    obtain rfl : d = e := some.inj h
    refine ⟨get?_eq_some.2 mem_cons_self, fun k v hk => ?_⟩
    rcases mem_cons.1 (get?_eq_some.1 hk) with rfl | hmem
    · exact le_rfl
    · exact ((pairwise_cons.1 hs).1 _ hmem).le

theorem first?_eq_none (h : m.first? = none) : m = empty := by
  obtain ⟨es, hs⟩ := m
  cases es with
  | nil => rfl
  | cons d es => cases h

theorem size_erase_first {e : K × V} (h : m.first? = some e) : (m.erase e.1).size + 1 ≤ m.size := by
  obtain ⟨es, hs⟩ := m
  cases es with
  | nil => cases h
  | cons d es =>
    obtain rfl : d = e := some.inj h
    have := length_filter_le (fun x => decide (x.1 ≠ d.1)) es
    simp only [erase, size, ne_eq, decide_not, length_cons] at this ⊢
    rw [filter_cons_of_neg (by simp)]
    omega

section sum

variable {M : Type*} [AddCommMonoid M] (f : K → V → M)

def sum (m : SortedMap K V) : M := (m.entries.map fun e => f e.1 e.2).sum

@[simp] theorem sum_empty : (empty : SortedMap K V).sum f = 0 := rfl

theorem sum_erase {m : SortedMap K V} {k : K} {v : V} (h : m.get? k = some v) :
    m.sum f = f k v + (m.erase k).sum f := by
  obtain ⟨es, hs⟩ := m
  have hmem := get?_eq_some.1 h
  clear h
  simp only [sum, erase] at hmem ⊢
  induction es with
  | nil => cases hmem
  | cons d es ih =>
    obtain ⟨hd, hes⟩ := pairwise_cons.1 hs
    rcases mem_cons.1 hmem with heq | hmem
    · have hall : ∀ e ∈ es, decide (e.1 ≠ k) = true := fun e he => by
        have hlt := hd e he
        rw [← heq] at hlt
        simpa using hlt.ne'
      rw [← heq, filter_cons_of_neg (by simp), filter_eq_self.2 hall]
      simp
    · have hne : d.1 ≠ k := (hd _ hmem).ne
      rw [filter_cons_of_pos (by simpa using hne)]
      simp only [map_cons, sum_cons, ih hes hmem]
      exact add_left_comm _ _ _

theorem erase_insert (m : SortedMap K V) (k : K) (v : V) : (m.insert k v).erase k = m.erase k := by
  refine ext_get? fun k' => ?_
  by_cases hk : k' = k <;> simp [hk]

theorem erase_of_get?_eq_none {m : SortedMap K V} {k : K} (h : m.get? k = none) : m.erase k = m := by
  refine ext_get? fun k' => ?_
  by_cases hk : k' = k <;> simp [hk, h]

theorem sum_insert (m : SortedMap K V) (k : K) (v : V) :
    (m.insert k v).sum f = f k v + (m.erase k).sum f := by
  rw [sum_erase f (k := k) (v := v) (by simp), erase_insert]

theorem sum_insert_add (m : SortedMap K V) (k : K) (v : V) :
    (m.insert k v).sum f + (m.get? k).elim 0 (f k) = m.sum f + f k v := by
  rw [sum_insert]
  cases h : m.get? k with
  | none => rw [erase_of_get?_eq_none h, elim_none, add_zero, add_comm]
  | some w =>
    rw [sum_erase f h, elim_some]
    abel

theorem sum_erase_le (f : K → V → ℕ) (m : SortedMap K V) (k : K) : (m.erase k).sum f ≤ m.sum f := by
  cases h : m.get? k with
  | none => rw [erase_of_get?_eq_none h]
  | some w =>
    rw [sum_erase f h]
    exact Nat.le_add_left _ _

end sum

/-- Two maps with the same keys and related values. -/
structure Related (R : K → V → V → Prop) (m m' : SortedMap K V) : Prop where
  to_some : ∀ {k v}, m.get? k = some v → ∃ v', m'.get? k = some v' ∧ R k v v'
  of_some : ∀ {k v'}, m'.get? k = some v' → ∃ v, m.get? k = some v ∧ R k v v'

namespace Related

variable {R S T : K → V → V → Prop} {m m' m'' : SortedMap K V}

theorem refl (hR : ∀ k v, R k v v) (m : SortedMap K V) : Related R m m :=
  ⟨fun {k v} h => ⟨v, h, hR k v⟩, fun {k v} h => ⟨v, h, hR k v⟩⟩

theorem trans (h : Related R m m') (h' : Related S m' m'')
    (hT : ∀ k a b c, R k a b → S k b c → T k a c) : Related T m m'' := by
  refine ⟨fun {k a} ha => ?_, fun {k c} hc => ?_⟩
  · obtain ⟨b, hb, hab⟩ := h.to_some ha
    obtain ⟨c, hc, hbc⟩ := h'.to_some hb
    exact ⟨c, hc, hT k a b c hab hbc⟩
  · obtain ⟨b, hb, hbc⟩ := h'.of_some hc
    obtain ⟨a, ha, hab⟩ := h.of_some hb
    exact ⟨a, ha, hT k a b c hab hbc⟩

theorem get?_eq_none_iff (h : Related R m m') {k : K} : m'.get? k = none ↔ m.get? k = none := by
  refine ⟨fun hn => eq_none_iff_forall_ne_some.2 fun v hv => ?_,
    fun hn => eq_none_iff_forall_ne_some.2 fun v hv => ?_⟩
  · obtain ⟨v', hv', -⟩ := h.to_some hv
    cases hn.symm.trans hv'
  · obtain ⟨v', hv', -⟩ := h.of_some hv
    cases hn.symm.trans hv'

theorem erase (h : Related R m m') (k : K) : Related R (m.erase k) (m'.erase k) := by
  refine ⟨fun {k' v} hv => ?_, fun {k' v} hv => ?_⟩ <;> rw [get?_erase] at hv <;>
    split_ifs at hv with hk
  · simpa [hk] using h.to_some hv
  · simpa [hk] using h.of_some hv

theorem sum_eq {M : Type*} [AddCommMonoid M] {f : K → V → M} (h : Related R m m')
    (hf : ∀ k v v', R k v v' → f k v = f k v') : m.sum f = m'.sum f := by
  induction hn : m.size using Nat.strong_induction_on generalizing m m' with
  | _ n ih =>
    cases hfirst : m.first? with
    | none =>
      obtain rfl := first?_eq_none hfirst
      obtain rfl : m' = empty := ext_get? fun k => by
        rw [h.get?_eq_none_iff.2 (get?_empty k), get?_empty]
      rfl
    | some e =>
      have hsize := size_erase_first hfirst
      have hget := (first?_eq_some hfirst).1
      obtain ⟨v', hv', hrel⟩ := h.to_some hget
      rw [sum_erase f hget, sum_erase f hv', hf _ _ _ hrel,
        ih (m.erase e.1).size (by omega) (h.erase e.1) rfl]

end Related

section mapAccum

variable {σ : Type*} {f : σ → K → V → σ × V}

/-- **The invariant rule of a traversal.** -/
theorem mapAccum_rec {I : σ → Prop} {R : K → V → V → Prop} {m : SortedMap K V}
    (hf : ∀ s k v, (k, v) ∈ m.entries → I s → I (f s k v).1 ∧ R k v (f s k v).2)
    {s : σ} (hs : I s) : I (m.mapAccum f s).1 ∧ Related R m (m.mapAccum f s).2 := by
  obtain ⟨es, hsorted⟩ := m
  have key : ∀ (es : List (K × V)) (s : σ), (∀ s k v, (k, v) ∈ es → I s →
        I (f s k v).1 ∧ R k v (f s k v).2) → I s →
      I (mapAccumEntries f s es).1 ∧
        (∀ e ∈ es, ∃ v', (e.1, v') ∈ (mapAccumEntries f s es).2 ∧ R e.1 e.2 v') ∧
        ∀ e' ∈ (mapAccumEntries f s es).2, ∃ v, (e'.1, v) ∈ es ∧ R e'.1 v e'.2 := by
    intro es
    induction es with
    | nil => intro s _ hs; exact ⟨hs, by simp, by simp [mapAccumEntries]⟩
    | cons e es ih =>
      intro s hf hs
      obtain ⟨hI, hR⟩ := hf s e.1 e.2 mem_cons_self hs
      obtain ⟨hI', hto, hof⟩ := ih (f s e.1 e.2).1
        (fun s k v hmem => hf s k v (mem_cons_of_mem _ hmem)) hI
      refine ⟨hI', fun d hd => ?_, fun d hd => ?_⟩
      · rcases mem_cons.1 hd with rfl | hd
        · exact ⟨_, mem_cons_self, hR⟩
        · exact (hto d hd).imp fun v' hv' => ⟨mem_cons_of_mem _ hv'.1, hv'.2⟩
      · rcases mem_cons.1 hd with rfl | hd
        · exact ⟨_, mem_cons_self, hR⟩
        · exact (hof d hd).imp fun v hv => ⟨mem_cons_of_mem _ hv.1, hv.2⟩
  obtain ⟨hI, hto, hof⟩ := key es s hf hs
  refine ⟨hI, fun {k v} hv => ?_, fun {k v'} hv' => ?_⟩
  · exact (hto _ (get?_eq_some.1 hv)).imp fun v' h => ⟨get?_eq_some.2 h.1, h.2⟩
  · exact (hof _ (get?_eq_some.1 hv')).imp fun v h => ⟨get?_eq_some.2 h.1, h.2⟩

theorem mapAccum_at {J : σ → Prop} {W : V → σ → Prop} {m : SortedMap K V} {k : K}
    (hbefore : ∀ s k' v', k' ≠ k → J s → J (f s k' v').1)
    (hat : ∀ s v, m.get? k = some v → J s → W (f s k v).2 (f s k v).1)
    (hafter : ∀ w s k' v', k' ≠ k → W w s → W w (f s k' v').1) {s : σ} (hs : J s) :
    ((m.mapAccum f s).2.get? k).elim (m.get? k = none ∧ J (m.mapAccum f s).1)
      fun w => (m.get? k).isSome ∧ W w (m.mapAccum f s).1 := by
  obtain ⟨es, hsorted⟩ := m
  have after : ∀ (es : List (K × V)) (s : σ) (w : V), (∀ e ∈ es, e.1 ≠ k) → W w s →
      W w (mapAccumEntries f s es).1 := by
    intro es
    induction es with
    | nil => intro s w _ h; exact h
    | cons e es ih =>
      intro s w hne h
      exact ih _ w (fun e' he => hne e' (mem_cons_of_mem _ he))
        (hafter w s e.1 e.2 (hne e mem_cons_self) h)
  have key : ∀ (es : List (K × V)) (s : σ), es.Pairwise (fun a b => a.1 < b.1) →
      (∀ v, (es.find? fun e => e.1 = k).map Prod.snd = some v →
        (SortedMap.mk _ hsorted).get? k = some v) → J s →
      (((mapAccumEntries f s es).2.find? fun e => e.1 = k).map Prod.snd).elim
        ((es.find? fun e => e.1 = k).map Prod.snd = none ∧ J (mapAccumEntries f s es).1)
        fun w => ((es.find? fun e => e.1 = k).map Prod.snd).isSome ∧ W w (mapAccumEntries f s es).1 := by
    intro es
    induction es with
    | nil => intro s _ _ h; exact ⟨rfl, h⟩
    | cons e es ih =>
      intro s hpair hget h
      obtain ⟨hlt, hrest⟩ := pairwise_cons.1 hpair
      by_cases hk : e.1 = k
      · subst hk
        have hJw := hat s e.2 (hget e.2 (by simp)) h
        have := after es (f s e.1 e.2).1 (f s e.1 e.2).2 (fun e' he => (hlt e' he).ne') hJw
        simpa [mapAccumEntries] using this
      · have := ih (f s e.1 e.2).1 hrest (fun v hv => hget v (by simpa [hk] using hv))
          (hbefore s e.1 e.2 hk h)
        simpa [mapAccumEntries, hk] using this
  exact key es s hsorted (fun v hv => hv) hs

end mapAccum

end SortedMap
