import Waitless.TcpMethods

/-! # The loss timer is exact

`LossParams::detect` reports the units that are lost at `now` and the next tick at which one more
will be.

The packet threshold is added with saturation, so a largest acknowledged id of `2 ^ 64 - 1` is
apart: `saturated_unit_lost`. -/

namespace Waitless.Tcp.LossParams

open List

variable (p : LossParams) (largestAcked now : ℕ)

/-- The unit `(id, sent)` counts as lost at `now`. -/
def Lost (u : ℕ × ℕ) : Prop :=
  u.1 < largestAcked ∧
    (u.1 + p.packetThreshold ≤ largestAcked ∨ ∃ tt ∈ p.timeThresholdTicks, u.2 + tt < now)

/-- The unit is not lost at `now`, but will be at the tick `dl`. -/
def Awaits (u : ℕ × ℕ) (dl : ℕ) : Prop :=
  u.1 < largestAcked ∧ ¬u.1 + p.packetThreshold ≤ largestAcked ∧
    ∃ tt ∈ p.timeThresholdTicks, now ≤ u.2 + tt ∧ dl = u.2 + tt + 1

instance (u : ℕ × ℕ) : Decidable (p.Lost largestAcked now u) :=
  inferInstanceAs (Decidable (_ ∧ (_ ∨ _)))

/-- No sum of a sent time and the time threshold saturates. -/
def Fits (units : List (ℕ × ℕ)) : Prop :=
  ∀ u ∈ units, ∀ tt ∈ p.timeThresholdTicks, u.2 + tt + 1 < 2 ^ 64

variable {p largestAcked now} {units : List (ℕ × ℕ)} {u : ℕ × ℕ} {dl : ℕ}

theorem lost_later_iff {now' : ℕ} (hnow : now ≤ now') :
    p.Lost largestAcked now' u ↔
      p.Lost largestAcked now u ∨ ∃ dl ≤ now', p.Awaits largestAcked now u dl := by
  constructor
  · rintro ⟨hid, hpkt | ⟨tt, htt, hold⟩⟩
    · exact .inl ⟨hid, .inl hpkt⟩
    · by_cases hlost : p.Lost largestAcked now u
      · exact .inl hlost
      · have hyoung : now ≤ u.2 + tt := by
          by_contra h
          exact hlost ⟨hid, .inr ⟨tt, htt, by omega⟩⟩
        exact .inr ⟨u.2 + tt + 1, hold, hid, fun h => hlost ⟨hid, .inl h⟩, tt, htt, hyoung, rfl⟩
  · rintro (⟨hid, hpkt | ⟨tt, htt, hold⟩⟩ | ⟨dl, hdl, hid, -, tt, htt, -, rfl⟩)
    · exact ⟨hid, .inl hpkt⟩
    · exact ⟨hid, .inr ⟨tt, htt, hold.trans_le hnow⟩⟩
    · exact ⟨hid, .inr ⟨tt, htt, hdl⟩⟩

theorem Awaits.not_lost (h : p.Awaits largestAcked now u dl) : ¬p.Lost largestAcked now u := by
  obtain ⟨-, hpkt, tt, htt, hyoung, -⟩ := h
  rintro ⟨-, h | ⟨tt', htt', hold⟩⟩
  · exact hpkt h
  · obtain rfl : tt = tt' := Option.mem_unique htt htt'
    omega

theorem Awaits.unique {dl' : ℕ} (h : p.Awaits largestAcked now u dl)
    (h' : p.Awaits largestAcked now u dl') : dl = dl' := by
  obtain ⟨-, -, tt, htt, -, rfl⟩ := h
  obtain ⟨-, -, tt', htt', -, rfl⟩ := h'
  rw [Option.mem_unique htt htt']

variable {acc : Option ℕ}

variable (hacked : largestAcked < u64Max)
include hacked

theorem detect_cons (hfits : p.Fits (u :: units)) (now : ℕ)
    (acc : Option ℕ) :
    (largestAcked ≤ u.1 ∧ p.detect largestAcked now (u :: units) acc = ([], acc)) ∨
    (p.Lost largestAcked now u ∧ p.detect largestAcked now (u :: units) acc =
      (u.1 :: (p.detect largestAcked now units acc).1, (p.detect largestAcked now units acc).2)) ∨
    (∃ dl, p.Awaits largestAcked now u dl ∧ p.detect largestAcked now (u :: units) acc =
      p.detect largestAcked now units (some (acc.elim dl (min · dl)))) ∨
    (¬p.Lost largestAcked now u ∧ (∀ dl, ¬p.Awaits largestAcked now u dl) ∧
      p.detect largestAcked now (u :: units) acc = p.detect largestAcked now units acc) := by
  obtain ⟨id, sent⟩ := u
  simp only [detect]
  rw [detectBy]
  by_cases hid : largestAcked ≤ id
  · rw [if_pos hid]
    exact .inl ⟨hid, rfl⟩
  rw [if_neg hid]
  rw [not_le] at hid
  by_cases hpkt : id + p.packetThreshold ≤ largestAcked
  · rw [if_pos (by omega)]
    exact .inr (.inl ⟨⟨hid, .inl hpkt⟩, rfl⟩)
  rw [if_neg (by omega)]
  cases htime : p.timeThresholdTicks with
  | none =>
    refine .inr (.inr (.inr ⟨?_, ?_, rfl⟩))
    · rintro ⟨-, h | ⟨tt, htt, -⟩⟩
      · exact hpkt h
      · cases htime.symm.trans htt
    · rintro dl ⟨-, -, tt, htt, -⟩
      cases htime.symm.trans htt
  | some tt =>
    dsimp only
    by_cases hold : tt < now - sent
    · rw [if_pos hold]
      exact .inr (.inl ⟨⟨hid, .inr ⟨tt, htime, by omega⟩⟩, rfl⟩)
    · have hdl : min (min (sent + tt) u64Max + 1) u64Max = sent + tt + 1 := by
        have := hfits (id, sent) mem_cons_self tt htime
        unfold u64Max
        omega
      rw [if_neg hold, hdl]
      exact .inr (.inr (.inl ⟨_, ⟨hid, hpkt, tt, htime, by omega, rfl⟩, rfl⟩))

theorem detect_lost (hsorted : units.Pairwise (·.1 ≤ ·.1))
    (hfits : p.Fits units) :
    (p.detect largestAcked now units acc).1 =
      (units.filter fun u => p.Lost largestAcked now u).map Prod.fst := by
  induction units generalizing acc with
  | nil => rfl
  | cons u units ih =>
    obtain ⟨hle, hsorted⟩ := pairwise_cons.mp hsorted
    have hfits' := (forall_mem_cons.mp hfits).2
    rcases detect_cons hacked hfits now acc with ⟨hid, heq⟩ | ⟨h, heq⟩ | ⟨dl, h, heq⟩ | ⟨h, -, heq⟩
    · -- the walk stops here; the ids behind are no smaller
      rw [heq, filter_eq_nil_iff.mpr]
      · rfl
      · intro v hv
        have hv' : u.1 ≤ v.1 := by
          rcases mem_cons.mp hv with rfl | hv
          · exact le_rfl
          · exact hle v hv
        simpa [Lost] using fun h : v.1 < largestAcked => absurd (hid.trans hv') (not_le.mpr h)
    · rw [heq, ih hsorted hfits', filter_cons_of_pos (by simpa using h), map_cons]
    · rw [heq, ih hsorted hfits', filter_cons_of_neg (by simpa using h.not_lost)]
    · rw [heq, ih hsorted hfits', filter_cons_of_neg (by simpa using h)]

theorem detect_deadline_le (hsorted : units.Pairwise (·.1 ≤ ·.1))
    (hfits : p.Fits units) {a : ℕ} (h : acc = some a ∨ ∃ u ∈ units, p.Awaits largestAcked now u a) :
    ∃ d ≤ a, (p.detect largestAcked now units acc).2 = some d := by
  induction units generalizing acc a with
  | nil => exact ⟨a, le_rfl, h.resolve_right (by simp)⟩
  | cons u units ih =>
    obtain ⟨hle, hsorted⟩ := pairwise_cons.mp hsorted
    have hfits' := (forall_mem_cons.mp hfits).2
    simp only [mem_cons, exists_eq_or_imp] at h
    rcases detect_cons hacked hfits now acc with ⟨hid, heq⟩ | ⟨hu, heq⟩ | ⟨dl, hu, heq⟩ | ⟨-, hu, heq⟩
    · rw [heq]
      refine ⟨a, le_rfl, h.resolve_right ?_⟩
      rintro (hv | ⟨v, hv, hawaits⟩)
      · exact absurd hv.1 (not_lt.mpr hid)
      · exact absurd hawaits.1 (not_lt.mpr (hid.trans (hle v hv)))
    · rw [heq]
      exact ih hsorted hfits' (h.imp_right fun h => h.resolve_left fun hv => hv.not_lost hu)
    · rw [heq]
      rcases h with rfl | hv | h
      · obtain ⟨d, hd, heq⟩ := ih hsorted hfits' (.inl rfl)
        exact ⟨d, hd.trans (min_le_left _ _), heq⟩
      · obtain ⟨d, hd, heq⟩ :=
          ih hsorted hfits' (.inl (rfl : some (acc.elim dl (min · dl)) = _))
        obtain rfl := hv.unique hu
        refine ⟨d, hd.trans ?_, heq⟩
        cases acc with
        | none => exact le_rfl
        | some a => exact min_le_right _ _
      · exact ih hsorted hfits' (.inr h)
    · rw [heq]
      exact ih hsorted hfits' (h.imp_right fun h => h.resolve_left (hu a))

theorem exists_awaits_of_deadline (hfits : p.Fits units) {d : ℕ}
    (h : (p.detect largestAcked now units acc).2 = some d) :
    acc = some d ∨ ∃ u ∈ units, p.Awaits largestAcked now u d := by
  induction units generalizing acc with
  | nil => exact .inl h
  | cons u units ih =>
    have hfits' := (forall_mem_cons.mp hfits).2
    simp only [mem_cons, exists_eq_or_imp]
    rcases detect_cons hacked hfits now acc with ⟨-, heq⟩ | ⟨-, heq⟩ | ⟨dl, hu, heq⟩ | ⟨-, -, heq⟩
    · rw [heq] at h
      exact .inl h
    · rw [heq] at h
      exact (ih hfits' h).imp_right .inr
    · rw [heq] at h
      rcases ih hfits' h with hmin | hv
      · have hd : acc.elim dl (min · dl) = d := Option.some_injective _ hmin
        cases acc with
        | none => exact .inr (.inl (hd ▸ hu))
        | some a =>
          rcases min_choice a dl with ha | ha
          · exact .inl (congrArg some (ha.symm.trans hd))
          · exact .inr (.inl ((ha.symm.trans hd) ▸ hu))
      · exact .inr (.inr hv)
    · rw [heq] at h
      exact (ih hfits' h).imp_right .inr

theorem detect_eq_of_no_deadline
    (hsorted : units.Pairwise (·.1 ≤ ·.1)) (hfits : p.Fits units) {now' : ℕ} (hnow : now ≤ now')
    (hquiet : ∀ u ∈ units, ∀ dl, p.Awaits largestAcked now u dl → now' < dl) :
    (p.detect largestAcked now' units none).1 = (p.detect largestAcked now units none).1 := by
  rw [detect_lost hacked hsorted hfits, detect_lost hacked hsorted hfits]
  congr 1
  refine filter_congr fun u hu => ?_
  rw [decide_eq_decide, lost_later_iff hnow]
  refine ⟨fun h => h.resolve_right ?_, .inl⟩
  rintro ⟨dl, hdl, h⟩
  exact absurd (hquiet u hu dl h) (not_lt.mpr hdl)

omit hacked

/-- **The loss timer is exact**: what the scan reports, and when it reports more. -/
theorem loss_timer_exact (p : LossParams) (largestAcked now : ℕ) (units : List (ℕ × ℕ))
    (hacked : largestAcked < u64Max) (hsorted : units.Pairwise (·.1 ≤ ·.1)) (hfits : p.Fits units) :
    (p.detect largestAcked now units none).1 =
        (units.filter fun u => p.Lost largestAcked now u).map Prod.fst ∧
      (∀ d, (p.detect largestAcked now units none).2 = some d →
        now < d ∧
        (∀ now', now ≤ now' → now' < d →
          (p.detect largestAcked now' units none).1 = (p.detect largestAcked now units none).1) ∧
        (p.detect largestAcked now units none).1.Sublist (p.detect largestAcked d units none).1 ∧
        (p.detect largestAcked now units none).1.length < (p.detect largestAcked d units none).1.length) ∧
      ((p.detect largestAcked now units none).2 = none → ∀ now', now ≤ now' →
        (p.detect largestAcked now' units none).1 = (p.detect largestAcked now units none).1) := by
  refine ⟨detect_lost hacked hsorted hfits, fun d hd => ?_, fun hnone now' hnow => ?_⟩
  · obtain ⟨u, hu, hawaits⟩ := (exists_awaits_of_deadline hacked hfits hd).resolve_left (by simp)
    have hlt : now < d := by
      obtain ⟨-, -, tt, -, hyoung, rfl⟩ := hawaits
      omega
    refine ⟨hlt, fun now' hnow hbefore => ?_, ?_⟩
    · refine detect_eq_of_no_deadline hacked hsorted hfits hnow fun v hv dl h => ?_
      obtain ⟨d', hd', heq⟩ := detect_deadline_le hacked hsorted hfits (.inr ⟨v, hv, h⟩)
      obtain rfl : d = d' := Option.some_injective _ (hd.symm.trans heq)
      exact hbefore.trans_le hd'
    · rw [detect_lost hacked hsorted hfits, detect_lost hacked hsorted hfits]
      have hmore : p.Lost largestAcked d u := (lost_later_iff hlt.le).mpr (.inr ⟨d, le_rfl, hawaits⟩)
      have hsub : (units.filter fun u => p.Lost largestAcked now u).Sublist
          (units.filter fun u => p.Lost largestAcked d u) := by
        apply monotone_filter_right
        intro v hv
        simpa using (lost_later_iff hlt.le).mpr (.inl (by simpa using hv))
      refine ⟨hsub.map _, ?_⟩
      rw [length_map, length_map]
      refine lt_of_le_of_ne hsub.length_le fun heq => hawaits.not_lost ?_
      have hmem : u ∈ units.filter fun u => p.Lost largestAcked d u :=
        mem_filter.mpr ⟨hu, by simpa using hmore⟩
      rw [← hsub.eq_of_length heq] at hmem
      simpa using (mem_filter.mp hmem).2
  · refine detect_eq_of_no_deadline hacked hsorted hfits hnow fun u hu dl h => ?_
    obtain ⟨d, -, hd⟩ := detect_deadline_le hacked hsorted hfits (.inr ⟨u, hu, h⟩)
    rw [hnone] at hd
    cases hd

/-- Two units inside the thresholds, and the deadline of the older. -/
theorem loss_timer_exact_pending :
    (detect ⟨3, some 81250⟩ 3 1060000 [(1, 1000000), (2, 1050000)] none).2 = some 1081251 ∧
      (detect ⟨3, some 81250⟩ 3 1060000 [(1, 1000000), (2, 1050000)] none).1.length <
        (detect ⟨3, some 81250⟩ 3 1081251 [(1, 1000000), (2, 1050000)] none).1.length :=
  ⟨rfl, ((loss_timer_exact ⟨3, some 81250⟩ 3 1060000 [(1, 1000000), (2, 1050000)] (by decide)
    (by decide) (by simp [Fits])).2.1 1081251 rfl).2.2.2⟩

/-- The packet threshold saturates, and a unit within it is reported. -/
theorem saturated_unit_lost :
    (detect ⟨u64Max, none⟩ u64Max 0 [(5, 0)] none).1 = [5] ∧
      ¬Lost ⟨u64Max, none⟩ u64Max 0 (5, 0) := by
  decide

end Waitless.Tcp.LossParams
