import Mathlib
import Waitless.AesGcm

/-! # The replay cache of early data

A client may send early data once per ticket: the ticket's 12-byte nonce is looked up in a table of
`slots` entries (`checkAndRecord`), and early data is allowed when it was not there.

So a nonce is accepted a second time exactly when another nonce of its slot came in between, after
however few calls (`accepted_after_one`). -/

namespace Waitless.Tls

open Waitless.AesGcm
open List hiding Vector

section DirectMapped

variable {κ β : Type*} [DecidableEq β] (home : κ → β)

def record (t : β → κ) (k : κ) : β → κ := Function.update t (home k) k

def recordAll (t : β → κ) (ks : List κ) : β → κ := ks.foldl (record home) t

theorem recordAll_cons (t : β → κ) (k : κ) (ks : List κ) :
    recordAll home t (k :: ks) = recordAll home (record home t k) ks := rfl

theorem recordAll_append (t : β → κ) (ks ls : List κ) :
    recordAll home t (ks ++ ls) = recordAll home (recordAll home t ks) ls :=
  List.foldl_append

theorem recordAll_at {t : β → κ} {k : κ} (hk : t (home k) = k) (ks : List κ)
    (hks : ∀ m ∈ ks, home m = home k → m = k) : recordAll home t ks (home k) = k := by
  induction ks generalizing t with
  | nil => exact hk
  | cons m ks ih =>
    refine ih ?_ fun l hl => hks l (mem_cons_of_mem m hl)
    by_cases hm : home m = home k
    · rw [hks m mem_cons_self hm, record, Function.update_self]
    · rw [record, Function.update_of_ne fun e => hm e.symm, hk]

end DirectMapped

abbrev TicketNonce := Vector UInt8 12

def fromBeBytes (bs : Bytes) : ℕ := bs.foldl (fun v b => v * 256 + b.toNat) 0

theorem fromBeBytes_eq (bs : Bytes) :
    fromBeBytes bs = Nat.ofDigits 256 (bs.reverse.map UInt8.toNat) := by
  induction bs using reverseRecOn with
  | nil => rfl
  | append_singleton bs b ih =>
    have hlast : fromBeBytes (bs ++ [b]) = fromBeBytes bs * 256 + b.toNat := by
      rw [fromBeBytes, foldl_append]; rfl
    rw [hlast, ih, reverse_append, reverse_singleton, singleton_append,
      map_cons, Nat.ofDigits_cons]
    ring

theorem fromBeBytes_lt (bs : Bytes) : fromBeBytes bs < 256 ^ bs.length := by
  rw [fromBeBytes_eq]
  have hlt := Nat.ofDigits_lt_base_pow_length (b := 256) (l := bs.reverse.map UInt8.toNat)
    (by norm_num) fun d hd => by
      obtain ⟨b, -, rfl⟩ := mem_map.mp hd
      exact b.toNat_lt
  simpa using hlt

theorem fromBeBytes_injective {as bs : Bytes} (hlen : as.length = bs.length)
    (h : fromBeBytes as = fromBeBytes bs) : as = bs := by
  have hdigit : ∀ cs : Bytes, ∀ d ∈ cs.reverse.map UInt8.toNat, d < 256 := by
    intro cs d hd
    obtain ⟨b, -, rfl⟩ := mem_map.mp hd
    exact b.toNat_lt
  rw [fromBeBytes_eq, fromBeBytes_eq] at h
  have hmap := Nat.ofDigits_inj_of_len_eq (by norm_num) (by simpa using hlen)
    (hdigit as) (hdigit bs) h
  have hrev := map_injective_iff.mpr (fun x y => UInt8.toNat_inj.mp) hmap
  exact reverse_injective hrev

/-- One entry of the table: the two words a nonce is split into. -/
structure Slot where
  nonceHi : UInt64 := 0
  nonceLo : UInt32 := 0
deriving DecidableEq

namespace Slot

def ofNonce (nonce : TicketNonce) : Slot where
  nonceHi := UInt64.ofNat (fromBeBytes (nonce.toList.take 8))
  nonceLo := UInt32.ofNat (fromBeBytes (nonce.toList.drop 8))

theorem ofNonce_injective : Function.Injective ofNonce := by
  intro m n h
  have hlen (k : TicketNonce) : k.toList.length = 12 := k.length_toList
  have hhi := congrArg (fun s => s.nonceHi.toNat) h
  have hlo := congrArg (fun s => s.nonceLo.toNat) h
  have hlt (k : TicketNonce) : fromBeBytes (k.toList.take 8) < 2 ^ 64 ∧
      fromBeBytes (k.toList.drop 8) < 2 ^ 32 := by
    have htake := fromBeBytes_lt (k.toList.take 8)
    have hdrop := fromBeBytes_lt (k.toList.drop 8)
    simp only [length_take, length_drop, hlen] at htake hdrop
    exact ⟨by exact htake, by exact hdrop⟩
  simp only [ofNonce, UInt64.toNat_ofNat', UInt32.toNat_ofNat', Nat.mod_eq_of_lt (hlt m).1,
    Nat.mod_eq_of_lt (hlt n).1, Nat.mod_eq_of_lt (hlt m).2, Nat.mod_eq_of_lt (hlt n).2]
    at hhi hlo
  have htake := fromBeBytes_injective (by simp [hlen]) hhi
  have hdrop := fromBeBytes_injective (by simp [hlen]) hlo
  apply Vector.toList_inj.mp
  rw [← take_append_drop 8 m.toList, htake, hdrop, take_append_drop]

end Slot

def slots : ℕ := 4096

def Slot.idx (s : Slot) : Fin slots :=
  ⟨s.nonceHi.toNat &&& (slots - 1), Nat.lt_of_le_of_lt Nat.and_le_right (by decide)⟩

abbrev ReplayCache := Fin slots → Slot

def ReplayCache.initial : ReplayCache := fun _ => {}

def checkAndRecord (t : ReplayCache) (nonce : TicketNonce) : Bool × ReplayCache :=
  let n := Slot.ofNonce nonce
  if (t n.idx).nonceHi = n.nonceHi ∧ (t n.idx).nonceLo = n.nonceLo then (false, t)
  else (true, Function.update t n.idx n)

variable (t : ReplayCache) (calls : List TicketNonce)

theorem checkAndRecord_eq (nonce : TicketNonce) :
    checkAndRecord t nonce = (decide (t (Slot.ofNonce nonce).idx ≠ Slot.ofNonce nonce),
      record Slot.idx t (Slot.ofNonce nonce)) := by
  rw [checkAndRecord]
  generalize Slot.ofNonce nonce = n
  have hsame : ((t n.idx).nonceHi = n.nonceHi ∧ (t n.idx).nonceLo = n.nonceLo) ↔
      t n.idx = n := by
    constructor
    · rintro ⟨hhi, hlo⟩
      cases hs : t n.idx
      cases n
      simp_all
    · intro h
      rw [h]
      exact ⟨rfl, rfl⟩
  by_cases h : t n.idx = n
  · have hkeep : record Slot.idx t n = t := by
      rw [record]
      nth_rewrite 2 [← h]
      exact Function.update_eq_self ..
    rw [if_pos (hsame.mpr h), hkeep, decide_eq_false (not_not.mpr h)]
  · rw [if_neg fun e => h (hsame.mp e), decide_eq_true h, record]

def ReplayCache.after (t : ReplayCache) (calls : List TicketNonce) : ReplayCache :=
  calls.foldl (fun t nonce => (checkAndRecord t nonce).2) t

theorem after_eq :
    t.after calls = recordAll Slot.idx t (calls.map Slot.ofNonce) := by
  induction calls generalizing t with
  | nil => rfl
  | cons nonce calls ih =>
    rw [ReplayCache.after, foldl_cons]
    refine (ih _).trans ?_
    rw [checkAndRecord_eq]
    rfl

def accepted (t : ReplayCache) (calls : List TicketNonce) (nonce : TicketNonce) : Bool :=
  (checkAndRecord (t.after calls) nonce).1

theorem accepted_iff (nonce : TicketNonce) :
    accepted t calls nonce = true ↔
      t.after calls (Slot.ofNonce nonce).idx ≠ Slot.ofNonce nonce := by
  rw [accepted, checkAndRecord_eq, decide_eq_true_iff]

/-- Another nonce falls into the slot. -/
def Collides (nonce other : TicketNonce) : Prop :=
  other ≠ nonce ∧ (Slot.ofNonce other).idx = (Slot.ofNonce nonce).idx

instance (nonce other : TicketNonce) : Decidable (Collides nonce other) :=
  inferInstanceAs (Decidable (_ ∧ _))

variable {nonce : TicketNonce}

/-- A nonce reported fresh again has been evicted. -/
theorem collides_of_accepted {t : ReplayCache} {before between : List TicketNonce} (h : accepted t (before ++ nonce :: between) nonce = true) :
    ∃ other ∈ between, Collides nonce other := by
  by_contra hnone
  push Not at hnone
  refine (accepted_iff ..).mp h ?_
  rw [after_eq, map_append, map_cons, recordAll_append, recordAll_cons]
  refine recordAll_at Slot.idx (by rw [record, Function.update_self]) _ ?_
  rintro m hm hidx
  obtain ⟨other, hother, rfl⟩ := mem_map.mp hm
  by_contra hne
  exact hnone other hother ⟨fun e => hne (by rw [e]), hidx⟩

theorem accepted_of_collides
    {other : TicketNonce} (h : Collides nonce other) :
    accepted t (calls ++ [other]) nonce = true := by
  rw [accepted_iff, after_eq, map_append, recordAll_append, ← h.2]
  refine (Function.update_self ..).trans_ne fun e => h.1 (Slot.ofNonce_injective e)

def ticketNonce (identity : Bytes) : Option TicketNonce :=
  if h : 28 ≤ identity.length then
    some ⟨((identity.drop 16).take 12).toArray, by simp; omega⟩
  else none

/-- For a ticket whose binder has been verified. -/
def earlyDataAllowed (t : ReplayCache) (identity : Bytes) : Bool × ReplayCache :=
  match ticketNonce identity with
  | some nonce => checkAndRecord t nonce
  | none => (false, t)

/-- The table after a sequence of resumptions. -/
def ReplayCache.resumed (t : ReplayCache) (tickets : List Bytes) : ReplayCache :=
  tickets.foldl (fun t identity => (earlyDataAllowed t identity).2) t

theorem resumed_eq (tickets : List Bytes) :
    t.resumed tickets = t.after (tickets.filterMap ticketNonce) := by
  induction tickets generalizing t with
  | nil => rfl
  | cons identity tickets ih =>
    rw [ReplayCache.resumed, foldl_cons]
    refine (ih _).trans ?_
    rw [earlyDataAllowed]
    cases hn : ticketNonce identity with
    | none => rw [filterMap_cons_none hn]
    | some nonce => rw [filterMap_cons_some hn]; rfl

/-- Other nonces of the slot come only after `slots` others. -/
def Shielded (nonce : TicketNonce) (between : List TicketNonce) : Prop :=
  ∀ first other rest, between = first ++ other :: rest → Collides nonce other →
    slots ≤ (first.toFinset.erase nonce).card

theorem card_of_accepted {t : ReplayCache} {before between : List TicketNonce} (hshield : Shielded nonce between)
    (h : accepted t (before ++ nonce :: between) nonce = true) :
    slots ≤ (between.toFinset.erase nonce).card := by
  obtain ⟨other, hother, hcollides⟩ := collides_of_accepted h
  obtain ⟨first, rest, rfl⟩ := append_of_mem hother
  refine (hshield first other rest rfl hcollides).trans (Finset.card_le_card ?_)
  refine Finset.erase_subset_erase _ fun m hm => ?_
  rw [mem_toFinset] at hm ⊢
  exact mem_append_left _ hm

/-- **The replay window**: a nonce is fresh again only behind `slots` different ones. -/
theorem replay_window (t : ReplayCache) (before between : List TicketNonce) (nonce : TicketNonce)
    (used : List Bytes) (identity : Bytes) (since : List Bytes)
    (hshield : Shielded nonce between)
    (hticket : ∀ n ∈ ticketNonce identity, Shielded n (since.filterMap ticketNonce)) :
    (accepted t before nonce = true →
      accepted t (before ++ nonce :: between) nonce = true →
      slots ≤ (between.toFinset.erase nonce).card) ∧
    ((earlyDataAllowed (t.resumed used) identity).1 = true →
      (earlyDataAllowed (t.resumed (used ++ identity :: since)) identity).1 = true →
      ∃ n ∈ ticketNonce identity,
        slots ≤ ((since.filterMap ticketNonce).toFinset.erase n).card) := by
  refine ⟨fun _ h => card_of_accepted hshield h, fun _ h => ?_⟩
  rw [resumed_eq, earlyDataAllowed] at h
  cases hn : ticketNonce identity with
  | none => simp only [hn, Bool.false_eq_true] at h
  | some n =>
    rw [hn] at hticket
    simp only [hn, filterMap_append, filterMap_cons_some hn] at h
    exact ⟨n, rfl, card_of_accepted (hticket n rfl) h⟩

/-- They share their first eight bytes. -/
def numbered (hi : UInt8) (k : ℕ) : TicketNonce :=
  #v[0, 0, 0, 0, 0, 0, 0, hi, 0, 0, UInt8.ofNat (k / 256), UInt8.ofNat k]

theorem numbered_idx (hi : UInt8) (k : ℕ) :
    (Slot.ofNonce (numbered hi k)).idx = (Slot.ofNonce (numbered hi 0)).idx := by
  simp only [Slot.idx, Slot.ofNonce, numbered, Vector.toList, take_succ_cons, take_zero]

theorem numbered_injective (hi : UInt8) {j k : ℕ} (hj : j < slots) (hk : k < slots)
    (h : numbered hi j = numbered hi k) : j = k := by
  have hs := congrArg Vector.toList h
  simp only [slots] at hj hk
  simp [numbered, Vector.toList, ← UInt8.toNat_inj] at hs
  omega

def flood : List TicketNonce := (List.range slots).map (numbered 1)

theorem card_flood : (flood.toFinset.erase (numbered 0 1)).card = slots := by
  have hnodup : flood.Nodup := by
    refine List.Nodup.map_on ?_ nodup_range
    intro j hj k hk h
    exact numbered_injective 1 (mem_range.mp hj) (mem_range.mp hk) h
  have hout : numbered 0 1 ∉ flood.toFinset := by
    rw [mem_toFinset, flood, mem_map]
    rintro ⟨k, -, hk⟩
    have h7 := congrArg (fun v => v.toList.getD 7 0) hk
    simp [numbered, Vector.toList] at h7
  rw [Finset.erase_eq_of_notMem hout, toFinset_card_of_nodup hnodup, flood,
    length_map, length_range]

theorem not_collides_flood {other : TicketNonce} (h : other ∈ flood) :
    ¬ Collides (numbered 0 1) other := by
  obtain ⟨k, -, rfl⟩ := mem_map.mp h
  rintro ⟨-, hidx⟩
  rw [numbered_idx, numbered_idx 0] at hidx
  exact absurd hidx (by decide +kernel)

theorem shielded_flood : Shielded (numbered 0 1) (flood ++ [numbered 0 2]) := by
  intro first other rest hsplit hcollides
  have hlast : first = flood := by
    obtain ⟨mid, hfirst, hmid⟩ | ⟨mid, hflood, hmid⟩ := append_eq_append_iff.mp hsplit
    · cases mid with
      | nil => rw [hfirst, append_nil]
      | cons m mid => simp at hmid
    · cases mid with
      | nil => rw [hflood, append_nil]
      | cons m mid =>
        obtain ⟨rfl, -⟩ := cons.inj hmid
        have hmem : other ∈ flood := by rw [hflood]; simp
        exact absurd hcollides (not_collides_flood hmem)
  rw [hlast, card_flood]

theorem collides_numbered : Collides (numbered 0 1) (numbered 0 2) :=
  ⟨by decide +kernel, by rw [numbered_idx, ← numbered_idx 0 1]⟩

def ticketOf (nonce : TicketNonce) : Bytes := List.replicate 16 0 ++ nonce.toList

theorem ticketNonce_ticketOf (nonce : TicketNonce) :
    ticketNonce (ticketOf nonce) = some nonce := by
  have hlen : 28 ≤ (ticketOf nonce).length := by simp [ticketOf]
  rw [ticketNonce, dif_pos hlen]
  congr 1
  apply Vector.toList_inj.mp
  simp [ticketOf]

theorem filterMap_ticketOf (nonces : List TicketNonce) :
    (nonces.map ticketOf).filterMap ticketNonce = nonces := by
  simp [filterMap_map, ticketNonce_ticketOf]

theorem earlyDataAllowed_ticketOf (nonces : List TicketNonce)
    (nonce : TicketNonce) :
    (earlyDataAllowed (t.resumed (nonces.map ticketOf)) (ticketOf nonce)).1 =
      accepted t nonces nonce := by
  rw [resumed_eq, filterMap_ticketOf, earlyDataAllowed, ticketNonce_ticketOf]
  rfl

/-- The window at its bound. -/
theorem replay_window_flooded :
    slots ≤ ((flood ++ [numbered 0 2]).toFinset.erase (numbered 0 1)).card ∧
    ∃ n ∈ ticketNonce (ticketOf (numbered 0 1)),
      slots ≤ ((((flood ++ [numbered 0 2]).map ticketOf).filterMap ticketNonce).toFinset.erase
        n).card := by
  have hagain : accepted ReplayCache.initial
      ([] ++ numbered 0 1 :: (flood ++ [numbered 0 2])) (numbered 0 1) = true :=
    accepted_of_collides _ (numbered 0 1 :: flood) collides_numbered
  have hwindow := replay_window ReplayCache.initial [] (flood ++ [numbered 0 2]) (numbered 0 1)
    [] (ticketOf (numbered 0 1)) ((flood ++ [numbered 0 2]).map ticketOf) shielded_flood
    (by
      intro n hn
      rw [ticketNonce_ticketOf] at hn
      obtain rfl := Option.some.inj hn
      rw [filterMap_ticketOf]
      exact shielded_flood)
  refine ⟨hwindow.1 (by decide +kernel) hagain, hwindow.2 (by decide +kernel) ?_⟩
  rw [nil_append, ← map_cons, earlyDataAllowed_ticketOf]
  exact hagain

/-- A nonce, another of its slot, and the first is fresh again. -/
theorem accepted_after_one :
    accepted ReplayCache.initial [] (numbered 0 1) = true ∧
    accepted ReplayCache.initial ([] ++ numbered 0 1 :: [numbered 0 2]) (numbered 0 1) = true ∧
    ([numbered 0 2].toFinset.erase (numbered 0 1)).card < slots ∧
    (earlyDataAllowed ReplayCache.initial (ticketOf (numbered 0 1))).1 = true ∧
    (earlyDataAllowed (ReplayCache.initial.resumed
      [ticketOf (numbered 0 1), ticketOf (numbered 0 2)]) (ticketOf (numbered 0 1))).1 = true := by
  decide +kernel

end Waitless.Tls
