import Waitless.QuicRecvStream
import Waitless.Runs

/-! # Reassembly of CRYPTO frames

The model of `RxBuf` (`tls.rs`): the contiguous handshake bytes, and the chunks past a gap under
their start offsets, within a budget of bytes and one of entries.

Where no shorter chunk replaces a longer one, what was drained and what is contiguous are the
longest prefix that the frames cover (`crypto_reassembly_exact`). -/

namespace Waitless.Quic

open Waitless.AesGcm Finset List RecvStream SortedMap

def pendingByteCap : ℕ := 64 * 1024

def pendingEntryCap : ℕ := 256

/-- The CRYPTO bytes of one level. -/
structure RxBuf where
  contiguous : Bytes := []
  /-- The bytes ever delivered into `contiguous`. -/
  consumed : ℕ := 0
  pending : SortedMap ℕ Bytes := .empty

namespace RxBuf

open RecvStream (At Spans withFrame Assembled Gapped)

def pendingBytes (rx : RxBuf) : ℕ := rx.pending.sum fun _ v => v.length

/-- Folds pending entries in; each turn removes one. -/
def foldPending : ℕ → RxBuf → RxBuf
  | 0, rx => rx
  | fuel + 1, rx =>
    match rx.pending.first? with
    | none => rx
    | some (nextOff, v) =>
      if nextOff > rx.consumed then rx
      else
        let rx := { rx with pending := rx.pending.erase nextOff }
        let skip := rx.consumed - nextOff
        if skip < v.length then
          foldPending fuel { rx with
            contiguous := rx.contiguous ++ v.drop skip
            consumed := rx.consumed + (v.length - skip) }
        else foldPending fuel rx

def stash (rx : RxBuf) (offset : ℕ) (data : Bytes) : RxBuf :=
  let fitsBytes := rx.pendingBytes + data.length ≤ pendingByteCap
  let fitsEntries := rx.pending.contains offset ∨ rx.pending.size < pendingEntryCap
  if fitsBytes ∧ fitsEntries then { rx with pending := rx.pending.insert offset data } else rx

def ingest (rx : RxBuf) (offset : ℕ) (data : Bytes) : RxBuf :=
  if data = [] then rx
  else if min (offset + data.length) (2 ^ 64 - 1) ≤ rx.consumed then rx
  else
    let (offset, data) :=
      if offset < rx.consumed then (rx.consumed, data.drop (rx.consumed - offset))
      else (offset, data)
    if offset = rx.consumed then
      foldPending rx.pending.size { rx with
        contiguous := rx.contiguous ++ data
        consumed := rx.consumed + data.length }
    else rx.stash offset data

/-- `drain(..n)`, for an `n` within the buffer. -/
def drain (rx : RxBuf) (n : ℕ) : RxBuf := { rx with contiguous := rx.contiguous.drop n }

def view (rx : RxBuf) : RecvStream :=
  { buffer := rx.contiguous, offset := rx.consumed, gapBuffer := rx.pending }

theorem view_foldPending (fuel : ℕ) (rx : RxBuf) (produced : Bool) :
    (foldPending fuel rx).view = (RecvStream.foldGaps fuel rx.view produced).1 := by
  induction fuel generalizing rx produced with
  | zero => rfl
  | succ fuel ih =>
    rw [foldPending, foldGaps, show rx.view.gapBuffer = rx.pending from rfl]
    cases rx.pending.first? with
    | none => rfl
    | some e =>
      obtain ⟨nextOff, v⟩ := e
      dsimp only
      rw [show rx.view.offset = rx.consumed from rfl]
      split_ifs with hpast hskip
      · rfl
      · rw [ih _ true, length_drop]
        rfl
      · rw [ih _ produced]
        rfl

variable {S : Bytes} {cov : ℕ → Prop} {drained : Bytes} {rx : RxBuf} {offset : ℕ} {data : Bytes}

theorem at_unique {v : Bytes} (h : At S offset data) (hv : At S offset v)
    (hlen : v.length = data.length) : v = data := by
  rw [prefix_iff_eq_take.mp h, prefix_iff_eq_take.mp hv, hlen]

theorem view_stash (h : Assembled S cov drained rx.view) (hat : At S offset data) (hne : data ≠ [])
    (hbytes : rx.pendingBytes + data.length ≤ pendingByteCap)
    (hentries : rx.pending.contains offset ∨ rx.pending.size < pendingEntryCap)
    (hlonger : ∀ v, rx.pending.get? offset = some v → v.length ≤ data.length) :
    (rx.stash offset data).view = rx.view.stage offset data := by
  have hstash : rx.stash offset data = { rx with pending := rx.pending.insert offset data } :=
    if_pos ⟨hbytes, hentries⟩
  rw [hstash, stage, if_neg hne]
  split_ifs with hkeep
  · rfl
  · cases hget : rx.view.gapBuffer.get? offset with
    | none => simp [hget] at hkeep
    | some v =>
      have hle := hlonger v hget
      rw [hget] at hkeep
      obtain rfl : v = data := at_unique hat (h.staged offset v hget).1
        (le_antisymm hle (by simpa using hkeep))
      have hsame : rx.pending.insert offset v = rx.pending := by
        refine ext_get? fun k => ?_
        rw [get?_insert]
        split_ifs with hk
        · rw [hk]
          exact hget.symm
        · rfl
      rw [hsame]

/-- `rx'` holds no chunk that `rx` does not hold. -/
structure Shrunk (rx rx' : RxBuf) : Prop where
  bytes_le : rx'.pendingBytes ≤ rx.pendingBytes
  held : ∀ off v, rx'.pending.get? off = some v → rx.pending.get? off = some v

theorem Shrunk.trans {rx' rx'' : RxBuf} (h : Shrunk rx rx') (h' : Shrunk rx' rx'') : Shrunk rx rx'' :=
  ⟨h'.bytes_le.trans h.bytes_le, fun off v hget => h.held off v (h'.held off v hget)⟩

theorem shrunk_erase (rx : RxBuf) (off : ℕ) (contiguous : Bytes) (consumed : ℕ) :
    Shrunk rx ⟨contiguous, consumed, rx.pending.erase off⟩ := by
  refine ⟨sum_erase_le _ _ _, fun off' v hget => ?_⟩
  rw [get?_erase] at hget
  split_ifs at hget
  exact hget

theorem shrunk_foldPending (fuel : ℕ) (rx : RxBuf) : Shrunk rx (foldPending fuel rx) := by
  induction fuel generalizing rx with
  | zero => exact ⟨le_rfl, fun _ _ h => h⟩
  | succ fuel ih =>
    rw [foldPending]
    cases rx.pending.first? with
    | none => exact ⟨le_rfl, fun _ _ h => h⟩
    | some e =>
      obtain ⟨nextOff, v⟩ := e
      dsimp only
      split_ifs
      · exact ⟨le_rfl, fun _ _ h => h⟩
      · exact (shrunk_erase rx nextOff _ _).trans (ih _)
      · exact (shrunk_erase rx nextOff _ _).trans (ih _)

theorem size_lt {offs : Finset ℕ} (hkeys : ∀ off v, rx.pending.get? off = some v → off ∈ offs)
    (hoff : offset ∈ offs) (hnew : rx.pending.get? offset = none) : rx.pending.size < offs.card := by
  have hnodup : (rx.pending.entries.map Prod.fst).Nodup :=
    pairwise_map.mpr (rx.pending.sorted.imp fun h => h.ne)
  have hsub : (rx.pending.entries.map Prod.fst).toFinset ⊂ offs := by
    rw [ssubset_iff_of_subset]
    · refine ⟨offset, hoff, fun hmem => ?_⟩
      obtain ⟨e, he, rfl⟩ := mem_map.mp (mem_toFinset.mp hmem)
      exact get?_eq_none.mp hnew e.2 he
    · intro k hk
      obtain ⟨e, he, rfl⟩ := mem_map.mp (mem_toFinset.mp hk)
      exact hkeys e.1 e.2 (get?_eq_some.mpr he)
  have hcard := card_lt_card hsub
  rwa [toFinset_card_of_nodup hnodup, length_map] at hcard

/-- A call on the buffer. -/
inductive Call where
  | ingest (offset : ℕ) (data : Bytes)
  | drain (n : ℕ)

namespace Call

def Agrees (S : Bytes) : Call → Prop
  | .ingest off data => At S off data
  | .drain _ => True

def offset? : Call → Option ℕ
  | .ingest off _ => some off
  | .drain _ => none

def size : Call → ℕ
  | .ingest _ data => data.length
  | .drain _ => 0

end Call

def offsets (calls : List Call) : Finset ℕ := (calls.filterMap Call.offset?).toFinset

def totalBytes (calls : List Call) : ℕ := (calls.map Call.size).sum

structure Reader where
  rx : RxBuf := {}
  drained : Bytes := []

def Reader.step (r : Reader) : Call → Reader
  | .ingest off data => { r with rx := r.rx.ingest off data }
  | .drain n => ⟨r.rx.drain n, r.drained ++ r.rx.contiguous.take n⟩

/-- No chunk gets shorter, and drains stay within the buffer. -/
def Keeps (r : Reader) : Call → Prop
  | .ingest off data => data = [] ∨ ∀ v ∈ r.rx.pending.get? off, v.length ≤ data.length
  | .drain n => n ≤ r.rx.contiguous.length

instance (r : Reader) : ∀ c, Decidable (Keeps r c)
  | .ingest off data =>
    inferInstanceAs (Decidable (data = [] ∨ ∀ v ∈ r.rx.pending.get? off, v.length ≤ data.length))
  | .drain n => inferInstanceAs (Decidable (n ≤ r.rx.contiguous.length))

def Covered (calls : List Call) (i : ℕ) : Prop :=
  ∃ off data, Call.ingest off data ∈ calls ∧ Spans off data i

/-- At most `total` bytes are pending, at offsets in `offs`. -/
structure Good (S : Bytes) (cov : ℕ → Prop) (offs : Finset ℕ) (total : ℕ) (r : Reader) : Prop where
  assembled : Assembled S cov r.drained r.rx.view
  gapped : r.rx.view.Gapped
  keys : ∀ off v, r.rx.pending.get? off = some v → off ∈ offs
  bytes_le : r.rx.pendingBytes ≤ total

variable {offs : Finset ℕ} {total : ℕ} {r : Reader}

theorem Good.mono {offs' : Finset ℕ} {total' : ℕ} (h : Good S cov offs total r) (hoffs : offs ⊆ offs')
    (htotal : total ≤ total') : Good S cov offs' total' r :=
  ⟨h.assembled, h.gapped, fun off v hget => hoffs (h.keys off v hget), h.bytes_le.trans htotal⟩

/-- **A frame is taken in** within the budgets. -/
theorem Good.ingest (h : Good S cov offs total r) (hat : At S offset data)
    (hkeeps : Keeps r (.ingest offset data)) (hcard : (insert offset offs).card ≤ pendingEntryCap)
    (hbytes : total + data.length ≤ pendingByteCap) (hshort : S.length < 2 ^ 64) :
    Good S (withFrame cov offset data) (insert offset offs) (total + data.length)
      (r.step (.ingest offset data)) := by
  obtain ⟨ha, hg, hkeys, hle⟩ := h
  show Good S _ _ _ { r with rx := r.rx.ingest offset data }
  have hkeys' : ∀ off v, r.rx.pending.get? off = some v → off ∈ insert offset offs :=
    fun off v hget => mem_insert_of_mem (hkeys off v hget)
  by_cases hnil : data = []
  · have hsame : r.rx.ingest offset data = r.rx := if_pos hnil
    rw [hsame]
    refine ⟨ha.frame_kept fun i hi => ?_, hg, hkeys', by dsimp only; omega⟩
    rw [Spans, hnil, length_nil] at hi
    omega
  have hend := hat.le_length hnil
  have hmin : min (offset + data.length) (2 ^ 64 - 1) = offset + data.length := by omega
  by_cases hstale : offset + data.length ≤ r.rx.consumed
  · have hsame : r.rx.ingest offset data = r.rx := by
      rw [RxBuf.ingest, if_neg hnil, hmin, if_pos hstale]
    rw [hsame]
    exact ⟨ha.frame_kept fun i hi => .inl (lt_of_lt_of_le hi.2 hstale), hg, hkeys', by dsimp only; omega⟩
  by_cases hpast : r.rx.consumed < offset
  · -- ahead of order: the chunk fits both budgets
    have hsame : r.rx.ingest offset data = r.rx.stash offset data := by
      rw [RxBuf.ingest, if_neg hnil, hmin, if_neg hstale, if_neg (by omega)]
      exact if_neg (by omega)
    have hentries : r.rx.pending.contains offset ∨ r.rx.pending.size < pendingEntryCap := by
      cases hget : r.rx.pending.get? offset with
      | none => exact .inr ((size_lt hkeys' (mem_insert_self _ _) hget).trans_le hcard)
      | some v => exact .inl (contains_iff.mpr ⟨v, hget⟩)
    have hfits : r.rx.pendingBytes + data.length ≤ pendingByteCap := by omega
    have hview := view_stash ha hat hnil hfits hentries fun v hget =>
      hkeeps.resolve_left hnil v hget
    obtain ⟨ha', hg'⟩ := ha.stage hg hat hpast
    rw [hsame]
    refine ⟨by rw [hview]; exact ha', by rw [hview]; exact hg', fun off v hget => ?_, ?_⟩
    · rw [RxBuf.stash, if_pos ⟨hfits, hentries⟩, get?_insert] at hget
      split_ifs at hget with hk
      · exact hk ▸ mem_insert_self _ _
      · exact hkeys' off v hget
    · have hsum := sum_insert_add (fun _ v => v.length) r.rx.pending offset data
      rw [RxBuf.stash, if_pos ⟨hfits, hentries⟩]
      unfold pendingBytes at hle ⊢
      dsimp only
      omega
  · -- the frame reaches the contiguous end
    have htrim : (if offset < r.rx.consumed then (r.rx.consumed, data.drop (r.rx.consumed - offset))
        else (offset, data)) = (r.rx.consumed, data.drop (r.rx.consumed - offset)) := by
      split_ifs with hlt
      · rfl
      · obtain rfl : offset = r.rx.consumed := by omega
        rw [Nat.sub_self, drop_zero]
    set joined : RxBuf := { r.rx with
      contiguous := r.rx.contiguous ++ data.drop (r.rx.consumed - offset)
      consumed := r.rx.consumed + (data.drop (r.rx.consumed - offset)).length } with hjoined
    have hsame : r.rx.ingest offset data = foldPending r.rx.pending.size joined := by
      rw [RxBuf.ingest, if_neg hnil, hmin, if_neg hstale, htrim]
      exact if_pos rfl
    have happ := ha.append hat (not_lt.mp hpast)
    obtain ⟨ha', hg', -, -⟩ := foldGaps_assembled r.rx.pending.size happ le_rfl true
    have hview : (foldPending r.rx.pending.size joined).view =
        (foldGaps r.rx.pending.size joined.view true).1 := view_foldPending _ _ _
    have hshrunk := shrunk_foldPending r.rx.pending.size joined
    rw [hsame]
    refine ⟨by rw [hview]; exact ha', by rw [hview]; exact hg', fun off v hget => ?_, ?_⟩
    · exact hkeys' off v (hshrunk.held off v hget)
    · have := hshrunk.bytes_le.trans hle
      dsimp only
      omega

theorem Good.drain (h : Good S cov offs total r) (n : ℕ) :
    Good S cov offs total (r.step (.drain n)) := by
  obtain ⟨ha, hg, hkeys, hle⟩ := h
  refine ⟨⟨?_, ha.le_length, ha.below, ha.staged, ha.kept⟩, hg, hkeys, hle⟩
  show r.drained ++ r.rx.contiguous.take n ++ r.rx.contiguous.drop n = S.take r.rx.consumed
  rw [append_assoc, take_append_drop]
  exact ha.delivered

theorem good_init (S : Bytes) : Good S (fun _ => False) ∅ 0 {} where
  assembled := ⟨by simp [view], Nat.zero_le _, fun i hi => absurd hi (Nat.not_lt_zero i),
    fun off v hget => by simp [view] at hget, fun i hi => hi.elim⟩
  gapped := fun off v hget => by simp [view] at hget
  keys := fun off v hget => by simp at hget
  bytes_le := by simp [pendingBytes]

theorem offsets_append (calls : List Call) (c : Call) :
    offsets (calls ++ [c]) = offsets calls ∪ c.offset?.toFinset := by
  unfold offsets
  rw [filterMap_append, toFinset_append]
  cases c <;> rfl

theorem totalBytes_append (calls : List Call) (c : Call) :
    totalBytes (calls ++ [c]) = totalBytes calls + c.size := by
  simp [totalBytes]

theorem covered_append (calls : List Call) (off : ℕ) (data : Bytes) :
    Covered (calls ++ [.ingest off data]) = withFrame (Covered calls) off data := by
  funext i
  simp only [Covered, withFrame, List.mem_append, List.mem_singleton, Call.ingest.injEq, eq_iff_iff]
  constructor
  · rintro ⟨o, d, hmem | ⟨rfl, rfl⟩, hspan⟩
    · exact .inl ⟨o, d, hmem, hspan⟩
    · exact .inr hspan
  · rintro (⟨o, d, hmem, hspan⟩ | hspan)
    · exact ⟨o, d, .inl hmem, hspan⟩
    · exact ⟨off, data, .inr ⟨rfl, rfl⟩, hspan⟩

theorem good_run (hshort : S.length < 2 ^ 64) (calls : List Call) (hagree : ∀ c ∈ calls, c.Agrees S)
    (hoffs : (offsets calls).card ≤ pendingEntryCap) (hbytes : totalBytes calls ≤ pendingByteCap)
    (hkeeps : Runs.Along Reader.step Keeps {} calls) :
    Good S (Covered calls) (offsets calls) (totalBytes calls) (calls.foldl Reader.step {}) := by
  induction calls using reverseRecOn with
  | nil =>
    have hnone : Covered [] = fun _ => False := by
      funext i
      simp [Covered]
    rw [hnone]
    exact good_init S
  | append_singleton calls c ih =>
    rw [offsets_append] at hoffs ⊢
    rw [totalBytes_append] at hbytes ⊢
    obtain ⟨hkeeps, hlast, -⟩ := Runs.along_append.mp hkeeps
    have hrest := ih (fun d hd => hagree d (mem_append_left _ hd))
      ((card_le_card subset_union_left).trans hoffs) (by omega) hkeeps
    have hc := hagree c (mem_append_right _ mem_cons_self)
    rw [foldl_append]
    cases c with
    | ingest off data =>
      have hinsert : offsets calls ∪ (Call.ingest off data).offset?.toFinset =
          insert off (offsets calls) := by
        rw [Finset.insert_eq, Finset.union_comm]
        rfl
      rw [hinsert] at hoffs ⊢
      rw [covered_append]
      exact hrest.ingest hc hlast hoffs hbytes hshort
    | drain n =>
      have hcov : Covered (calls ++ [.drain n]) = Covered calls := by
        funext i
        simp [Covered]
      rw [hcov]
      exact (hrest.drain n).mono subset_union_left (Nat.le_add_right _ _)

/-- **CRYPTO reassembly forgets nothing** while no shorter chunk replaces a pending one. -/
theorem crypto_reassembly_exact (S : Bytes) (hS : S.length ≤ pendingByteCap) (calls : List Call)
    (hagree : ∀ c ∈ calls, c.Agrees S) (hoffs : (offsets calls).card ≤ pendingEntryCap)
    (hbytes : totalBytes calls ≤ pendingByteCap) (hkeeps : Runs.Along Reader.step Keeps {} calls) :
    let r := calls.foldl Reader.step {}
    r.drained ++ r.rx.contiguous = S.take r.rx.consumed ∧
      IsGreatest {k | k ≤ S.length ∧ ∀ i < k, Covered calls i} r.rx.consumed := by
  have hshort : S.length < 2 ^ 64 := hS.trans_lt (by decide)
  obtain ⟨ha, hg, -, -⟩ := good_run hshort calls hagree hoffs hbytes hkeeps
  refine ⟨ha.delivered, ⟨ha.le_length, ha.below⟩, fun k hk => ?_⟩
  by_contra hlt
  rcases ha.kept _ (hk.2 _ (not_le.mp hlt)) with hbefore | ⟨off, v, hget, hlo, -⟩
  · exact lt_irrefl _ hbefore
  · exact absurd (hg off v hget) (not_lt.mpr hlo)

/-- Overlapping chunks out of order, with a drain between. -/
theorem crypto_reassembly_exact_reordered :
    let calls := [Call.ingest 3 [4, 5], .ingest 3 [4, 5, 6], .ingest 0 [1], .drain 1, .ingest 0 [1, 2, 3, 4]]
    let r := calls.foldl Reader.step {}
    r.drained ++ r.rx.contiguous = [1, 2, 3, 4, 5, 6] ∧
      IsGreatest {k | k ≤ 6 ∧ ∀ i < k, Covered calls i} r.rx.consumed := by
  intro calls r
  obtain ⟨h, hgreatest⟩ := crypto_reassembly_exact [1, 2, 3, 4, 5, 6] (by decide) calls
    (by simp [calls, Call.Agrees, At]) (by decide) (by decide) (by decide)
  exact ⟨h, hgreatest⟩

/-- A shorter chunk replaces a longer one, and two bytes are gone. -/
theorem shorter_chunk_forgets :
    let S : Bytes := [1, 2, 3, 4, 5, 6]
    let calls := [Call.ingest 2 [3, 4, 5, 6], .ingest 2 [3, 4], .ingest 0 [1, 2]]
    let r := calls.foldl Reader.step {}
    S.length ≤ pendingByteCap ∧ (∀ c ∈ calls, c.Agrees S) ∧ (offsets calls).card ≤ pendingEntryCap ∧
      totalBytes calls ≤ pendingByteCap ∧ (∀ i < 6, Covered calls i) ∧
      r.drained ++ r.rx.contiguous = [1, 2, 3, 4] := by
  refine ⟨by decide, by simp [Call.Agrees, At], by decide, by decide, fun i hi => ?_, by decide⟩
  by_cases hlow : i < 2
  · exact ⟨0, [1, 2], by simp, Nat.zero_le i, hlow⟩
  · exact ⟨2, [3, 4, 5, 6], by simp, not_lt.mp hlow, hi⟩

end RxBuf

end Waitless.Quic
