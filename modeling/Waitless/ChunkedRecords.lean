import Mathlib

/-! # Records cut out of a chunked stream

The records of a stream, each with its size in a header of fixed length, are handed to a machine one
by one. The reader takes those that lie whole inside a chunk out of it (`walk`) and completes one
that straddles chunks in a side buffer (`complete`). Feeding the chunks of a stream comes to one
walk over the whole stream (`feed_spec`).

A call that fails keeps back what the records before the failing one put out inside its chunk. The
marked machine writes on every output where its record starts, and with these marks `feed_out` says
which outputs those are: the ones that start in the failing chunk. -/

namespace ChunkedRecords

open List

/-- How records are cut and what handles them. -/
structure Machine (β σ ε ω : Type) where
  headerLen : ℕ
  total : List β → ℕ
  maxTotal : ℕ
  tooLarge : ε
  stopped : σ → Bool
  handle : σ → List β → Except ε (List ω) × σ
  headerLen_pos : 0 < headerLen
  headerLen_le : ∀ bs, headerLen ≤ total bs
  total_append : ∀ a b, headerLen ≤ a.length → total (a ++ b) = total a

@[ext] structure Walked (β σ ε ω : Type) where
  result : Except ε Unit
  rest : List β
  state : σ
  out : List ω

variable {β σ ε ω : Type}

def Walked.after (o : List ω) (w : Walked β σ ε ω) : Walked β σ ε ω :=
  { w with out := o ++ w.out }

/-- What is kept from chunk to chunk. -/
@[simp] theorem Walked.after_nil (w : Walked β σ ε ω) : w.after [] = w := rfl

structure Reader (β σ ω : Type) where
  pending : List β
  state : σ
  staged : List ω

/-- A completed record, with the bytes behind it. -/
structure Completed (β σ ε ω : Type) where
  result : Except ε (List ω)
  pending : List β
  state : σ
  rest : List β

namespace Machine

variable (M : Machine β σ ε ω)

/-- With fuel for the length of the window. -/
def walkAux : ℕ → σ → List β → Walked β σ ε ω
  | 0, s, _ => ⟨.ok (), [], s, []⟩
  | n + 1, s, bs =>
    if bs = [] ∨ M.stopped s = true then ⟨.ok (), [], s, []⟩
    else if bs.length < M.headerLen then ⟨.ok (), bs, s, []⟩
    else if M.maxTotal < M.total bs then ⟨.error M.tooLarge, [], s, []⟩
    else if bs.length < M.total bs then ⟨.ok (), bs, s, []⟩
    else
      match M.handle s (bs.take (M.total bs)) with
      | (.error e, s') => ⟨.error e, [], s', []⟩
      | (.ok o, s') => (walkAux n s' (bs.drop (M.total bs))).after o

def walk (s : σ) (bs : List β) : Walked β σ ε ω := M.walkAux bs.length s bs

def complete (p : List β) (s : σ) (chunk : List β) : Completed β σ ε ω :=
  if p = [] then ⟨.ok [], [], s, chunk⟩
  else
    let p₁ := p ++ chunk.take (M.headerLen - p.length)
    let rest := chunk.drop (M.headerLen - p.length)
    if p₁.length < M.headerLen then ⟨.ok [], p₁, s, rest⟩
    else if M.maxTotal < M.total p₁ then ⟨.error M.tooLarge, p₁, s, rest⟩
    else
      let need := M.total p₁ - p₁.length
      let p₂ := p₁ ++ rest.take need
      if p₂.length < M.total p₁ then ⟨.ok [], p₂, s, rest.drop need⟩
      else
        let h := M.handle s (p₂.take (M.total p₁))
        ⟨h.1, [], h.2, rest.drop need⟩

def processChunk (r : Reader β σ ω) (chunk : List β) :
    Except ε Unit × Reader β σ ω × List ω :=
  let c := M.complete r.pending r.state chunk
  match c.result with
  | .error e => (.error e, ⟨c.pending, c.state, []⟩, [])
  | .ok o =>
    if c.pending = [] then
      let w := M.walk c.state c.rest
      match w.result with
      | .error e => (.error e, ⟨w.rest, w.state, w.out⟩, o)
      | .ok () => (.ok (), ⟨w.rest, w.state, []⟩, o ++ w.out)
    else (.ok (), ⟨c.pending, c.state, []⟩, o)

def feed (r : Reader β σ ω) : List (List β) → Except ε Unit × Reader β σ ω × List ω
  | [] => (.ok (), r, [])
  | chunk :: chunks =>
    match M.processChunk r chunk with
    | (.error e, r', o) => (.error e, r', o)
    | (.ok (), r', o) =>
      let (res, r'', o') := feed r' chunks
      (res, r'', o ++ o')

theorem drop_total_length_lt {bs : List β} (hne : bs ≠ []) :
    (bs.drop (M.total bs)).length < bs.length := by
  have hpos := length_pos_iff.mpr hne
  have htotal := M.headerLen_le bs
  have hheader := M.headerLen_pos
  rw [length_drop]
  omega

variable {s : σ}

theorem walkAux_eq_walk {n : ℕ} {bs : List β} (h : bs.length ≤ n) :
    M.walkAux n s bs = M.walk s bs := by
  induction n using Nat.strong_induction_on generalizing s bs with
  | _ n ih =>
    by_cases hne : bs = []
    · subst hne
      cases n <;> simp [walk, walkAux]
    · have hpos := length_pos_iff.mpr hne
      obtain ⟨n, rfl⟩ : ∃ m, n = m + 1 := ⟨n - 1, by omega⟩
      obtain ⟨k, hk⟩ : ∃ m, bs.length = m + 1 := ⟨bs.length - 1, by omega⟩
      have hlt := M.drop_total_length_lt hne
      -- both walks handle the first record, and the rest is a shorter window
      have hrest : ∀ s', M.walkAux n s' (bs.drop (M.total bs)) =
          M.walkAux k s' (bs.drop (M.total bs)) := by
        intro s'
        rw [ih n (by omega) (by omega), ih k (by omega) (by omega)]
      rw [walk, hk]
      simp only [walkAux, hrest]

theorem walk_eq (s : σ) (bs : List β) :
    M.walk s bs =
      if bs = [] ∨ M.stopped s = true then ⟨.ok (), [], s, []⟩
      else if bs.length < M.headerLen then ⟨.ok (), bs, s, []⟩
      else if M.maxTotal < M.total bs then ⟨.error M.tooLarge, [], s, []⟩
      else if bs.length < M.total bs then ⟨.ok (), bs, s, []⟩
      else
        match M.handle s (bs.take (M.total bs)) with
        | (.error e, s') => ⟨.error e, [], s', []⟩
        | (.ok o, s') => (M.walk s' (bs.drop (M.total bs))).after o := by
  rw [← M.walkAux_eq_walk (Nat.le_succ bs.length), walkAux]
  by_cases hne : bs = []
  · simp [hne]
  · have hlt := M.drop_total_length_lt hne
    simp only [M.walkAux_eq_walk hlt.le]

@[simp] theorem walk_nil (s : σ) : M.walk s [] = ⟨.ok (), [], s, []⟩ := by
  simp [walk_eq]

theorem walk_stopped (h : M.stopped s = true) (bs : List β) :
    M.walk s bs = ⟨.ok (), [], s, []⟩ := by
  rw [walk_eq, if_pos (Or.inr h)]

theorem walk_rest_length_le (s : σ) (bs : List β) : (M.walk s bs).rest.length ≤ bs.length := by
  induction hn : bs.length using Nat.strong_induction_on generalizing s bs with
  | _ n ih =>
    rw [walk_eq]
    split_ifs with h1 h2 h3 h4
    · exact Nat.zero_le _
    · exact hn.le
    · exact Nat.zero_le _
    · exact hn.le
    · have hlt := M.drop_total_length_lt (not_or.mp h1).1
      rcases M.handle s (bs.take (M.total bs)) with ⟨e | o, s'⟩
      · exact Nat.zero_le _
      · have hrest := ih _ (hn ▸ hlt) s' _ rfl
        simp only [Walked.after]
        omega

/-- A walk goes on as inside one window. -/
theorem walk_append (s : σ) (a b : List β) :
    M.walk s (a ++ b) =
      match (M.walk s a).result with
      | .error _ => M.walk s a
      | .ok () => (M.walk (M.walk s a).state ((M.walk s a).rest ++ b)).after (M.walk s a).out := by
  induction hn : a.length using Nat.strong_induction_on generalizing s a with
  | _ n ih =>
    by_cases hstop : M.stopped s = true
    · simp [M.walk_stopped hstop]
    by_cases hne : a = []
    · subst hne
      simp
    have hfirst := M.walk_eq s a
    rw [if_neg (not_or.mpr ⟨hne, hstop⟩)] at hfirst
    by_cases hhead : a.length < M.headerLen
    · rw [if_pos hhead] at hfirst
      simp [hfirst]
    rw [if_neg hhead] at hfirst
    have htotal : M.total (a ++ b) = M.total a := M.total_append a b (by omega)
    have hwhole := M.walk_eq s (a ++ b)
    rw [if_neg (by simp [hne, hstop]),
      if_neg (by rw [length_append]; omega), htotal] at hwhole
    by_cases hbig : M.maxTotal < M.total a
    · rw [if_pos hbig] at hfirst hwhole
      rw [hfirst, hwhole]
    rw [if_neg hbig] at hfirst hwhole
    by_cases hshort : a.length < M.total a
    · rw [if_pos hshort] at hfirst
      simp [hfirst]
    rw [if_neg hshort] at hfirst
    rw [if_neg (by rw [length_append]; omega),
      take_append_of_le_length (by omega), drop_append_of_le_length (by omega)] at hwhole
    rcases hres : M.handle s (a.take (M.total a)) with ⟨e | o, s'⟩
    · rw [hres] at hfirst hwhole
      rw [hfirst, hwhole]
    · rw [hres] at hfirst hwhole
      have hlt := M.drop_total_length_lt hne
      have hrest := ih _ (hn ▸ hlt) s' (a.drop (M.total a)) rfl
      simp only at hfirst hwhole
      rw [hwhole, hfirst, hrest]
      rcases hr : (M.walk s' (a.drop (M.total a))).result with e | u
      · simp [Walked.after, hr]
      · simp [Walked.after, hr]

/-- The buffer holds one unfinished record. -/
def Idle (s : σ) (p : List β) : Prop := M.walk s p = ⟨.ok (), p, s, []⟩

theorem walk_idle (s : σ) (bs : List β) (h : (M.walk s bs).result = .ok ()) :
    M.Idle (M.walk s bs).state (M.walk s bs).rest := by
  have happend := M.walk_append s bs []
  rw [append_nil, h, append_nil] at happend
  simp only at happend
  generalize M.walk s bs = w at h happend
  generalize hw' : M.walk w.state w.rest = w' at happend
  have hout : w.out = w.out ++ w'.out := congrArg Walked.out happend
  rw [Idle, hw']
  ext1
  · exact (congrArg Walked.result happend).symm.trans h
  · exact (congrArg Walked.rest happend).symm
  · exact (congrArg Walked.state happend).symm
  · exact self_eq_append_right.mp hout

theorem idle_nil (s : σ) : M.Idle s [] := M.walk_nil s

theorem Idle.unfinished {p : List β} (h : M.Idle s p) (hne : p ≠ []) :
    M.stopped s ≠ true ∧ (p.length < M.headerLen ∨
      (M.total p ≤ M.maxTotal ∧ p.length < M.total p)) := by
  rw [Idle, walk_eq] at h
  split_ifs at h with h1 h2 h3 h4
  · exact absurd (congrArg Walked.rest h).symm hne
  · exact ⟨(not_or.mp h1).2, Or.inl h2⟩
  · exact absurd (congrArg Walked.result h) (by simp)
  · exact ⟨(not_or.mp h1).2, Or.inr ⟨by omega, h4⟩⟩
  · rcases hres : M.handle s (p.take (M.total p)) with ⟨e | o, s'⟩
    · rw [hres] at h
      exact absurd (congrArg Walked.result h) (by simp)
    · -- a handled record leaves less than the buffer held
      rw [hres] at h
      have hrest := congrArg (fun w => w.rest.length) h
      have hlt := M.drop_total_length_lt hne
      have hle := M.walk_rest_length_le s' (p.drop (M.total p))
      simp only [Walked.after] at hrest
      omega

theorem Idle.fits {p : List β} (h : M.Idle s p) (hne : p ≠ []) (chunk : List β) :
    (p ++ chunk.take (M.headerLen - p.length)).length ≤
      M.total (p ++ chunk.take (M.headerLen - p.length)) := by
  have hmin := M.headerLen_le (p ++ chunk.take (M.headerLen - p.length))
  rcases (Machine.Idle.unfinished M h hne).2 with hshort | ⟨-, hbody⟩
  · simp only [length_append, length_take] at *
    omega
  · by_cases hhead : p.length < M.headerLen
    · simp only [length_append, length_take] at *
      omega
    · rw [Nat.sub_eq_zero_of_le (by omega), take_zero, append_nil]
      exact hbody.le

/-- It is the first step of the walk. -/
theorem complete_spec {p : List β} (hidle : M.Idle s p) (chunk : List β) :
    M.walk s (p ++ chunk) =
      match (M.complete p s chunk).result with
      | .error e => ⟨.error e, [], (M.complete p s chunk).state, []⟩
      | .ok o =>
        if (M.complete p s chunk).pending = [] then
          (M.walk (M.complete p s chunk).state (M.complete p s chunk).rest).after o
        else ⟨.ok (), (M.complete p s chunk).pending, (M.complete p s chunk).state, o⟩ := by
  by_cases hne : p = []
  · simp [complete, hne]
  obtain ⟨hstop, -⟩ := Machine.Idle.unfinished M hidle hne
  rw [complete, if_neg hne]
  generalize hk : M.headerLen - p.length = k
  generalize hp1 : p ++ chunk.take k = p1
  generalize hrest : chunk.drop k = rest
  have hne1 : p1 ≠ [] := by simp [← hp1, hne]
  have hlen1 : p1.length = p.length + min k chunk.length := by simp [← hp1]
  have hlenr : rest.length = chunk.length - k := by simp [← hrest]
  have hbytes : p ++ chunk = p1 ++ rest := by
    rw [← hp1, ← hrest, append_assoc, take_append_drop]
  have hwhole := M.walk_eq s (p1 ++ rest)
  rw [if_neg (by simp [hne1, hstop])] at hwhole
  rw [hbytes, hwhole]
  by_cases hhead : p1.length < M.headerLen
  · have hnil : rest = [] := length_eq_zero_iff.mp (by omega)
    simp [hhead, hnil, hne1]
  have htotal : M.total (p1 ++ rest) = M.total p1 := M.total_append p1 rest (by omega)
  rw [if_neg (by rw [length_append]; omega), htotal]
  simp only [if_neg hhead]
  by_cases hbig : M.maxTotal < M.total p1
  · simp [hbig]
  simp only [if_neg hbig]
  have hfits : p1.length ≤ M.total p1 := by
    rw [← hp1, ← hk]
    exact hidle.fits M hne chunk
  generalize hneed : M.total p1 - p1.length = need
  have htake : (p1 ++ rest).take (M.total p1) = p1 ++ rest.take need := by
    rw [take_append, take_of_length_le hfits, hneed]
  have hdrop : (p1 ++ rest).drop (M.total p1) = rest.drop need := by
    rw [drop_append, drop_of_length_le hfits, hneed, nil_append]
  have hlen2 : (p1 ++ rest.take need).length = p1.length + min need rest.length := by simp
  by_cases hshort : (p1 ++ rest.take need).length < M.total p1
  · rw [if_pos hshort, if_pos (by rw [length_append]; omega)]
    simp [hne1, take_of_length_le (show rest.length ≤ need by omega)]
  · have hall : (p1 ++ rest.take need).take (M.total p1) = p1 ++ rest.take need :=
      take_of_length_le (by omega)
    rw [if_neg hshort, if_neg (by rw [length_append]; omega), htake, hdrop, hall]
    rcases M.handle s (p1 ++ rest.take need) with ⟨e | o, s'⟩
    · rfl
    · simp

/-- A chunk does what the walk over all bytes does. -/
structure Agrees (x : Except ε Unit × Reader β σ ω × List ω) (w : Walked β σ ε ω) : Prop where
  result : x.1 = w.result
  state : x.2.1.state = w.state
  out : x.2.2 ++ x.2.1.staged = w.out
  pending : x.1 = .ok () → x.2.1.pending = w.rest
  staged : x.1 = .ok () → x.2.1.staged = []

/-- **One chunk** does to an idle reader what the walk does. -/
theorem processChunk_spec (r : Reader β σ ω) (chunk : List β) (hidle : M.Idle r.state r.pending) :
    Agrees (M.processChunk r chunk) (M.walk r.state (r.pending ++ chunk)) := by
  rw [M.complete_spec hidle chunk, processChunk]
  generalize M.complete r.pending r.state chunk = c
  rcases c with ⟨e | o, p, s, rest⟩
  · exact ⟨rfl, rfl, rfl, nofun, fun _ => rfl⟩
  · by_cases hp : p = []
    · simp only [hp, if_true]
      rcases M.walk s rest with ⟨e | u, rest', s', out⟩
      · exact ⟨rfl, rfl, rfl, nofun, nofun⟩
      · exact ⟨rfl, rfl, append_nil _, fun _ => rfl, fun _ => rfl⟩
    · simp only [hp, if_false]
      exact ⟨rfl, rfl, append_nil _, fun _ => rfl, fun _ => rfl⟩

/-- **Feeding a stream** is one walk over it, up to what an error leaves staged. -/
theorem feed_spec (r : Reader β σ ω) (chunks : List (List β)) (hidle : M.Idle r.state r.pending)
    (hstaged : r.staged = []) :
    Agrees (M.feed r chunks) (M.walk r.state (r.pending ++ chunks.flatten)) := by
  induction chunks generalizing r with
  | nil =>
    have hwalk : M.walk r.state (r.pending ++ [].flatten) = ⟨.ok (), r.pending, r.state, []⟩ := by
      rw [List.flatten_nil, List.append_nil]
      exact hidle
    rw [hwalk]
    exact ⟨rfl, rfl, by simp [feed, hstaged], fun _ => rfl, fun _ => hstaged⟩
  | cons chunk chunks ih =>
    have hchunk := M.processChunk_spec r chunk hidle
    have happend := M.walk_append r.state (r.pending ++ chunk) chunks.flatten
    have hidle' := M.walk_idle r.state (r.pending ++ chunk)
    rw [List.flatten_cons, ← List.append_assoc, happend, feed]
    generalize M.walk r.state (r.pending ++ chunk) = w at hchunk hidle' ⊢
    rcases hres : M.processChunk r chunk with ⟨e | u, r', o⟩
    · rw [hres] at hchunk
      have hw : w.result = .error e := hchunk.result.symm
      rw [hw]
      exact ⟨hchunk.result, hchunk.state, hchunk.out, nofun, nofun⟩
    · rw [hres] at hchunk
      have hw : w.result = .ok () := hchunk.result.symm
      have hstate : r'.state = w.state := hchunk.state
      have hpending : r'.pending = w.rest := hchunk.pending rfl
      have hstaged' : r'.staged = [] := hchunk.staged rfl
      have hout : o = w.out := by
        simpa [hstaged'] using hchunk.out
      have hrest := ih r' (by rw [hstate, hpending]; exact hidle' hw) hstaged'
      rw [hstate, hpending] at hrest
      rw [hw]
      refine ⟨hrest.result, hrest.state, ?_, hrest.pending, hrest.staged⟩
      simp only [Walked.after, List.append_assoc, hout]
      rw [hrest.out]

/-! ### Which outputs a failed call keeps back -/

/-- The machine that writes on every output where in the stream its record starts. -/
def marked : Machine β (σ × ℕ) ε (ℕ × ω) where
  headerLen := M.headerLen
  total := M.total
  maxTotal := M.maxTotal
  tooLarge := M.tooLarge
  stopped s := M.stopped s.1
  handle s bs :=
    match M.handle s.1 bs with
    | (.error e, s') => (.error e, s', s.2)
    | (.ok o, s') => (.ok (o.map (Prod.mk s.2)), s', s.2 + bs.length)
  headerLen_pos := M.headerLen_pos
  headerLen_le := M.headerLen_le
  total_append := M.total_append

theorem marked_handle (s : σ) (k : ℕ) (bs : List β) : M.marked.handle (s, k) bs =
    match M.handle s bs with
    | (.error e, s') => (.error e, s', k)
    | (.ok o, s') => (.ok (o.map (Prod.mk k)), s', k + bs.length) := rfl

theorem marked_framing (s : σ) (k : ℕ) :
    M.marked.headerLen = M.headerLen ∧ M.marked.total = M.total ∧ M.marked.maxTotal = M.maxTotal ∧
      M.marked.tooLarge = M.tooLarge ∧ M.marked.stopped (s, k) = M.stopped s :=
  ⟨rfl, rfl, rfl, rfl, rfl⟩

end Machine

def Walked.unmark (w : Walked β (σ × ℕ) ε (ℕ × ω)) : Walked β σ ε ω :=
  ⟨w.result, w.rest, w.state.1, w.out.map Prod.snd⟩

def Reader.unmark (r : Reader β (σ × ℕ) (ℕ × ω)) : Reader β σ ω :=
  ⟨r.pending, r.state.1, r.staged.map Prod.snd⟩

def Completed.unmark (c : Completed β (σ × ℕ) ε (ℕ × ω)) : Completed β σ ε ω :=
  ⟨c.result.map (List.map Prod.snd), c.pending, c.state.1, c.rest⟩

namespace Machine

variable (M : Machine β σ ε ω) {s : σ}

/-- The walk of `M`, with marks inside the window and the offset it has come to. -/
structure Located (w : Walked β (σ × ℕ) ε (ℕ × ω)) (s : σ) (k : ℕ) (bs : List β) : Prop where
  unmark : w.unmark = M.walk s bs
  start : ∀ x ∈ w.out, k ≤ x.1 ∧ x.1 < k + bs.length
  offset : w.result = .ok () → M.stopped w.state.1 = true ∨
    w.state.2 + w.rest.length = k + bs.length

theorem walk_located (s : σ) (k : ℕ) (bs : List β) :
    M.Located (M.marked.walk (s, k) bs) s k bs := by
  induction hn : bs.length using Nat.strong_induction_on generalizing s k bs with
  | _ n ih =>
    have hwalk := M.walk_eq s bs
    rw [walk_eq]
    simp only [M.marked_framing s k]
    by_cases h1 : bs = [] ∨ M.stopped s = true
    · rw [if_pos h1] at hwalk ⊢
      refine ⟨hwalk.symm, nofun, fun _ => ?_⟩
      rcases h1 with rfl | hstop
      · exact .inr rfl
      · exact .inl hstop
    rw [if_neg h1] at hwalk ⊢
    by_cases h2 : bs.length < M.headerLen
    · rw [if_pos h2] at hwalk ⊢
      exact ⟨hwalk.symm, nofun, fun _ => .inr rfl⟩
    rw [if_neg h2] at hwalk ⊢
    by_cases h3 : M.maxTotal < M.total bs
    · rw [if_pos h3] at hwalk ⊢
      exact ⟨hwalk.symm, nofun, nofun⟩
    rw [if_neg h3] at hwalk ⊢
    by_cases h4 : bs.length < M.total bs
    · rw [if_pos h4] at hwalk ⊢
      exact ⟨hwalk.symm, nofun, fun _ => .inr rfl⟩
    rw [if_neg h4] at hwalk ⊢
    have hlt := M.drop_total_length_lt (not_or.mp h1).1
    have htake : (bs.take (M.total bs)).length = M.total bs := length_take_of_le (by omega)
    have hpos := M.headerLen_pos.trans_le (M.headerLen_le bs)
    rw [marked_handle]
    rcases hres : M.handle s (bs.take (M.total bs)) with ⟨e | o, s'⟩
    · rw [hres] at hwalk
      exact ⟨hwalk.symm, nofun, nofun⟩
    · rw [hres] at hwalk
      obtain ⟨hunmark, hstart, hoffset⟩ :=
        ih _ (hn ▸ hlt) s' (k + M.total bs) (bs.drop (M.total bs)) rfl
      simp only [length_drop] at hstart hoffset
      simp only [htake]
      refine ⟨?_, ?_, fun hok => ?_⟩
      · rw [hwalk]
        simp [Walked.unmark, Walked.after, ← hunmark]
      · intro x hx
        rcases mem_append.mp hx with hx | hx
        · obtain ⟨a, -, rfl⟩ := mem_map.mp hx
          exact ⟨le_rfl, by omega⟩
        · have := hstart x hx
          omega
      · rcases hoffset hok with hstop | hoff
        · exact .inl hstop
        · refine .inr ?_
          simp only [Walked.after]
          omega

theorem complete_marked (p : List β) (s : σ) (k : ℕ) (chunk : List β) :
    (M.marked.complete p (s, k) chunk).unmark = M.complete p s chunk := by
  simp only [complete, M.marked_framing s k]
  split_ifs
  · rfl
  · rfl
  · rfl
  · rfl
  · rw [marked_handle]
    rcases M.handle s _ with ⟨e | o, s'⟩
    · rfl
    · simp [Completed.unmark, Except.map]

theorem complete_start {p : List β} (k : ℕ) (hidle : M.Idle s p) (chunk : List β)
    {o : List (ℕ × ω)} (hok : (M.marked.complete p (s, k) chunk).result = .ok o) :
    (∀ x ∈ o, x.1 < k + p.length) ∧ ((M.marked.complete p (s, k) chunk).pending = [] →
      k + p.length ≤ (M.marked.complete p (s, k) chunk).state.2) := by
  by_cases hne : p = []
  · subst hne
    simp only [complete, if_true] at hok ⊢
    cases hok
    exact ⟨nofun, fun _ => le_rfl⟩
  have hfits := hidle.fits M hne chunk
  have hpos := length_pos_iff.mpr hne
  rw [complete, if_neg hne] at hok ⊢
  simp only [M.marked_framing s k] at hok ⊢
  generalize hp : p ++ chunk.take (M.headerLen - p.length) = p₁ at hok hfits ⊢
  have hle : p.length ≤ p₁.length := by simp [← hp]
  have hne₁ : p₁ ≠ [] := by simp [← hp, hne]
  split_ifs at hok ⊢ with hhead hlarge hshort
  · cases hok
    exact ⟨nofun, fun h => absurd h hne₁⟩
  · cases hok
    exact ⟨nofun, fun h => absurd (append_eq_nil_iff.mp h).1 hne₁⟩
  · rw [marked_handle] at hok ⊢
    generalize hrec : (p₁ ++ take _ _).take (M.total p₁) = record at hok ⊢
    have hlen : record.length = M.total p₁ := by
      rw [← hrec]
      exact length_take_of_le (not_lt.mp hshort)
    generalize M.handle s record = h at hok ⊢
    rcases h with ⟨e | o', s'⟩
    · cases hok
    · cases hok
      refine ⟨fun x hx => ?_, fun _ => ?_⟩
      · obtain ⟨a, -, rfl⟩ := mem_map.mp hx
        exact Nat.lt_add_of_pos_right hpos
      · simp only [hlen]
        omega

theorem processChunk_marked (r : Reader β (σ × ℕ) (ℕ × ω)) (chunk : List β) :
    M.processChunk r.unmark chunk =
      ((M.marked.processChunk r chunk).1, (M.marked.processChunk r chunk).2.1.unmark,
        (M.marked.processChunk r chunk).2.2.map Prod.snd) := by
  obtain ⟨pending, ⟨s, k⟩, staged⟩ := r
  have hcomplete := M.complete_marked pending s k chunk
  rw [processChunk, processChunk, Reader.unmark]
  simp only [← hcomplete]
  generalize M.marked.complete pending (s, k) chunk = c
  rcases c with ⟨e | o, p, ⟨s', k'⟩, rest⟩
  · rfl
  · have hwalk := (M.walk_located s' k' rest).unmark
    by_cases hp : p = []
    · simp only [Completed.unmark, Except.map, hp, if_true, ← hwalk]
      rcases M.marked.walk (s', k') rest with ⟨e | u, rest', s'', out⟩
      · rfl
      · simp [Walked.unmark, Reader.unmark]
    · simp only [Completed.unmark, Except.map, hp, if_false]
      rfl

theorem feed_marked (r : Reader β (σ × ℕ) (ℕ × ω)) (chunks : List (List β)) :
    M.feed r.unmark chunks =
      ((M.marked.feed r chunks).1, (M.marked.feed r chunks).2.1.unmark,
        (M.marked.feed r chunks).2.2.map Prod.snd) := by
  induction chunks generalizing r with
  | nil => rfl
  | cons chunk chunks ih =>
    rw [feed, feed, M.processChunk_marked r chunk]
    rcases M.marked.processChunk r chunk with ⟨e | u, r', o⟩
    · rfl
    · simp [ih]

/-- A failed call has put out what starts before its chunk, and keeps back what starts in it. -/
theorem processChunk_split {r : Reader β (σ × ℕ) (ℕ × ω)}
    (hidle : M.Idle r.state.1 r.pending) (chunk : List β) {e : ε}
    (herr : (M.marked.processChunk r chunk).1 = .error e) :
    (∀ x ∈ (M.marked.processChunk r chunk).2.2, x.1 < r.state.2 + r.pending.length) ∧
      ∀ x ∈ (M.marked.processChunk r chunk).2.1.staged, r.state.2 + r.pending.length ≤ x.1 := by
  obtain ⟨pending, ⟨s, k⟩, staged⟩ := r
  have hstart := fun o => M.complete_start (o := o) k hidle chunk
  rw [processChunk] at herr ⊢
  simp only at hstart herr ⊢
  generalize M.marked.complete pending (s, k) chunk = c at hstart herr ⊢
  rcases c with ⟨e' | o, p, ⟨s', k'⟩, rest⟩
  · exact ⟨nofun, nofun⟩
  · obtain ⟨hout, hstate⟩ := hstart o rfl
    by_cases hp : p = []
    · have hwalk := (M.walk_located s' k' rest).start
      simp only [hp, if_true] at herr ⊢
      rcases hw : M.marked.walk (s', k') rest with ⟨e' | u, rest', s'', out⟩
      · rw [hw] at hwalk
        exact ⟨hout, fun x hx => (hstate hp).trans (hwalk x hx).1⟩
      · rw [hw] at herr
        cases herr
    · simp only [hp, if_false] at herr
      cases herr

/-- Where the chunk starts in which the walk over `front` and the chunks fails, or the end of the
stream when it does not. -/
def failingChunk (s : σ) (front : List β) : List (List β) → ℕ
  | [] => front.length
  | chunk :: chunks =>
    match (M.walk s (front ++ chunk)).result with
    | .error _ => front.length
    | .ok () => failingChunk s (front ++ chunk) chunks

theorem length_le_failingChunk (s : σ) (front : List β) (chunks : List (List β)) :
    front.length ≤ M.failingChunk s front chunks := by
  induction chunks generalizing front with
  | nil => exact le_rfl
  | cons chunk chunks ih =>
    rw [failingChunk]
    rcases (M.walk s (front ++ chunk)).result with e | u
    · exact le_rfl
    · refine le_trans ?_ (ih (front ++ chunk))
      rw [length_append]
      exact Nat.le_add_right _ _

theorem feed_split (front : List β) (chunks : List (List β)) {r : Reader β (σ × ℕ) (ℕ × ω)}
    (hok : (M.marked.walk (s, 0) front).result = .ok ())
    (hstate : r.state = (M.marked.walk (s, 0) front).state)
    (hpending : r.pending = (M.marked.walk (s, 0) front).rest) (hstaged : r.staged = []) :
    (∀ x ∈ (M.marked.feed r chunks).2.2, x.1 < M.failingChunk s front chunks) ∧
      ∀ x ∈ (M.marked.feed r chunks).2.1.staged, M.failingChunk s front chunks ≤ x.1 := by
  induction chunks generalizing front r with
  | nil => exact ⟨nofun, by simp [feed, hstaged]⟩
  | cons chunk chunks ih =>
    have hfront := M.walk_located s 0 front
    have hidle := M.marked.walk_idle (s, 0) front hok
    rw [← hstate, ← hpending] at hidle
    have hchunk := M.marked.processChunk_spec r chunk hidle
    have happend := M.marked.walk_append (s, 0) front chunk
    rw [hok, ← hstate, ← hpending] at happend
    simp only at happend
    have hwhole := M.walk_located s 0 (front ++ chunk)
    have hres : (M.walk s (front ++ chunk)).result = (M.marked.processChunk r chunk).1 := by
      rw [hchunk.result, ← hwhole.unmark, happend]
      rfl
    rw [feed, failingChunk, hres]
    have hidle₀ : M.Idle r.state.1 r.pending := by
      have := M.walk_idle s front (by rw [← hfront.unmark]; exact hok)
      rw [← hfront.unmark] at this
      rw [hstate, hpending]
      exact this
    have hsplit := fun e => M.processChunk_split (e := e) hidle₀ chunk
    rcases hx : M.marked.processChunk r chunk with ⟨e | u, r', o⟩
    · rw [hx] at hsplit hchunk
      obtain ⟨hout, hkept⟩ := hsplit e rfl
      -- a stopped machine does not fail, so the offset is that of the bytes read
      have hoffset : r.state.2 + r.pending.length = front.length := by
        rcases hfront.offset hok with hstop | hoff
        · have hend := hchunk.result
          rw [M.marked.walk_stopped (by rw [hstate]; exact hstop)] at hend
          cases hend
        · rw [hstate, hpending, hoff, Nat.zero_add]
      rw [hoffset] at hout hkept
      exact ⟨hout, hkept⟩
    · rw [hx] at hchunk
      have hresult : (M.marked.walk r.state (r.pending ++ chunk)).result = .ok () :=
        hchunk.result.symm
      obtain ⟨hrest, hkept⟩ := ih (front ++ chunk) (r := r')
        (by rw [happend]; exact hresult) (by rw [happend]; exact hchunk.state)
        (by rw [happend]; exact hchunk.pending rfl) (hchunk.staged rfl)
      refine ⟨fun x hxo => ?_, hkept⟩
      rcases mem_append.mp hxo with hxo | hxo
      · have hmem : x ∈ (M.marked.walk (s, 0) (front ++ chunk)).out := by
          rw [happend]
          refine mem_append.mpr (.inr ?_)
          rw [← hchunk.out]
          exact mem_append.mpr (.inl hxo)
        have hlt := (hwhole.start x hmem).2
        rw [Nat.zero_add] at hlt
        exact hlt.trans_le (M.length_le_failingChunk s (front ++ chunk) chunks)
      · exact hrest x hxo

/-- **What is put out** of a stream: the outputs of the records that start before the failing
chunk. -/
theorem feed_out (s : σ) (chunks : List (List β)) :
    (M.feed ⟨[], s, []⟩ chunks).2.2 = ((M.marked.walk (s, 0) chunks.flatten).out.filter
      fun x => x.1 < M.failingChunk s [] chunks).map Prod.snd := by
  have hspec := M.marked.feed_spec ⟨[], (s, 0), []⟩ chunks (M.marked.idle_nil _) rfl
  obtain ⟨hout, hkept⟩ := M.feed_split (s := s) [] chunks (r := ⟨[], (s, 0), []⟩) (by simp)
    (by simp) (by simp) rfl
  have hfeed := M.feed_marked ⟨[], (s, 0), []⟩ chunks
  rw [show (Reader.unmark ⟨[], (s, 0), []⟩ : Reader β σ ω) = ⟨[], s, []⟩ from rfl] at hfeed
  rw [hfeed, ← nil_append chunks.flatten, ← hspec.out, filter_append,
    filter_eq_self.mpr fun x hx => by simpa using hout x hx,
    filter_eq_nil_iff.mpr fun x hx => by simpa using hkept x hx, append_nil]

end Machine

theorem map_filter_eq_map_iff {α γ : Type} {f : α → γ} {p : α → Bool} {l : List α} :
    (l.filter p).map f = l.map f ↔ ∀ x ∈ l, p x = true := by
  constructor
  · intro h
    have hlen := congrArg length h
    rw [length_map, length_map] at hlen
    exact length_filter_eq_length_iff.mp hlen
  · intro h
    rw [filter_eq_self.mpr h]

theorem map_filter_lt_eq_iff {α : Type} {l : List (ℕ × α)} {a b : ℕ} :
    (l.filter fun x => x.1 < a).map Prod.snd = (l.filter fun x => x.1 < b).map Prod.snd ↔
      ∀ x ∈ l, x.1 < a ↔ x.1 < b := by
  wlog hab : a ≤ b
  · rw [eq_comm, this (Nat.le_of_not_le hab)]
    exact forall₂_congr fun _ _ => Iff.comm
  have hfilter : l.filter (fun x => x.1 < a) =
      (l.filter fun x => x.1 < b).filter fun x => x.1 < a := by
    rw [filter_filter]
    exact filter_congr fun x _ => by
      rw [Bool.eq_iff_iff]
      simp only [Bool.and_eq_true, decide_eq_true_eq]
      omega
  rw [hfilter, map_filter_eq_map_iff]
  simp only [mem_filter, decide_eq_true_eq]
  exact forall_congr' fun x => ⟨fun h hx => ⟨fun hxa => by omega, fun hxb => h ⟨hx, hxb⟩⟩,
    fun h hx => (h hx.1).mpr hx.2⟩

end ChunkedRecords
