import Waitless.HttpParser

/-! # Bodies read in chunks

The model of `body.rs`: a reader over a source that hands out chunks, whose length may be unknown.
The source is a function on a state of its own: the chunks of a connection for HTTP/1, the slot of a
stream for HTTP/2, the frames of a stream for HTTP/3.

A handler that asks until the end reads the chunks in front of the first empty one, up to the
declared length (`readAll_of_yields`). -/

namespace Waitless.Http.Streaming

open Waitless.AesGcm

/-- What polling a future gives. -/
inductive Poll (α : Type) where
  | ready (a : α)
  | pending

/-- What a handler reads a body through: first what came with the head, then the source. -/
structure BodyReader where
  prebuf : Bytes := []
  prebufConsumed : ℕ := 0
  limit : Option ℕ
  delivered : ℕ := 0
  leftover : Option Bytes := none
deriving DecidableEq

namespace BodyReader

def newStreaming (prebuf : Bytes) (contentLength : Option ℕ) : BodyReader where
  prebuf :=
    match contentLength with
    | some n => prebuf.take (min prebuf.length n)
    | none => prebuf
  limit := contentLength

/-- None when the length is unknown. -/
def remaining (br : BodyReader) : ℕ := br.limit.elim 0 (· - br.delivered)

/-- Of `avail` octets, those within the limit. -/
def wanted (br : BodyReader) (avail : ℕ) : ℕ := br.limit.elim avail fun t => min avail (t - br.delivered)

variable {σ : Type} (next : σ → Poll (Option Bytes) × σ)

/-- A chunk of the source: what is behind the limit is left over. -/
def accept (br : BodyReader) (iobuf : Bytes) : Option Bytes × BodyReader :=
  let take := br.wanted iobuf.length
  if take = 0 then (none, br)
  else
    let br := { br with delivered := br.delivered + take }
    if take = iobuf.length then (some iobuf, br)
    else (some (iobuf.take take), { br with leftover := StreamingRequestParser.intoRemainder iobuf take })

def chunk (br : BodyReader) (src : σ) : Poll (Option Bytes) × BodyReader × σ :=
  if br.limit.any fun t => t ≤ br.delivered then (.ready none, br, src)
  else if br.prebufConsumed < br.prebuf.length then
    let take := br.wanted (br.prebuf.length - br.prebufConsumed)
    (.ready (some ((br.prebuf.drop br.prebufConsumed).take take)),
      { br with prebufConsumed := br.prebufConsumed + take, delivered := br.delivered + take }, src)
  else
    match next src with
    | (.pending, src) => (.pending, br, src)
    | (.ready none, src) => (.ready none, br, src)
    | (.ready (some iobuf), src) =>
      let (c, br) := br.accept iobuf
      (.ready c, br, src)

def readAll : ℕ → BodyReader → σ → Option (Bytes × BodyReader)
  | 0, _, _ => none
  | fuel + 1, br, src =>
    match br.chunk next src with
    | (.pending, _, _) => none
    | (.ready none, br, _) => some ([], br)
    | (.ready (some c), br, src) => (readAll fuel br src).map fun r => (c ++ r.1, r.2)

end BodyReader

/-- The source hands out these chunks and then ends. -/
inductive Yields {σ : Type} (next : σ → Poll (Option Bytes) × σ) : σ → List Bytes → Prop
  | done {s s' : σ} : next s = (.ready none, s') → Yields next s []
  | chunk {s s' : σ} {p : Bytes} {ps : List Bytes} :
      next s = (.ready (some p), s') → Yields next s' ps → Yields next s (p :: ps)

def within (room : Option ℕ) (bytes : Bytes) : Bytes := room.elim bytes fun n => bytes.take n

theorem within_append (room : Option ℕ) (a b : Bytes) :
    within room (a ++ b) = within room a ++ within (room.map (· - (within room a).length)) b := by
  cases room with
  | none => rfl
  | some n =>
    simp only [within, Option.elim_some, Option.map_some, List.take_append, List.length_take]
    congr 2
    omega

namespace BodyReader

variable {σ : Type} {next : σ → Poll (Option Bytes) × σ} {br : BodyReader}

def room (br : BodyReader) : Option ℕ := br.limit.map (· - br.delivered)

theorem take_wanted (p : Bytes) : p.take (br.wanted p.length) = within br.room p := by
  cases h : br.limit with
  | none => simp [wanted, room, within, h]
  | some t => simp [wanted, room, within, h, min_comm]

theorem length_within_room (p : Bytes) : (within br.room p).length = br.wanted p.length := by
  rw [← take_wanted, List.length_take]
  cases h : br.limit <;> simp [wanted, h]

/-- Up to the limit; an empty chunk ends the body. -/
theorem accept_spec (hopen : ¬(br.limit.any fun t => t ≤ br.delivered)) (p : Bytes) :
    if p = [] then br.accept p = (none, br)
    else ∃ br', br.accept p = (some (within br.room p), br') ∧ br'.limit = br.limit ∧
      br'.delivered = br.delivered + (within br.room p).length ∧
      br'.prebuf = br.prebuf ∧ br'.prebufConsumed = br.prebufConsumed := by
  have hzero : br.wanted p.length = 0 ↔ p = [] := by
    rw [← List.length_eq_zero_iff, wanted]
    cases h : br.limit with
    | none => rfl
    | some t =>
      rw [h, Option.any_some, decide_eq_true_eq] at hopen
      simp only [Option.elim_some]
      omega
  split_ifs with hp
  · simp [accept, hzero.mpr hp]
  · have hne : br.wanted p.length ≠ 0 := fun h => hp (hzero.mp h)
    rw [length_within_room, ← take_wanted]
    unfold accept
    rw [if_neg hne]
    split_ifs with hall
    · rw [hall, List.take_length]
      exact ⟨_, rfl, rfl, rfl, rfl, rfl⟩
    · exact ⟨_, rfl, rfl, rfl, rfl, rfl⟩

/-- **What a handler reads.** -/
theorem readAll_of_yields {s : σ} {ps : List Bytes} (hy : Yields next s ps)
    (hpre : br.prebuf.length ≤ br.prebufConsumed) {fuel : ℕ} (hfuel : ps.length < fuel) :
    ∃ br', readAll next fuel br s = some (within br.room (ps.takeWhile (· ≠ [])).flatten, br') ∧
      br'.limit = br.limit ∧
      br'.delivered = br.delivered + (within br.room (ps.takeWhile (· ≠ [])).flatten).length := by
  induction hy generalizing br fuel with
  | done hnext =>
    obtain ⟨fuel, rfl⟩ := Nat.exists_eq_succ_of_ne_zero (by omega : fuel ≠ 0)
    have hnil : within br.room [] = [] := by cases h : br.room <;> simp [within]
    refine ⟨br, ?_, rfl, by simp [hnil]⟩
    rw [readAll, chunk, if_neg (by omega : ¬br.prebufConsumed < br.prebuf.length), hnext]
    split_ifs <;> simp [hnil]
  | @chunk s s' p ps hnext _ ih =>
    obtain ⟨fuel, rfl⟩ := Nat.exists_eq_succ_of_ne_zero (by omega : fuel ≠ 0)
    rw [readAll, chunk, if_neg (by omega : ¬br.prebufConsumed < br.prebuf.length), hnext]
    by_cases hlimit : br.limit.any fun t => t ≤ br.delivered
    · have hnil : within br.room ((p :: ps).takeWhile (· ≠ [])).flatten = [] := by
        cases h : br.limit with
        | none => simp [h] at hlimit
        | some t =>
          have : t - br.delivered = 0 := Nat.sub_eq_zero_of_le (by simpa [h] using hlimit)
          simp [within, room, h, this]
      refine ⟨br, ?_, rfl, by rw [hnil]; rfl⟩
      rw [if_pos hlimit, hnil]
    · have hspec := accept_spec hlimit p
      rw [if_neg hlimit]
      dsimp only
      by_cases hp : p = []
      · have hnil : within br.room [] = [] := by cases h : br.room <;> simp [within]
        rw [if_pos hp] at hspec
        refine ⟨br, ?_, rfl, by simp [hp, hnil]⟩
        rw [hspec]
        simp [hp, hnil]
      · rw [if_neg hp] at hspec
        obtain ⟨br1, hacc, hlim, hdel, hpb, hpc⟩ := hspec
        have hroom : br1.room = br.room.map (· - (within br.room p).length) := by
          simp only [room, hlim, hdel, Option.map_map]
          congr 1
          funext t
          simp only [Function.comp_apply]
          omega
        obtain ⟨br', hread, hlim', hdel'⟩ := @ih br1 (by rw [hpb, hpc]; exact hpre) fuel
          (Nat.lt_of_succ_lt_succ hfuel)
        have htake : (p :: ps).takeWhile (· ≠ []) = p :: ps.takeWhile (· ≠ []) := by simp [hp]
        rw [htake, List.flatten_cons, within_append, ← hroom]
        refine ⟨br', ?_, hlim'.trans hlim, ?_⟩
        · simp [hacc, hread]
        · rw [hdel', hdel, List.length_append, Nat.add_assoc]

end BodyReader

end Waitless.Http.Streaming
