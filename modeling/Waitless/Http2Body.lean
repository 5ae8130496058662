import Waitless.Http2Runs

/-! # Request bodies

What the task of a request reads of its body is an initial part of the DATA payloads up to the first
END_STREAM, and all of them at a clean end, in every run in which no payload comes in behind the end
of a body and no task reads on where a reset has cut one of unknown length (`request_body_exact`).
-/

namespace Waitless.Http2

open Waitless.AesGcm Streams World List Option
open Waitless.Http.Streaming
open World (blockOf observe)

def taken (t : Task) (d : BodyChan) : Bytes := t.read ++ d.chunks.flatten

/-- What a task has got of what the peer sent. -/
structure BodyWhole (s : Seen) (t : Task) (d : BodyChan) : Prop where
  sent : taken t d <+: s.body
  eof : d.eof = true → taken t d = s.body ∧ s.ended = true
  declared : ∀ n ∈ t.reader.limit, (taken t d).length ≤ n ∧ ((taken t d).length = n → taken t d = s.body)
  delivered : t.reader.delivered = t.read.length
  prebuf : t.reader.prebuf = []
  chunks : ∀ p ∈ d.chunks, p ≠ []
  ended : t.reader.limit = none → t.ended = true → t.read = s.body ∧ s.ended = true

/-- The slot is in step with what the peer has sent. -/
structure SlotWhole (s : Seen) (t : Task) (d : BodyChan) (slot : StreamSlot) : Prop where
  all : taken t d = s.body
  eof : d.eof = s.ended
  received : slot.bodyReceived = s.body.length
  declared : slot.contentLength = t.reader.limit

/-- The same up to the bookkeeping and a reset. -/
structure SameBody (d d' : BodyChan) : Prop where
  chunks : d'.chunks = d.chunks
  eof : d'.eof = d.eof

structure SameTask (t t' : Task) : Prop where
  reader : t'.reader = t.reader
  read : t'.read = t.read
  ended : t'.ended = t.ended

theorem BodyKept.same {d d' : BodyChan} (h : BodyKept d d') : SameBody d d' := by
  rcases h with rfl | rfl <;> exact ⟨rfl, rfl⟩

variable {s s' : Seen} {t t' : Task} {d d' : BodyChan}

theorem taken_same (ht : SameTask t t') (hd : SameBody d d') : taken t' d' = taken t d := by
  rw [taken, taken, ht.read, hd.chunks]

theorem BodyWhole.same (h : BodyWhole s t d) (hbody : s'.body = s.body) (hended : s'.ended = s.ended)
    (ht : SameTask t t') (hd : SameBody d d') : BodyWhole s' t' d' := by
  have htaken := taken_same ht hd
  refine ⟨?_, ?_, ?_, ?_, ?_, ?_, ?_⟩
  · rw [htaken, hbody]
    exact h.sent
  · rw [htaken, hd.eof, hbody, hended]
    exact h.eof
  · rw [htaken, ht.reader, hbody]
    exact h.declared
  · rw [ht.reader, ht.read]
    exact h.delivered
  · rw [ht.reader]
    exact h.prebuf
  · rw [hd.chunks]
    exact h.chunks
  · rw [ht.reader, ht.ended, ht.read, hbody, hended]
    exact h.ended

variable {bytes : Bytes} {slot : StreamSlot}

theorem SlotWhole.same {slot' : StreamSlot} (h : SlotWhole s t d slot) (hbody : s'.body = s.body)
    (hended : s'.ended = s.ended) (ht : SameTask t t') (hd : SameBody d d')
    (hreceived : slot'.bodyReceived = slot.bodyReceived)
    (hdeclared : slot'.contentLength = slot.contentLength) : SlotWhole s' t' d' slot' := by
  refine ⟨?_, ?_, ?_, ?_⟩
  · rw [taken_same ht hd, hbody]
    exact h.all
  · rw [hd.eof, hended]
    exact h.eof
  · rw [hreceived, hbody]
    exact h.received
  · rw [hdeclared, ht.reader]
    exact h.declared

theorem BodyWhole.missed (h : BodyWhole s t d) (hopen : s.ended = false) {fin : Bool}
    (hroom : bytes ≠ [] → t.reader.limit ≠ some s.body.length) {credit : ℕ} :
    BodyWhole { credit := credit, body := s.body ++ bytes, ended := fin } t d := by
  refine ⟨h.sent.trans (prefix_append _ _), ?_, ?_, h.delivered, h.prebuf, h.chunks, ?_⟩
  · intro heof
    have := (h.eof heof).2
    rw [hopen] at this
    cases this
  · intro n hn
    obtain ⟨hle, hall⟩ := h.declared n hn
    refine ⟨hle, fun hlen => ?_⟩
    have heq := hall hlen
    rcases eq_or_ne bytes [] with rfl | hne
    · rw [append_nil]
      exact heq
    · refine absurd ?_ (hroom hne)
      rw [← heq, hlen]
      exact hn
  · intro hlimit hended
    have := (h.ended hlimit hended).2
    rw [hopen] at this
    cases this

theorem BodyWhole.closed (h : BodyWhole s t d) (hbody : s'.body = s.body) (hended : s'.ended = true) :
    BodyWhole s' t d := by
  refine ⟨hbody ▸ h.sent, ?_, ?_, h.delivered, h.prebuf, h.chunks, ?_⟩
  · intro heof
    exact ⟨hbody ▸ (h.eof heof).1, hended⟩
  · intro n hn
    rw [hbody]
    exact h.declared n hn
  · intro hlimit hend
    exact ⟨hbody ▸ (h.ended hlimit hend).1, hended⟩

theorem BodyWhole.deliver (h : BodyWhole s t d) (hslot : SlotWhole s t d slot) {fin : Bool} {buffered : ℕ} {recvWindow : ℤ} (hbody : s'.body = s.body ++ bytes)
    (hended : s'.ended = (s.ended || fin)) (hopen : bytes ≠ [] → s.ended = false)
    (hroom : ∀ n ∈ t.reader.limit, s.body.length + bytes.length ≤ n)
    (hd' : d' = { d with
      chunks := if bytes = [] then d.chunks else d.chunks ++ [bytes]
      buffered := buffered
      eof := d.eof || fin }) :
    BodyWhole s' t d' ∧ SlotWhole s' t d' { slot with
      recvWindow := recvWindow, bodyReceived := slot.bodyReceived + bytes.length } := by
  have htaken : taken t d' = s'.body := by
    rw [hbody, ← hslot.all, taken, taken, hd']
    split_ifs with hnil
    · rw [hnil, append_nil]
    · simp
  have heof : d'.eof = s'.ended := by rw [hended, ← hslot.eof, hd']
  refine ⟨⟨?_, ?_, ?_, h.delivered, h.prebuf, ?_, ?_⟩, ⟨htaken, heof, ?_, hslot.declared⟩⟩
  · rw [htaken]
  · intro he
    exact ⟨htaken, heof ▸ he⟩
  · intro n hn
    refine ⟨?_, fun _ => htaken⟩
    rw [htaken, hbody, length_append]
    exact hroom n hn
  · intro p hp
    rw [hd'] at hp
    split_ifs at hp with hnil
    · exact h.chunks p hp
    · rcases mem_append.mp hp with hp | hp
      · exact h.chunks p hp
      · exact mem_singleton.mp hp ▸ hnil
  · intro hlimit hend
    obtain ⟨hread, hs⟩ := h.ended hlimit hend
    have hnil : bytes = [] := by
      by_contra hne
      rw [hopen hne] at hs
      cases hs
    rw [hbody, hnil, append_nil, hended, hs]
    exact ⟨hread, rfl⟩
  · rw [hslot.received, hbody, length_append]

theorem BodyWhole.trailers {slot : StreamSlot} (h : BodyWhole s t d) (hslot : SlotWhole s t d slot)
    (hbody : s'.body = s.body) (hended : s'.ended = true) :
    BodyWhole s' t { d with eof := true } ∧ SlotWhole s' t { d with eof := true } slot := by
  have htaken : taken t d = s'.body := by rw [hbody, hslot.all]
  have hclosed := h.closed hbody hended
  refine ⟨{ hclosed with eof := fun _ => ⟨htaken, hended⟩ }, htaken, hended.symm, ?_, hslot.declared⟩
  rw [hbody]
  exact hslot.received

open BodyReader

theorem BodyWhole.within_chunk (h : BodyWhole s t d) {p : Bytes} {ps : List Bytes}
    (hchunks : d.chunks = p :: ps) : within t.reader.room p = p := by
  rw [room]
  cases hlimit : t.reader.limit with
  | none => rfl
  | some n =>
    have hle := (h.declared n hlimit).1
    rw [taken, hchunks, flatten_cons, length_append, length_append] at hle
    simp only [within, map_some, elim_some, h.delivered]
    exact take_of_length_le (by omega)

theorem BodyWhole.readTask {c : Streams} {sid : ℕ} (h : BodyWhole s (c.tasks sid) (c.chans sid).body)
    (hcut : (c.tasks sid).reader.limit = none → (c.chans sid).body.chunks = [] →
      (c.chans sid).body.reset = true → (c.chans sid).body.eof = true) :
    ∃ t d, c.readTask sid = c.put sid t { c.chans sid with body := d } ∧ BodyWhole s t d ∧
      taken t d = taken (c.tasks sid) (c.chans sid).body ∧ d.eof = (c.chans sid).body.eof ∧
      t.reader.limit = (c.tasks sid).reader.limit := by
  unfold Streams.readTask
  dsimp only
  generalize c.tasks sid = t at h hcut ⊢
  generalize hd : (c.chans sid).body = d at h hcut ⊢
  have hprebuf : ¬t.reader.prebufConsumed < t.reader.prebuf.length := by rw [h.prebuf]; simp
  unfold chunk
  by_cases hfull : (t.reader.limit.any fun n => n ≤ t.reader.delivered) = true
  · -- All of a declared length has been read.
    rw [if_pos hfull]
    refine ⟨_, _, rfl, ?_, rfl, rfl, rfl⟩
    refine { h with ended := fun (hlimit : t.reader.limit = none) => ?_ }
    rw [hlimit] at hfull
    cases hfull
  rw [if_neg hfull, if_neg hprebuf]
  unfold BodyChan.nextChunk
  cases hchunks : d.chunks with
  | cons p ps =>
    have hne := h.chunks p (by rw [hchunks]; exact mem_cons_self)
    have haccept := accept_spec hfull p
    rw [if_neg hne, h.within_chunk hchunks] at haccept
    obtain ⟨br, haccept, hlimit, hdelivered, hprebuf, -⟩ := haccept
    dsimp only
    rw [haccept]
    have htaken (b c : ℕ) : taken { t with reader := br, read := t.read ++ p }
        { d with chunks := ps, buffered := b, consumedUncredited := c } = taken t d := by
      rw [taken, taken, hchunks, flatten_cons, append_assoc]
    refine ⟨_, _, rfl, ⟨?_, ?_, ?_, ?_, ?_, ?_, ?_⟩, htaken _ _, rfl, hlimit⟩
    · rw [htaken]
      exact h.sent
    · rw [htaken]
      exact h.eof
    · rw [htaken]
      rw [hlimit]
      exact h.declared
    · rw [hdelivered, h.delivered, length_append]
    · exact hprebuf.trans h.prebuf
    · intro q hq
      exact h.chunks q (by rw [hchunks]; exact mem_cons_of_mem _ hq)
    · intro hnone hended
      have hall := (h.ended (hlimit.symm.trans hnone) hended).1
      have hlen := h.sent.length_le
      rw [taken, hchunks, flatten_cons, length_append, length_append, hall] at hlen
      exact absurd (length_eq_zero_iff.mp (by omega)) hne
  | nil =>
    by_cases hend : (d.reset || d.eof) = true
    · rw [if_pos hend]
      refine ⟨_, _, rfl, ?_, rfl, rfl, rfl⟩
      refine { h with ended := fun hlimit _ => ?_ }
      have heof : d.eof = true := by
        rcases Bool.or_eq_true_iff.mp hend with hreset | heof
        · exact hcut hlimit hchunks hreset
        · exact heof
      have hall := h.eof heof
      rwa [taken, hchunks, flatten_nil, append_nil] at hall
    · rw [if_neg hend]
      exact ⟨_, _, rfl, { h with }, rfl, rfl, rfl⟩

theorem observe_cases (sid : ℕ) (c : H2Conn) (hdr : FrameHeader) (payload : Bytes) (s : Seen) :
    ((observe sid c hdr payload s).body = s.body ∧ (observe sid c hdr payload s).ended = s.ended) ∨
    (hdr.ty = .data ∧ hdr.streamId = sid ∧ s.ended = false ∧
      observe sid c hdr payload s = { s with
        body := s.body ++ (dataPayload payload hdr.flags).getD []
        ended := hdr.hasFlag Flags.endStream }) ∨
    (blockOf c hdr = some (sid, true) ∧ (observe sid c hdr payload s).body = s.body ∧
      (observe sid c hdr payload s).ended = true) := by
  unfold observe
  by_cases hlast : c.lastStreamId < sid
  · simp [hlast]
  simp only [if_neg hlast]
  cases hty : hdr.ty
  case data =>
    dsimp only
    split_ifs with h
    · exact .inr (.inl ⟨rfl, h.1, by simpa using h.2, rfl⟩)
    · exact .inl ⟨rfl, rfl⟩
  case windowUpdate =>
    split_ifs <;> exact .inl ⟨rfl, rfl⟩
  all_goals
    cases hblock : blockOf c hdr with
    | none => exact .inl ⟨rfl, rfl⟩
    | some b =>
      obtain ⟨sid', fin⟩ := b
      dsimp only
      by_cases e : sid' = sid
      · subst e
        rw [if_pos rfl]
        cases fin with
        | false => exact .inl ⟨rfl, by simp⟩
        | true => exact .inr (.inr ⟨rfl, rfl, by simp⟩)
      · rw [if_neg e]
        exact .inl ⟨rfl, rfl⟩

theorem observe_data {c : H2Conn} {hdr : FrameHeader} {payload : Bytes} {s : Seen}
    (hty : hdr.ty = .data) (hlast : hdr.streamId ≤ c.lastStreamId)
    (hbytes : dataPayload payload hdr.flags = some bytes) (hopen : bytes ≠ [] → s.ended = false) :
    (observe hdr.streamId c hdr payload s).body = s.body ++ bytes ∧
    (observe hdr.streamId c hdr payload s).ended = (s.ended || hdr.hasFlag Flags.endStream) := by
  unfold observe
  rw [if_neg (not_lt.mpr hlast), hty, hbytes]
  cases hended : s.ended with
  | false => simp
  | true =>
    have hnil : bytes = [] := by
      by_contra hne
      rw [hopen hne] at hended
      cases hended
    simp [hnil, hended]

theorem observe_end {sid : ℕ} {c : H2Conn} {hdr : FrameHeader} (payload : Bytes) (s : Seen)
    (hblock : blockOf c hdr = some (sid, true)) (hlast : sid ≤ c.lastStreamId) :
    (observe sid c hdr payload s).body = s.body ∧ (observe sid c hdr payload s).ended = true := by
  unfold observe
  rw [if_neg (not_lt.mpr hlast), hblock]
  rcases ty_of_blockOf hblock with e | e <;> rw [e] <;> simp

/-- Tasks and slots are in step with what the peer has sent. -/
structure Whole (seen : ℕ → Seen) (c : Streams) : Prop where
  fresh : ∀ sid, c.lastStreamId < sid → (seen sid).body = [] ∧ (seen sid).ended = false
  body : ∀ sid ∈ c.spawned, BodyWhole (seen sid) (c.tasks sid) (c.chans sid).body
  slots : ∀ s ∈ c.streams, SlotWhole (seen s.id) (c.tasks s.id) (c.chans s.id).body s

namespace Whole

variable {seen : ℕ → Seen} {c c' : Streams} {sid : ℕ}

theorem of_slots (h : Whole seen c) (hlast : c.lastStreamId ≤ c'.lastStreamId)
    (hspawned : c'.spawned = c.spawned) (htasks : c'.tasks = c.tasks)
    (hbody : ∀ sid, SameBody (c.chans sid).body (c'.chans sid).body)
    (hslots : ∀ s' ∈ c'.streams, ∃ s ∈ c.streams, s'.id = s.id ∧
      s'.bodyReceived = s.bodyReceived ∧ s'.contentLength = s.contentLength) : Whole seen c' := by
  have hsame (sid : ℕ) : SameTask (c.tasks sid) (c'.tasks sid) := by
    rw [htasks]
    exact ⟨rfl, rfl, rfl⟩
  refine ⟨fun sid hlt => h.fresh sid (hlast.trans_lt hlt), ?_, ?_⟩
  · intro sid hmem
    rw [hspawned] at hmem
    exact (h.body sid hmem).same rfl rfl (hsame sid) (hbody sid)
  · intro s' hs'
    obtain ⟨s, hs, hid, hreceived, hdeclared⟩ := hslots s' hs'
    rw [hid]
    exact (h.slots s hs).same rfl rfl (hsame s.id) (hbody s.id) hreceived hdeclared

theorem of_streams (h : Whole seen c) (hlast : c.lastStreamId ≤ c'.lastStreamId)
    (hspawned : c'.spawned = c.spawned) (htasks : c'.tasks = c.tasks)
    (hbody : ∀ sid, SameBody (c.chans sid).body (c'.chans sid).body)
    (hslots : ∀ s ∈ c'.streams, s ∈ c.streams) : Whole seen c' :=
  h.of_slots hlast hspawned htasks hbody fun s hs => ⟨s, hslots s hs, rfl, rfl, rfl⟩

theorem of_faulted (h : Whole seen c) (hf : Faulted c c') (hslots : c'.streams ⊆ c.streams) :
    Whole seen c' :=
  h.of_streams hf.lastStreamId.ge hf.spawned hf.tasks (fun sid => (hf.body sid).same) fun _ hs => hslots hs

variable {conn : H2Conn} {hdr : FrameHeader} {payload : Bytes}

theorem observed (h : Whole seen c)
    (hlast : c.lastStreamId = conn.lastStreamId)
    (hroom : hdr.ty = .data → (dataPayload payload hdr.flags).getD [] ≠ [] → hdr.streamId ∈ c.spawned →
      (c.tasks hdr.streamId).reader.limit ≠ some (seen hdr.streamId).body.length)
    (hdata : hdr.ty = .data → hdr.streamId ∉ c.slotIds)
    (hblock : ∀ sid, blockOf conn hdr = some (sid, true) → sid ∉ c.slotIds) :
    Whole (fun sid => observe sid conn hdr payload (seen sid)) c := by
  refine ⟨?_, ?_, ?_⟩
  · intro sid hlt
    rw [observe, if_pos (hlast ▸ hlt)]
    exact h.fresh sid hlt
  · intro sid hmem
    have hbody := h.body sid hmem
    rcases observe_cases sid conn hdr payload (seen sid) with
      ⟨hb, he⟩ | ⟨hty, hid, hopen, e⟩ | ⟨-, hb, he⟩
    · exact hbody.same hb he ⟨rfl, rfl, rfl⟩ ⟨rfl, rfl⟩
    · rw [e]
      exact hbody.missed hopen fun hne => hid ▸ hroom hty hne (hid ▸ hmem)
    · exact hbody.closed hb he
  · intro s hs
    have hmem : s.id ∈ c.slotIds := mem_map_of_mem hs
    rcases observe_cases s.id conn hdr payload (seen s.id) with
      ⟨hb, he⟩ | ⟨hty, hid, -, -⟩ | ⟨hend, -, -⟩
    · exact (h.slots s hs).same hb he ⟨rfl, rfl, rfl⟩ ⟨rfl, rfl⟩ rfl rfl
    · exact absurd (hid ▸ hmem) (hdata hty)
    · exact absurd hmem (hblock s.id hend)

theorem other (s : Seen)
    (hdata : hdr.ty = .data → hdr.streamId ≠ sid) (hblock : blockOf conn hdr ≠ some (sid, true)) :
    (observe sid conn hdr payload s).body = s.body ∧ (observe sid conn hdr payload s).ended = s.ended := by
  rcases observe_cases sid conn hdr payload s with h | ⟨hty, hid, -, -⟩ | ⟨hend, -, -⟩
  · exact h
  · exact absurd hid (hdata hty)
  · exact absurd hend hblock

theorem modify {seen' : ℕ → Seen} {f : StreamSlot → StreamSlot} {g : BodyChan → BodyChan}
    (h : Whole seen c) (hshaped : c.Shaped) (hmem : sid ∈ c.slotIds) (hf : ∀ s, (f s).id = s.id)
    (hother : ∀ sid', sid' ≠ sid → (seen' sid').body = (seen sid').body ∧
      (seen' sid').ended = (seen sid').ended)
    (hone : ∀ s ∈ c.streams, s.id = sid →
      BodyWhole (seen' sid) (c.tasks sid) (g (c.chans sid).body) ∧
      SlotWhole (seen' sid) (c.tasks sid) (g (c.chans sid).body) (f s)) :
    Whole seen' ((c.modifySlot sid f).modifyBody sid g) := by
  have hlast := (hshaped.used sid (mem_append_left _ hmem)).2
  have hself : (((c.modifySlot sid f).modifyBody sid g).chans sid).body = g (c.chans sid).body := by
    simp [modifyBody, modifySlot]
  have hne {sid' : ℕ} (e : sid' ≠ sid) :
      (((c.modifySlot sid f).modifyBody sid g).chans sid').body = (c.chans sid').body := by
    rw [modifyBody, modifyChan_of_ne _ _ _ e]
    rfl
  refine ⟨?_, ?_, ?_⟩
  · intro sid' hlt
    have hlt : c.lastStreamId < sid' := hlt
    obtain ⟨hb, he⟩ := hother sid' (by omega)
    rw [hb, he]
    exact h.fresh sid' hlt
  · intro sid' hmem'
    by_cases e : sid' = sid
    · subst e
      rw [hself]
      obtain ⟨s, hs, hid⟩ := mem_map.mp hmem
      exact (hone s hs hid).1
    · rw [hne e]
      obtain ⟨hb, he⟩ := hother sid' e
      exact (h.body sid' hmem').same hb he ⟨rfl, rfl, rfl⟩ ⟨rfl, rfl⟩
  · intro s' hs'
    obtain ⟨s, hs, rfl⟩ := mem_map.mp hs'
    by_cases e : s.id = sid
    · simp only [if_pos e]
      rw [hf, e, hself]
      exact (hone s hs e).2
    · simp only [if_neg e, hne e]
      obtain ⟨hb, he⟩ := hother s.id e
      exact (h.slots s hs).same hb he ⟨rfl, rfl, rfl⟩ ⟨rfl, rfl⟩ rfl rfl

theorem spawnStreaming (h : Whole seen c) (hshaped : c.Shaped) (hnew : c.lastStreamId < sid)
    (contentLength : Option ℕ) :
    Whole seen ({ c with lastStreamId := sid }.spawnStreaming sid contentLength) := by
  obtain ⟨hb, he⟩ := h.fresh sid hnew
  have hne {sid' : ℕ} (hmem : sid' ∈ c.spawned) : sid' ≠ sid := by
    have := hshaped.spawned_le sid' hmem
    omega
  refine ⟨fun sid' hlt => h.fresh sid' (hnew.trans hlt), ?_, ?_⟩
  · intro sid' hmem
    rcases mem_cons.mp hmem with rfl | hmem
    · simp only [Streams.spawnStreaming, Function.update_self]
      constructor <;> simp [taken, hb, he, BodyReader.newStreaming]
      · cases contentLength <;> rfl
    · simp only [Streams.spawnStreaming, Function.update_of_ne (hne hmem)]
      exact h.body sid' hmem
  · intro s hs
    rcases mem_append.mp hs with hs | hs
    · have e := hne (hshaped.slots_spawned s.id (mem_map_of_mem hs))
      simp only [Streams.spawnStreaming, Function.update_of_ne e]
      exact h.slots s hs
    · obtain rfl := List.mem_singleton.mp hs
      simp only [Streams.spawnStreaming, Function.update_self]
      constructor <;> simp [taken, hb, he, BodyReader.newStreaming]

theorem room_of_dataError {slot : StreamSlot} {len n : ℕ} {bytes : Bytes} {fin : Bool}
    (hok : c.dataError slot len bytes fin = none) (hlimit : slot.contentLength = some n) :
    slot.bodyReceived + bytes.length ≤ n := by
  unfold dataError at hok
  rw [hlimit] at hok
  dsimp only at hok
  by_contra hlt
  have hover : (Option.any (fun cl => decide (cl < slot.bodyReceived + bytes.length) ||
      (fin && decide (slot.bodyReceived + bytes.length ≠ cl))) (some n)) = true := by
    simp [not_le.mp hlt]
  split_ifs at hok

theorem effect {c' : Streams}
    (h : Whole seen conn.toStreams) (hshaped : conn.Shaped)
    (he : Effect conn.toStreams hdr payload (blockOf conn hdr) c')
    (hopen : hdr.ty = .data → (dataPayload payload hdr.flags).getD [] ≠ [] →
      hdr.streamId ∈ conn.slotIds → (seen hdr.streamId).ended = false)
    (hroom : hdr.ty = .data → (dataPayload payload hdr.flags).getD [] ≠ [] →
      hdr.streamId ∈ conn.spawned →
      (conn.tasks hdr.streamId).reader.limit ≠ some (seen hdr.streamId).body.length) :
    Whole (fun sid => observe sid conn hdr payload (seen sid)) c' := by
  have hquiet (hty : hdr.ty ∉ [.data, .headers, .continuation]) :
      Whole (fun sid => observe sid conn hdr payload (seen sid)) conn.toStreams := by
    refine h.observed rfl hroom (fun e => absurd e ?_) fun sid hblock => ?_
    · aesop
    · rcases ty_of_blockOf hblock with e | e <;> simp [e] at hty
  have hnoblock {b : ℕ × Bool} (hty : hdr.ty = .data) (hblock : blockOf conn hdr = some b) : False := by
    rcases ty_of_blockOf hblock with e | e <;> rw [hty] at e <;> cases e
  have hfresh {sid : ℕ} (hnew : conn.lastStreamId < sid) : sid ∉ conn.slotIds :=
    fun hmem => hshaped.fresh_not_mem hnew (mem_append_left _ hmem)
  have hblocked {sid : ℕ} {fin : Bool} (hblock : blockOf conn hdr = some (sid, fin))
      (hslot : sid ∉ conn.slotIds) :
      Whole (fun sid => observe sid conn hdr payload (seen sid)) conn.toStreams := by
    refine h.observed rfl hroom (fun hty => (hnoblock hty hblock).elim) fun sid' hend => ?_
    rw [hblock, some.injEq, Prod.mk.injEq] at hend
    exact hend.1 ▸ hslot
  cases he with
  | nothing _ _ hdata hend => exact h.observed rfl hroom hdata hend
  | settings hty =>
    refine (hquiet (by simp [hty])).of_slots le_rfl rfl rfl
      (fun _ => ⟨rfl, rfl⟩) fun s' hs' => ?_
    obtain ⟨s, hs, rfl⟩ := mem_map.mp hs'
    exact ⟨s, hs, rfl, rfl, rfl⟩
  | creditOut hty =>
    exact (hquiet (by simp [hty])).of_streams le_rfl rfl rfl
      (fun _ => ⟨rfl, rfl⟩) fun _ hs => hs
  | creditSlot hty =>
    refine (hquiet (by simp [hty])).of_slots le_rfl rfl rfl
      (fun _ => ⟨rfl, rfl⟩) fun s' hs' => ?_
    obtain ⟨s, hs, rfl⟩ := mem_map.mp hs'
    refine ⟨s, hs, ?_, ?_, ?_⟩ <;> split_ifs <;> rfl
  | @data hty slot hslot bytes hbytes hok =>
    have hmem : hdr.streamId ∈ conn.slotIds := slot_isSome.mp (by rw [hslot]; rfl)
    have hlast := (hshaped.used _ (mem_append_left _ hmem)).2
    rw [hbytes] at hopen
    refine h.modify hshaped hmem (fun _ => rfl) ?_ ?_
    · intro sid' hne
      exact other _ (fun _ e => hne e.symm) fun hblock => hnoblock hty hblock
    · intro s hs hid
      obtain rfl := eq_of_slot hshaped.nodup_slots hslot hs hid
      have hspawned := hshaped.slots_spawned _ hmem
      have hwhole := h.slots s hs
      rw [hid] at hwhole
      have hopen' : bytes ≠ [] → (seen hdr.streamId).ended = false := fun hne => hopen hty hne hmem
      obtain ⟨hb, he⟩ := observe_data hty hlast hbytes hopen'
      refine (h.body _ hspawned).deliver hwhole hb he hopen' (fun n hn => ?_) rfl
      rw [← hwhole.received]
      exact room_of_dataError hok (hwhole.declared.trans hn)
  | @badData hty slot hslot bytes hbytes code hbad =>
    have hf := H2Conn.faulted_serverReset conn.toStreams hdr.streamId
    have hslots : (conn.serverReset hdr.streamId).streams = _ := streams_serverReset
    have hgone := h.of_faulted hf (hslots ▸ filter_subset_self _)
    refine hgone.observed hf.lastStreamId ?_ (fun _ hmem => ?_) fun sid hblock => (hnoblock hty hblock).elim
    · rw [hf.spawned, hf.tasks]
      exact hroom
    · rw [slotIds, hslots, ← slotIds, slotIds_removeSlot] at hmem
      simp at hmem
  | reset hty hcap =>
    have hslots : (conn.peerReset hdr.streamId).streams = _ := streams_peerReset
    exact (hquiet (by simp [hty])).of_faulted (H2Conn.faulted_peerReset _ _)
      (hslots ▸ filter_subset_self _)
  | @trailers sid hblock hslot =>
    have hlast := (hshaped.used sid (mem_append_left _ hslot)).2
    have hself : conn.toStreams.modifySlot sid (fun s => s) = conn.toStreams := by
      simp [modifySlot]
    rw [← hself]
    refine h.modify hshaped hslot (fun _ => rfl) ?_ ?_
    · intro sid' hne
      refine other _ (fun hty => (hnoblock hty hblock).elim) fun hblock' => ?_
      rw [hblock, some.injEq, Prod.mk.injEq] at hblock'
      exact absurd hblock'.1.symm hne
    · intro s hs hid
      obtain ⟨hb, he⟩ := observe_end payload (seen sid) hblock hlast
      have hwhole := h.slots s hs
      rw [hid] at hwhole
      exact (h.body sid (hshaped.slots_spawned sid hslot)).trailers hwhole hb he
  | late hblock hslot hcap =>
    exact (hblocked hblock hslot).of_streams le_rfl rfl rfl (fun _ => ⟨rfl, rfl⟩) fun _ hs => hs
  | refused hblock hnew =>
    exact (hblocked hblock (hfresh hnew)).of_streams hnew.le rfl rfl (fun _ => ⟨rfl, rfl⟩) fun _ hs => hs
  | inlined hblock hnew =>
    exact (hblocked hblock (hfresh hnew)).of_streams hnew.le rfl rfl (fun _ => ⟨rfl, rfl⟩) fun _ hs => hs
  | spawned hblock hnew _ contentLength =>
    exact (hblocked hblock (hfresh hnew)).spawnStreaming hshaped hnew contentLength

theorem credited (h : Whole seen c) (hc : Streams.Credited c c') : Whole seen c' := by
  have hbody (sid : ℕ) : SameBody (c.chans sid).body (c'.chans sid).body := by
    obtain ⟨n, e⟩ := hc.body sid
    rw [e]
    exact ⟨rfl, rfl⟩
  have hslots := hc.slots
  refine h.of_slots ?_ ?_ ?_ hbody fun s' hs' => ?_
  case refine_4 =>
    obtain ⟨s, hs, e⟩ := hslots.mem hs'
    rw [e]
    exact ⟨s, hs, rfl, rfl, rfl⟩
  all_goals rw [hc.rest]

theorem drainResponses (h : Whole seen c) : Whole seen c.drainResponses := by
  refine drainResponses_induction (P := Whole seen) ⟨h.fresh, h.body, h.slots⟩
    fun r _ c1 h1 => ?_
  rcases c1.drainResponse_cases r with e | ⟨-, e | e⟩
  · rwa [e]
  all_goals
    rw [e]
    exact h1.of_streams le_rfl rfl rfl (fun _ => ⟨rfl, rfl⟩) fun s hs => (mem_filter.mp hs).1

theorem flush {c : H2Conn} (h : Whole seen c.toStreams) (hshaped : c.Shaped) :
    Whole seen c.flush.2.toStreams := by
  refine h.of_slots le_rfl rfl rfl (fun sid => ?_) fun s' hs' => ?_
  · rw [(H2Conn.flush_chans sid).1]
    exact ⟨rfl, rfl⟩
  · obtain ⟨s, hs, e⟩ := (H2Conn.flush_slots hshaped.nodup_slots).keep s' hs'
    rw [e]
    exact ⟨s, hs, rfl, rfl, rfl⟩

theorem put {t : Task} {ch : Channels} (h : Whole seen c)
    (hbody : sid ∈ c.spawned → BodyWhole (seen sid) t ch.body)
    (hslot : ∀ s ∈ c.streams, s.id = sid → SlotWhole (seen sid) t ch.body s) :
    Whole seen (c.put sid t ch) := by
  refine ⟨h.fresh, ?_, ?_⟩
  · intro sid' hmem
    by_cases e : sid' = sid
    · subst e
      simpa [put] using hbody hmem
    · simpa [Streams.put, e] using h.body sid' hmem
  · intro s hs
    by_cases e : s.id = sid
    · simpa [Streams.put, e] using hslot s hs e
    · simpa [Streams.put, e] using h.slots s hs

theorem taskMove {op : TaskOp} (h : Whole seen c) (hm : TaskMove c sid op c')
    (hspawned : sid ∈ c.spawned)
    (hcut : op = .read → (c.tasks sid).reader.limit = none → (c.chans sid).body.chunks = [] →
      (c.chans sid).body.reset = true → (c.chans sid).body.eof = true) : Whole seen c' := by
  have hsame {t : Task} {ch : Channels} (ht : SameTask (c.tasks sid) t)
      (hd : SameBody (c.chans sid).body ch.body) : Whole seen (c.put sid t ch) := by
    refine h.put (fun hmem => (h.body sid hmem).same rfl rfl ht hd) fun s hs e => ?_
    have hwhole := h.slots s hs
    rw [e] at hwhole
    exact hwhole.same rfl rfl ht hd rfl rfl
  cases hm with
  | nothing => exact h
  | read =>
    obtain ⟨t, d, e, hwhole, htaken, heof, hlimit⟩ := (h.body sid hspawned).readTask (hcut rfl)
    rw [e]
    refine h.put (fun _ => hwhole) fun s hs hid => ?_
    have hslot := h.slots s hs
    rw [hid] at hslot
    exact ⟨htaken.trans hslot.all, heof.trans hslot.eof, hslot.received,
      hslot.declared.trans hlimit.symm⟩
  | stream => exact hsame ⟨rfl, rfl, rfl⟩ ⟨rfl, rfl⟩
  | ended => exact hsame ⟨rfl, rfl, rfl⟩ ⟨rfl, rfl⟩
  | respond _ _ resp =>
    have hput : Whole seen (c.put sid { c.tasks sid with finished := true } (c.chans sid)) :=
      hsame ⟨rfl, rfl, rfl⟩ ⟨rfl, rfl⟩
    exact ⟨hput.fresh, hput.body, hput.slots⟩

end Whole

/-- No payload behind END_STREAM or the declared length, no read past a cut. -/
def ReadsWhole (w : World) : Action → Prop
  | .frame _ =>
    match readFrame w.inbuf with
    | .frame hdr payload _ =>
      hdr.ty = .data → (dataPayload payload hdr.flags).getD [] ≠ [] →
        (hdr.streamId ∈ w.conn.slotIds → (w.seen hdr.streamId).ended = false) ∧
        (hdr.streamId ∈ w.conn.spawned →
          (w.conn.tasks hdr.streamId).reader.limit ≠ some (w.seen hdr.streamId).body.length)
    | _ => True
  | .task sid .read =>
    (w.conn.tasks sid).reader.limit = none → (w.conn.chans sid).body.chunks = [] →
      (w.conn.chans sid).body.reset = true → (w.conn.chans sid).body.eof = true
  | _ => True

instance (w : World) (a : Action) : Decidable (ReadsWhole w a) := by
  unfold ReadsWhole
  split
  · split <;> infer_instance
  · infer_instance
  · infer_instance

/-- Every body is read whole, in order. -/
structure BodyInv (w : World) : Prop where
  shaped : w.conn.Shaped
  whole : Whole w.seen w.conn.toStreams

theorem bodyInv_step {w : World} (h : BodyInv w) {a : Action} (ha : ReadsWhole w a) :
    BodyInv (w.step a) := by
  have hshaped := shaped_step h.shaped a
  have hmoves := w.step_moves a
  generalize w.step a = w' at hmoves hshaped
  refine ⟨hshaped, ?_⟩
  cases hmoves with
  | idle => exact h.whole
  | swept hready =>
    have hcredit := h.whole.credited (credited_creditConsumedBodies w.conn)
    exact Whole.flush (c := w.sweeping) hcredit.drainResponses (shaped_sweeping h.shaped hready)
  | framed hready hread heffect =>
    simp only [ReadsWhole, hread] at ha
    exact h.whole.effect h.shaped heffect (fun hty hne => (ha hty hne).1) fun hty hne => (ha hty hne).2
  | dropped hready a hfault hslots hout hclosed hseen =>
    have hgone := h.whole.of_faulted hfault (by simp [hslots])
    have hnone (sid : ℕ) : sid ∉ w'.conn.slotIds := by
      rw [slotIds, hslots]
      exact not_mem_nil
    rcases hseen with e | ⟨spawns, hdr, payload, rest, rfl, hread, e⟩
    · rw [e]
      exact hgone
    · simp only [ReadsWhole, hread] at ha
      rw [e]
      refine hgone.observed hfault.lastStreamId ?_ (fun _ => hnone _) fun sid _ => hnone sid
      rw [hfault.spawned, hfault.tasks]
      exact fun hty hne => (ha hty hne).2
  | @responded sid hinline resp => exact ⟨h.whole.fresh, h.whole.body, h.whole.slots⟩
  | @tasked sid hspawned hrunning op =>
    have hmove := runTask_moves (h.shaped.head sid hspawned) op
    refine h.whole.taskMove hmove hspawned ?_
    rintro rfl
    exact ha

theorem BodyWhole.clean (h : BodyWhole s t d) (hended : t.ended = true)
    (hclean : t.reader.remaining = 0) :
    t.read = s.body ∧ match t.reader.limit with
      | some n => s.body.length = n
      | none => s.ended = true := by
  cases hlimit : t.reader.limit with
  | none => exact h.ended hlimit hended
  | some n =>
    obtain ⟨hle, hall⟩ := h.declared n hlimit
    have hlen : n ≤ t.read.length := by
      rw [remaining, hlimit, elim_some, h.delivered] at hclean
      omega
    rw [taken, length_append] at hle hall
    have hnil : d.chunks.flatten = [] := length_eq_zero_iff.mp (by omega)
    rw [hnil, append_nil] at hall
    have hread := hall (by rw [length_nil]; omega)
    exact ⟨hread, by rw [← hread]; omega⟩

/-- **Request bodies are exact**: a task reads a front part, and a clean end means all of it. -/
theorem request_body_exact (as : List Action) (h : Runs.Along World.step ReadsWhole {} as) :
    let w := run {} as
    ∀ sid ∈ w.conn.spawned, (w.conn.tasks sid).read <+: (w.seen sid).body ∧
      ((w.conn.tasks sid).ended = true → (w.conn.tasks sid).reader.remaining = 0 →
        (w.conn.tasks sid).read = (w.seen sid).body ∧
          match (w.conn.tasks sid).reader.limit with
          | some n => (w.seen sid).body.length = n
          | none => (w.seen sid).ended = true) := by
  have hinit : BodyInv {} := ⟨shaped_new, fun _ _ => ⟨rfl, rfl⟩, by simp, by simp⟩
  have hinv := h.invariant (fun w a ha hw => bodyInv_step hw ha) hinit
  intro w sid hmem
  have hbody := hinv.whole.body sid hmem
  exact ⟨(prefix_append _ _).trans hbody.sent, hbody.clean⟩

def twoBodies : List Action :=
  exchange 1 4 1 (postBlock ++ [0x0f, 0x0d, 0x01, 0x34]) ++ exchange 1 4 3 postBlock ++
    exchange 0 0 1 [97, 98] ++ exchange 0 8 3 [1, 120, 0] ++ [.task 1 .read] ++
    exchange 0 1 1 [99, 100] ++ exchange 1 5 3 [0x88] ++
    [.task 1 .read, .task 1 .read, .task 3 .read, .task 3 .read]

theorem request_body_exact_two :
    let w := run {} twoBodies
    (w.conn.tasks 1).read = (w.seen 1).body ∧ (w.conn.tasks 3).read = (w.seen 3).body ∧
      (w.seen 1).body = [97, 98, 99, 100] ∧ (w.seen 3).body = [120] := by
  have h := request_body_exact twoBodies (by decide +kernel)
  have hfacts : ∀ sid ∈ [1, 3], (sid ∈ (run {} twoBodies).conn.spawned ∧
      ((run {} twoBodies).conn.tasks sid).ended = true ∧
      ((run {} twoBodies).conn.tasks sid).reader.remaining = 0) ∧
      ((run {} twoBodies).seen sid).body = if sid = 1 then [97, 98, 99, 100] else [120] := by
    decide +kernel
  obtain ⟨⟨hmem, hended, hclean⟩, hbody⟩ := hfacts 1 (by simp)
  obtain ⟨⟨hmem', hended', hclean'⟩, hbody'⟩ := hfacts 3 (by simp)
  exact ⟨((h 1 hmem).2 hended hclean).1, ((h 3 hmem').2 hended' hclean').1, hbody, hbody'⟩

/-- Two bytes end the stream, two are behind them. -/
def dataBehindEnd : List Action :=
  exchange 1 4 1 postBlock ++ exchange 0 1 1 [97, 98] ++ exchange 0 0 1 [99, 100] ++
    [.task 1 .read, .task 1 .read, .task 1 .read]

def dataCut : List Action :=
  exchange 1 4 1 postBlock ++ exchange 0 0 1 [97, 98] ++ exchange 3 0 1 [0, 0, 0, 8] ++
    [.task 1 .read, .task 1 .read]

/-- Two declared bytes, and two behind them. -/
def dataBeyond : List Action :=
  exchange 1 4 1 (postBlock ++ [0x0f, 0x0d, 0x01, 0x32]) ++ exchange 0 0 1 [97, 98] ++
    [.task 1 .read, .task 1 .read] ++ exchange 0 1 1 [99, 100]

/-- A task reads behind END_STREAM, and cut or overlong bodies are reported complete. -/
theorem request_body_differs :
    (let w := run {} dataBehindEnd
     ((w.conn.tasks 1).ended = true ∧ (w.conn.tasks 1).reader.remaining = 0) ∧
      (w.conn.tasks 1).read = [97, 98, 99, 100] ∧ (w.seen 1).body = [97, 98]) ∧
    (let w := run {} dataCut
     ((w.conn.tasks 1).ended = true ∧ (w.conn.tasks 1).reader.remaining = 0) ∧
      (w.conn.tasks 1).read = [97, 98] ∧ (w.seen 1).ended = false) ∧
    (let w := run {} dataBeyond
     ((w.conn.tasks 1).ended = true ∧ (w.conn.tasks 1).reader.remaining = 0) ∧
      (w.conn.tasks 1).read = [97, 98] ∧ (w.seen 1).body = [97, 98, 99, 100] ∧
      (w.conn.tasks 1).reader.limit = some 2) := by
  decide +kernel

end Waitless.Http2
