import Waitless.QuicSlotTable

/-! # Routing datagrams to connections

A datagram reaches a connection by an ID the client chose for it, or by one with its slot and
generation (`routed`). The random bytes are not compared (`other_nonce_delivered`); where they agree
the ID is the issued one (`routed_by_full_cid`). -/

namespace Waitless.Endpoint

open Waitless.AesGcm Waitless.Quic LinkedChain Function SlotTable
open List hiding Vector lookup

structure Datagram where
  srcIp : ℕ
  srcPort : ℕ
  bytes : Bytes
  rxUs : ℕ
deriving DecidableEq

/-- What waits for the task of a connection. -/
structure ConnInbox where
  queue : List Datagram := []
  closed : Bool := false
  capacity : ℕ := 256

def ConnInbox.push (q : ConnInbox) (d : Datagram) : Bool × ConnInbox :=
  if q.closed then (false, q)
  else if q.capacity ≤ q.queue.length then (false, q)
  else (true, { q with queue := q.queue ++ [d] })

def ConnInbox.Accepts (q : ConnInbox) : Prop := q.closed = false ∧ q.queue.length < q.capacity

instance (q : ConnInbox) : Decidable q.Accepts := inferInstanceAs (Decidable (_ ∧ _))

theorem ConnInbox.push_queue (q : ConnInbox) (d : Datagram) :
    (q.push d).2.queue = if q.Accepts then q.queue ++ [d] else q.queue := by
  unfold push Accepts
  by_cases hclosed : q.closed
  · simp [hclosed]
  · by_cases hfull : q.capacity ≤ q.queue.length
    · simp [hclosed, hfull, Nat.not_lt.mpr hfull]
    · simp [hclosed, hfull, Nat.not_le.mp hfull]

/-- With the ID it was issued and the ID that created it. -/
structure Conn where
  slot : ℕ
  generation : ℕ
  nonce : Nonce
  initialDcid : Bytes
  inbox : ConnInbox := {}
  held : Bool := true
  exited : Bool := false

def Conn.localCid (c : Conn) : Bytes := makeLocalCid c.slot c.generation c.nonce

structure Worker where
  table : SlotTable
  conns : List Conn := []

/-! ### The worker -/

def extractDcid (bytes : Bytes) : Option Bytes :=
  match bytes with
  | [] => none
  | first :: _ =>
    if first &&& fixedBit = 0 then none
    else if first &&& headerFormLong ≠ 0 then
      match parseLongHeaderPreamble bytes with
      | .ok pre => some pre.dcid
      | .error _ => none
    else if bytes.length < 1 + serverCidLen then none
    else some (slice bytes 1 (1 + serverCidLen))

def isLongHeaderInitial (bytes : Bytes) : Bool :=
  match parseLongHeaderPreamble bytes with
  | .ok pre => pre.longType = .initial
  | .error _ => false

/-- What the surroundings answer while a datagram is handled. -/
structure Answers where
  nonce : Option Nonce
  seeded : Bool
  heap : HeapStats

namespace Worker

def alive (w : Worker) (c : ℕ) : Bool := (w.conns[c]?).any Conn.held

def pushTo (w : Worker) (c : ℕ) (d : Datagram) : Worker :=
  { w with conns := w.conns.modify c fun conn => { conn with inbox := (conn.inbox.push d).2 } }

/-- The inbox an ID of the server's own leads to. -/
def lookupLocal (w : Worker) (dcid : Bytes) : Option ℕ := do
  let (idx, generation) ← parseLocalCid dcid
  w.table.lookup w.alive idx generation

/-- A connection for a client's first packet. -/
def create (w : Worker) (d : Datagram) (dcid : Bytes) (a : Answers) : Option ℕ × Worker :=
  match w.table.allocate d.srcIp a.heap with
  | (none, t) => (none, { w with table := t })
  | (some (idx, generation), t) =>
    let t := t.registerInitialDcid dcid idx generation
    match a.nonce with
    | none => (none, { w with table := t })
    | some nonce =>
      let c := w.conns.length
      let conn : Conn :=
        { slot := idx, generation, nonce, initialDcid := dcid
          inbox := (ConnInbox.push {} d).2, held := a.seeded }
      (some c, { table := t.install idx generation c, conns := w.conns ++ [conn] })

/-- The connection into whose inbox a datagram goes. -/
def receive (w : Worker) (d : Datagram) (a : Answers) : Option ℕ × Worker :=
  match extractDcid d.bytes with
  | none => (none, w)
  | some dcid =>
    match w.lookupLocal dcid with
    | some c => (some c, w.pushTo c d)
    | none =>
      match w.table.lookupInitialDcid w.alive dcid with
      | (some c, t) => (some c, pushTo { w with table := t } c d)
      | (none, t) =>
        if isLongHeaderInitial d.bytes then create { w with table := t } d dcid a
        else (none, { w with table := t })

/-- Datagrams, and the steps of the connections' tasks. -/
inductive Event where
  | datagram (d : Datagram) (a : Answers)
  | pop (c : ℕ)
  | close (c : ℕ)
  | validated (c : ℕ)
  | release (c : ℕ)
  | exit (c : ℕ)

def setConn (w : Worker) (c : ℕ) (f : Conn → Conn) : Worker :=
  { w with conns := w.conns.modify c f }

def step (w : Worker) : Event → Worker
  | .datagram d a => (w.receive d a).2
  | .pop c => w.setConn c fun conn =>
    { conn with inbox := { conn.inbox with queue := conn.inbox.queue.tail } }
  | .close c => w.setConn c fun conn => { conn with inbox := { conn.inbox with closed := true } }
  | .validated c =>
    match w.conns[c]? with
    | some conn =>
      if conn.exited then w
      else { w with table := w.table.markValidated conn.slot conn.generation }
    | none => w
  | .release c => w.setConn c fun conn => { conn with held := false }
  | .exit c =>
    match w.conns[c]? with
    | some conn =>
      if conn.exited then w
      else setConn { w with table := w.table.freeSlot conn.slot conn.generation } c fun conn =>
        { conn with exited := true }
    | none => w

def run (w : Worker) (events : List Event) : Worker := events.foldl step w

end Worker

/-! ### What ties the table to the connections -/

/-- Table and connections fit together, with `free` on the free list. -/
structure Routes (t : SlotTable) (conns : List Conn) (free : List ℕ) : Prop where
  chain : Chain (fun i => (t.slots i).nextFree) nullSlot t.freeHead free
  free_lt : ∀ i ∈ free, i < t.capacity
  capacity_le : t.capacity ≤ nullSlot
  /-- A chosen ID leads to its connection. -/
  entry : ∀ e ∈ t.initialDcids, e.2.1 ∉ free ∧ e.2.1 < t.capacity ∧
    (t.slots e.2.1).generation = e.2.2 ∧
    ∀ c conn, (t.slots e.2.1).inbox = some c → conns[c]? = some conn → conn.initialDcid = e.1
  /-- A slot leads to its connection. -/
  inbox : ∀ i c, (t.slots i).inbox = some c → ∃ conn, conns[c]? = some conn ∧
    conn.slot = i ∧ conn.generation = (t.slots i).generation ∧ conn.exited = false
  holder : ∀ c conn, conns[c]? = some conn → conn.exited = false →
    conn.slot ∉ free ∧ conn.slot < t.capacity ∧ (t.slots conn.slot).inbox = some c

namespace Routes

variable {t t' : SlotTable} {conns conns' : List Conn} {free : List ℕ}

theorem initial (maxCapacity : ℕ) : Routes (.new maxCapacity) [] [] where
  chain := rfl
  free_lt := nofun
  capacity_le := Nat.zero_le _
  entry := nofun
  inbox := nofun
  holder := nofun

theorem congr (h : Routes t conns free) (hslots : ∀ i, (t'.slots i).generation =
      (t.slots i).generation ∧ (t'.slots i).inbox = (t.slots i).inbox ∧
      (t'.slots i).nextFree = (t.slots i).nextFree)
    (hcap : t'.capacity = t.capacity) (hhead : t'.freeHead = t.freeHead)
    (hentries : ∀ e ∈ t'.initialDcids, e ∈ t.initialDcids) : Routes t' conns free where
  chain := by
    rw [hhead]
    exact h.chain.congr fun i _ => (hslots i).2.2
  free_lt i hi := hcap ▸ h.free_lt i hi
  capacity_le := hcap ▸ h.capacity_le
  entry e he := by
    obtain ⟨hfree, hlt, hgen, hconn⟩ := h.entry e (hentries e he)
    refine ⟨hfree, hcap ▸ hlt, (hslots _).1.trans hgen, ?_⟩
    rw [(hslots _).2.1]
    exact hconn
  inbox i c hi := by
    rw [(hslots i).2.1] at hi
    rw [(hslots i).1]
    exact h.inbox i c hi
  holder c conn hc hopen := by
    rw [hcap, (hslots _).2.1]
    exact h.holder c conn hc hopen

theorem modify (h : Routes t conns free) (c : ℕ) {f : Conn → Conn}
    (hf : ∀ conn, (f conn).slot = conn.slot ∧ (f conn).generation = conn.generation ∧
      (f conn).initialDcid = conn.initialDcid ∧ (f conn).exited = conn.exited) :
    Routes t (conns.modify c f) free := by
  have hget {k : ℕ} {conn : Conn} (hk : (conns.modify c f)[k]? = some conn) :
      ∃ old, conns[k]? = some old ∧ conn.slot = old.slot ∧ conn.generation = old.generation ∧
        conn.initialDcid = old.initialDcid ∧ conn.exited = old.exited := by
    rw [getElem?_modify] at hk
    obtain ⟨old, hold, rfl⟩ := Option.map_eq_some_iff.mp hk
    refine ⟨old, hold, ?_⟩
    split_ifs
    · exact hf old
    · exact ⟨rfl, rfl, rfl, rfl⟩
  refine ⟨h.chain, h.free_lt, h.capacity_le, fun e he => ?_, fun i k hi => ?_,
    fun k conn hk hopen => ?_⟩
  · obtain ⟨hfree, hlt, hgen, hconn⟩ := h.entry e he
    refine ⟨hfree, hlt, hgen, fun k conn hi hk => ?_⟩
    obtain ⟨old, hold, -, -, hdcid, -⟩ := hget hk
    exact hdcid.trans (hconn k old hi hold)
  · obtain ⟨old, hold, hslot, hgen, hopen⟩ := h.inbox i k hi
    refine ⟨if c = k then f old else old, ?_, ?_⟩
    · rw [getElem?_modify, hold]
      rfl
    · split_ifs
      · obtain ⟨h1, h2, -, h4⟩ := hf old
        exact ⟨h1.trans hslot, h2.trans hgen, h4.trans hopen⟩
      · exact ⟨hslot, hgen, hopen⟩
  · obtain ⟨old, hold, hslot, -, -, hexited⟩ := hget hk
    rw [hslot]
    exact h.holder k old hold (hexited ▸ hopen)

theorem chain_range {next : ℕ → ℕ} {s n : ℕ} (hn : s + n ≤ nullSlot)
    (hnext : ∀ i, s ≤ i → i < s + n →
      next i = if i + 1 < s + n then i + 1 else nullSlot) :
    Chain next nullSlot (if 0 < n then s else nullSlot) (List.range' s n) := by
  induction n generalizing s with
  | zero => rfl
  | succ n ih =>
    rw [range'_succ, if_pos (Nat.succ_pos n)]
    refine ⟨rfl, by omega, ?_⟩
    have htail := ih (s := s + 1) (by omega) fun i hlo hhi => by
      rw [hnext i (by omega) (by omega)]
      congr 2
      omega
    rw [hnext s le_rfl (by omega)]
    convert htail using 2
    omega

theorem grow (h : Routes t conns free) (hnull : t.freeHead = nullSlot)
    (hgrow : t.growSegment = some t') :
    ∃ free', Routes t' conns free' ∧ t'.freeHead ≠ nullSlot := by
  rw [growSegment] at hgrow
  split_ifs at hgrow with hcap
  obtain rfl := Option.some.inj hgrow
  have hchain := h.chain
  rw [hnull, chain_null] at hchain
  have hseg : t.capacity + segmentSize ≤ nullSlot := Nat.not_lt.mp hcap
  have hpos : 0 < segmentSize := by decide
  have hold {i : ℕ} (hi : i < t.capacity) :
      ¬ (t.capacity ≤ i ∧ i < t.capacity + segmentSize) := by omega
  refine ⟨range' t.capacity segmentSize, ⟨?_, fun i hi => ?_, hseg, fun e he => ?_,
    fun i c hi => ?_, fun c conn hc hopen => ?_⟩, ?_⟩
  · have hrange : Chain (fun i => if i + 1 < t.capacity + segmentSize then i + 1 else nullSlot)
        nullSlot _ (range' t.capacity segmentSize) := chain_range hseg fun i _ _ => rfl
    rw [if_pos hpos] at hrange
    refine hrange.congr fun i hi => ?_
    obtain ⟨hlo, hhi⟩ := mem_range'_1.mp hi
    simp only [hlo, hhi, and_self, if_true, hnull]
  · exact (mem_range'_1.mp hi).2
  · obtain ⟨-, hlt, hgen, hconn⟩ := h.entry e he
    simp only [hold hlt, if_false]
    refine ⟨fun hmem => ?_, by omega, hgen, hconn⟩
    exact absurd (mem_range'_1.mp hmem).1 (Nat.not_le.mpr hlt)
  · by_cases hnew : t.capacity ≤ i ∧ i < t.capacity + segmentSize
    · simp only [if_pos hnew, reduceCtorEq] at hi
    · simp only [if_neg hnew] at hi ⊢
      exact h.inbox i c hi
  · obtain ⟨-, hlt, hinbox⟩ := h.holder c conn hc hopen
    simp only [hold hlt, if_false]
    refine ⟨fun hmem => ?_, by omega, hinbox⟩
    exact absurd (mem_range'_1.mp hmem).1 (Nat.not_le.mpr hlt)
  · dsimp only
    omega

theorem freeSlotOrGrow (h : Routes t conns free) (ht' : t.freeSlotOrGrow = some t') :
    ∃ free', Routes t' conns free' ∧ t'.freeHead ≠ nullSlot := by
  rw [SlotTable.freeSlotOrGrow] at ht'
  split_ifs at ht' with hnull
  · obtain rfl := Option.some.inj ht'
    exact ⟨free, h, hnull⟩
  · exact h.grow (not_not.mp hnull) ht'

/-- A slot off the free list that nothing leads to yet. -/
structure Taken (t : SlotTable) (free : List ℕ) (idx generation : ℕ) : Prop where
  notMem : idx ∉ free
  lt : idx < t.capacity
  gen : (t.slots idx).generation = generation
  empty : (t.slots idx).inbox = none
  entries : ∀ e ∈ t.initialDcids, e.2.1 ≠ idx

theorem take (h : Routes t conns free) (hne : t.freeHead ≠ nullSlot) (srcIp : ℕ) :
    ∃ free', Routes (t.take srcIp).2 conns free' ∧
      Taken (t.take srcIp).2 free' (t.take srcIp).1.1 (t.take srcIp).1.2 := by
  cases free with
  | nil => exact absurd h.chain hne
  | cons idx free =>
    have hmem : idx ∈ idx :: free := mem_cons_self
    have hout : idx ∉ free := (nodup_cons.mp h.chain.nodup).1
    obtain ⟨hhead, -, htail⟩ := h.chain
    have hother {i : ℕ} (hi : i ≠ idx) : ((t.take srcIp).2.slots i) = t.slots i :=
      update_of_ne (hhead ▸ hi) ..
    have hself : (t.take srcIp).2.slots idx =
        { generation := ((t.slots idx).generation + 1) % 2 ^ 16, srcIp, counted := true } := by
      rw [← hhead]
      exact update_self ..
    refine ⟨free, ⟨?_, fun i hi => h.free_lt i (mem_cons_of_mem _ hi), h.capacity_le,
      fun e he => ?_, fun i c hi => ?_, fun c conn hc hopen => ?_⟩, ?_⟩
    · have hnext : (t.take srcIp).2.freeHead = (t.slots idx).nextFree := by rw [← hhead]; rfl
      rw [hnext]
      refine htail.congr fun i hi => ?_
      rw [hother]
      rintro rfl
      exact hout hi
    · obtain ⟨hfree, hlt, hgen, hconn⟩ := h.entry e he
      rw [hother fun hidx => hfree (by rw [hidx]; exact hmem)]
      exact ⟨fun hin => hfree (mem_cons_of_mem _ hin), hlt, hgen, hconn⟩
    · by_cases hidx : i = idx
      · subst hidx
        rw [hself] at hi
        cases hi
      · rw [hother hidx] at hi ⊢
        exact h.inbox i c hi
    · obtain ⟨hfree, hlt, hinbox⟩ := h.holder c conn hc hopen
      rw [hother fun hidx => hfree (by rw [hidx]; exact hmem)]
      exact ⟨fun hin => hfree (mem_cons_of_mem _ hin), hlt, hinbox⟩
    · have hid : (t.take srcIp).1.1 = idx := hhead
      refine ⟨hid ▸ hout, hid ▸ h.free_lt idx hmem, ?_, ?_, fun e he heq => ?_⟩
      · rw [hid, hself, ← hhead]
        rfl
      · rw [hid, hself]
      · exact (h.entry e he).1 (heq ▸ hid ▸ hmem)

theorem register (h : Routes t conns free) {idx generation : ℕ}
    (hidx : Taken t free idx generation) (dcid : Bytes) :
    Routes (t.registerInitialDcid dcid idx generation) conns free where
  chain := h.chain
  free_lt := h.free_lt
  capacity_le := h.capacity_le
  inbox := h.inbox
  holder := h.holder
  entry e he := by
    rcases mem_cons.mp he with rfl | he
    · refine ⟨hidx.notMem, hidx.lt, hidx.gen, fun c conn hc => ?_⟩
      exact absurd hc (by simp [registerInitialDcid, hidx.empty])
    · exact h.entry e (mem_of_mem_filter he)

theorem install (h : Routes t conns free) {idx generation : ℕ}
    (hidx : Taken t free idx generation) {conn : Conn} {dcid : Bytes}
    (hdcid : conn.initialDcid = dcid) (hslot : conn.slot = idx)
    (hgen : conn.generation = generation) (hopen : conn.exited = false) :
    Routes ((t.registerInitialDcid dcid idx generation).install idx generation conns.length)
      (conns ++ [conn]) free := by
  subst hdcid
  have hnew : (conns ++ [conn])[conns.length]? = some conn := by simp
  have hold {c : ℕ} {k : Conn} (hc : conns[c]? = some k) : (conns ++ [conn])[c]? = some k := by
    rw [getElem?_append_left (List.getElem?_eq_some_iff.mp hc).1, hc]
  have hcases {c : ℕ} {k : Conn} (hc : (conns ++ [conn])[c]? = some k) :
      conns[c]? = some k ∨ (c = conns.length ∧ k = conn) := by
    rcases lt_trichotomy c conns.length with hlt | rfl | hgt
    · rw [getElem?_append_left hlt] at hc
      exact .inl hc
    · rw [hnew] at hc
      exact .inr ⟨rfl, (Option.some.inj hc).symm⟩
    · rw [getElem?_eq_none (by simp; omega)] at hc
      cases hc
  have hreg := h.register hidx conn.initialDcid
  set t1 := t.registerInitialDcid conn.initialDcid idx generation with ht1
  have hgen1 : (t1.slots idx).generation = generation := hidx.gen
  have hother {i : ℕ} (hi : i ≠ idx) :
      (t1.install idx generation conns.length).slots i = t.slots i := by
    rw [SlotTable.install, if_pos hgen1]
    exact update_of_ne hi ..
  have hself : (t1.install idx generation conns.length).slots idx =
      { t.slots idx with inbox := some conns.length } := by
    rw [SlotTable.install, if_pos hgen1]
    exact update_self ..
  have hrest : (t1.install idx generation conns.length).freeHead = t.freeHead ∧
      (t1.install idx generation conns.length).capacity = t.capacity ∧
      (t1.install idx generation conns.length).initialDcids = t1.initialDcids := by
    rw [SlotTable.install, if_pos hgen1]
    exact ⟨rfl, rfl, rfl⟩
  obtain ⟨hhead, hcap, hentries⟩ := hrest
  refine ⟨?_, fun i hi => hcap ▸ h.free_lt i hi, hcap ▸ h.capacity_le, fun e he => ?_,
    fun i c hi => ?_, fun c k hc hk => ?_⟩
  · rw [hhead]
    refine h.chain.congr fun i hi => ?_
    rw [hother]
    rintro rfl
    exact hidx.notMem hi
  · rw [hentries] at he
    rw [hcap]
    obtain ⟨hfree, hlt, hg, hconn⟩ := hreg.entry e he
    rcases mem_cons.mp he with rfl | he
    · rw [hself]
      refine ⟨hfree, hlt, hg, fun c k hc hk => ?_⟩
      obtain rfl := Option.some.inj hc
      rw [hnew] at hk
      rw [← Option.some.inj hk]
    · rw [hother (hidx.entries e (mem_of_mem_filter he))]
      refine ⟨hfree, hlt, hg, fun c k hc hk => ?_⟩
      rcases hcases hk with hk | ⟨rfl, rfl⟩
      · exact hconn c k hc hk
      · obtain ⟨k', hk', -⟩ := h.inbox _ _ hc
        exact absurd (List.getElem?_eq_some_iff.mp hk').1 (lt_irrefl _)
  · by_cases hi' : i = idx
    · subst hi'
      rw [hself] at hi ⊢
      obtain rfl := Option.some.inj hi
      exact ⟨conn, hnew, hslot, hgen.trans hidx.gen.symm, hopen⟩
    · rw [hother hi'] at hi ⊢
      obtain ⟨k, hk, hkeep⟩ := h.inbox i c hi
      exact ⟨k, hold hk, hkeep⟩
  · rw [hcap]
    rcases hcases hc with hc | ⟨rfl, rfl⟩
    · obtain ⟨hfree, hlt, hinbox⟩ := h.holder c k hc hk
      have hne : k.slot ≠ idx := by
        rintro rfl
        rw [hidx.empty] at hinbox
        cases hinbox
      rw [hother hne]
      exact ⟨hfree, hlt, hinbox⟩
    · rw [hslot, hself]
      exact ⟨hidx.notMem, hidx.lt, rfl⟩

theorem discharge (h : Routes t conns free) (idx : ℕ) : Routes (t.discharge idx) conns free := by
  rw [SlotTable.discharge]
  split_ifs
  · refine h.congr (fun i => ?_) rfl rfl fun e he => he
    by_cases hi : i = idx
    · subst hi
      simp [setSlot]
    · simp [setSlot, update_of_ne hi]
  · exact h

theorem discharge_eq (t : SlotTable) (idx : ℕ) :
    ((t.discharge idx).slots idx).generation = (t.slots idx).generation ∧
      (t.discharge idx).capacity = t.capacity := by
  rw [SlotTable.discharge]
  split_ifs
  · exact ⟨by simp [setSlot], rfl⟩
  · exact ⟨rfl, rfl⟩

theorem exit (h : Routes t conns free) {c : ℕ} {conn : Conn} (hc : conns[c]? = some conn)
    (hopen : conn.exited = false) :
    Routes (t.freeSlot conn.slot conn.generation)
      (conns.modify c fun conn => { conn with exited := true }) (conn.slot :: free) := by
  have hgen : (t.slots conn.slot).generation = conn.generation := by
    obtain ⟨conn', hconn', -, hgen, -⟩ := h.inbox _ _ (h.holder c conn hc hopen).2.2
    rw [Option.some.inj (hconn'.symm.trans hc)] at hgen
    exact hgen.symm
  have hlt := (h.holder c conn hc hopen).2.1
  rw [freeSlot, if_neg (Nat.not_le.mpr hlt), if_neg (not_not.mpr hgen)]
  obtain ⟨hgen1, hcap1⟩ := discharge_eq t conn.slot
  rw [hgen] at hgen1
  replace h := h.discharge conn.slot
  generalize t.discharge conn.slot = t at h hgen1
  obtain ⟨hfree, hlt, hinbox⟩ := h.holder c conn hc hopen
  dsimp only [setSlot]
  have hother {i : ℕ} (hi : i ≠ conn.slot) (s : Slot) :
      update t.slots conn.slot s i = t.slots i := update_of_ne hi ..
  have hget {k : ℕ} (hk : k ≠ c) :
      (conns.modify c fun conn => { conn with exited := true })[k]? = conns[k]? := by
    rw [getElem?_modify]
    simp [hk.symm]
  refine ⟨?_, fun i hi => ?_, h.capacity_le, fun e he => ?_, fun i k hi => ?_,
    fun k conn' hk hopen' => ?_⟩
  · refine h.chain.push (Nat.ne_of_lt (hlt.trans_le h.capacity_le)) (fun i hi => ?_) ?_
    · dsimp only
      rw [hother]
      rintro rfl
      exact hfree hi
    · dsimp only
      rw [update_self]
  · rcases mem_cons.mp hi with rfl | hi
    · exact hlt
    · exact h.free_lt i hi
  · obtain ⟨hmem, hkeep⟩ := mem_filter.mp he
    obtain ⟨hnot, hlt', hg, hconn⟩ := h.entry e hmem
    have hne : e.2.1 ≠ conn.slot := by
      intro heq
      rw [heq, hgen1] at hg
      simp [heq, hg] at hkeep
    dsimp only
    rw [hother hne]
    refine ⟨by simp [hne, hnot], hlt', hg, fun k conn' hk hget' => ?_⟩
    have hkc : k ≠ c := by
      rintro rfl
      obtain ⟨conn'', hconn'', hslot, -⟩ := h.inbox _ _ hk
      rw [Option.some.inj (hconn''.symm.trans hc)] at hslot
      exact hne hslot.symm
    rw [hget hkc] at hget'
    exact hconn k conn' hk hget'
  · dsimp only at hi ⊢
    have hne : i ≠ conn.slot := by
      rintro rfl
      rw [update_self] at hi
      cases hi
    rw [hother hne] at hi ⊢
    obtain ⟨conn', hconn', hslot, hrest⟩ := h.inbox i k hi
    have hkc : k ≠ c := by
      rintro rfl
      rw [Option.some.inj (hconn'.symm.trans hc)] at hslot
      exact hne hslot.symm
    exact ⟨conn', by rw [hget hkc]; exact hconn', hslot, hrest⟩
  · have hkc : k ≠ c := by
      rintro rfl
      rw [getElem?_modify_eq, hc] at hk
      obtain rfl := Option.some.inj hk
      cases hopen'
    rw [hget hkc] at hk
    obtain ⟨hnot, hlt', hin⟩ := h.holder k conn' hk hopen'
    have hne : conn'.slot ≠ conn.slot := by
      intro heq
      rw [heq, hinbox] at hin
      exact hkc (Option.some.inj hin).symm
    dsimp only
    rw [hother hne]
    exact ⟨by simp [hne, hnot], hlt', hin⟩

end Routes

namespace Worker

variable {w : Worker} {free : List ℕ}

theorem routes_allocate {t : SlotTable} {conns : List Conn} (h : Routes t conns free) (srcIp : ℕ)
    (heap : HeapStats) :
    ∃ free', Routes (t.allocate srcIp heap).2 conns free' ∧
      ∀ id ∈ (t.allocate srcIp heap).1, Routes.Taken (t.allocate srcIp heap).2 free' id.1 id.2 := by
  rw [allocate]
  have hpressure : Routes (t.underHeapPressure heap).2 conns free := by
    rw [underHeapPressure]
    split_ifs
    · exact h.congr (fun _ => ⟨rfl, rfl, rfl⟩) rfl rfl fun e he => he
    · exact h.congr (fun _ => ⟨rfl, rfl, rfl⟩) rfl rfl fun e he => he
  generalize t.underHeapPressure heap = sampled at hpressure ⊢
  obtain ⟨pressure, t1⟩ := sampled
  dsimp only at hpressure ⊢
  split_ifs
  · exact ⟨free, hpressure, nofun⟩
  · exact ⟨free, hpressure, nofun⟩
  · exact ⟨free, hpressure, nofun⟩
  · cases hgrow : t1.freeSlotOrGrow with
    | none => exact ⟨free, hpressure, nofun⟩
    | some t2 =>
      obtain ⟨free', hroutes, hne⟩ := hpressure.freeSlotOrGrow hgrow
      obtain ⟨free'', htake, htaken⟩ := hroutes.take hne srcIp
      refine ⟨free'', htake, fun id hid => ?_⟩
      obtain rfl := Option.some.inj hid
      exact htaken

variable (h : Routes w.table w.conns free)
include h

theorem routes_create (d : Datagram) (dcid : Bytes)
    (a : Answers) :
    ∃ free', Routes (w.create d dcid a).2.table (w.create d dcid a).2.conns free' := by
  obtain ⟨free', hroutes, htaken⟩ := routes_allocate h d.srcIp a.heap
  rw [create]
  rcases hid : w.table.allocate d.srcIp a.heap with ⟨id, t⟩
  rw [hid] at hroutes htaken
  cases id with
  | none => exact ⟨free', hroutes⟩
  | some id =>
    obtain ⟨idx, generation⟩ := id
    have htake := htaken _ rfl
    cases a.nonce with
    | none => exact ⟨free', hroutes.register htake dcid⟩
    | some nonce =>
      refine ⟨free', ?_⟩
      refine hroutes.install htake ?_ ?_ ?_ ?_ <;> rfl

theorem routes_lookupInitialDcid (dcid : Bytes) :
    Routes (w.table.lookupInitialDcid w.alive dcid).2 w.conns free := by
  rw [lookupInitialDcid]
  split
  · exact h
  · split
    · exact h
    · exact h.congr (fun _ => ⟨rfl, rfl, rfl⟩) rfl rfl fun e he => mem_of_mem_filter he

theorem routes_pushTo (c : ℕ) (d : Datagram) :
    Routes (w.pushTo c d).table (w.pushTo c d).conns free :=
  h.modify c fun _ => ⟨rfl, rfl, rfl, rfl⟩

theorem routes_receive (d : Datagram) (a : Answers) :
    ∃ free', Routes (w.receive d a).2.table (w.receive d a).2.conns free' := by
  rw [receive]
  cases extractDcid d.bytes with
  | none => exact ⟨free, h⟩
  | some dcid =>
    dsimp only
    cases w.lookupLocal dcid with
    | some c => exact ⟨free, routes_pushTo h c d⟩
    | none =>
      have hinit := routes_lookupInitialDcid h dcid
      generalize w.table.lookupInitialDcid w.alive dcid = looked at hinit ⊢
      obtain ⟨found, t⟩ := looked
      cases found with
      | some c => exact ⟨free, routes_pushTo (w := { w with table := t }) hinit c d⟩
      | none =>
        split_ifs
        · exact routes_create (w := { w with table := t }) hinit d dcid a
        · exact ⟨free, hinit⟩

theorem routes_step (e : Event) :
    ∃ free', Routes (w.step e).table (w.step e).conns free' := by
  cases e with
  | datagram d a => exact routes_receive h d a
  | pop c => exact ⟨free, h.modify c fun _ => ⟨rfl, rfl, rfl, rfl⟩⟩
  | close c => exact ⟨free, h.modify c fun _ => ⟨rfl, rfl, rfl, rfl⟩⟩
  | release c => exact ⟨free, h.modify c fun _ => ⟨rfl, rfl, rfl, rfl⟩⟩
  | validated c =>
    rw [step]
    cases hc : w.conns[c]? with
    | none => exact ⟨free, h⟩
    | some conn =>
      dsimp only
      split_ifs
      · exact ⟨free, h⟩
      · refine ⟨free, ?_⟩
        rw [markValidated]
        split_ifs
        · exact h
        · exact h
        · exact h.discharge conn.slot
  | exit c =>
    rw [step]
    cases hc : w.conns[c]? with
    | none => exact ⟨free, h⟩
    | some conn =>
      dsimp only
      split_ifs with hexited
      · exact ⟨free, h⟩
      · exact ⟨conn.slot :: free, h.exit hc (Bool.eq_false_iff.mpr hexited)⟩

omit h

theorem routes_run (maxCapacity : ℕ) (events : List Event) :
    ∃ free, Routes (run ⟨.new maxCapacity, []⟩ events).table
      (run ⟨.new maxCapacity, []⟩ events).conns free := by
  induction events using reverseRecOn with
  | nil => exact ⟨[], .initial maxCapacity⟩
  | append_singleton events e ih =>
    obtain ⟨free, h⟩ := ih
    rw [run, foldl_append]
    exact routes_step h e

variable {c : ℕ}

theorem of_lookup (h : Routes w.table w.conns free) {idx generation : ℕ}
    (hc : w.table.lookup w.alive idx generation = some c) :
    ∃ conn, w.conns[c]? = some conn ∧ (conn.exited = false ∧ conn.held = true) ∧ conn.slot = idx ∧
      conn.generation = generation ∧ (w.table.slots idx).inbox = some c := by
  rw [lookup] at hc
  split_ifs at hc with hcap hgen
  obtain ⟨hinbox, halive⟩ := Option.filter_eq_some_iff.mp hc
  obtain ⟨conn, hconn, hslot, hg, hopen⟩ := h.inbox idx c hinbox
  rw [alive, hconn] at halive
  exact ⟨conn, hconn, ⟨hopen, halive⟩, hslot, hg.trans (not_not.mp hgen), hinbox⟩

/-- What an open connection's slot and generation lead to. -/
theorem lookup_of_open (h : Routes w.table w.conns free) {conn : Conn} (hc : w.conns[c]? = some conn)
    (hopen : conn.exited = false) (hheld : conn.held = true) :
    w.table.lookup w.alive conn.slot conn.generation = some c := by
  obtain ⟨-, hlt, hinbox⟩ := h.holder c conn hc hopen
  obtain ⟨conn', hconn', -, hgen, -⟩ := h.inbox _ _ hinbox
  obtain rfl : conn' = conn := Option.some.inj (hconn'.symm.trans hc)
  rw [lookup, if_neg (Nat.not_le.mpr hlt), if_neg (not_not.mpr hgen.symm), hinbox]
  refine Option.filter_eq_some_iff.mpr ⟨rfl, ?_⟩
  rw [alive, hc]
  exact hheld

theorem of_lookupInitialDcid (h : Routes w.table w.conns free) {dcid : Bytes}
    {t : SlotTable} (hc : w.table.lookupInitialDcid w.alive dcid = (some c, t)) :
    ∃ conn, w.conns[c]? = some conn ∧ dcid = conn.initialDcid := by
  rw [lookupInitialDcid] at hc
  cases hfind : w.table.initialDcids.find? fun e => e.1 = dcid with
  | none => rw [hfind] at hc; cases hc
  | some e =>
    obtain ⟨key, idx, generation⟩ := e
    rw [hfind] at hc
    have hkey : key = dcid := by simpa using find?_some hfind
    subst hkey
    dsimp only at hc
    cases hlookup : w.table.lookup w.alive idx generation with
    | none => rw [hlookup] at hc; cases hc
    | some c' =>
      rw [hlookup] at hc
      obtain rfl : c' = c := Option.some.inj (Prod.mk.inj hc).1
      obtain ⟨conn, hconn, -, -, -, hinbox⟩ := of_lookup h hlookup
      have hentry := (h.entry _ (mem_of_find?_eq_some hfind)).2.2.2
      exact ⟨conn, hconn, (hentry _ _ hinbox hconn).symm⟩

theorem of_create {d : Datagram} {dcid : Bytes} {a : Answers}
    (hc : (w.create d dcid a).1 = some c) :
    ∃ conn, (w.create d dcid a).2.conns[c]? = some conn ∧ dcid = conn.initialDcid := by
  rw [create] at hc ⊢
  generalize w.table.allocate d.srcIp a.heap = allocated at hc ⊢
  obtain ⟨- | ⟨idx, generation⟩, t⟩ := allocated
  · cases hc
  · cases hn : a.nonce with
    | none => rw [hn] at hc; cases hc
    | some nonce =>
      rw [hn] at hc
      obtain rfl := Option.some.inj hc
      exact ⟨_, getElem?_concat_length, rfl⟩

theorem getElem?_pushTo {conn : Conn} (hconn : w.conns[c]? = some conn) (d : Datagram) :
    (w.pushTo c d).conns[c]? = some { conn with inbox := (conn.inbox.push d).2 } := by
  rw [pushTo, getElem?_modify_eq, hconn]
  rfl

theorem routed (h : Routes w.table w.conns free) {d : Datagram} {a : Answers}
    (hc : (w.receive d a).1 = some c) :
    ∃ dcid conn, extractDcid d.bytes = some dcid ∧ (w.receive d a).2.conns[c]? = some conn ∧
      ((∃ old, w.conns[c]? = some old ∧ (old.exited = false ∧ old.held = true) ∧
          parseLocalCid dcid = some (old.slot, old.generation) ∧
          conn = { old with inbox := (old.inbox.push d).2 }) ∨
        dcid = conn.initialDcid) := by
  rw [receive] at hc ⊢
  cases hdcid : extractDcid d.bytes with
  | none => rw [hdcid] at hc; cases hc
  | some dcid =>
    rw [hdcid] at hc
    refine ⟨dcid, ?_⟩
    dsimp only at hc ⊢
    cases hlocal : w.lookupLocal dcid with
    | some c' =>
      rw [hlocal] at hc
      obtain rfl := Option.some.inj hc
      rw [lookupLocal] at hlocal
      obtain ⟨⟨idx, generation⟩, hparse, hlookup⟩ := Option.bind_eq_some_iff.mp hlocal
      obtain ⟨conn, hconn, hopen, rfl, rfl, -⟩ := of_lookup h hlookup
      exact ⟨_, rfl, getElem?_pushTo hconn d,
        .inl ⟨conn, hconn, hopen, hparse, rfl⟩⟩
    | none =>
      rw [hlocal] at hc
      rcases hlook : w.table.lookupInitialDcid w.alive dcid with ⟨found, t⟩
      rw [hlook] at hc
      cases found with
      | some c' =>
        obtain rfl := Option.some.inj hc
        obtain ⟨conn, hconn, hinit⟩ := of_lookupInitialDcid h hlook
        exact ⟨_, rfl, getElem?_pushTo (w := { w with table := t }) hconn d, .inr hinit⟩
      | none =>
        split_ifs at hc ⊢
        obtain ⟨conn, hconn, hinit⟩ := of_create hc
        exact ⟨conn, rfl, hconn, .inr hinit⟩

def queued (w : Worker) (c : ℕ) : List Datagram := (w.conns[c]?).elim [] (·.inbox.queue)

/-- The datagram goes into the inbox of `c`, and there is room for it. -/
def Delivers (w : Worker) (d : Datagram) (a : Answers) (c : ℕ) : Prop :=
  (w.receive d a).1 = some c ∧ (w.receive d a).2.queued c = w.queued c ++ [d]

/-- Its inbox is found, and takes a datagram. -/
def Reached (conn : Conn) : Prop :=
  (conn.exited = false ∧ conn.held = true) ∧ conn.inbox.Accepts

instance (conn : Conn) : Decidable (Reached conn) := inferInstanceAs (Decidable (_ ∧ _))

/-- An ID with slot and generation of a connection within reach has its random bytes, or is the one
its client chose. -/
def NonceMatches (w : Worker) (dcid : Bytes) : Prop :=
  ∀ conn ∈ w.conns, Reached conn → parseLocalCid dcid = some (conn.slot, conn.generation) →
    dcid.drop 4 = conn.nonce.toList ∨ dcid = conn.initialDcid

instance (w : Worker) (dcid : Bytes) : Decidable (w.NonceMatches dcid) :=
  inferInstanceAs (Decidable (∀ conn ∈ w.conns, _))

/-- An ID with its slot and generation delivers to a connection within reach. -/
theorem delivers_of_reached (h : Routes w.table w.conns free) {conn : Conn} {dcid : Bytes}
    {d : Datagram} (a : Answers) (hc : w.conns[c]? = some conn) (hreach : Reached conn)
    (hdcid : extractDcid d.bytes = some dcid)
    (hparse : parseLocalCid dcid = some (conn.slot, conn.generation)) :
    w.Delivers d a c ∧ (w.receive d a).2.conns[c]? =
      some { conn with inbox := (conn.inbox.push d).2 } := by
  have hlookup : w.lookupLocal dcid = some c := by
    rw [lookupLocal, hparse]
    exact lookup_of_open h hc hreach.1.1 hreach.1.2
  have hreceive : w.receive d a = (some c, w.pushTo c d) := by
    rw [receive, hdcid]
    dsimp only
    rw [hlookup]
  have hpushed := getElem?_pushTo hc d
  rw [Delivers, hreceive]
  refine ⟨⟨rfl, ?_⟩, hpushed⟩
  rw [queued, queued, hpushed, hc]
  exact (conn.inbox.push_queue d).trans (if_pos hreach.2)

end Worker

/-- **Routing by the full ID** exactly if its slot and generation lead to no connection with other
random bytes, or to the one that the client chose it for. -/
theorem routed_by_full_cid (maxCapacity : ℕ) (events : List Worker.Event) (d : Datagram) (a : Answers) :
    let w := Worker.run ⟨.new maxCapacity, []⟩ events
    (∀ c, w.Delivers d a c → ∃ dcid conn, extractDcid d.bytes = some dcid ∧
      (w.receive d a).2.conns[c]? = some conn ∧ (dcid = conn.localCid ∨ dcid = conn.initialDcid)) ↔
    ∀ dcid ∈ extractDcid d.bytes, w.NonceMatches dcid := by
  intro w
  obtain ⟨free, h⟩ := Worker.routes_run maxCapacity events
  constructor
  · intro hall dcid hdcid conn hmem hreach hparse
    obtain ⟨c, hc⟩ := mem_iff_getElem?.mp hmem
    obtain ⟨hdel, hconn⟩ := Worker.delivers_of_reached h a hc hreach hdcid hparse
    obtain ⟨dcid', conn', hdcid', hconn', hway⟩ := hall c hdel
    cases hdcid'.symm.trans hdcid
    cases hconn'.symm.trans hconn
    refine hway.imp_left fun e => ?_
    rw [e]
    rfl
  · rintro hnonce c ⟨hc, hqueue⟩
    obtain ⟨dcid, conn, hdcid, hconn, hway⟩ := Worker.routed h hc
    refine ⟨dcid, conn, hdcid, hconn, ?_⟩
    rcases hway with ⟨old, hold, hopen, hparse, rfl⟩ | hinit
    · have haccepts : old.inbox.Accepts := by
        by_contra hno
        rw [Worker.queued, Worker.queued, hconn, hold] at hqueue
        have := (old.inbox.push_queue d).symm.trans hqueue
        rw [if_neg hno] at this
        simp at this
      refine (hnonce dcid hdcid old (mem_of_getElem? hold) ⟨hopen, haccepts⟩ hparse).imp_left ?_
      exact eq_makeLocalCid hparse
    · exact .inr hinit

def initialPacket (dcid : Bytes) : Datagram := ⟨1, 4433, [0xc0, 0, 0, 0, 1, 8] ++ dcid ++ [0], 0⟩

def shortPacket (dcid : Bytes) : Datagram := ⟨2, 4433, [0x40] ++ dcid ++ [0, 0, 0, 0], 0⟩

def answers : Answers := ⟨some #v[1, 2, 3, 4], true, ⟨0, 0⟩⟩

def chosen : Bytes := [7, 7, 7, 7, 7, 7, 7, 7]

def opened : List Worker.Event := [.datagram (initialPacket chosen) answers]

/-- A packet with the ID that was issued. -/
theorem routed_by_full_cid_issued :
    let w := Worker.run ⟨.new 1024, []⟩ opened
    w.Delivers (shortPacket [0, 0, 0, 1, 1, 2, 3, 4]) answers 0 ∧
    ∀ c, w.Delivers (shortPacket [0, 0, 0, 1, 1, 2, 3, 4]) answers c → ∃ dcid conn,
      extractDcid (shortPacket [0, 0, 0, 1, 1, 2, 3, 4]).bytes = some dcid ∧
      (w.receive (shortPacket [0, 0, 0, 1, 1, 2, 3, 4]) answers).2.conns[c]? = some conn ∧
      (dcid = conn.localCid ∨ dcid = conn.initialDcid) :=
  ⟨⟨by decide +kernel, by decide +kernel⟩,
    (routed_by_full_cid 1024 opened (shortPacket [0, 0, 0, 1, 1, 2, 3, 4]) answers).mpr
      (by decide +kernel)⟩

/-- A packet with other random bytes reaches the connection. -/
theorem other_nonce_delivered :
    ((Worker.run ⟨.new 1024, []⟩ opened).receive
      (shortPacket [0, 0, 0, 1, 9, 9, 9, 9]) answers).1 = some 0 ∧
    extractDcid (shortPacket [0, 0, 0, 1, 9, 9, 9, 9]).bytes = some [0, 0, 0, 1, 9, 9, 9, 9] ∧
    ((Worker.run ⟨.new 1024, []⟩ opened).conns.map fun conn => (conn.localCid, conn.initialDcid)) =
      [([0, 0, 0, 1, 1, 2, 3, 4], chosen)] := by
  decide +kernel

end Waitless.Endpoint
