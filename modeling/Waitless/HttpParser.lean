import Waitless.AesGcm
import Waitless.Scanner

/-! # The HTTP/1 request parser

The model of `request.rs` and `streaming.rs`.

The parser scans from delimiter to delimiter (`iterate`). Byte by byte that is the scanner `step`
(`loop_eq_scan`), and so feeding is a scan however a head is cut (`readHead_flatten`). -/

namespace Waitless.Http

open Waitless.AesGcm Scanner List

def sp : UInt8 := 32
def htab : UInt8 := 9
def cr : UInt8 := 13
def lf : UInt8 := 10
def colon : UInt8 := 58
def comma : UInt8 := 44

/-- The methods that are told apart. -/
inductive Method where
  | get
  | post
  | put
  | delete
  | head
  | unknown
deriving DecidableEq

structure Header where
  name : Bytes := []
  value : Bytes := []
deriving DecidableEq

structure RequestHead where
  method : Method := .unknown
  path : Bytes := []
  headers : List Header := []
  contentLength : ℕ := 0
  reject : Bool := false
deriving DecidableEq

def maxPath : ℕ := 256
def maxHeaders : ℕ := 16
def maxName : ℕ := 64
def maxValue : ℕ := 256

def toLower (b : UInt8) : UInt8 := if 65 ≤ b ∧ b ≤ 90 then b + 32 else b

def eqIgnoreCase (a b : Bytes) : Bool := a.map toLower == b.map toLower

def RequestHead.header (r : RequestHead) (name : Bytes) : Option Bytes :=
  (r.headers.find? fun h => eqIgnoreCase h.name name).map Header.value

def isDigit (b : UInt8) : Bool := 48 ≤ b ∧ b ≤ 57

def parseUsize (data : Bytes) : ℕ :=
  (data.takeWhile isDigit).foldl (fun n b => (n * 10 + (b.toNat - 48)) % 2 ^ 64) 0

def isAsciiSpace (b : UInt8) : Bool := b = sp ∨ b = htab ∨ b = lf ∨ b = 12 ∨ b = cr

def trimAscii (data : Bytes) : Bytes :=
  ((data.dropWhile isAsciiSpace).reverse.dropWhile isAsciiSpace).reverse

def transferEncodingIsChunked (value : Bytes) : Bool :=
  (value.splitOn comma).any fun coding => eqIgnoreCase (trimAscii coding) (ascii "chunked")

/-- Where the parser stands in the head. -/
inductive State where
  | method
  | target
  | version
  | afterRequestLineCr
  | headerLineStart
  | headerName
  | headerColon
  | headerValue
  | afterHeaderValueCr
  | afterFinalCr
  | done
deriving DecidableEq

/-- What the scan of a head changes. -/
structure Parser where
  state : State := .method
  methodBuf : Bytes := []
  currentHeader : Option ℕ := none
deriving DecidableEq

/-- The parser, and the length of the head so far. -/
structure StreamingRequestParser extends Parser where
  priorHeadBytes : ℕ := 0
deriving DecidableEq

/-- What a chunk has come to. -/
inductive FeedResult where
  | needMore
  | done (consumed : ℕ)
  | overflow
deriving DecidableEq

def maxHeadBytes : ℕ := 16 * 1024

def copyInto (cap : ℕ) (buf data : Bytes) : Bytes := buf ++ data.take (cap - buf.length)

def decodeMethod (m : Bytes) : Method :=
  if m = ascii "GET" then .get
  else if m = ascii "POST" then .post
  else if m = ascii "PUT" then .put
  else if m = ascii "DELETE" then .delete
  else if m = ascii "HEAD" then .head
  else .unknown

namespace RequestHead

def appendPath (r : RequestHead) (data : Bytes) : RequestHead :=
  { r with path := copyInto maxPath r.path data }

def modifyHeader (r : RequestHead) (current : Option ℕ) (f : Header → Header) : RequestHead :=
  match current with
  | some i => { r with headers := r.headers.modify i f }
  | none => r

def appendName (r : RequestHead) (current : Option ℕ) (data : Bytes) : RequestHead :=
  r.modifyHeader current fun h => { h with name := copyInto maxName h.name data }

def appendValue (r : RequestHead) (current : Option ℕ) (data : Bytes) : RequestHead :=
  r.modifyHeader current fun h => { h with value := copyInto maxValue h.value data }

def finishHeaders (r : RequestHead) : RequestHead :=
  { r with
    contentLength := ((r.header (ascii "Content-Length")).map parseUsize).getD 0
    reject := ((r.header (ascii "Transfer-Encoding")).map transferEncodingIsChunked).getD false }

end RequestHead

abbrev Parsing := Parser × RequestHead

namespace Parser

def startHeader (p : Parser) (r : RequestHead) : Parsing :=
  if r.headers.length < maxHeaders then
    ({ p with state := .headerName, currentHeader := some r.headers.length },
      { r with headers := r.headers ++ [{}] })
  else ({ p with state := .headerName, currentHeader := none }, r)

def finish (p : Parser) (r : RequestHead) : Parsing :=
  ({ p with state := .done }, r.finishHeaders)

/-- With what is left of the chunk. -/
inductive Turn where
  | next (x : Parsing) (rest : Bytes)
  | done (x : Parsing) (rest : Bytes)

def collect (inToken : UInt8 → Bool) (span : Bytes) (token behind : Bytes → Parsing) : Turn :=
  match span.dropWhile inToken with
  | [] => .next (token (span.takeWhile inToken)) []
  | _ :: rest => .next (behind (span.takeWhile inToken)) rest

def appendMethod (p : Parser) (data : Bytes) : Parser :=
  { p with methodBuf := copyInto 8 p.methodBuf data }

def iterate (p : Parser) (r : RequestHead) (b : UInt8) (bs : Bytes) : Turn :=
  let span := b :: bs
  match p.state with
  | .method =>
    collect (· ≠ sp) span (fun tok => (p.appendMethod tok, r)) fun tok =>
      ({ p.appendMethod tok with state := .target },
        { r with method := decodeMethod (p.appendMethod tok).methodBuf })
  | .target =>
    collect (· ≠ sp) span (fun tok => (p, r.appendPath tok)) fun tok =>
      ({ p with state := .version }, r.appendPath tok)
  | .version =>
    collect (· ≠ cr) span (fun _ => (p, r)) fun _ => ({ p with state := .afterRequestLineCr }, r)
  | .afterRequestLineCr =>
    .next ({ p with state := .headerLineStart }, r) (if b = lf then bs else span)
  | .headerLineStart =>
    if b = cr then .next ({ p with state := .afterFinalCr }, r) bs
    else if b = lf then .done (p.finish r) bs
    else .next (p.startHeader r) span
  | .headerName =>
    collect (· ≠ colon) span (fun tok => (p, r.appendName p.currentHeader tok)) fun tok =>
      ({ p with state := .headerColon }, r.appendName p.currentHeader tok)
  | .headerColon =>
    match span.dropWhile (· = sp) with
    | [] => .next (p, r) []
    | c :: rest =>
      if c = cr then .next ({ p with state := .afterHeaderValueCr }, r) rest
      else if c = lf then .next ({ p with state := .headerLineStart }, r) rest
      else .next ({ p with state := .headerValue }, r) (c :: rest)
  | .headerValue =>
    collect (· ≠ cr) span (fun tok => (p, r.appendValue p.currentHeader tok)) fun tok =>
      ({ p with state := .afterHeaderValueCr }, r.appendValue p.currentHeader tok)
  | .afterHeaderValueCr =>
    .next ({ p with state := .headerLineStart }, r) (if b = lf then bs else span)
  | .afterFinalCr => .done (p.finish r) (if b = lf then bs else span)
  | .done => .done (p, r) span

/-- The loop over a chunk, with fuel for its turns. -/
def loop : ℕ → Parsing → Bytes → Parsing × Option Bytes
  | 0, x, _ => (x, none)
  | _ + 1, x, [] => (x, none)
  | fuel + 1, (p, r), b :: bs =>
    match p.iterate r b bs with
    | .next x rest => loop fuel x rest
    | .done x rest => (x, some rest)

def lineStep (p : Parser) (r : RequestHead) (b : UInt8) : Step Parsing :=
  if b = cr then .more ({ p with state := .afterFinalCr }, r)
  else if b = lf then .behind (p.finish r)
  else
    let (p, r) := p.startHeader r
    if b = colon then .more ({ p with state := .headerColon }, r)
    else .more (p, r.appendName p.currentHeader [b])

def step : Parsing → UInt8 → Step Parsing
  | (p, r), b =>
    match p.state with
    | .method =>
      if b = sp then
        .more ({ p with state := .target }, { r with method := decodeMethod p.methodBuf })
      else .more (p.appendMethod [b], r)
    | .target =>
      if b = sp then .more ({ p with state := .version }, r) else .more (p, r.appendPath [b])
    | .version =>
      if b = cr then .more ({ p with state := .afterRequestLineCr }, r) else .more (p, r)
    | .afterRequestLineCr =>
      if b = lf then .more ({ p with state := .headerLineStart }, r) else p.lineStep r b
    | .headerLineStart => p.lineStep r b
    | .headerName =>
      if b = colon then .more ({ p with state := .headerColon }, r)
      else .more (p, r.appendName p.currentHeader [b])
    | .headerColon =>
      if b = sp then .more (p, r)
      else if b = cr then .more ({ p with state := .afterHeaderValueCr }, r)
      else if b = lf then .more ({ p with state := .headerLineStart }, r)
      else .more ({ p with state := .headerValue }, r.appendValue p.currentHeader [b])
    | .headerValue =>
      if b = cr then .more ({ p with state := .afterHeaderValueCr }, r)
      else .more (p, r.appendValue p.currentHeader [b])
    | .afterHeaderValueCr =>
      if b = lf then .more ({ p with state := .headerLineStart }, r) else p.lineStep r b
    | .afterFinalCr => if b = lf then .behind (p.finish r) else .before (p.finish r)
    | .done => .before (p, r)

theorem copyInto_nil (cap : ℕ) (buf : Bytes) : copyInto cap buf [] = buf := by
  simp [copyInto]

theorem copyInto_cons (cap : ℕ) (buf : Bytes) (b : UInt8) (tok : Bytes) :
    copyInto cap buf (b :: tok) = copyInto cap (copyInto cap buf [b]) tok := by
  rcases hroom : cap - buf.length with _ | k
  · simp [copyInto, hroom]
  · have hrest : cap - (buf.length + 1) = k := by omega
    simp [copyInto, hroom, hrest]

open RequestHead

theorem modifyHeader_modifyHeader (r : RequestHead) (current : Option ℕ) (f g : Header → Header) :
    (r.modifyHeader current f).modifyHeader current g = r.modifyHeader current (g ∘ f) := by
  cases current with
  | none => rfl
  | some i => simp [modifyHeader, modify_modify_eq]

theorem modifyHeader_id (r : RequestHead) (current : Option ℕ) :
    r.modifyHeader current (fun h => h) = r := by
  cases current with
  | none => rfl
  | some i =>
    have hid : r.headers.modify i (fun h => h) = r.headers := modify_id ..
    simp [modifyHeader, hid]

theorem appendName_cons (r : RequestHead) (current : Option ℕ) (b : UInt8) (tok : Bytes) :
    r.appendName current (b :: tok) = (r.appendName current [b]).appendName current tok := by
  simp only [appendName, modifyHeader_modifyHeader, copyInto_cons maxName _ b tok]
  rfl

theorem appendName_nil (r : RequestHead) (current : Option ℕ) : r.appendName current [] = r := by
  simp [appendName, copyInto_nil, modifyHeader_id]

theorem appendValue_cons (r : RequestHead) (current : Option ℕ) (b : UInt8) (tok : Bytes) :
    r.appendValue current (b :: tok) = (r.appendValue current [b]).appendValue current tok := by
  simp only [appendValue, modifyHeader_modifyHeader, copyInto_cons maxValue _ b tok]
  rfl

theorem appendValue_nil (r : RequestHead) (current : Option ℕ) : r.appendValue current [] = r := by
  simp [appendValue, copyInto_nil, modifyHeader_id]

section

variable {p : Parser} {r : RequestHead} {tok : Bytes}

theorem scan_method (h : p.state = .method) (htok : ∀ b ∈ tok, b ≠ sp) (rest : Bytes) :
    scan step (p, r) (tok ++ rest) =
      scan step (p.appendMethod tok, r) rest := by
  refine scan_token step (P := fun x => x.1.state = .method)
    (f := fun x tok => (x.1.appendMethod tok, x.2)) ?_ ?_ ?_ ?_ h htok rest
  · intro x
    simp [appendMethod, copyInto_nil]
  · intro x b tok
    simp [appendMethod, copyInto_cons 8 _ b tok]
  · intro x b hx
    exact hx
  · intro x b hx hb
    simp [step, hx, hb]

theorem scan_target (h : p.state = .target) (htok : ∀ b ∈ tok, b ≠ sp) (rest : Bytes) :
    scan step (p, r) (tok ++ rest) = scan step (p, r.appendPath tok) rest := by
  refine scan_token step (P := fun x => x.1.state = .target)
    (f := fun x tok => (x.1, x.2.appendPath tok)) ?_ ?_ ?_ ?_ h htok rest
  · intro x
    simp [appendPath, copyInto_nil]
  · intro x b tok
    simp [appendPath, copyInto_cons maxPath _ b tok]
  · intro x b hx
    exact hx
  · intro x b hx hb
    simp [step, hx, hb]

theorem scan_version (h : p.state = .version) (htok : ∀ b ∈ tok, b ≠ cr) (rest : Bytes) :
    scan step (p, r) (tok ++ rest) = scan step (p, r) rest := by
  refine scan_token step (P := fun x => x.1.state = .version) (f := fun x _ => x)
    (fun _ => rfl) (fun _ _ _ => rfl) (fun _ _ hx => hx) ?_ h htok rest
  intro x b hx hb
  simp [step, hx, hb]

theorem scan_name (h : p.state = .headerName) (htok : ∀ b ∈ tok, b ≠ colon) (rest : Bytes) :
    scan step (p, r) (tok ++ rest) = scan step (p, r.appendName p.currentHeader tok) rest := by
  refine scan_token step (P := fun x => x.1.state = .headerName)
    (f := fun x tok => (x.1, x.2.appendName x.1.currentHeader tok)) ?_ ?_ ?_ ?_ h htok rest
  · intro x
    simp [appendName_nil]
  · intro x b tok
    simp [appendName_cons _ _ b tok]
  · intro x b hx
    exact hx
  · intro x b hx hb
    simp [step, hx, hb]

theorem scan_spaces (h : p.state = .headerColon) (htok : ∀ b ∈ tok, b = sp) (rest : Bytes) :
    scan step (p, r) (tok ++ rest) = scan step (p, r) rest := by
  refine scan_token step (P := fun x => x.1.state = .headerColon) (f := fun x _ => x)
    (fun _ => rfl) (fun _ _ _ => rfl) (fun _ _ hx => hx) ?_ h htok rest
  intro x b hx hb
  simp [step, hx, if_pos hb]

theorem scan_value (h : p.state = .headerValue) (htok : ∀ b ∈ tok, b ≠ cr) (rest : Bytes) :
    scan step (p, r) (tok ++ rest) = scan step (p, r.appendValue p.currentHeader tok) rest := by
  refine scan_token step (P := fun x => x.1.state = .headerValue)
    (f := fun x tok => (x.1, x.2.appendValue x.1.currentHeader tok)) ?_ ?_ ?_ ?_ h htok rest
  · intro x
    simp [appendValue_nil]
  · intro x b tok
    simp [appendValue_cons _ _ b tok]
  · intro x b hx
    exact hx
  · intro x b hx hb
    simp [step, hx, hb]

end

/-- The turns a state can take without a byte. -/
def rank : State → ℕ
  | .afterRequestLineCr | .afterHeaderValueCr => 2
  | .headerLineStart | .headerColon => 1
  | _ => 0

theorem rank_le (s : State) : rank s ≤ 2 := by
  cases s <;> decide

/-- A turn uses up a byte or lowers the rank. -/
def TurnSpec (p : Parser) (r : RequestHead) (span : Bytes) : Turn → Prop
  | .next x rest => scan step (p, r) span = scan step x rest ∧
      3 * rest.length + rank x.1.state < 3 * span.length + rank p.state
  | .done x rest => scan step (p, r) span = (x, some rest)

theorem exists_span (q : UInt8 → Bool) (l : Bytes) :
    ∃ tok rest, l = tok ++ rest ∧ l.takeWhile q = tok ∧ l.dropWhile q = rest ∧
      (∀ b ∈ tok, q b = true) ∧ ∀ c cs, rest = c :: cs → q c = false := by
  refine ⟨_, _, takeWhile_append_dropWhile.symm, rfl, rfl,
    fun b hb => mem_takeWhile_imp hb, ?_⟩
  intro c cs hrest
  have hne : l.dropWhile q ≠ [] := by simp [hrest]
  have hhead := head_dropWhile_not q hne
  simpa [hrest] using hhead

variable {span : Bytes}

theorem lt_of_used {rest : Bytes} {s s' : State} (h : rest.length < span.length) :
    3 * rest.length + rank s' < 3 * span.length + rank s := by
  have := rank_le s'
  omega

theorem collect_spec {p : Parser} {r : RequestHead} {q : UInt8 → Bool}
    {token behind : Bytes → Parsing} (hne : span ≠ [])
    (htoken : ∀ tok rest, (∀ b ∈ tok, q b = true) →
      scan step (p, r) (tok ++ rest) = scan step (token tok) rest)
    (hbehind : ∀ tok c cs, q c = false → scan step (token tok) (c :: cs) = scan step (behind tok) cs) :
    TurnSpec p r span (collect q span token behind) := by
  obtain ⟨tok, rest, hspan, htake, hdrop, htok, hrest⟩ := exists_span q span
  rw [collect, htake, hdrop]
  have hscan := htoken tok rest htok
  rw [← hspan] at hscan
  cases rest with
  | nil => exact ⟨hscan, lt_of_used (length_pos_iff.mpr hne)⟩
  | cons c cs =>
    refine ⟨hscan.trans (hbehind tok c cs (hrest c cs rfl)), lt_of_used ?_⟩
    rw [hspan]
    simp only [length_append, length_cons]
    omega

theorem step_startHeader {p : Parser} (h : p.state = .headerLineStart) (r : RequestHead) {b : UInt8}
    (hcr : b ≠ cr) (hlf : b ≠ lf) :
    (p.startHeader r).1.state = .headerName ∧ step (p, r) b = step (p.startHeader r) b := by
  have hname : (p.startHeader r).1.state = .headerName := by
    rw [startHeader]
    split_ifs <;> rfl
  refine ⟨hname, ?_⟩
  simp [step, h, lineStep, hcr, hlf, hname]

theorem iterate_spec (p : Parser) (r : RequestHead) (b : UInt8) (bs : Bytes) :
    TurnSpec p r (b :: bs) (p.iterate r b bs) := by
  have hne : b :: bs ≠ [] := cons_ne_nil b bs
  have hused : bs.length < (b :: bs).length := by simp
  cases h : p.state with
  | method =>
    simp only [iterate, h]
    refine collect_spec hne (fun tok rest htok => scan_method h (by simpa using htok) rest) ?_
    intro tok c cs hc
    have hc : c = sp := by simpa using hc
    simp [scan, step, appendMethod, h, hc]
  | target =>
    simp only [iterate, h]
    refine collect_spec hne (fun tok rest htok => scan_target h (by simpa using htok) rest) ?_
    intro tok c cs hc
    have hc : c = sp := by simpa using hc
    simp [scan, step, h, hc]
  | version =>
    simp only [iterate, h]
    refine collect_spec hne (fun tok rest htok => scan_version h (by simpa using htok) rest) ?_
    intro tok c cs hc
    have hc : c = cr := by simpa using hc
    simp [scan, step, h, hc]
  | headerName =>
    simp only [iterate, h]
    refine collect_spec hne (fun tok rest htok => scan_name h (by simpa using htok) rest) ?_
    intro tok c cs hc
    have hc : c = colon := by simpa using hc
    simp [scan, step, h, hc]
  | headerValue =>
    simp only [iterate, h]
    refine collect_spec hne (fun tok rest htok => scan_value h (by simpa using htok) rest) ?_
    intro tok c cs hc
    have hc : c = cr := by simpa using hc
    simp [scan, step, h, hc]
  | headerColon =>
    simp only [iterate, h]
    obtain ⟨tok, rest, hspan, htake, hdrop, htok, hrest⟩ := exists_span (· = sp) (b :: bs)
    rw [hdrop]
    have hscan := scan_spaces (r := r) h (by simpa using htok) rest
    rw [← hspan] at hscan
    cases rest with
    | nil => exact ⟨hscan, lt_of_used (by simp)⟩
    | cons c cs =>
      have hc : c ≠ sp := by simpa using hrest c cs rfl
      have hlen : (c :: cs).length ≤ (b :: bs).length := by
        rw [hspan, length_append]
        omega
      dsimp only
      split_ifs with hcr hlf
      · refine ⟨hscan.trans (scan_more ?_ cs), lt_of_used hlen⟩
        simp [step, h, if_neg hc, if_pos hcr]
      · refine ⟨hscan.trans (scan_more ?_ cs), lt_of_used hlen⟩
        simp [step, h, if_neg hc, if_neg hcr, if_pos hlf]
      · refine ⟨hscan.trans (scan_congr ?_ cs), ?_⟩
        · simp [step, h, hc, hlf]
        · simp only [h, rank]
          omega
  | afterRequestLineCr =>
    simp only [iterate, h]
    split_ifs with hb
    · exact ⟨scan_more (by simp [step, h, if_pos hb]) bs, lt_of_used hused⟩
    · refine ⟨scan_congr ?_ bs, by simp [h, rank]⟩
      simp only [step, h, if_neg hb]
      rfl
  | headerLineStart =>
    simp only [iterate, h]
    split_ifs with hcr hlf
    · refine ⟨scan_more ?_ bs, lt_of_used hused⟩
      simp [step, h, lineStep, if_pos hcr]
    · refine scan_behind ?_ bs
      simp [step, h, lineStep, if_neg hcr, if_pos hlf]
    · obtain ⟨hname, hstep⟩ := step_startHeader h r hcr hlf
      exact ⟨scan_congr hstep bs, by simp [h, rank, hname]⟩
  | afterHeaderValueCr =>
    simp only [iterate, h]
    split_ifs with hb
    · exact ⟨scan_more (by simp [step, h, if_pos hb]) bs, lt_of_used hused⟩
    · refine ⟨scan_congr ?_ bs, by simp [h, rank]⟩
      simp only [step, h, if_neg hb]
      rfl
  | afterFinalCr =>
    simp only [iterate, h, TurnSpec, scan, step]
    split_ifs <;> rfl
  | done => simp [iterate, h, TurnSpec, scan, step]

/-- **The loop is the scanner**, given enough turns. -/
theorem loop_eq_scan {fuel : ℕ} {x : Parsing}
    (h : 3 * span.length + rank x.1.state < fuel) : loop fuel x span = scan step x span := by
  induction fuel generalizing x span with
  | zero => omega
  | succ fuel ih =>
    obtain ⟨p, r⟩ := x
    cases span with
    | nil => rfl
    | cons b bs =>
      have hturn := iterate_spec p r b bs
      simp only at h
      rw [loop]
      cases hres : p.iterate r b bs with
      | next x rest =>
        rw [hres] at hturn
        obtain ⟨hscan, hless⟩ := hturn
        rw [hscan]
        exact ih (by omega)
      | done x rest =>
        rw [hres] at hturn
        exact hturn.symm

end Parser

namespace StreamingRequestParser

open Waitless.Http.Parser

def feed (p : StreamingRequestParser) (r : RequestHead) (bytes : Bytes) :
    FeedResult × StreamingRequestParser × RequestHead :=
  let clamped := bytes.take (maxHeadBytes - p.priorHeadBytes)
  match loop (3 * clamped.length + 3) (p.toParser, r) clamped with
  | ((q, r), some rest) => (.done (clamped.length - rest.length), { p with toParser := q }, r)
  | ((q, r), none) =>
    let priorHeadBytes := min (p.priorHeadBytes + clamped.length) (2 ^ 32 - 1)
    (if clamped.length < bytes.length then .overflow else .needMore, ⟨q, priorHeadBytes⟩, r)

theorem feed_spec (p : StreamingRequestParser) (r : RequestHead) (bytes : Bytes)
    (hprior : p.priorHeadBytes ≤ maxHeadBytes) :
    match within step (maxHeadBytes - p.priorHeadBytes) (p.toParser, r) bytes with
    | .ended x rest => ∃ consumed, p.feed r bytes = (.done consumed, { p with toParser := x.1 }, x.2) ∧
        consumed ≤ bytes.length ∧ bytes.drop consumed = rest
    | .more x => p.priorHeadBytes + bytes.length ≤ maxHeadBytes ∧
        p.feed r bytes = (.needMore, ⟨x.1, p.priorHeadBytes + bytes.length⟩, x.2)
    | .overflow => (p.feed r bytes).1 = .overflow := by
  rw [within, feed]
  have hmax : maxHeadBytes < 2 ^ 32 - 1 := by decide
  have hlimit : maxHeadBytes - p.priorHeadBytes + p.priorHeadBytes = maxHeadBytes :=
    Nat.sub_add_cancel hprior
  generalize maxHeadBytes - p.priorHeadBytes = limit at hlimit
  have hloop : loop (3 * (bytes.take limit).length + 3) (p.toParser, r) (bytes.take limit) =
      scan step (p.toParser, r) (bytes.take limit) := by
    have := rank_le p.state
    exact loop_eq_scan (by simp only; omega)
  simp only [hloop]
  rcases hscan : scan step (p.toParser, r) (bytes.take limit) with ⟨⟨q, r'⟩, _ | rest⟩
  · by_cases hover : limit < bytes.length
    · simp [hover]
    · have hall : bytes.take limit = bytes := take_of_length_le (by omega)
      have hle : p.priorHeadBytes + bytes.length ≤ maxHeadBytes := by omega
      simp only [hover, hall, hle, if_false, lt_irrefl, min_eq_left (hle.trans hmax.le), and_self]
  · have hdrop : rest = (bytes.take limit).drop ((bytes.take limit).length - rest.length) :=
      suffix_iff_eq_drop.mp (suffix_of_scan step hscan)
    have hk : (bytes.take limit).length - rest.length ≤ (bytes.take limit).length := Nat.sub_le ..
    refine ⟨_, rfl, hk.trans (length_take_le' ..), ?_⟩
    generalize (bytes.take limit).length - rest.length = k at hdrop hk
    calc bytes.drop k
        = (bytes.take limit ++ bytes.drop limit).drop k := by rw [take_append_drop]
      _ = (bytes.take limit).drop k ++ bytes.drop limit := drop_append_of_le_length hk
      _ = rest ++ bytes.drop limit := by rw [← hdrop]

/-- What reading a head has come to. -/
inductive HeadResult where
  | done (r : RequestHead) (carry : Option Bytes) (bufs : List Bytes)
  | overflow
  | eof

def HeadResult.request : HeadResult → Option RequestHead
  | .done r _ _ => some r
  | .overflow | .eof => none

def intoRemainder (buf : Bytes) (n : ℕ) : Option Bytes :=
  if (buf.drop n).isEmpty then none else some (buf.drop n)

def readHead (p : StreamingRequestParser) (r : RequestHead) : List Bytes → HeadResult
  | [] => .eof
  | buf :: bufs =>
    match p.feed r buf with
    | (.done n, _, r) => .done r (intoRemainder buf n) bufs
    | (.needMore, p, r) => readHead p r bufs
    | (.overflow, _, _) => .overflow

theorem getD_intoRemainder (buf : Bytes) (n : ℕ) : (intoRemainder buf n).getD [] = buf.drop n := by
  rw [intoRemainder]
  split_ifs with h
  · rw [isEmpty_iff.mp h]
    rfl
  · rfl

theorem readHead_spec (p : StreamingRequestParser) (r : RequestHead) (bufs : List Bytes)
    (hprior : p.priorHeadBytes ≤ maxHeadBytes) :
    match within step (maxHeadBytes - p.priorHeadBytes) (p.toParser, r) bufs.flatten with
    | .ended x rest => ∃ carry bufs', p.readHead r bufs = .done x.2 carry bufs' ∧
        bufs' <:+ bufs.tail ∧ carry.getD [] ++ bufs'.flatten = rest
    | .more _ => p.readHead r bufs = .eof
    | .overflow => p.readHead r bufs = .overflow := by
  induction bufs generalizing p r with
  | nil => simp [within, scan, readHead]
  | cons buf bufs ih =>
    have hfeed := p.feed_spec r buf hprior
    rw [flatten_cons, within_append, readHead]
    cases hres : within step (maxHeadBytes - p.priorHeadBytes) (p.toParser, r) buf with
    | ended x rest =>
      rw [hres] at hfeed
      obtain ⟨consumed, hfeed, -, hdrop⟩ := hfeed
      refine ⟨_, bufs, by rw [hfeed], suffix_rfl, ?_⟩
      rw [getD_intoRemainder, hdrop]
    | more x =>
      rw [hres] at hfeed
      obtain ⟨hlen, hfeed⟩ := hfeed
      have hrest := ih ⟨x.1, p.priorHeadBytes + buf.length⟩ x.2 hlen
      rw [hfeed]
      simp only [← Nat.sub_sub] at hrest ⊢
      cases hres' : within step (maxHeadBytes - p.priorHeadBytes - buf.length) (x.1, x.2)
          bufs.flatten with
      | ended y rest =>
        rw [hres'] at hrest
        obtain ⟨carry, bufs', hread, hsuffix, hinput⟩ := hrest
        exact ⟨carry, bufs', hread, hsuffix.trans (tail_suffix bufs), hinput⟩
      | more y =>
        rw [hres'] at hrest
        exact hrest
      | overflow =>
        rw [hres'] at hrest
        exact hrest
    | overflow =>
      rw [hres] at hfeed
      generalize p.feed r buf = res at hfeed ⊢
      obtain ⟨f, p', r'⟩ := res
      obtain rfl : f = .overflow := hfeed
      rfl

/-- **How the bytes are cut does not matter** for the head and where it ends. -/
theorem readHead_flatten (chunks : List Bytes) :
    match ({} : StreamingRequestParser).feed {} chunks.flatten with
    | (.done consumed, _, r) => ∃ carry bufs,
        ({} : StreamingRequestParser).readHead {} chunks = .done r carry bufs ∧
          consumed + (carry.getD [] ++ bufs.flatten).length = chunks.flatten.length ∧
          carry.getD [] ++ bufs.flatten = chunks.flatten.drop consumed
    | (.needMore, _, _) => ({} : StreamingRequestParser).readHead {} chunks = .eof
    | (.overflow, _, _) => ({} : StreamingRequestParser).readHead {} chunks = .overflow := by
  have hwhole := ({} : StreamingRequestParser).feed_spec {} chunks.flatten (Nat.zero_le _)
  have hcut := ({} : StreamingRequestParser).readHead_spec {} chunks (Nat.zero_le _)
  cases hres : within step (maxHeadBytes - 0) (({} : Parser), ({} : RequestHead)) chunks.flatten with
  | ended x rest =>
    rw [hres] at hwhole hcut
    obtain ⟨consumed, hwhole, hle, rfl⟩ := hwhole
    obtain ⟨carry, bufs, hcut, -, hrest⟩ := hcut
    rw [hwhole]
    refine ⟨carry, bufs, hcut, ?_, hrest⟩
    rw [hrest, length_drop]
    omega
  | more x =>
    rw [hres] at hwhole hcut
    rw [hwhole.2]
    exact hcut
  | overflow =>
    rw [hres] at hwhole hcut
    generalize ({} : StreamingRequestParser).feed {} chunks.flatten = res at hwhole ⊢
    obtain ⟨f, p', r'⟩ := res
    obtain rfl : f = .overflow := hwhole
    exact hcut

theorem scan_of_readHead {bufs bufs' : List Bytes} {r : RequestHead} {carry : Option Bytes}
    (h : ({} : StreamingRequestParser).readHead {} bufs = .done r carry bufs') :
    ∃ q : Parser, scan step ({}, {}) bufs.flatten =
      ((q, r), some (carry.getD [] ++ bufs'.flatten)) := by
  have hread := ({} : StreamingRequestParser).readHead_spec {} bufs (Nat.zero_le _)
  cases hwithin : within step (maxHeadBytes - 0) ({}, {}) bufs.flatten with
  | ended x rest =>
    simp only [hwithin] at hread
    obtain ⟨carry', bufs'', hread, -, hrest⟩ := hread
    rw [h] at hread
    cases hread
    rw [scan_of_within step hwithin, hrest]
    exact ⟨x.1, rfl⟩
  | more x =>
    simp only [hwithin] at hread
    rw [h] at hread
    cases hread
  | overflow =>
    simp only [hwithin] at hread
    rw [h] at hread
    cases hread

end StreamingRequestParser

end Waitless.Http
