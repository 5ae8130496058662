import Waitless.HttpParser

/-! # The framing of HTTP/1 requests

`bodyLength` is the length of the body behind a head according to RFC 9112, section 6: none when the
head has to be rejected.

On five heads the parser does not do what the standard says (`heads_desynchronised`); where the
lines that matter are kept whole they agree (`framing_agrees`). -/

namespace Waitless.Http

open Waitless.AesGcm Scanner Waitless.Http.Parser RequestHead StreamingRequestParser.HeadResult List Option

structure RequestLine where
  method : Bytes
  target : Bytes
  version : Bytes

/-- A field line, with the whitespace around its value. -/
structure FieldLine where
  name : Bytes
  lead : Bytes
  value : Bytes
  trail : Bytes
deriving DecidableEq

/-- A character of a token: a letter, a digit or one of ``!#$%&'*+-.^_`|~``. -/
def isTchar (b : UInt8) : Bool :=
  (65 ≤ b ∧ b ≤ 90) ∨ (97 ≤ b ∧ b ≤ 122) ∨ isDigit b ∨
    b ∈ [33, 35, 36, 37, 38, 39, 42, 43, 45, 46, 94, 95, 96, 124, 126]

def isVchar (b : UInt8) : Bool := 0x21 ≤ b ∧ b ≤ 0x7e

/-- A visible character or `obs-text`. -/
def isFieldVchar (b : UInt8) : Bool := isVchar b ∨ 0x80 ≤ b

def isOws (b : UInt8) : Bool := b = sp ∨ b = htab

structure RequestLine.Valid (l : RequestLine) : Prop where
  method_ne_nil : l.method ≠ []
  method : l.method.all isTchar
  target_ne_nil : l.target ≠ []
  target : l.target.all isVchar
  version_ne_nil : l.version ≠ []
  version : l.version.all isVchar

structure FieldLine.Valid (f : FieldLine) : Prop where
  name_ne_nil : f.name ≠ []
  name : f.name.all isTchar
  lead : f.lead.all isOws
  value : f.value.all fun b => isFieldVchar b || isOws b
  first : f.value.head?.all isFieldVchar
  last : f.value.getLast?.all isFieldVchar
  trail : f.trail.all isOws

def RequestLine.bytes (l : RequestLine) : Bytes :=
  l.method ++ sp :: (l.target ++ sp :: (l.version ++ [cr, lf]))

def FieldLine.text (f : FieldLine) : Bytes := f.lead ++ f.value ++ f.trail

def FieldLine.bytes (f : FieldLine) : Bytes := f.name ++ colon :: (f.text ++ [cr, lf])

def headBytes (l : RequestLine) (fields : List FieldLine) : Bytes :=
  l.bytes ++ (fields.flatMap FieldLine.bytes ++ [cr, lf])

def FieldLine.named (name : String) (f : FieldLine) : Bool := eqIgnoreCase f.name (ascii name)

def decimal (v : Bytes) : Option ℕ :=
  if v ≠ [] ∧ v.all isDigit then some (v.foldl (fun n b => n * 10 + (b.toNat - 48)) 0) else none

/-- The length of the body, unless the head is rejected. -/
def bodyLength (fields : List FieldLine) : Option ℕ :=
  if fields.any (FieldLine.named "Transfer-Encoding") then none
  else
    match fields.filter (FieldLine.named "Content-Length") with
    | [] => some 0
    | f :: fs =>
      if fs.all fun g => g.value = f.value then (decimal f.value).filter (· < 2 ^ 64) else none

def FieldLine.stored (f : FieldLine) : Header :=
  ⟨f.name.take maxName, (f.text.dropWhile (· = sp)).take maxValue⟩

def RequestHead.store (r : RequestHead) (f : FieldLine) : RequestHead :=
  if r.headers.length < maxHeaders then { r with headers := r.headers ++ [f.stored] } else r

variable {b : UInt8} {f : FieldLine} {fields : List FieldLine}

theorem tchar_ne (h : isTchar b) : b ≠ cr ∧ b ≠ lf ∧ b ≠ colon ∧ b ≠ sp := by
  refine ⟨?_, ?_, ?_, ?_⟩ <;> rintro rfl <;> revert h <;> decide

theorem vchar_ne (h : isVchar b) : b ≠ cr ∧ b ≠ sp := by
  refine ⟨?_, ?_⟩ <;> rintro rfl <;> revert h <;> decide

theorem text_ne (h : (isFieldVchar b || isOws b) = true) : b ≠ cr ∧ b ≠ lf := by
  refine ⟨?_, ?_⟩ <;> rintro rfl <;> revert h <;> decide

open FieldLine

theorem FieldLine.Valid.mem_text (hf : f.Valid) (hb : b ∈ f.text) :
    b ≠ cr ∧ b ≠ lf := by
  apply text_ne
  simp only [text, mem_append] at hb
  rcases hb with (hb | hb) | hb
  · rw [all_eq_true.mp hf.lead b hb, Bool.or_true]
  · exact all_eq_true.mp hf.value b hb
  · rw [all_eq_true.mp hf.trail b hb, Bool.or_true]

def RequestLine.request (l : RequestLine) : RequestHead where
  method := decodeMethod (({} : Parser).appendMethod l.method).methodBuf
  path := copyInto maxPath [] l.target

theorem scan_requestLine {l : RequestLine} (hl : l.Valid) (rest : Bytes) :
    ∃ q : Parser, q.state = .headerLineStart ∧
      scan step ({}, {}) (l.bytes ++ rest) = scan step (q, l.request) rest := by
  have hmethod := all_eq_true.mp hl.method
  have htarget := all_eq_true.mp hl.target
  have hversion := all_eq_true.mp hl.version
  refine ⟨{ ({} : Parser).appendMethod l.method with state := .headerLineStart }, rfl, ?_⟩
  simp only [RequestLine.bytes, append_assoc, cons_append, nil_append]
  rw [scan_method rfl fun b hb => (tchar_ne (hmethod b hb)).2.2.2]
  rw [scan_more (t := ({ ({} : Parser).appendMethod l.method with state := .target },
    { method := decodeMethod (({} : Parser).appendMethod l.method).methodBuf })) rfl]
  rw [scan_target rfl fun b hb => (vchar_ne (htarget b hb)).2]
  rw [scan_more (t := ({ ({} : Parser).appendMethod l.method with state := .version }, _)) rfl]
  rw [scan_version rfl fun b hb => (vchar_ne (hversion b hb)).1]
  rw [scan_more (t := ({ ({} : Parser).appendMethod l.method with state := .afterRequestLineCr }, _))
    rfl]
  rw [scan_more (t := ({ ({} : Parser).appendMethod l.method with state := .headerLineStart }, _))
    rfl]
  rfl

theorem append_startHeader (p : Parser) (r : RequestHead) (f : FieldLine) :
    ((p.startHeader r).2.appendName (p.startHeader r).1.currentHeader f.name).appendValue
      (p.startHeader r).1.currentHeader (f.text.dropWhile (· = sp)) = r.store f := by
  rw [startHeader, store]
  split_ifs with hroom
  · simp [appendName, appendValue, modifyHeader, copyInto,
      stored, modify_eq_take_drop]
  · rfl

theorem scan_fieldLine {p : Parser} {r : RequestHead} (hp : p.state = .headerLineStart) (hf : f.Valid) (rest : Bytes) :
    ∃ q : Parser, q.state = .headerLineStart ∧
      scan step (p, r) (f.bytes ++ rest) = scan step (q, r.store f) rest := by
  refine ⟨{ (p.startHeader r).1 with state := .headerLineStart }, rfl, ?_⟩
  rw [← append_startHeader p r f]
  simp only [bytes, append_assoc, cons_append, nil_append]
  obtain ⟨b, bs, hname⟩ := exists_cons_of_ne_nil hf.name_ne_nil
  have htchar := all_eq_true.mp hf.name
  have hb := tchar_ne (htchar b (by simp [hname]))
  obtain ⟨hstate, hstep⟩ := step_startHeader hp r hb.1 hb.2.1
  have hstart : scan step (p, r) (f.name ++ colon :: (f.text ++ cr :: lf :: rest)) =
      scan step (p.startHeader r) (f.name ++ colon :: (f.text ++ cr :: lf :: rest)) := by
    rw [hname]
    exact scan_congr hstep _
  rw [hstart]
  generalize p.startHeader r = x at hstate ⊢
  obtain ⟨q, r0⟩ := x
  rw [scan_name hstate fun c hc => (tchar_ne (htchar c hc)).2.2.1]
  generalize r0.appendName q.currentHeader f.name = r1
  simp only at hstate
  rw [scan_more (t := ({ q with state := .headerColon }, r1)) (by simp [step, hstate])]
  obtain ⟨tok, u, htext, -, hdrop, htok, hu⟩ := exists_span (· = sp) f.text
  rw [hdrop, htext, append_assoc, scan_spaces rfl (by simpa using htok)]
  cases u with
  | nil =>
    rw [appendValue_nil, nil_append,
      scan_more (t := ({ q with state := .afterHeaderValueCr }, r1)) rfl,
      scan_more (t := ({ q with state := .headerLineStart }, r1)) rfl]
  | cons c u =>
    have hmem : ∀ d ∈ c :: u, d ≠ cr ∧ d ≠ lf := by
      intro d hd
      exact hf.mem_text (by rw [htext]; exact mem_append_right tok hd)
    have hc : c ≠ sp := by simpa using hu c u rfl
    obtain ⟨hcr, hlf⟩ := hmem c (mem_cons_self ..)
    have hvalue : scan step ({ q with state := .headerColon }, r1) (c :: u ++ cr :: lf :: rest) =
        scan step ({ q with state := .headerValue }, r1) (c :: u ++ cr :: lf :: rest) :=
      scan_congr (by simp only [step, if_neg hc, if_neg hcr, if_neg hlf]) _
    rw [hvalue, scan_value rfl fun d hd => (hmem d hd).1,
      scan_more (t := ({ q with state := .afterHeaderValueCr }, _)) rfl,
      scan_more (t := ({ q with state := .headerLineStart }, _)) rfl]

theorem foldl_store (r : RequestHead) (fields : List FieldLine) :
    fields.foldl RequestHead.store r = { r with
      headers := r.headers ++ (fields.take (maxHeaders - r.headers.length)).map stored } := by
  induction fields generalizing r with
  | nil => simp
  | cons f fields ih =>
    rw [foldl_cons, ih, store]
    split_ifs with hroom
    · obtain ⟨k, hk⟩ : ∃ k, maxHeaders - r.headers.length = k + 1 :=
        ⟨maxHeaders - r.headers.length - 1, by omega⟩
      have hk' : maxHeaders - (r.headers.length + 1) = k := by omega
      simp [hk, hk']
    · simp [show maxHeaders - r.headers.length = 0 by omega]

theorem scan_fields {p : Parser} {r : RequestHead} (hp : p.state = .headerLineStart) (hfields : ∀ f ∈ fields, f.Valid) (rest : Bytes) :
    ∃ q : Parser, q.state = .headerLineStart ∧
      scan step (p, r) (fields.flatMap FieldLine.bytes ++ rest) =
        scan step (q, fields.foldl RequestHead.store r) rest := by
  induction fields generalizing p r with
  | nil => exact ⟨p, hp, rfl⟩
  | cons f fields ih =>
    rw [flatMap_cons, append_assoc]
    obtain ⟨q, hq, hline⟩ := scan_fieldLine (r := r) hp (hfields f (mem_cons_self ..))
      (fields.flatMap bytes ++ rest)
    rw [hline]
    exact ih hq fun g hg => hfields g (mem_cons_of_mem f hg)

/-- **Every well-formed head is read to its end.** -/
theorem scan_head {l : RequestLine} (hl : l.Valid)
    (hfields : ∀ f ∈ fields, f.Valid) (rest : Bytes) :
    ∃ q : Parser, scan step ({}, {}) (headBytes l fields ++ rest) =
      ((q, { l.request with
        headers := (fields.take maxHeaders).map FieldLine.stored }.finishHeaders), some rest) := by
  simp only [headBytes, append_assoc]
  obtain ⟨q1, hq1, hline⟩ := scan_requestLine hl (fields.flatMap FieldLine.bytes ++ ([cr, lf] ++ rest))
  rw [hline]
  obtain ⟨q2, hq2, hscan⟩ := scan_fields hq1 hfields ([cr, lf] ++ rest)
  refine ⟨{ q2 with state := .done }, ?_⟩
  rw [hscan, foldl_store]
  generalize hr : RequestHead.mk .. = r
  rw [cons_append, scan_more (t := ({ q2 with state := .afterFinalCr }, r))
    (by simp only [step, hq2, lineStep, if_true])]
  exact scan_behind (by rw [← hr]; rfl) rest

theorem eqIgnoreCase_take {name other : Bytes} (h : other.length < maxName) :
    eqIgnoreCase (name.take maxName) other = eqIgnoreCase name other := by
  by_cases hlen : name.length ≤ maxName
  · rw [take_of_length_le hlen]
  · have hne : ∀ l : Bytes, maxName ≤ l.length → eqIgnoreCase l other = false := by
      intro l hl
      rw [eqIgnoreCase, beq_eq_false_iff_ne]
      intro heq
      have := congrArg length heq
      simp only [length_map] at this
      omega
    rw [hne _ (by rw [length_take]; omega), hne _ (by omega)]

theorem header_stored (r : RequestHead) (fields : List FieldLine) (name : String)
    (hname : (ascii name).length < maxName) :
    { r with headers := fields.map stored }.header (ascii name) =
      (fields.find? (named name)).map fun f => f.stored.value := by
  rw [header, List.find?_map, Option.map_map]
  congr 2
  funext f
  exact eqIgnoreCase_take hname

theorem foldl_digits_mod (digits : Bytes) (n : ℕ) :
    digits.foldl (fun n b => (n * 10 + (b.toNat - 48)) % 2 ^ 64) (n % 2 ^ 64) =
      digits.foldl (fun n b => n * 10 + (b.toNat - 48)) n % 2 ^ 64 := by
  induction digits generalizing n with
  | nil => rfl
  | cons b digits ih =>
    rw [foldl_cons, foldl_cons, ← ih]
    congr 1
    omega

theorem takeWhile_digits {digits rest : Bytes} (hdigits : ∀ b ∈ digits, isDigit b)
    (hrest : ∀ b ∈ rest, isDigit b = false) : (digits ++ rest).takeWhile isDigit = digits := by
  rw [takeWhile_append_of_pos hdigits]
  cases rest with
  | nil => simp
  | cons b rest => simp [hrest b (mem_cons_self ..)]

theorem digit_ne_sp (h : isDigit b) : b ≠ sp := by
  rintro rfl
  revert h
  decide

theorem not_isDigit_of_isOws (h : isOws b) : isDigit b = false := by
  simp only [isOws, decide_eq_true_eq] at h
  rcases h with rfl | rfl <;> decide

theorem digits_lt {digits : Bytes} (h : ∀ b ∈ digits, isDigit b) :
    digits.foldl (fun n b => n * 10 + (b.toNat - 48)) 0 < 10 ^ digits.length := by
  induction digits using reverseRecOn with
  | nil => simp
  | append_singleton digits b ih =>
    have hb : b.toNat - 48 < 10 := by
      have := h b (by simp)
      simp only [isDigit, decide_eq_true_eq, UInt8.le_iff_toNat_le] at this
      exact Nat.sub_lt_left_of_lt_add this.1 (Nat.lt_succ_of_le this.2)
    have := ih fun c hc => h c (mem_append_left _ hc)
    rw [foldl_append, length_append, foldl_cons, foldl_nil, length_singleton, pow_succ]
    omega

/-- The digits in front of the last ones. -/
theorem digits_div (xs ys : Bytes) (h : ∀ b ∈ ys, isDigit b) :
    (xs ++ ys).foldl (fun n b => n * 10 + (b.toNat - 48)) 0 / 10 ^ ys.length =
      xs.foldl (fun n b => n * 10 + (b.toNat - 48)) 0 := by
  have hsplit : ∀ (ys : Bytes) (n : ℕ), ys.foldl (fun n b => n * 10 + (b.toNat - 48)) n =
      n * 10 ^ ys.length + ys.foldl (fun n b => n * 10 + (b.toNat - 48)) 0 := by
    intro ys
    induction ys using reverseRecOn with
    | nil => simp
    | append_singleton ys b ih =>
      intro n
      rw [foldl_append, foldl_append, ih, length_append, length_singleton, pow_succ]
      simp only [foldl_cons, foldl_nil]
      ring
  rw [foldl_append, hsplit, Nat.mul_comm, Nat.mul_add_div (Nat.pow_pos (by decide)),
    Nat.div_eq_of_lt (digits_lt h), Nat.add_zero]

/-- A tab hides the number, and digits past the room for a value are lost. -/
theorem parseUsize_stored (hf : f.Valid) {n : ℕ} (hn : decimal f.value = some n)
    (hfits : n < 2 ^ 64) : parseUsize f.stored.value =
      if ∀ b ∈ f.lead, b = sp then n / 10 ^ (f.value.length - maxValue) else 0 := by
  rw [decimal] at hn
  split_ifs at hn with hdigits
  obtain ⟨hne, hdigits⟩ := hdigits
  obtain rfl := Option.some.inj hn
  rw [List.all_eq_true] at hdigits
  split_ifs with hlead
  · have htext : f.text.dropWhile (· = sp) = f.value ++ f.trail := by
      obtain ⟨b, bs, hvalue⟩ := List.exists_cons_of_ne_nil hne
      have hb : b ≠ sp := digit_ne_sp (hdigits b (by simp [hvalue]))
      rw [text, List.append_assoc, List.dropWhile_append_of_pos (by simpa using hlead),
        hvalue, List.cons_append, List.dropWhile_cons_of_neg (by simpa using hb)]
    have htrail : ∀ b ∈ f.trail.take (maxValue - f.value.length), isDigit b = false := by
      intro b hb
      exact not_isDigit_of_isOws (List.all_eq_true.mp hf.trail b (List.mem_of_mem_take hb))
    have hstored : f.stored.value =
        f.value.take maxValue ++ f.trail.take (maxValue - f.value.length) := by
      rw [stored, htext, List.take_append]
    have hdiv := digits_div (f.value.take maxValue) (f.value.drop maxValue)
      fun b hb => hdigits b (List.mem_of_mem_drop hb)
    rw [List.take_append_drop, List.length_drop] at hdiv
    have hmod := foldl_digits_mod (f.value.take maxValue) 0
    rw [parseUsize, hstored,
      takeWhile_digits (fun b hb => hdigits b (List.mem_of_mem_take hb)) htrail, hdiv]
    rw [Nat.zero_mod] at hmod
    rw [hmod, ← hdiv]
    exact Nat.mod_eq_of_lt (lt_of_le_of_lt (Nat.div_le_self _ _) hfits)
  · -- the first octet that is no space is a tab
    have hhead : ∃ rest, f.text.dropWhile (· = sp) = htab :: rest := by
      obtain ⟨tok, u, hsplit, -, hdrop, htok, hu⟩ := exists_span (· = sp) f.lead
      cases u with
      | nil =>
        refine absurd (fun b hb => ?_) hlead
        rw [hsplit, append_nil] at hb
        simpa using htok b hb
      | cons c u =>
        have hc : c ≠ sp := by simpa using hu c u rfl
        have hows : isOws c = true := List.all_eq_true.mp hf.lead c (by rw [hsplit]; simp)
        obtain rfl : c = htab := by
          simp only [isOws, decide_eq_true_eq] at hows
          exact hows.resolve_left hc
        refine ⟨u ++ (f.value ++ f.trail), ?_⟩
        rw [text, append_assoc, hsplit, append_assoc,
          List.dropWhile_append_of_pos (by simpa using htok), cons_append,
          List.dropWhile_cons_of_neg (by decide)]
    obtain ⟨rest, hhead⟩ := hhead
    have hstored : f.stored.value = htab :: rest.take (maxValue - 1) := by
      rw [stored, hhead]
      rfl
    rw [parseUsize, hstored, List.takeWhile_cons_of_neg (by decide)]
    rfl

/-- The first Transfer-Encoding line is kept and names chunked; or there is none, the length is
sound, and it is zero or its first line is kept whole. -/
def Framed (fields : List FieldLine) : Prop :=
  (∃ f ∈ (fields.take maxHeaders).find? (FieldLine.named "Transfer-Encoding"),
    transferEncodingIsChunked f.stored.value = true) ∨
  ∃ n ∈ bodyLength fields, n = 0 ∨ ∃ f ∈ (fields.take maxHeaders).find? (FieldLine.named "Content-Length"),
    (∀ b ∈ f.lead, b = sp) ∧ f.value.length ≤ maxValue

theorem decimal_of_bodyLength {n : ℕ}
    (hf : fields.find? (FieldLine.named "Content-Length") = some f)
    (hn : bodyLength fields = some n) : decimal f.value = some n ∧ n < 2 ^ 64 := by
  rw [← head?_filter] at hf
  rw [bodyLength] at hn
  split_ifs at hn
  obtain ⟨fs, hfs⟩ := head?_eq_some_iff.mp hf
  rw [hfs] at hn
  simp only at hn
  split_ifs at hn
  have := filter_eq_some_iff.mp hn
  simpa using this

theorem find?_of_take {q : FieldLine → Bool} {n : ℕ} (h : (fields.take n).find? q = some f) :
    fields.find? q = some f := by
  rw [← List.take_append_drop n fields, List.find?_append, h]
  rfl

/-- What is read as the length is the one the standard assigns. -/
theorem contentLength_iff (hfields : ∀ f ∈ fields, f.Valid) {n : ℕ} (hn : bodyLength fields = some n) :
    (((fields.take maxHeaders).find? (named "Content-Length")).elim 0
        fun f => parseUsize f.stored.value) = n ↔
      n = 0 ∨ ∃ f ∈ (fields.take maxHeaders).find? (named "Content-Length"),
        (∀ b ∈ f.lead, b = sp) ∧ f.value.length ≤ maxValue := by
  cases hcl : (fields.take maxHeaders).find? (named "Content-Length") with
  | none => simp [eq_comm]
  | some f =>
    have hfirst := find?_of_take hcl
    obtain ⟨hdecimal, hfits⟩ := decimal_of_bodyLength hfirst hn
    have hparse := parseUsize_stored (hfields f (mem_of_find?_eq_some hfirst)) hdecimal hfits
    simp only [Option.elim_some, hparse, mem_def, some.injEq, exists_eq_left']
    by_cases hlead : ∀ b ∈ f.lead, b = sp
    · rw [if_pos hlead]
      by_cases hzero : n = 0
      · simp [hzero]
      · have hpow : n / 10 ^ (f.value.length - maxValue) = n ↔ f.value.length - maxValue = 0 := by
          refine ⟨fun e => ?_, fun e => by rw [e, pow_zero, Nat.div_one]⟩
          by_contra hk
          exact absurd e (Nat.div_lt_self (Nat.pos_of_ne_zero hzero)
            (Nat.one_lt_pow hk (by decide))).ne
        rw [hpow, Nat.sub_eq_zero_iff_le]
        exact ⟨fun h => .inr ⟨hlead, h⟩, fun h => (h.resolve_left hzero).2⟩
    · rw [if_neg hlead]
      simp [hlead, eq_comm]

/-- **The framing agrees with the standard** exactly for the heads whose framing lines are kept
whole, or whose length is zero. -/
theorem framing_agrees (l : RequestLine) (hl : l.Valid) (fields : List FieldLine)
    (hfields : ∀ f ∈ fields, f.Valid) (rest : Bytes) (bufs : List Bytes)
    (hbufs : bufs.flatten = headBytes l fields ++ rest) (r : RequestHead) (carry : Option Bytes)
    (bufs' : List Bytes)
    (hdone : ({} : StreamingRequestParser).readHead {} bufs = .done r carry bufs') :
    (r.reject = true ∨ bodyLength fields = some r.contentLength ↔ Framed fields) ∧
      carry.getD [] ++ bufs'.flatten = rest := by
  obtain ⟨q, hscan⟩ := StreamingRequestParser.scan_of_readHead hdone
  obtain ⟨q', hhead⟩ := scan_head hl hfields rest
  rw [hbufs, hhead] at hscan
  simp only [Prod.mk.injEq, some.injEq] at hscan
  obtain ⟨⟨-, rfl⟩, hrest⟩ := hscan
  refine ⟨?_, hrest.symm⟩
  simp only [finishHeaders, header_stored l.request _ "Content-Length" (by decide),
    header_stored l.request _ "Transfer-Encoding" (by decide), Framed]
  have helim : ((((fields.take maxHeaders).find? (named "Content-Length")).map
      (·.stored.value)).map parseUsize).getD 0 =
        ((fields.take maxHeaders).find? (named "Content-Length")).elim 0
          fun f => parseUsize f.stored.value := by
    cases (fields.take maxHeaders).find? (named "Content-Length") <;> rfl
  refine or_congr ?_ ⟨fun hlength => ?_, ?_⟩
  · cases (fields.take maxHeaders).find? (named "Transfer-Encoding") <;> simp
  · rw [helim] at hlength
    exact ⟨_, hlength, (contentLength_iff hfields hlength).mp rfl⟩
  · rintro ⟨n, hn, hkept⟩
    rw [helim, (contentLength_iff hfields hn).mpr hkept]
    exact hn

instance (f : FieldLine) : Decidable f.Valid :=
  decidable_of_iff
    (f.name ≠ [] ∧ f.name.all isTchar ∧ f.lead.all isOws ∧
      (f.value.all fun b => isFieldVchar b || isOws b) ∧ f.value.head?.all isFieldVchar ∧
      f.value.getLast?.all isFieldVchar ∧ f.trail.all isOws)
    ⟨fun ⟨h₁, h₂, h₃, h₄, h₅, h₆, h₇⟩ => ⟨h₁, h₂, h₃, h₄, h₅, h₆, h₇⟩,
      fun h => ⟨h.1, h.2, h.3, h.4, h.5, h.6, h.7⟩⟩

instance (l : RequestLine) : Decidable l.Valid :=
  decidable_of_iff
    (l.method ≠ [] ∧ l.method.all isTchar ∧ l.target ≠ [] ∧ l.target.all isVchar ∧
      l.version ≠ [] ∧ l.version.all isVchar)
    ⟨fun ⟨h₁, h₂, h₃, h₄, h₅, h₆⟩ => ⟨h₁, h₂, h₃, h₄, h₅, h₆⟩,
      fun h => ⟨h.1, h.2, h.3, h.4, h.5, h.6⟩⟩

def fieldLine (name value : String) : FieldLine := ⟨ascii name, [sp], ascii value, []⟩

def sampleLine : RequestLine := ⟨ascii "POST", ascii "/", ascii "HTTP/1.1"⟩

def sampleFields : List FieldLine := [fieldLine "Host" "a", fieldLine "content-length" "5"]

theorem framed_sampleFields : Framed sampleFields :=
  .inr ⟨5, by decide +kernel, .inr ⟨fieldLine "content-length" "5", by decide +kernel⟩⟩

/-- A head with a body of five octets, cut inside a line. -/
theorem framing_agrees_sample :
    ∃ r carry bufs', ({} : StreamingRequestParser).readHead {}
        [(headBytes sampleLine sampleFields).take 40,
          (headBytes sampleLine sampleFields).drop 40 ++ ascii "hello"] = .done r carry bufs' ∧
      (r.reject = true ∨ bodyLength sampleFields = some r.contentLength) ∧
      carry.getD [] ++ bufs'.flatten = ascii "hello" := by
  have hsome : (({} : StreamingRequestParser).readHead {}
      [(headBytes sampleLine sampleFields).take 40,
        (headBytes sampleLine sampleFields).drop 40 ++ ascii "hello"]).request.isSome = true := by
    decide +kernel
  cases hres : ({} : StreamingRequestParser).readHead {}
      [(headBytes sampleLine sampleFields).take 40,
        (headBytes sampleLine sampleFields).drop 40 ++ ascii "hello"] with
  | done r carry bufs' =>
    obtain ⟨hframed, hrest⟩ := framing_agrees sampleLine (by decide +kernel) sampleFields
      (by decide +kernel) (ascii "hello") _ (by decide +kernel) r carry bufs' hres
    exact ⟨r, carry, bufs', rfl, hframed.mpr framed_sampleFields, hrest⟩
  | overflow => simp [hres, request] at hsome
  | eof => simp [hres, request] at hsome

/-- Heads accepted with a content length that is not the standard's. -/
theorem heads_desynchronised :
    sampleLine.Valid ∧ ∀ fields ∈ [
        [⟨ascii "Content-Length", [htab], ascii "5", []⟩],
        List.replicate 16 (fieldLine "A" "b") ++ [fieldLine "Content-Length" "5"],
        [fieldLine "Content-Length" "5", fieldLine "Content-Length" "6"],
        [fieldLine "Content-Length" "18446744073709551621"],
        [fieldLine "Transfer-Encoding" "gzip", fieldLine "Transfer-Encoding" "chunked"]],
      (∀ f ∈ fields, f.Valid) ∧
      ∃ r, r ∈ (({} : StreamingRequestParser).readHead {}
          [headBytes sampleLine fields]).request ∧
        r.reject = false ∧ bodyLength fields ≠ some r.contentLength := by
  decide +kernel

end Waitless.Http
