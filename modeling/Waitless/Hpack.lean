import Waitless.FieldHuffman

/-! # The HPACK decoder

A header block is a sequence of representations: a field from the tables, a literal field whose
name may come from the tables and which may be added to the dynamic table, or a new maximum of the
dynamic table's size. `Decoder.decode` reads one complete block and gives each field to the caller.
-/

namespace Waitless.Http2

open Waitless.AesGcm

/-- Why a block is refused. -/
inductive HpackError where
  | truncated
  | invalidIndex
  | integerOverflow
  | huffmanFailed
  | stringTooLong
  | tableSizeExceeded
  | headerListTooLarge
deriving DecidableEq

def entryOverhead : ℕ := 32

structure Field where
  name : Bytes
  value : Bytes
deriving DecidableEq

def Field.size (f : Field) : ℕ := f.name.length + f.value.length + entryOverhead

def staticTable : List Field := [
  ⟨ascii ":authority", []⟩, ⟨ascii ":method", ascii "GET"⟩, ⟨ascii ":method", ascii "POST"⟩,
  ⟨ascii ":path", ascii "/"⟩, ⟨ascii ":path", ascii "/index.html"⟩,
  ⟨ascii ":scheme", ascii "http"⟩, ⟨ascii ":scheme", ascii "https"⟩,
  ⟨ascii ":status", ascii "200"⟩, ⟨ascii ":status", ascii "204"⟩, ⟨ascii ":status", ascii "206"⟩,
  ⟨ascii ":status", ascii "304"⟩, ⟨ascii ":status", ascii "400"⟩, ⟨ascii ":status", ascii "404"⟩,
  ⟨ascii ":status", ascii "500"⟩, ⟨ascii "accept-charset", []⟩,
  ⟨ascii "accept-encoding", ascii "gzip, deflate"⟩, ⟨ascii "accept-language", []⟩,
  ⟨ascii "accept-ranges", []⟩, ⟨ascii "accept", []⟩, ⟨ascii "access-control-allow-origin", []⟩,
  ⟨ascii "age", []⟩, ⟨ascii "allow", []⟩, ⟨ascii "authorization", []⟩,
  ⟨ascii "cache-control", []⟩, ⟨ascii "content-disposition", []⟩, ⟨ascii "content-encoding", []⟩,
  ⟨ascii "content-language", []⟩, ⟨ascii "content-length", []⟩, ⟨ascii "content-location", []⟩,
  ⟨ascii "content-range", []⟩, ⟨ascii "content-type", []⟩, ⟨ascii "cookie", []⟩,
  ⟨ascii "date", []⟩, ⟨ascii "etag", []⟩, ⟨ascii "expect", []⟩, ⟨ascii "expires", []⟩,
  ⟨ascii "from", []⟩, ⟨ascii "host", []⟩, ⟨ascii "if-match", []⟩, ⟨ascii "if-modified-since", []⟩,
  ⟨ascii "if-none-match", []⟩, ⟨ascii "if-range", []⟩, ⟨ascii "if-unmodified-since", []⟩,
  ⟨ascii "last-modified", []⟩, ⟨ascii "link", []⟩, ⟨ascii "location", []⟩,
  ⟨ascii "max-forwards", []⟩, ⟨ascii "proxy-authenticate", []⟩, ⟨ascii "proxy-authorization", []⟩,
  ⟨ascii "range", []⟩, ⟨ascii "referer", []⟩, ⟨ascii "refresh", []⟩, ⟨ascii "retry-after", []⟩,
  ⟨ascii "server", []⟩, ⟨ascii "set-cookie", []⟩, ⟨ascii "strict-transport-security", []⟩,
  ⟨ascii "transfer-encoding", []⟩, ⟨ascii "user-agent", []⟩, ⟨ascii "vary", []⟩,
  ⟨ascii "via", []⟩, ⟨ascii "www-authenticate", []⟩]

def staticTableLen : ℕ := 61

theorem staticTable_length : staticTable.length = staticTableLen := rfl

def staticLookup (idx : ℕ) : Option Field := if idx = 0 then none else staticTable[idx - 1]?

/-- Groups of seven bits, lowest first. -/
def readMore : Bytes → ℕ → ℕ → ℕ → Except HpackError (ℕ × ℕ)
  | [], _, _, _ => .error .truncated
  | b :: rest, value, p, shift =>
    let value' := value + ((b &&& 0x7f).toNat <<< shift) % 2 ^ 64
    if 2 ^ 64 ≤ value' then .error .integerOverflow
    else if b &&& 0x80 = 0 then .ok (value', p + 1)
    else if 63 < shift + 7 then .error .integerOverflow
    else readMore rest value' (p + 1) (shift + 7)

/-- An integer with an `nbits` prefix, and its length. -/
def readInt (buf : Bytes) (nbits : ℕ) : Except HpackError (ℕ × ℕ) :=
  match buf with
  | [] => .error .truncated
  | b :: rest =>
    let mask := 2 ^ nbits - 1
    let v0 := b.toNat &&& mask
    if v0 < mask then .ok (v0, 1) else readMore rest mask 1 0

/-- A string of at most `cap` bytes, and the input it takes. -/
def readString (buf : Bytes) (cap : ℕ) : Except HpackError (Bytes × ℕ) :=
  match buf with
  | [] => .error .truncated
  | b :: _ => do
    let (len, n) ← readInt buf 7
    if buf.length - n < len then .error .truncated
    else
      let raw := (buf.drop n).take len
      if b &&& 0x80 ≠ 0 then
        match FieldHuffman.decodeIntoSlice raw cap with
        | .ok str => .ok (str, n + len)
        | .error _ => .error .huffmanFailed
      else if cap < raw.length then .error .stringTooLong
      else .ok (raw, n + len)

def account (listSize max : ℕ) (f : Field) : Except HpackError ℕ :=
  if max < listSize + f.size then .error .headerListTooLarge else .ok (listSize + f.size)

theorem bind_eq_ok {ε α β : Type} {x : Except ε α} {f : α → Except ε β} {r : β} :
    x >>= f = .ok r ↔ ∃ a, x = .ok a ∧ f a = .ok r := by
  cases x with
  | error e => exact ⟨nofun, nofun⟩
  | ok a => exact ⟨fun h => ⟨a, rfl, h⟩, fun ⟨b, hb, h⟩ => by cases hb; exact h⟩

/-- The dynamic table, newest entry first, and its limits. -/
structure Decoder where
  dynamic : List Field
  size : ℕ
  maxSize : ℕ
  hardMax : ℕ
  maxHeaderListSize : ℕ
deriving DecidableEq

namespace Decoder

def new (hardMax maxHeaderListSize : ℕ) : Decoder where
  dynamic := []
  size := 0
  maxSize := hardMax
  hardMax := hardMax
  maxHeaderListSize := maxHeaderListSize

def dropOldest (target : ℕ) : List Field → ℕ → List Field × ℕ
  | [], size => ([], if target < size then 0 else size)
  | f :: older, size =>
    if target < size then dropOldest target older (size - f.size) else (f :: older, size)

def evictTo (d : Decoder) (target : ℕ) : Decoder :=
  let (kept, size) := dropOldest target d.dynamic.reverse d.size
  { d with dynamic := kept.reverse, size := size }

def insert (d : Decoder) (f : Field) : Decoder :=
  let d := d.evictTo (d.maxSize - f.size)
  if d.maxSize < f.size then d
  else { d with dynamic := f :: d.dynamic, size := d.size + f.size }

def setMaxSize (d : Decoder) (newMax : ℕ) : Except HpackError Decoder :=
  if d.hardMax < newMax then .error .tableSizeExceeded
  else .ok (evictTo { d with maxSize := newMax } newMax)

def entryAt (d : Decoder) (idx : ℕ) : Except HpackError Field :=
  let entry := if idx ≤ staticTableLen then staticLookup idx
    else d.dynamic[idx - staticTableLen - 1]?
  match entry with
  | some f => .ok f
  | none => .error .invalidIndex

def nameAt (d : Decoder) (idx : ℕ) : Except HpackError Bytes := do
  let f ← d.entryAt idx
  return f.name

def resolveInto (d : Decoder) (idx nameCap valueCap : ℕ) : Except HpackError Field := do
  let f ← d.entryAt idx
  if nameCap < f.name.length ∨ valueCap < f.value.length then .error .stringTooLong else .ok f

def readName (d : Decoder) (idx : ℕ) (wire : Bytes) (nameCap : ℕ) :
    Except HpackError (Bytes × ℕ) :=
  if idx = 0 then readString wire nameCap
  else do
    let name ← d.nameAt idx
    if nameCap < name.length then .error .stringTooLong else .ok (name, 0)

structure Step where
  decoder : Decoder
  field : Option Field := none
  rest : Bytes
  listSize : ℕ

def literal (d : Decoder) (nbits nameCap valueCap : ℕ) (input : Bytes) (listSize : ℕ) :
    Except HpackError (Field × Bytes × ℕ) := do
  let (idx, n) ← readInt input nbits
  let input := input.drop n
  let (name, nc) ← d.readName idx input nameCap
  let input := input.drop nc
  let (value, vc) ← readString input valueCap
  let listSize ← account listSize d.maxHeaderListSize ⟨name, value⟩
  return (⟨name, value⟩, input.drop vc, listSize)

def decodeStep (d : Decoder) (nameCap valueCap : ℕ) (b : UInt8) (input : Bytes) (listSize : ℕ) :
    Except HpackError Step :=
  if b &&& 0x80 ≠ 0 then do
    let (idx, n) ← readInt input 7
    if idx = 0 then .error .invalidIndex
    else
      let f ← d.resolveInto idx nameCap valueCap
      let listSize ← account listSize d.maxHeaderListSize f
      return { decoder := d, field := some f, rest := input.drop n, listSize }
  else if b &&& 0x40 ≠ 0 then do
    let (f, rest, listSize) ← d.literal 6 nameCap valueCap input listSize
    return { decoder := d.insert f, field := some f, rest, listSize }
  else if b &&& 0x20 ≠ 0 then do
    let (newMax, n) ← readInt input 5
    let d ← d.setMaxSize newMax
    return { decoder := d, rest := input.drop n, listSize }
  else do
    let (f, rest, listSize) ← d.literal 4 nameCap valueCap input listSize
    return { decoder := d, field := some f, rest, listSize }

/-- Every representation takes a byte, so `fuel` is the input's length. -/
def decodeLoop (nameCap valueCap : ℕ) :
    ℕ → Decoder → Bytes → ℕ → List Field → Except HpackError Unit × Decoder × List Field
  | fuel + 1, d, b :: input, listSize, out =>
    match d.decodeStep nameCap valueCap b (b :: input) listSize with
    | .ok s => decodeLoop nameCap valueCap fuel s.decoder s.rest s.listSize
        (out ++ s.field.toList)
    | .error e => (.error e, d, out)
  | _, d, _, _, out => (.ok (), d, out)

def decode (d : Decoder) (input : Bytes) (nameCap valueCap : ℕ) :
    Except HpackError Unit × Decoder × List Field :=
  decodeLoop nameCap valueCap input.length d input 0 []

theorem lt_of_readMore {bs : Bytes} {value p shift v c : ℕ}
    (h : readMore bs value p shift = .ok (v, c)) : p < c := by
  induction bs generalizing value p shift with
  | nil => rw [readMore] at h; cases h
  | cons b bs ih =>
    rw [readMore] at h
    split_ifs at h
    · obtain ⟨-, rfl⟩ := Prod.mk.inj (Except.ok.inj h)
      exact Nat.lt_succ_self p
    · exact (Nat.lt_succ_self p).trans (ih h)

theorem pos_of_readInt {buf : Bytes} {nbits v c : ℕ} (h : readInt buf nbits = .ok (v, c)) :
    0 < c := by
  cases buf with
  | nil => rw [readInt] at h; cases h
  | cons b rest =>
    rw [readInt] at h
    split_ifs at h
    · obtain ⟨-, rfl⟩ := Prod.mk.inj (Except.ok.inj h)
      exact Nat.one_pos
    · exact Nat.one_pos.trans (lt_of_readMore h)

variable {d : Decoder} {input : Bytes} {listSize : ℕ}

theorem length_literal_lt {nbits nameCap valueCap listSize' : ℕ}
    {rest : Bytes} {f : Field} (hinput : input ≠ [])
    (h : d.literal nbits nameCap valueCap input listSize = .ok (f, rest, listSize')) :
    rest.length < input.length := by
  have hlen := List.length_pos_iff.mpr hinput
  rw [literal] at h
  obtain ⟨⟨idx, n⟩, hidx, h⟩ := bind_eq_ok.mp h
  obtain ⟨⟨name, nc⟩, -, h⟩ := bind_eq_ok.mp h
  obtain ⟨⟨value, vc⟩, -, h⟩ := bind_eq_ok.mp h
  obtain ⟨size, -, h⟩ := bind_eq_ok.mp h
  obtain ⟨-, h⟩ := Prod.mk.inj (Except.ok.inj h)
  obtain ⟨rfl, -⟩ := Prod.mk.inj h
  have hn := pos_of_readInt hidx
  simp only [List.length_drop]
  omega

theorem length_rest_lt {nameCap valueCap : ℕ} {b : UInt8}
    {s : Step} (h : d.decodeStep nameCap valueCap b (b :: input) listSize = .ok s) :
    s.rest.length ≤ input.length := by
  have hdrop {v n nbits : ℕ} (hread : readInt (b :: input) nbits = .ok (v, n)) :
      ((b :: input).drop n).length ≤ input.length := by
    have hn := pos_of_readInt hread
    rw [List.length_drop, List.length_cons]
    omega
  rw [decodeStep] at h
  split_ifs at h
  · obtain ⟨⟨idx, n⟩, hread, h⟩ := bind_eq_ok.mp h
    dsimp only at h
    split_ifs at h
    obtain ⟨f, -, h⟩ := bind_eq_ok.mp h
    obtain ⟨size, -, h⟩ := bind_eq_ok.mp h
    obtain rfl := Except.ok.inj h
    exact hdrop hread
  · obtain ⟨⟨f, rest, size⟩, hlit, h⟩ := bind_eq_ok.mp h
    obtain rfl := Except.ok.inj h
    exact Nat.lt_succ_iff.mp (length_literal_lt (List.cons_ne_nil _ _) hlit)
  · obtain ⟨⟨newMax, n⟩, hread, h⟩ := bind_eq_ok.mp h
    obtain ⟨d', -, h⟩ := bind_eq_ok.mp h
    obtain rfl := Except.ok.inj h
    exact hdrop hread
  · obtain ⟨⟨f, rest, size⟩, hlit, h⟩ := bind_eq_ok.mp h
    obtain rfl := Except.ok.inj h
    exact Nat.lt_succ_iff.mp (length_literal_lt (List.cons_ne_nil _ _) hlit)

theorem decodeLoop_fuel (nameCap valueCap : ℕ) {fuel fuel' : ℕ} {out : List Field} (h : input.length ≤ fuel) (h' : input.length ≤ fuel') :
    decodeLoop nameCap valueCap fuel d input listSize out =
      decodeLoop nameCap valueCap fuel' d input listSize out := by
  induction fuel generalizing fuel' d input listSize out with
  | zero =>
    obtain rfl := List.length_eq_zero_iff.mp (Nat.le_zero.mp h)
    cases fuel' <;> rfl
  | succ fuel ih =>
    cases input with
    | nil => cases fuel' <;> rfl
    | cons b input =>
      rw [List.length_cons] at h h'
      obtain ⟨fuel', rfl⟩ : ∃ n, fuel' = n + 1 := ⟨fuel' - 1, by omega⟩
      rw [decodeLoop, decodeLoop]
      cases hs : d.decodeStep nameCap valueCap b (b :: input) listSize with
      | error e => rfl
      | ok s =>
        have hrest := length_rest_lt hs
        exact ih (by omega) (by omega)

end Decoder

/-- The request of RFC 7541 C.3.1. -/
example :
    ((Decoder.new 4096 65536).decode ([0x82, 0x86, 0x84, 0x41, 0x0f] ++ ascii "www.example.com")
      4096 4096).2.2 =
      [⟨ascii ":method", ascii "GET"⟩, ⟨ascii ":scheme", ascii "http"⟩,
        ⟨ascii ":path", ascii "/"⟩, ⟨ascii ":authority", ascii "www.example.com"⟩] := by
  decide +kernel

end Waitless.Http2
