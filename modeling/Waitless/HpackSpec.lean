import Waitless.Hpack

/-! # Header compression against its specification

RFC 7541 in its own terms: the dynamic table `SpecTable`, representations with their meaning (`Rep`,
`SpecTable.apply`) and the bytes an encoder may write for them (`Rep.Wire`). The decoder's table is
that of the specification (`Decoder.Refines`), so a sequence of blocks that is decoded at all gives
the fields that were encoded (`decoder_refines`). -/

namespace Waitless.Http2

open Waitless.AesGcm List Option

def tableSize (entries : List Field) : ℕ := (entries.map Field.size).sum

@[simp] theorem tableSize_nil : tableSize [] = 0 := rfl

@[simp] theorem tableSize_cons (f : Field) (fs : List Field) :
    tableSize (f :: fs) = f.size + tableSize fs := by simp [tableSize]

@[simp] theorem tableSize_append (fs gs : List Field) :
    tableSize (fs ++ gs) = tableSize fs + tableSize gs := by simp [tableSize]

theorem Field.size_pos (f : Field) : 0 < f.size := by
  rw [Field.size, entryOverhead]
  omega

/-- The longest beginning within `cap`. -/
def fit : ℕ → List Field → List Field
  | _, [] => []
  | cap, f :: fs => if f.size ≤ cap then f :: fit (cap - f.size) fs else []

theorem tableSize_fit_le (cap : ℕ) (fs : List Field) : tableSize (fit cap fs) ≤ cap := by
  induction fs generalizing cap with
  | nil => exact Nat.zero_le _
  | cons f fs ih =>
    rw [fit]
    split_ifs with h
    · have hrest := ih (cap - f.size)
      rw [tableSize_cons]
      omega
    · exact Nat.zero_le _

theorem fit_eq_self {cap : ℕ} {fs : List Field} (h : tableSize fs ≤ cap) : fit cap fs = fs := by
  induction fs generalizing cap with
  | nil => rfl
  | cons f fs ih =>
    rw [tableSize_cons] at h
    rw [fit, if_pos (by omega), ih (by omega)]

theorem fit_concat {cap : ℕ} {fs : List Field} {f : Field} (h : cap < tableSize (fs ++ [f])) :
    fit cap (fs ++ [f]) = fit cap fs := by
  induction fs generalizing cap with
  | nil =>
    rw [nil_append, tableSize_cons, tableSize_nil] at h
    simp [fit, if_neg (show ¬ f.size ≤ cap by omega)]
  | cons g fs ih =>
    rw [cons_append, tableSize_cons] at h
    rw [cons_append, fit, fit]
    split_ifs with hg
    · rw [ih (by omega)]
    · rfl

/-- The dynamic table of RFC 7541. -/
structure SpecTable where
  entries : List Field
  maxSize : ℕ
deriving DecidableEq

namespace SpecTable

def initial (limit : ℕ) : SpecTable := ⟨[], limit⟩

def insert (t : SpecTable) (f : Field) : SpecTable :=
  { t with entries := fit t.maxSize (f :: t.entries) }

def resize (t : SpecTable) (newMax : ℕ) : SpecTable := ⟨fit newMax t.entries, newMax⟩

def lookup (t : SpecTable) (idx : ℕ) : Option Field :=
  if idx = 0 then none else (staticTable ++ t.entries)[idx - 1]?

end SpecTable

structure Str where
  text : Bytes
  huffman : Bool

/-- A name, by index or spelled out. -/
inductive NameRef where
  | index (idx : ℕ)
  | literal (s : Str)

/-- What becomes of a literal. -/
inductive Indexing where
  | incremental
  | plain (never : Bool)

/-- A representation of a block. -/
inductive Rep where
  | indexed (idx : ℕ)
  | literal (kind : Indexing) (name : NameRef) (value : Str)
  | sizeUpdate (newMax : ℕ)

namespace SpecTable

def name (t : SpecTable) : NameRef → Option Bytes
  | .index idx => (t.lookup idx).map Field.name
  | .literal s => some s.text

/-- `none` where it is not allowed. -/
def apply (limit : ℕ) (t : SpecTable) : Rep → Option (Option Field × SpecTable)
  | .indexed idx => (t.lookup idx).map fun f => (some f, t)
  | .literal kind name value => (t.name name).map fun n =>
    match kind with
    | .incremental => (some ⟨n, value.text⟩, t.insert ⟨n, value.text⟩)
    | .plain _ => (some ⟨n, value.text⟩, t)
  | .sizeUpdate newMax => if newMax ≤ limit then some (none, t.resize newMax) else none

def applyBlock (limit : ℕ) : SpecTable → List Rep → Option (List Field × SpecTable)
  | t, [] => some ([], t)
  | t, r :: rs => do
    let (f, t) ← t.apply limit r
    let (fs, t) ← applyBlock limit t rs
    return (f.toList ++ fs, t)

def applyBlocks (limit : ℕ) : SpecTable → List (List Rep) → Option (List (List Field) × SpecTable)
  | t, [] => some ([], t)
  | t, b :: bs => do
    let (fs, t) ← t.applyBlock limit b
    let (fss, t) ← applyBlocks limit t bs
    return (fs :: fss, t)

end SpecTable

/-- Groups of seven bits, lowest first, the last one without the top bit. -/
inductive Groups : ℕ → Bytes → Prop
  | last {b : ℕ} (hb : b < 128) : Groups b [UInt8.ofNat b]
  | more {b v : ℕ} {bs : Bytes} (hb : b < 128) (hv : Groups v bs) :
      Groups (b + 128 * v) (UInt8.ofNat (128 + b) :: bs)

/-- An integer in the lowest `nbits` bits behind `flags`. -/
inductive IntWire (nbits flags : ℕ) : ℕ → Bytes → Prop
  | short {v : ℕ} (hv : v < 2 ^ nbits - 1) : IntWire nbits flags v [UInt8.ofNat (flags + v)]
  | long {v : ℕ} {bs : Bytes} (hv : Groups v bs) :
      IntWire nbits flags (2 ^ nbits - 1 + v) (UInt8.ofNat (flags + (2 ^ nbits - 1)) :: bs)

/-- The octets of a string. -/
inductive Str.Wire : Str → Bytes → Prop
  | raw {text len : Bytes} (hlen : IntWire 7 0 text.length len) :
      Str.Wire ⟨text, false⟩ (len ++ text)
  | huffman {text len octets : Bytes} {k : ℕ} (hk : k < 8)
      (hbits : FieldHuffman.bits octets =
        text.flatMap FieldHuffman.code ++ List.replicate k true)
      (hlen : IntWire 7 128 octets.length len) : Str.Wire ⟨text, true⟩ (len ++ octets)

namespace Indexing

def nbits : Indexing → ℕ
  | incremental => 6
  | plain _ => 4

def flags : Indexing → ℕ
  | incremental => 64
  | plain never => if never then 16 else 0

theorem flags_spec (kind : Indexing) :
    2 ^ kind.nbits ∣ kind.flags ∧ kind.flags + 2 ^ kind.nbits ≤ 256 := by
  rcases kind with - | (- | -) <;> decide

end Indexing

/-- The octets of a representation. -/
inductive Rep.Wire : Rep → Bytes → Prop
  | indexed {idx : ℕ} {bs : Bytes} (h : IntWire 7 128 idx bs) : Rep.Wire (.indexed idx) bs
  | indexedName {kind : Indexing} {idx : ℕ} {value : Str} {hd vl : Bytes}
      (hidx : IntWire kind.nbits kind.flags idx hd) (hvalue : value.Wire vl) :
      Rep.Wire (.literal kind (.index idx) value) (hd ++ vl)
  | newName {kind : Indexing} {name value : Str} {hd nm vl : Bytes}
      (hidx : IntWire kind.nbits kind.flags 0 hd) (hname : name.Wire nm) (hvalue : value.Wire vl) :
      Rep.Wire (.literal kind (.literal name) value) (hd ++ (nm ++ vl))
  | sizeUpdate {newMax : ℕ} {bs : Bytes} (h : IntWire 5 32 newMax bs) :
      Rep.Wire (.sizeUpdate newMax) bs

/-- The octets of a block. -/
inductive BlockWire : List Rep → Bytes → Prop
  | nil : BlockWire [] []
  | cons {r : Rep} {rs : List Rep} {bs cs : Bytes} (hr : r.Wire bs) (hrs : BlockWire rs cs) :
      BlockWire (r :: rs) (bs ++ cs)

theorem group_last : ∀ b < 128,
    (UInt8.ofNat b &&& 0x7f).toNat = b ∧ UInt8.ofNat b &&& 0x80 = 0 := by decide

theorem group_more : ∀ b < 128,
    (UInt8.ofNat (128 + b) &&& 0x7f).toNat = b ∧ UInt8.ofNat (128 + b) &&& 0x80 ≠ 0 := by decide

variable {bs : Bytes} {c v : ℕ}

theorem Groups.readMore {w : ℕ} (hw : Groups w bs) (rest : Bytes)
    {value p shift : ℕ} (hlt : value + w * 2 ^ shift < 2 ^ 64)
    (h : readMore (bs ++ rest) value p shift = .ok (v, c)) :
    v = value + w * 2 ^ shift ∧ c = p + bs.length := by
  induction hw generalizing value p shift with
  | @last b hb =>
    rw [singleton_append, Http2.readMore] at h
    simp only [group_last b hb, Nat.shiftLeft_eq, Nat.mod_eq_of_lt (show b * 2 ^ shift < 2 ^ 64 by
      omega), if_neg (Nat.not_le.mpr hlt), if_true, Except.ok.injEq, Prod.mk.injEq] at h
    exact ⟨h.1.symm, h.2.symm⟩
  | @more b w bs hb hw ih =>
    have hsum : (b + 128 * w) * 2 ^ shift = b * 2 ^ shift + w * 2 ^ (shift + 7) := by ring
    rw [hsum] at hlt ⊢
    rw [cons_append, Http2.readMore] at h
    simp only [group_more b hb, Nat.shiftLeft_eq, Nat.mod_eq_of_lt (show b * 2 ^ shift < 2 ^ 64 by
      omega), if_neg (show ¬ 2 ^ 64 ≤ value + b * 2 ^ shift by omega), if_false] at h
    split_ifs at h
    obtain ⟨hv, hc⟩ := ih (by omega) h
    rw [hv, hc, length_cons]
    omega

theorem IntWire.head {nbits flags : ℕ} (hw : IntWire nbits flags v bs) :
    ∃ k < 2 ^ nbits, ∃ bs', bs = UInt8.ofNat (flags + k) :: bs' := by
  have hpos := Nat.two_pow_pos nbits
  cases hw with
  | short hv => exact ⟨v, by omega, [], rfl⟩
  | long hv => exact ⟨2 ^ nbits - 1, by omega, _, rfl⟩

theorem IntWire.readInt {nbits flags : ℕ} (hw : IntWire nbits flags v bs)
    (hdvd : 2 ^ nbits ∣ flags) (hle : flags + 2 ^ nbits ≤ 256) (hv : v < 2 ^ 64) (rest : Bytes)
    {v' : ℕ} (h : readInt (bs ++ rest) nbits = .ok (v', c)) : v' = v ∧ c = bs.length := by
  have hfirst {k : ℕ} (hk : k < 2 ^ nbits) :
      (UInt8.ofNat (flags + k)).toNat &&& (2 ^ nbits - 1) = k := by
    rw [UInt8.toNat_ofNat', Nat.mod_eq_of_lt (by omega), Nat.and_two_pow_sub_one_eq_mod,
      Nat.add_mod, Nat.mod_eq_zero_of_dvd hdvd, Nat.zero_add, Nat.mod_mod, Nat.mod_eq_of_lt hk]
  cases hw with
  | short hlt =>
    rw [singleton_append, Http2.readInt] at h
    simp only [hfirst (show v < 2 ^ nbits by omega), if_pos hlt, Except.ok.injEq,
      Prod.mk.injEq] at h
    exact ⟨h.1.symm, h.2.symm⟩
  | @long w bs hw =>
    rw [cons_append, Http2.readInt] at h
    simp only [hfirst (show 2 ^ nbits - 1 < 2 ^ nbits by omega), lt_irrefl, if_false] at h
    obtain ⟨hv', hc⟩ := hw.readMore rest (by simpa using hv) h
    exact ⟨by simpa using hv', by rw [hc, length_cons, Nat.add_comm]⟩

theorem flag_string : ∀ k < 128, UInt8.ofNat (0 + k) &&& 0x80 = 0 ∧
    UInt8.ofNat (128 + k) &&& 0x80 ≠ 0 := by decide

theorem IntWire.readString (huffman : Bool) {len body : Bytes}
    (hw : IntWire 7 (if huffman then 128 else 0) body.length len)
    (hlen : (len ++ body).length < 2 ^ 64) (rest : Bytes) {cap : ℕ} {text : Bytes}
    (h : readString (len ++ body ++ rest) cap = .ok (text, c)) :
    (if huffman then FieldHuffman.decodeIntoSlice body cap = .ok text else text = body) ∧
      c = (len ++ body).length := by
  obtain ⟨k, hk, tl, rfl⟩ := hw.head
  rw [cons_append, cons_append, Http2.readString, ← cons_append,
    ← cons_append, append_assoc] at h
  obtain ⟨⟨v, n⟩, hread, h⟩ := bind_eq_ok.mp h
  rw [length_append] at hlen ⊢
  obtain ⟨rfl, rfl⟩ := hw.readInt (by cases huffman <;> decide) (by cases huffman <;> decide)
    (by omega) _ hread
  cases huffman with
  | false =>
    simp only [Bool.false_eq_true, if_false, drop_left', take_left',
      (flag_string k hk).1, ne_eq, not_true] at h ⊢
    split_ifs at h
    simp only [Except.ok.injEq, Prod.mk.injEq] at h
    exact ⟨h.1.symm, h.2.symm⟩
  | true =>
    simp only [if_true, drop_left', take_left', (flag_string k hk).2, ne_eq,
      not_false_eq_true] at h ⊢
    split_ifs at h
    cases hdec : FieldHuffman.decodeIntoSlice body cap with
    | error e => rw [hdec] at h; cases h
    | ok str =>
      rw [hdec] at h
      simp only [Except.ok.injEq, Prod.mk.injEq] at h
      exact ⟨by rw [h.1], h.2.symm⟩

theorem Str.Wire.readString {s : Str} (hw : s.Wire bs) (hlen : bs.length < 2 ^ 64)
    (rest : Bytes) {cap : ℕ} {text : Bytes} (h : readString (bs ++ rest) cap = .ok (text, c)) :
    text = s.text ∧ c = bs.length := by
  cases hw with
  | raw hint => exact IntWire.readString false hint hlen rest h
  | huffman hk hbits hint =>
    obtain ⟨hdec, hc⟩ := IntWire.readString true hint hlen rest h
    exact ⟨(FieldHuffman.encodes_of_ok hdec).2.unique ⟨_, hk, hbits⟩, hc⟩

namespace Decoder

theorem dropOldest_reverse (target : ℕ) (fs : List Field) :
    dropOldest target fs.reverse (tableSize fs) =
      ((fit target fs).reverse, tableSize (fit target fs)) := by
  induction fs using reverseRecOn with
  | nil => simp [dropOldest, fit]
  | append_singleton fs f ih =>
    rw [reverse_append, reverse_singleton, singleton_append, dropOldest]
    by_cases h : target < tableSize (fs ++ [f])
    · have hsize : tableSize (fs ++ [f]) - f.size = tableSize fs := by simp
      rw [if_pos h, hsize, ih, fit_concat h]
    · rw [if_neg h, fit_eq_self (Nat.not_lt.mp h)]
      simp

/-- The decoder's table is that of the specification. -/
structure Refines (d : Decoder) (t : SpecTable) : Prop where
  entries : d.dynamic = t.entries
  size : d.size = tableSize t.entries
  maxSize : d.maxSize = t.maxSize
  fits : d.size ≤ d.maxSize
  le_hardMax : d.maxSize ≤ d.hardMax

variable {d : Decoder} {t : SpecTable}

theorem refines_new (hardMax maxHeaderListSize : ℕ) :
    (new hardMax maxHeaderListSize).Refines (.initial hardMax) :=
  ⟨rfl, rfl, rfl, Nat.zero_le _, le_rfl⟩

theorem insert_hardMax (d : Decoder) (f : Field) : (d.insert f).hardMax = d.hardMax := by
  rw [insert]
  split_ifs <;> rfl

theorem evictTo_eq (h : d.size = tableSize d.dynamic) (target : ℕ) :
    d.evictTo target = { d with
      dynamic := fit target d.dynamic, size := tableSize (fit target d.dynamic) } := by
  rw [evictTo, h, dropOldest_reverse]
  simp

namespace Refines

theorem insert (h : d.Refines t) (f : Field) : (d.insert f).Refines (t.insert f) := by
  have hsize : d.size = tableSize d.dynamic := by rw [h.entries, h.size]
  have hfit := tableSize_fit_le (t.maxSize - f.size) t.entries
  rw [Decoder.insert, evictTo_eq hsize, SpecTable.insert, fit]
  simp only [h.entries, h.maxSize]
  by_cases hle : f.size ≤ t.maxSize
  · rw [if_neg (Nat.not_lt.mpr hle), if_pos hle]
    refine ⟨rfl, ?_, rfl, ?_, h.maxSize ▸ h.le_hardMax⟩
    · rw [tableSize_cons, Nat.add_comm]
    · change tableSize _ + f.size ≤ t.maxSize
      omega
  · -- larger than the whole table: everything is evicted, and the entry is not kept
    have hzero : t.maxSize - f.size = 0 := by omega
    have hnil : fit 0 t.entries = [] := by
      cases t.entries with
      | nil => rfl
      | cons g gs => rw [fit, if_neg (Nat.not_le.mpr g.size_pos)]
    rw [if_pos (Nat.not_le.mp hle), if_neg hle, hzero, hnil]
    exact ⟨rfl, rfl, rfl, Nat.zero_le _, h.maxSize ▸ h.le_hardMax⟩

theorem setMaxSize (h : d.Refines t) {newMax : ℕ} {d' : Decoder}
    (hd' : d.setMaxSize newMax = .ok d') :
    d'.Refines (t.resize newMax) ∧ d'.hardMax = d.hardMax := by
  have hsize : d.size = tableSize d.dynamic := by rw [h.entries, h.size]
  rw [Decoder.setMaxSize, evictTo_eq (by exact hsize)] at hd'
  split_ifs at hd' with hle
  obtain rfl := Except.ok.inj hd'
  refine ⟨⟨?_, ?_, rfl, ?_, Nat.not_lt.mp hle⟩, rfl⟩
  · simp [h.entries, SpecTable.resize]
  · simp [h.entries, SpecTable.resize]
  · exact tableSize_fit_le ..

theorem entryAt (h : d.Refines t) {idx : ℕ} {f g : Field} (hf : t.lookup idx = some f)
    (hg : d.entryAt idx = .ok g) : g = f := by
  rw [SpecTable.lookup] at hf
  split_ifs at hf with hzero
  have hentry : (if idx ≤ staticTableLen then staticLookup idx
      else d.dynamic[idx - staticTableLen - 1]?) = some f := by
    by_cases hstatic : idx ≤ staticTableLen
    · rw [getElem?_append_left (by rw [staticTable_length]; omega)] at hf
      rw [if_pos hstatic, staticLookup, if_neg hzero, hf]
    · rw [getElem?_append_right (by rw [staticTable_length]; omega), staticTable_length] at hf
      rw [if_neg hstatic, h.entries, ← hf]
      congr 1
  rw [Decoder.entryAt, hentry] at hg
  exact (Except.ok.inj hg).symm

theorem lookup_lt (h : d.Refines t) (hmax : d.hardMax < 2 ^ 64) {idx : ℕ} {f : Field}
    (hf : t.lookup idx = some f) : idx < 2 ^ 64 := by
  rw [SpecTable.lookup] at hf
  split_ifs at hf with hzero
  have hlt : idx - 1 < (staticTable ++ t.entries).length := (List.getElem?_eq_some_iff.mp hf).1
  have hcount (fs : List Field) : 32 * fs.length ≤ tableSize fs := by
    induction fs with
    | nil => exact Nat.zero_le _
    | cons g gs ih =>
      have hg : 32 ≤ g.size := by rw [Field.size, entryOverhead]; omega
      rw [length_cons, tableSize_cons]
      omega
  have hentries := hcount t.entries
  have hfits := h.fits
  have hhard := h.le_hardMax
  rw [h.size] at hfits
  rw [length_append, staticTable_length, staticTableLen] at hlt
  omega

end Refines

variable {bs : Bytes} {listSize nameCap valueCap : ℕ}

theorem literal_eq {kind : Indexing} {name : NameRef} {value : Str} {rest : Bytes}
    (hw : (Rep.literal kind name value).Wire bs) (hlen : bs.length < 2 ^ 64)
    (h : d.Refines t) (hmax : d.hardMax < 2 ^ 64) {n : Bytes} (hname : t.name name = some n)
    {listSize' : ℕ} {f : Field} {rest' : Bytes}
    (hd : d.literal kind.nbits nameCap valueCap (bs ++ rest) listSize = .ok (f, rest', listSize')) :
    f = ⟨n, value.text⟩ ∧ rest' = rest := by
  obtain ⟨hdvd, hle⟩ := kind.flags_spec
  rw [literal] at hd
  obtain ⟨⟨idx', c⟩, hidx, hd⟩ := bind_eq_ok.mp hd
  obtain ⟨⟨name', nc⟩, hnm, hd⟩ := bind_eq_ok.mp hd
  obtain ⟨⟨value', vc⟩, hval, hd⟩ := bind_eq_ok.mp hd
  obtain ⟨size, hsize, hd⟩ := bind_eq_ok.mp hd
  simp only [pure, Except.pure, Except.ok.injEq, Prod.mk.injEq] at hd
  obtain ⟨rfl, rfl, rfl⟩ := hd
  cases hw with
  | @indexedName _ idx _ hd vl hint hvalue =>
    obtain ⟨g, hg, rfl⟩ := map_eq_some_iff.mp hname
    have hpos : idx ≠ 0 := fun e => by simp [SpecTable.lookup, e] at hg
    rw [append_assoc] at hidx hnm hval ⊢
    rw [length_append] at hlen
    obtain ⟨rfl, rfl⟩ := hint.readInt hdvd hle (h.lookup_lt hmax hg) _ hidx
    rw [drop_left] at hnm hval ⊢
    rw [readName, if_neg hpos, nameAt] at hnm
    obtain ⟨_, hnameAt, hnm⟩ := bind_eq_ok.mp hnm
    obtain ⟨g', hentry, hpure⟩ := bind_eq_ok.mp hnameAt
    obtain rfl := h.entryAt hg hentry
    obtain rfl := Except.ok.inj hpure
    split_ifs at hnm
    simp only [Except.ok.injEq, Prod.mk.injEq] at hnm
    obtain ⟨rfl, rfl⟩ := hnm
    rw [drop_zero] at hval ⊢
    obtain ⟨rfl, rfl⟩ := hvalue.readString (by omega) _ hval
    exact ⟨rfl, drop_left⟩
  | @newName _ name _ hd nm vl hint hn hvalue =>
    obtain rfl := some.inj hname
    rw [append_assoc, append_assoc] at hidx hnm hval ⊢
    rw [length_append, length_append] at hlen
    obtain ⟨rfl, rfl⟩ := hint.readInt hdvd hle (by decide) _ hidx
    rw [drop_left] at hnm hval ⊢
    rw [readName, if_pos rfl] at hnm
    obtain ⟨rfl, rfl⟩ := hn.readString (by omega) _ hnm
    rw [drop_left] at hval ⊢
    obtain ⟨rfl, rfl⟩ := hvalue.readString (by omega) _ hval
    exact ⟨rfl, drop_left⟩

theorem flag_indexed : ∀ k < 128, UInt8.ofNat (128 + k) &&& 0x80 ≠ 0 := by decide

theorem flag_incremental : ∀ k < 64, UInt8.ofNat (Indexing.incremental.flags + k) &&& 0x80 = 0 ∧
    UInt8.ofNat (Indexing.incremental.flags + k) &&& 0x40 ≠ 0 := by decide

theorem flag_sizeUpdate : ∀ k < 32, UInt8.ofNat (32 + k) &&& 0x80 = 0 ∧
    UInt8.ofNat (32 + k) &&& 0x40 = 0 ∧ UInt8.ofNat (32 + k) &&& 0x20 ≠ 0 := by decide

theorem flag_plain : ∀ never, ∀ k < 16, UInt8.ofNat ((Indexing.plain never).flags + k) &&& 0x80 = 0 ∧
    UInt8.ofNat ((Indexing.plain never).flags + k) &&& 0x40 = 0 ∧
    UInt8.ofNat ((Indexing.plain never).flags + k) &&& 0x20 = 0 := by decide

theorem literal_head {kind : Indexing} {name : NameRef} {value : Str}
    (hw : (Rep.literal kind name value).Wire bs) :
    ∃ k < 2 ^ kind.nbits, ∃ bs', bs = UInt8.ofNat (kind.flags + k) :: bs' := by
  cases hw with
  | indexedName hint _ =>
    obtain ⟨k, hk, tl, rfl⟩ := hint.head
    exact ⟨k, hk, _, rfl⟩
  | newName hint _ _ =>
    obtain ⟨k, hk, tl, rfl⟩ := hint.head
    exact ⟨k, hk, _, rfl⟩

/-- **One representation.** -/
theorem decodeStep_eq {r : Rep} {b : UInt8} {rest : Bytes} (hw : r.Wire (b :: bs))
    (hlen : (b :: bs).length < 2 ^ 64) (h : d.Refines t) (hmax : d.hardMax < 2 ^ 64)
    {f : Option Field} {t' : SpecTable} (happly : t.apply d.hardMax r = some (f, t')) {s : Step}
    (hs : d.decodeStep nameCap valueCap b (b :: bs ++ rest) listSize = .ok s) :
    s.field = f ∧ s.rest = rest ∧ s.decoder.Refines t' ∧ s.decoder.hardMax = d.hardMax := by
  rw [decodeStep] at hs
  cases r with
  | indexed idx =>
    cases hw with | indexed hint => ?_
    obtain ⟨k, hk, tl, hcons⟩ := hint.head
    obtain ⟨rfl, rfl⟩ := cons.inj hcons
    rw [if_pos (flag_indexed k hk)] at hs
    obtain ⟨g, hg, heq⟩ := map_eq_some_iff.mp happly
    obtain ⟨rfl, rfl⟩ := Prod.mk.inj heq
    obtain ⟨⟨idx', n⟩, hread, hs⟩ := bind_eq_ok.mp hs
    obtain ⟨rfl, rfl⟩ := hint.readInt (by decide) (by decide) (h.lookup_lt hmax hg) _ hread
    simp only at hs
    split_ifs at hs
    obtain ⟨g', hres, hs⟩ := bind_eq_ok.mp hs
    obtain ⟨size, hsize, hs⟩ := bind_eq_ok.mp hs
    rw [resolveInto] at hres
    obtain ⟨g'', hentry, hres⟩ := bind_eq_ok.mp hres
    split_ifs at hres
    obtain rfl := Except.ok.inj hres
    obtain rfl := h.entryAt hg hentry
    obtain rfl := Except.ok.inj hs
    exact ⟨rfl, drop_left, h, rfl⟩
  | literal kind name value =>
    obtain ⟨k, hk, tl, hcons⟩ := literal_head hw
    obtain ⟨rfl, rfl⟩ := cons.inj hcons
    obtain ⟨n, hname, heq⟩ := map_eq_some_iff.mp happly
    cases kind with
    | incremental =>
      rw [if_neg (not_not.mpr (flag_incremental k hk).1),
        if_pos (flag_incremental k hk).2] at hs
      obtain ⟨⟨g, rest', size⟩, hlit, hpure⟩ := bind_eq_ok.mp hs
      obtain ⟨rfl, rfl⟩ := literal_eq hw hlen h hmax hname hlit
      obtain ⟨rfl, rfl⟩ := Prod.mk.inj heq
      obtain rfl := Except.ok.inj hpure
      exact ⟨rfl, rfl, h.insert _, insert_hardMax ..⟩
    | plain never =>
      obtain ⟨h1, h2, h3⟩ := flag_plain never k hk
      rw [if_neg (not_not.mpr h1), if_neg (not_not.mpr h2), if_neg (not_not.mpr h3)] at hs
      obtain ⟨⟨g, rest', size⟩, hlit, hpure⟩ := bind_eq_ok.mp hs
      obtain ⟨rfl, rfl⟩ := literal_eq hw hlen h hmax hname hlit
      obtain ⟨rfl, rfl⟩ := Prod.mk.inj heq
      obtain rfl := Except.ok.inj hpure
      exact ⟨rfl, rfl, h, rfl⟩
  | sizeUpdate newMax =>
    cases hw with | sizeUpdate hint => ?_
    obtain ⟨k, hk, tl, hcons⟩ := hint.head
    obtain ⟨rfl, rfl⟩ := cons.inj hcons
    obtain ⟨h1, h2, h3⟩ := flag_sizeUpdate k hk
    rw [if_neg (not_not.mpr h1), if_neg (not_not.mpr h2), if_pos h3] at hs
    rw [SpecTable.apply] at happly
    split_ifs at happly with hle
    obtain ⟨rfl, rfl⟩ := Prod.mk.inj (some.inj happly)
    obtain ⟨⟨newMax', n⟩, hread, hs⟩ := bind_eq_ok.mp hs
    obtain ⟨rfl, rfl⟩ := hint.readInt (by decide) (by decide) (by omega) _ hread
    obtain ⟨d', hset, hs⟩ := bind_eq_ok.mp hs
    obtain rfl := Except.ok.inj hs
    obtain ⟨hrefines, hhard⟩ := h.setMaxSize hset
    exact ⟨rfl, drop_left, hrefines, hhard⟩

theorem wire_ne_nil {r : Rep} (hw : r.Wire bs) : ∃ b tl, bs = b :: tl := by
  cases r with
  | indexed idx =>
    cases hw with | indexed hint => ?_
    obtain ⟨k, -, tl, rfl⟩ := hint.head
    exact ⟨_, tl, rfl⟩
  | literal kind name value =>
    obtain ⟨k, -, tl, rfl⟩ := literal_head hw
    exact ⟨_, tl, rfl⟩
  | sizeUpdate newMax =>
    cases hw with | sizeUpdate hint => ?_
    obtain ⟨k, -, tl, rfl⟩ := hint.head
    exact ⟨_, tl, rfl⟩

theorem decodeLoop_eq {rs : List Rep} (hw : BlockWire rs bs)
    (hlen : bs.length < 2 ^ 64) {d d' : Decoder} {t t' : SpecTable} (h : d.Refines t)
    (hmax : d.hardMax < 2 ^ 64) {fs out out' : List Field}
    (happly : t.applyBlock d.hardMax rs = some (fs, t')) {fuel : ℕ}
    (hfuel : bs.length ≤ fuel)
    (hd : decodeLoop nameCap valueCap fuel d bs listSize out = (.ok (), d', out')) :
    out' = out ++ fs ∧ d'.Refines t' ∧ d'.hardMax = d.hardMax := by
  induction hw generalizing d t fs out fuel listSize with
  | nil =>
    rw [SpecTable.applyBlock] at happly
    obtain ⟨rfl, rfl⟩ := Prod.mk.inj (some.inj happly)
    cases fuel <;>
    · rw [decodeLoop] at hd
      · obtain ⟨-, rfl, rfl⟩ := hd
        exact ⟨(append_nil _).symm, h, rfl⟩
      · simp
  | @cons r rs bs cs hr hrs ih =>
    obtain ⟨b, tl, rfl⟩ := wire_ne_nil hr
    rw [length_append] at hlen hfuel
    obtain ⟨fuel, rfl⟩ : ∃ n, fuel = n + 1 := ⟨fuel - 1, by
      rw [length_cons] at hfuel
      omega⟩
    rw [cons_append, decodeLoop, ← cons_append] at hd
    rw [SpecTable.applyBlock] at happly
    obtain ⟨⟨f, t1⟩, hstep, happly⟩ := bind_eq_some_iff.mp happly
    obtain ⟨⟨fs1, t2⟩, hblock, happly⟩ := bind_eq_some_iff.mp happly
    obtain ⟨rfl, rfl⟩ := Prod.mk.inj (some.inj happly)
    cases hs : d.decodeStep nameCap valueCap b (b :: tl ++ cs) listSize with
    | error e => rw [hs] at hd; cases hd
    | ok s =>
      rw [hs] at hd
      obtain ⟨hfield, hrest, hrefines, hhard⟩ := decodeStep_eq hr (by omega) h hmax hstep hs
      simp only [hrest] at hd
      obtain ⟨hout, hrefines', hhard'⟩ := ih (by omega) hrefines (hhard ▸ hmax)
        (by rw [hhard]; exact hblock) (by rw [length_cons] at hfuel; omega) hd
      refine ⟨?_, hrefines', hhard'.trans hhard⟩
      rw [hout, hfield, append_assoc]

end Decoder

/-- A call with a block that some encoder wrote. -/
structure Call where
  reps : List Rep
  wire : Bytes
  nameCap : ℕ
  valueCap : ℕ
  encodes : BlockWire reps wire
  length_lt : wire.length < 2 ^ 64

/-- The fields of each call and the last decoder. -/
def Decoder.decodeAll : Decoder → List Call → Option (List (List Field) × Decoder)
  | d, [] => some ([], d)
  | d, c :: cs =>
    match d.decode c.wire c.nameCap c.valueCap with
    | (.ok (), d, fs) => (d.decodeAll cs).map fun (fss, d) => (fs :: fss, d)
    | (.error _, _, _) => none

theorem Decoder.decodeAll_eq {d d' : Decoder} {t t' : SpecTable} (h : d.Refines t)
    (hmax : d.hardMax < 2 ^ 64) {calls : List Call} {fields out : List (List Field)}
    (hspec : t.applyBlocks d.hardMax (calls.map Call.reps) = some (fields, t'))
    (hok : d.decodeAll calls = some (out, d')) :
    out = fields ∧ d'.Refines t' ∧ d'.hardMax = d.hardMax := by
  induction calls generalizing d t fields out with
  | nil =>
    rw [List.map_nil, SpecTable.applyBlocks] at hspec
    rw [decodeAll] at hok
    obtain ⟨rfl, rfl⟩ := Prod.mk.inj (some.inj hspec)
    obtain ⟨rfl, rfl⟩ := Prod.mk.inj (some.inj hok)
    exact ⟨rfl, h, rfl⟩
  | cons c cs ih =>
    rw [List.map_cons, SpecTable.applyBlocks] at hspec
    obtain ⟨⟨fs, t1⟩, hblock, hspec⟩ := bind_eq_some_iff.mp hspec
    obtain ⟨⟨fss, t2⟩, hblocks, hspec⟩ := bind_eq_some_iff.mp hspec
    obtain ⟨rfl, rfl⟩ := Prod.mk.inj (some.inj hspec)
    rw [decodeAll] at hok
    rcases hdec : d.decode c.wire c.nameCap c.valueCap with ⟨verdict, d1, fs'⟩
    cases verdict with
    | error e => rw [hdec] at hok; cases hok
    | ok u =>
      rw [hdec] at hok
      obtain ⟨⟨fss', d2⟩, hall, hok⟩ := map_eq_some_iff.mp hok
      obtain ⟨rfl, rfl⟩ := Prod.mk.inj hok
      obtain ⟨rfl, hrefines, hhard⟩ :=
        decodeLoop_eq c.encodes c.length_lt h hmax hblock le_rfl hdec
      obtain ⟨rfl, hrefines', hhard'⟩ :=
        ih hrefines (hhard ▸ hmax) (by rw [hhard]; exact hblocks) hall
      exact ⟨rfl, hrefines', hhard'.trans hhard⟩

/-- **The decoder refines the specification** as long as every call succeeds. -/
theorem decoder_refines (hardMax maxHeaderListSize : ℕ) (hmax : hardMax < 2 ^ 64)
    (calls : List Call) (fields : List (List Field)) (t : SpecTable)
    (hspec : (SpecTable.initial hardMax).applyBlocks hardMax (calls.map Call.reps) =
      some (fields, t))
    (out : List (List Field)) (d : Decoder)
    (hok : (Decoder.new hardMax maxHeaderListSize).decodeAll calls = some (out, d)) :
    out = fields ∧ d.dynamic = t.entries ∧ d.maxSize = t.maxSize ∧
      d.size = (d.dynamic.map fun f => f.name.length + f.value.length + 32).sum ∧
      d.size ≤ d.maxSize ∧ d.maxSize ≤ hardMax := by
  obtain ⟨hout, h, hhard⟩ := Decoder.decodeAll_eq
    (Decoder.refines_new hardMax maxHeaderListSize) hmax hspec hok
  refine ⟨hout, h.entries, h.maxSize, ?_, h.fits, ?_⟩
  · rw [h.size, h.entries]
    rfl
  · rw [← show d.hardMax = hardMax from hhard]
    exact h.le_hardMax

theorem wire_newName (name : UInt8) {value : Bytes} (h : value.length < 127) :
    (Rep.literal .incremental (.literal ⟨[name], false⟩) ⟨value, false⟩).Wire
      ([0x40] ++ (([1] ++ [name]) ++ ([UInt8.ofNat (0 + value.length)] ++ value))) :=
  .newName (.short (by decide)) (.raw (.short (show 1 < 127 by decide))) (.raw (.short h))

theorem wire_indexedName {idx : ℕ} (hidx : idx < 63) {value : Bytes} (h : value.length < 127) :
    (Rep.literal .incremental (.index idx) ⟨value, false⟩).Wire
      ([UInt8.ofNat (64 + idx)] ++ ([UInt8.ofNat (0 + value.length)] ++ value)) :=
  .indexedName (.short hidx) (.raw (.short h))

def evictions : List Call := [
  { reps := [.literal .incremental (.literal ⟨[120], false⟩) ⟨[121], false⟩]
    wire := [0x40, 1, 120, 1, 121]
    nameCap := 16, valueCap := 16
    encodes := .cons (wire_newName 120 (by decide)) .nil
    length_lt := by decide },
  { reps := [.literal .incremental (.index 62) ⟨[122], false⟩]
    wire := [0x7e, 1, 122]
    nameCap := 16, valueCap := 16
    encodes := .cons (wire_indexedName (by decide) (by decide)) .nil
    length_lt := by decide },
  { reps := [.sizeUpdate 36, .literal .incremental (.literal ⟨[119], false⟩)
      ⟨[1, 2, 3, 4], false⟩]
    wire := [0x3f, 5, 0x40, 1, 119, 4, 1, 2, 3, 4]
    nameCap := 16, valueCap := 16
    encodes := .cons (.sizeUpdate (.long (v := 5) (.last (by decide))))
      (.cons (wire_newName 119 (by decide)) .nil)
    length_lt := by decide }]

def evictedFields : List (List Field) :=
  [[⟨[120], [121]⟩], [⟨[120], [122]⟩], [⟨[119], [1, 2, 3, 4]⟩]]

theorem decoder_refines_evictions :
    ∃ out d, (Decoder.new 64 65536).decodeAll evictions = some (out, d) ∧
      out = evictedFields ∧ d.dynamic = [] ∧ d.maxSize = 36 ∧
      d.size = (d.dynamic.map fun f => f.name.length + f.value.length + 32).sum ∧
      d.size ≤ d.maxSize ∧ d.maxSize ≤ 64 := by
  have hok : (Decoder.new 64 65536).decodeAll evictions =
      some (evictedFields, ⟨[], 0, 36, 64, 65536⟩) := by decide +kernel
  refine ⟨_, _, hok, ?_⟩
  exact decoder_refines 64 65536 (by decide) evictions evictedFields ⟨[], 36⟩ (by decide +kernel)
    _ _ hok

end Waitless.Http2
