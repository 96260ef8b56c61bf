import Minimosq.Wire
/-!
# Topics

`protocol/utf8.hpp` and `topic.hpp`.  The source walks its strings by index; the walks here are the same, with a fuel
that the length of the string bounds.
-/
namespace Minimosq

/-! ## UTF-8 -/

/-- The inner loop of `utf8_valid`: `cont` continuation bytes folded into the code point, `none` at a byte that is not
one or at the end of the string. -/
def utf8Continue : Nat → Nat → Bytes → Option (Nat × Bytes)
  | 0, cp, s => some (cp, s)
  | _ + 1, _, [] => none
  | n + 1, cp, b :: s => if b &&& 0xC0 != 0x80 then none else utf8Continue n ((cp <<< 6) ||| (b &&& 0x3F).toNat) s

/-- The continuation count and the first bits of a lead byte at or above `0x80`. -/
def utf8Lead (c : UInt8) : Option (Nat × Nat) :=
  if c &&& 0xE0 == 0xC0 then some (1, (c &&& 0x1F).toNat)
  else if c &&& 0xF0 == 0xE0 then some (2, (c &&& 0x0F).toNat)
  else if c &&& 0xF8 == 0xF0 then some (3, (c &&& 0x07).toNat)
  else none

def utf8Overlong (cont cp : Nat) : Bool :=
  (cont == 1 && decide (cp < 0x80)) || (cont == 2 && decide (cp < 0x800)) || (cont == 3 && decide (cp < 0x10000))

def utf8Loop : Nat → Bytes → Bool
  | 0, s => s.isEmpty
  | _ + 1, [] => true
  | n + 1, c :: s =>
    if c == 0x00 then false
    else if c < 0x80 then utf8Loop n s
    else
      match utf8Lead c with
      | none => false
      | some (cont, cp₀) =>
        if decide (s.length < cont) then false
        else
          match utf8Continue cont cp₀ s with
          | none => false
          | some (cp, s') =>
            if utf8Overlong cont cp then false
            else if decide (0x10FFFF < cp) || (decide (0xD800 ≤ cp) && decide (cp ≤ 0xDFFF)) then false
            else utf8Loop n s'

def utf8Valid (s : Bytes) : Bool := utf8Loop s.length s

/-! ## Names and filters -/

def slash : UInt8 := 47
def plus : UInt8 := 43
def hash : UInt8 := 35
def dollar : UInt8 := 36

def topicNameValid (name : Bytes) : Bool :=
  if name.isEmpty || decide (maxUtf8Len < name.length) || !utf8Valid name then false
  else name.all (fun c => !(c == hash || c == plus))

/-- One position of the scan of `topic_filter_valid`. -/
def filterByteOk (f : Bytes) (i : Nat) : Bool :=
  if f[i]? == some hash then i + 1 == f.length && (i == 0 || f[i - 1]? == some slash)
  else if f[i]? == some plus then
    (i == 0 || f[i - 1]? == some slash) && (i + 1 == f.length || f[i + 1]? == some slash)
  else true

def topicFilterValid (f : Bytes) : Bool :=
  if f.isEmpty || decide (maxUtf8Len < f.length) || !utf8Valid f then false
  else (List.range f.length).all (filterByteOk f)

/-- The end of the level that starts at `i`: the next separator, or the end of the string. -/
def levelEnd (s : Bytes) : Nat → Nat → Nat
  | 0, i => i
  | n + 1, i => if decide (i < s.length) && s[i]? != some slash then levelEnd s n (i + 1) else i

/-- A level of one byte, that byte being `c`. -/
def levelIs (s : Bytes) (i e : Nat) (c : UInt8) : Bool := e == i + 1 && s[i]? == some c

def levelEq (a : Bytes) (i e : Nat) (b : Bytes) (j e' : Nat) : Bool :=
  e - i == e' - j && (List.range (e - i)).all (fun k => a[i + k]? == b[j + k]?)

/-- The loop of `topic_matches`, one filter level an iteration. -/
def matchLoop (filter name : Bytes) : Nat → Nat → Nat → Bool → Bool
  | 0, _, _, _ => false
  | n + 1, fi, ni, nameActive =>
    let fe := levelEnd filter filter.length fi
    if levelIs filter fi fe hash then true
    else if !nameActive then false
    else
      let ne := levelEnd name name.length ni
      if !levelIs filter fi fe plus && !levelEq filter fi fe name ni ne then false
      else if !decide (fe < filter.length) then !decide (ne < name.length)
      else if decide (ne < name.length) then matchLoop filter name n (fe + 1) (ne + 1) true
      else matchLoop filter name n (fe + 1) ni false

def topicMatches (filter name : Bytes) : Bool :=
  if name.head? == some dollar && (filter.head? == some plus || filter.head? == some hash) then false
  else matchLoop filter name (filter.length + 1) 0 0 true

/-! ## Subsumption -/

/-- The loop of `topic_filter_covers`, one level of the cover an iteration. -/
def coverLoop (cover filter : Bytes) : Nat → Nat → Nat → Bool → Bool
  | 0, _, _, _ => false
  | n + 1, ci, fi, filterActive =>
    let ce := levelEnd cover cover.length ci
    if levelIs cover ci ce hash then true
    else if !filterActive then false
    else
      let fe := levelEnd filter filter.length fi
      let cPlus := levelIs cover ci ce plus
      let fHash := levelIs filter fi fe hash
      let fPlus := levelIs filter fi fe plus
      if fHash then false
      else if fPlus && !cPlus then false
      else if !fPlus && !cPlus && !levelEq filter fi fe cover ci ce then false
      else if !decide (ce < cover.length) then !decide (fe < filter.length)
      else if decide (fe < filter.length) then coverLoop cover filter n (ce + 1) (fe + 1) true
      else coverLoop cover filter n (ce + 1) fi false

def topicFilterCovers (cover filter : Bytes) : Bool :=
  if filter.head? == some dollar && (cover.head? == some plus || cover.head? == some hash) then false
  else coverLoop cover filter (cover.length + 1) 0 0 true

end Minimosq
