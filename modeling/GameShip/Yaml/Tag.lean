import GameShip.Text.Digit
import GameShip.Text.Utf8
import GameShip.Yaml.Cursor

/-!
# Tags in YAML texts

* `Yaml.Tag`: a tag, or a part of one.
* `Yaml.Tag.handle?`, `Yaml.Tag.part?`: read a handle, which stands for the first part of a tag,
  and a part that stands for itself.
* `Yaml.Tag.standard`, `Yaml.Tag.own?`: the tags of standard types, and those of the document's
  own.

A percent sign and two digits stand for a byte. Of each byte in that form only the highest bits
have to be those of a byte of a character, so a tag need not be a text. A zero byte ends a part of
a tag, and what stands behind it means nothing.
-/

namespace GameShip.Yaml

/-- A tag, or a part of one. -/
abbrev Tag := Bytes

namespace Tag

/-! ## Reading -/

/-- The character may stand in a tag as it is. -/
def isChar (verbatim : Bool) (c : Char) : Bool :=
  isNameChar c || ";/?:@&=+$.!~*'()".toList.contains c || (verbatim && ",[]".toList.contains c)

/-- The byte that a percent sign and two digits stand for. -/
def escapedByte? (c : Cursor) : Option (UInt8 × Cursor) := do
  if c.peek ≠ '%' then none
  return (UInt8.ofNat (← number? 16 [c.ahead 1, c.ahead 2]), c.skip 3)

/-- How many bytes follow the first one of a character, by the first bits of that. -/
def following? (b : UInt8) : Option Nat :=
  if b < 0x80 then some 0
  else if b < 0xC0 then none
  else if b < 0xE0 then some 1
  else if b < 0xF0 then some 2
  else if b < 0xF8 then some 3
  else none

/-- Reads so many bytes that follow the first one of a character. They come before `done`, the
last one first. -/
def followers? : (count : Nat) → (done : Tag) → Cursor → Option (Tag × Cursor)
  | 0, done, c => some (done, c)
  | count + 1, done, c => do
    let (b, c) ← escapedByte? c
    if b < 0x80 ∨ 0xC0 ≤ b then none
    followers? count (b :: done) c

/-- The bytes up to the first character that cannot stand in a tag. The fuel bounds the number of
steps. -/
def bytes? (verbatim : Bool) : (fuel : Nat) → (done : Tag) → Cursor → Option (Tag × Cursor)
  | 0, done, c => some (done.reverse, c)
  | fuel + 1, done, c =>
    if c.peek = '%' then do
      let (b, c) ← escapedByte? c
      let (done, c) ← followers? (← following? b) (b :: done) c
      bytes? verbatim fuel done c
    else if isChar verbatim c.peek then
      bytes? verbatim fuel (UInt8.ofNat c.peek.toNat :: done) c.skip
    else some (done.reverse, c)

/-- What comes before the first zero byte. -/
def untilZero (bs : Bytes) : Tag := bs.takeWhile (· ≠ 0)

/-- A part of a tag behind what is known of it. Nothing more needs to be there. -/
def partAfter? (known : Tag) (verbatim : Bool) (fuel : Nat) (c : Cursor) :
    Option (Tag × Cursor) := do
  let (bs, c) ← bytes? verbatim fuel [] c
  return (untilZero (known ++ bs), c)

/-- A part of a tag. Something has to be there. -/
def part? (verbatim : Bool) (fuel : Nat) (c : Cursor) : Option (Tag × Cursor) := do
  if c.peek ≠ '%' ∧ ¬ isChar verbatim c.peek then none
  partAfter? [] verbatim fuel c

/-- A handle: an exclamation mark, which may be followed by a name and another one. -/
def handle? (c : Cursor) : Option (String × Cursor) :=
  if c.peek ≠ '!' then none
  else
    let (name, c) := c.skip.takeWhile isNameChar
    let (name, c) := if c.peek = '!' then (name ++ ['!'], c.skip) else (name, c)
    some (String.ofList ('!' :: name), c)

/-- The handle is one of two marks, between which a name may stand. -/
def isNamedHandle (handle : String) : Bool := handle.length > 1 && handle.endsWith "!"

/-! ## Kinds of tags -/

/-- The tag of a standard type. -/
def standard (type : String) : Tag := Utf8.encode ("tag:yaml.org,2002:" ++ type)

/-- The tag that gives a value no type. -/
def nonSpecific : Tag := Utf8.encode "!"

/-- The name in a tag of the document's own, which begins with an exclamation mark. It has to be a
text. Where nothing follows the mark, that is the name. -/
def own? : Tag → Option String
  | [0x21] => some "!"
  | 0x21 :: name => Utf8.decode? name
  | _ => none

/-- A part of a tag holds no zero byte. -/
theorem zero_notMem_untilZero (bs : Bytes) : 0 ∉ untilZero bs := fun h => by
  have hall : (untilZero bs).all (· ≠ 0) = true := List.all_takeWhile
  exact of_decide_eq_true (List.all_eq_true.mp hall 0 h) rfl

end Tag

end GameShip.Yaml
