import GameShip.Text.Digit
import GameShip.Text.Utf8
import GameShip.Yaml.Cursor

/-!
# Scalars in YAML texts

* `Yaml.Scalar`: the value of a scalar, with its style.
* `Yaml.Scalar.quoted`, `Yaml.Scalar.plain`, `Yaml.Scalar.block`: reads a scalar of each kind.

The fuel of these is to be more than the number of characters that are left. Every step takes at
least one of them, so that what is left of the fuel is enough for the steps within a step.
-/

namespace GameShip.Yaml

/-- How a scalar is written. -/
inductive Style where
  | plain
  | singleQuoted
  | doubleQuoted
  | literal
  | folded
  deriving DecidableEq, Inhabited, Repr

namespace Scalar

/-! ## Quoted scalars -/

/-- What an escape stands for, by the letter after the backslash: a character, or as many digits
to base sixteen as are given. -/
def escape? : Char → Option (Char ⊕ Nat)
  | '0' => some (.inl '\x00')
  | 'a' => some (.inl '\x07')
  | 'b' => some (.inl '\x08')
  | 't' | '\t' => some (.inl '\t')
  | 'n' => some (.inl '\n')
  | 'v' => some (.inl '\x0b')
  | 'f' => some (.inl '\x0c')
  | 'r' => some (.inl '\r')
  | 'e' => some (.inl '\x1b')
  | ' ' => some (.inl ' ')
  | '"' => some (.inl '"')
  | '/' => some (.inl '/')
  | '\\' => some (.inl '\\')
  | 'N' => some (.inl '\x85')
  | '_' => some (.inl '\xa0')
  | 'L' => some (.inl '\u2028')
  | 'P' => some (.inl '\u2029')
  | 'x' => some (.inr 2)
  | 'u' => some (.inr 4)
  | 'U' => some (.inr 8)
  | _ => none

/-- The character that an escape stands for, and the place behind it. -/
def escape (c : Cursor) : Option (Char × Cursor) := do
  match ← escape? (c.ahead 1) with
  | .inl char => return (char, c.skip 2)
  | .inr count =>
    let digits := (c.rest.drop 2).take count
    if digits.length ≠ count then none
    let n ← number? 16 digits
    if (0xD800 ≤ n ∧ n ≤ 0xDFFF) ∨ n > 0x10FFFF then none
    return (Char.ofNat n, c.skip (2 + count))

/-- The rest of a quoted scalar and the place behind it. `done` comes before, the last character
first. -/
def quotedRest (single : Bool) : (fuel : Nat) → (done : List Char) → Cursor →
    Option (String × Cursor)
  | 0, _, _ => none
  | fuel + 1, done, c =>
    let quote := if single then '\'' else '"'
    let gap (g : Gap) (c : Cursor) : Option (String × Cursor) := do
      let (g, c) ← Gap.scan 0 fuel g c
      if c.isDocumentMark then none
      quotedRest single fuel (g.folded.reverse ++ done) c
    if c.peek = endChar then none
    else if single ∧ c.peek = quote ∧ c.ahead 1 = quote then
      quotedRest single fuel (quote :: done) (c.skip 2)
    else if c.peek = quote then some (String.ofList done.reverse, c.skip)
    else if c.peek = '\\' ∧ ¬ single then
      if isBreak (c.ahead 1) then
        let c := c.skip.skipLine
        if c.peek = quote then quotedRest single fuel done c
        else gap { first := some [] } c
      else do
        let (char, c) ← escape c
        quotedRest single fuel (char :: done) c
    else if isBlank c.peek ∨ isBreak c.peek then gap {} c
    else quotedRest single fuel (c.peek :: done) c.skip

/-- The quoted scalar that begins here. -/
def quoted (single : Bool) (fuel : Nat) (c : Cursor) : Option (String × Cursor) :=
  quotedRest single fuel [] c.skip

/-! ## Plain scalars -/

/-- The character means something of its own inside brackets and braces. -/
def isFlowIndicator (c : Char) : Bool :=
  c == ',' || c == '[' || c == ']' || c == '{' || c == '}'

/-- A word of a plain scalar, the last character first. Inside brackets a colon must not stand
before an indicator. -/
def word (inFlow : Bool) : (fuel : Nat) → (done : List Char) → Cursor → Option (List Char × Cursor)
  | 0, done, c => some (done, c)
  | fuel + 1, done, c =>
    if isSpace c.peek then some (done, c)
    else if inFlow ∧ c.peek = ':' ∧ (isFlowIndicator (c.ahead 1) ∨ c.ahead 1 = '?') then none
    else if c.peek = ':' ∧ isSpace (c.ahead 1) then some (done, c)
    else if inFlow ∧ isFlowIndicator c.peek then some (done, c)
    else word inFlow fuel (c.peek :: done) c.skip

/-- A plain scalar and the place behind it, and whether the gap before that place has a line
break. -/
abbrev PlainScalar := String × Cursor × Bool

/-- The plain scalar that ends before a gap. `done` is all of it, the last character first. -/
def plainEnd (done : List Char) (g : Gap) (c : Cursor) : PlainScalar :=
  (String.ofList done.reverse, c, g.first.isSome)

/-- The rest of a plain scalar after a gap. `done` comes before, the last character first. Lines
that follow the first have to stand at `indent` or after it. -/
def plainRest (inFlow : Bool) (indent : Int) : (fuel : Nat) → (done : List Char) → Gap → Cursor →
    Option PlainScalar
  | 0, _, _, _ => none
  | fuel + 1, done, g, c =>
    if c.isDocumentMark ∨ c.peek = '#' then some (plainEnd done g c)
    else do
      let (w, c') ← word inFlow fuel [] c
      if w = [] then some (plainEnd done g c)
      else
        let done := w ++ g.folded.reverse ++ done
        let (g, c) ← Gap.scan indent fuel {} c'
        if c.index = c'.index ∨ (¬ inFlow ∧ (c.column : Int) < indent) then
          some (plainEnd done g c)
        else plainRest inFlow indent fuel done g c

/-- The plain scalar that begins here. -/
def plain (inFlow : Bool) (indent : Int) (fuel : Nat) (c : Cursor) : Option PlainScalar :=
  plainRest inFlow indent fuel [] {} c

/-! ## Block scalars -/

/-- What becomes of the line breaks at the end of a block scalar. -/
inductive Chomping where
  | strip
  | clip
  | keep
  deriving DecidableEq, Inhabited, Repr

/-- The chomping and the indentation that a block scalar is marked with. -/
def blockHeader (c : Cursor) : Option (Chomping × Nat × Cursor) := do
  let chomping (c : Cursor) : Option (Chomping × Cursor) :=
    if c.peek = '+' then some (.keep, c.skip)
    else if c.peek = '-' then some (.strip, c.skip)
    else none
  let increment (c : Cursor) : Option (Nat × Cursor) :=
    if c.peek.isDigit then
      if c.peek = '0' then none else some (c.peek.toNat - '0'.toNat, c.skip)
    else some (0, c)
  match chomping c with
  | some (kind, c) =>
    let (n, c) ← increment c
    return (kind, n, c)
  | none =>
    let (n, c) ← increment c
    match (if n = 0 then none else chomping c) with
    | some (kind, c) => return (kind, n, c)
    | none => return (.clip, n, c)

/-- The empty lines that begin here, the last line break first, and the place of the first
character of the next line. Only spaces may stand before `indent`; where that is zero, all spaces
count and the largest column of them is given. -/
def emptyLines (indent : Int) : (fuel : Nat) → (breaks : List Char) → (widest : Nat) → Cursor →
    Option (List Char × Nat × Cursor)
  | 0, _, _, _ => none
  | fuel + 1, breaks, widest, c =>
    let inIndent (c : Cursor) : Bool := indent == 0 || (c.column : Int) < indent
    let spaces := (c.rest.takeWhile (· == ' ')).length
    let c := c.skip (if indent = 0 then spaces else min spaces (indent - c.column).toNat)
    let widest := max widest c.column
    if inIndent c ∧ c.peek = '\t' then none
    else if isBreak c.peek then emptyLines indent fuel (c.lineBreak :: breaks) widest c.skipLine
    else some (breaks, widest, c)

/-- The lines of a block scalar. `lead` is the line break before this line, `breaks` are those of
the empty lines after that, and `afterBlank` says that the line before began with a blank. -/
def blockLines (literal : Bool) (chomping : Chomping) (indent : Int) : (fuel : Nat) →
    (done lead breaks : List Char) → (afterBlank : Bool) → Cursor → Option (String × Cursor)
  | 0, _, _, _, _, _ => none
  | fuel + 1, done, lead, breaks, afterBlank, c =>
    if (c.column : Int) = indent ∧ c.peek ≠ endChar then do
      let blank := isBlank c.peek
      let folds := ¬ literal ∧ lead = ['\n'] ∧ ¬ afterBlank ∧ ¬ blank
      let lead := if folds then (if breaks = [] then [' '] else []) else lead
      let (text, c) := c.takeWhile fun char => ¬ isBreakOrEnd char
      let done := text.reverse ++ breaks ++ lead ++ done
      let (lead, c) := if isBreak c.peek then ([c.lineBreak], c.skipLine) else ([], c)
      let (breaks, _, c) ← emptyLines indent fuel [] 0 c
      blockLines literal chomping indent fuel done lead breaks blank c
    else
      let tail := match chomping with
        | .strip => []
        | .clip => lead
        | .keep => breaks ++ lead
      some (String.ofList (tail ++ done).reverse, c)

/-- The block scalar whose indicator stands here, in a block at `parent`. -/
def block (literal : Bool) (parent : Int) (fuel : Nat) (c : Cursor) :
    Option (String × Cursor) := do
  let (chomping, increment, c) ← blockHeader c.skip
  let c := c.skipWhile isBlank
  let c := if c.peek = '#' then c.skipWhile fun char => ¬ isBreakOrEnd char else c
  if ¬ isBreakOrEnd c.peek then none
  let c := if isBreak c.peek then c.skipLine else c
  let given : Int :=
    if increment = 0 then 0 else if parent ≥ 0 then parent + increment else increment
  let (breaks, widest, c) ← emptyLines given fuel [] 0 c
  let indent := if given = 0 then max (max (widest : Int) (parent + 1)) 1 else given
  blockLines literal chomping indent fuel [] [] breaks false c

end Scalar

end GameShip.Yaml
