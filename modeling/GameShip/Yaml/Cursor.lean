/-!
# Places in a YAML text

* `Yaml.isBlank`, `Yaml.isBreak`: what counts as a blank and as a line break.
* `Yaml.Cursor`: the rest of a text and the line and column where it begins.
* `Yaml.Gap`: the blanks and line breaks between two words of a scalar, and how they fold.
-/

namespace GameShip.Yaml

/-- Stands for the end of a text, in which it cannot occur. -/
def endChar : Char := '\x00'

/-- The character may stand in a text. -/
def isAllowed (c : Char) : Bool :=
  let n := c.toNat
  n == 0x09 || n == 0x0A || n == 0x0D || (0x20 ≤ n && n ≤ 0x7E) || n == 0x85 ||
    (0xA0 ≤ n && n ≤ 0xD7FF) || (0xE000 ≤ n && n ≤ 0xFFFD) || 0x10000 ≤ n

def isBlank (c : Char) : Bool := c == ' ' || c == '\t'

/-- The character ends a line. -/
def isBreak (c : Char) : Bool :=
  c == '\n' || c == '\r' || c == '\x85' || c == '\u2028' || c == '\u2029'

/-- The character ends a line or the text. -/
def isBreakOrEnd (c : Char) : Bool := isBreak c || c == endChar

/-- The character ends a word. -/
def isSpace (c : Char) : Bool := isBlank c || isBreakOrEnd c

/-- The character may stand in the name of an anchor. -/
def isNameChar (c : Char) : Bool := c.isAlphanum || c == '_' || c == '-'

/-- The rest of a text, and where it begins. -/
structure Cursor where
  rest : List Char
  /-- How many bytes come before it. -/
  index : Nat := 0
  line : Nat := 0
  /-- How many characters come before it on its line. -/
  column : Nat := 0
  deriving DecidableEq, Inhabited, Repr

namespace Cursor

/-- The character so many places ahead. -/
def ahead (c : Cursor) (n : Nat) : Char := c.rest.getD n endChar

/-- The next character. -/
def peek (c : Cursor) : Char := c.rest.headD endChar

/-- How many bytes come before the place that is so many characters ahead. -/
def indexAhead (c : Cursor) (count : Nat) : Nat :=
  (c.rest.take count).foldl (fun n char => n + char.utf8Size) c.index

/-- Goes past characters that do not end a line. -/
def skip (c : Cursor) (count : Nat := 1) : Cursor :=
  { c with
    rest := c.rest.drop count
    index := c.indexAhead count
    column := c.column + count }

/-- Goes past a line break, which may be a pair of characters. -/
def skipLine (c : Cursor) : Cursor :=
  let width := if c.peek = '\r' ∧ c.ahead 1 = '\n' then 2 else 1
  { rest := c.rest.drop width, index := c.indexAhead width, line := c.line + 1, column := 0 }

/-- The characters up to the first that does not fit, and the place behind them. The characters
must not end a line. -/
def takeWhile (c : Cursor) (fits : Char → Bool) : List Char × Cursor :=
  let taken := c.rest.takeWhile fits
  (taken, c.skip taken.length)

/-- Goes past the characters up to the first that does not fit. -/
def skipWhile (c : Cursor) (fits : Char → Bool) : Cursor := (c.takeWhile fits).2

/-- Three times this character and then a space mark the bounds of a document. -/
def isMark (c : Cursor) (char : Char) : Bool :=
  c.column == 0 && c.ahead 0 == char && c.ahead 1 == char && c.ahead 2 == char &&
    isSpace (c.ahead 3)

/-- A mark of the bounds of a document. -/
def isDocumentMark (c : Cursor) : Bool := c.isMark '-' || c.isMark '.'

/-- The line break that stands here, in the form in which it is kept. -/
def lineBreak (c : Cursor) : Char :=
  if c.peek = '\u2028' ∨ c.peek = '\u2029' then c.peek else '\n'

end Cursor

/-- The blanks and line breaks between two words. -/
structure Gap where
  /-- The blanks before the first line break, the last one first. -/
  blanks : List Char := []
  /-- The first line break. One that is escaped leaves nothing behind. -/
  first : Option (List Char) := none
  /-- The line breaks after the first, the last one first. -/
  more : List Char := []
  deriving DecidableEq, Inhabited, Repr

namespace Gap

/-- What stands for the gap in the value. One line break folds to a space, and of several all but
the first stay. -/
def folded (g : Gap) : List Char :=
  match g.first with
  | none => g.blanks.reverse
  | some ['\n'] => if g.more = [] then [' '] else g.more.reverse
  | some first => first ++ g.more.reverse

/-- The gap that goes on from here. Blanks at the start of a line mean nothing; in front of
`tabColumn` a tab must not stand among them. The fuel bounds the number of characters. -/
def scan (tabColumn : Int) : (fuel : Nat) → Gap → Cursor → Option (Gap × Cursor)
  | 0, g, c => some (g, c)
  | fuel + 1, g, c =>
    if isBlank c.peek then
      match g.first with
      | none => scan tabColumn fuel { g with blanks := c.peek :: g.blanks } c.skip
      | some _ =>
        if c.peek = '\t' ∧ (c.column : Int) < tabColumn then none
        else scan tabColumn fuel g c.skip
    else if isBreak c.peek then
      match g.first with
      | none => scan tabColumn fuel { g with first := some [c.lineBreak] } c.skipLine
      | some _ => scan tabColumn fuel { g with more := c.lineBreak :: g.more } c.skipLine
    else some (g, c)

end Gap

end GameShip.Yaml
