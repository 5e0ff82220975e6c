import GameShip.Yaml.Scalar
import GameShip.Yaml.Tag

/-!
# Tokens of YAML texts

* `Yaml.Token`: a sign of the text, or a bound of a block that follows from indentation.
* `Yaml.Token.scan?`: the tokens of a text, which end with `Yaml.Token.streamEnd`.

A key without a mark of its own is known only by the colon behind it. So the place of everything
that may be such a key is remembered, and the tokens for the key, and for the block that it may
begin, are put in there when the colon comes. Such a key stands on one line and is at most 1024
bytes long.
-/

namespace GameShip.Yaml

/-- A sign of a text, or a bound of a block. -/
inductive Token where
  | streamEnd
  | versionDirective (major minor : Nat)
  | tagDirective (handle : String) (replacement : Tag)
  | documentStart
  | documentEnd
  | blockSequenceStart
  | blockMappingStart
  | blockEnd
  | flowSequenceStart
  | flowSequenceEnd
  | flowMappingStart
  | flowMappingEnd
  | blockEntry
  | flowEntry
  | key
  | value
  | alias (name : String)
  | anchor (name : String)
  | tag (handle : String) (suffix : Tag)
  | scalar (style : Style) (text : String)
  deriving DecidableEq, Inhabited, Repr

/-- A key without a mark of its own has no more bytes than this. -/
def maxKeySize : Nat := 1024

/-- A place where a key may have begun. -/
structure PossibleKey where
  /-- How many tokens come before it. -/
  token : Nat
  /-- How many brackets and braces are open around it. -/
  depth : Nat
  index : Nat
  line : Nat
  column : Nat
  /-- Nothing but a key can stand here. -/
  required : Bool
  deriving DecidableEq, Inhabited, Repr

/-- How far a text has been cut into tokens. -/
structure Scan where
  cursor : Cursor
  /-- The tokens so far, the last one first. -/
  tokens : List Token := []
  /-- How many tokens there are. -/
  count : Nat := 0
  /-- The column of the innermost block; outside all blocks it is less than zero. -/
  indent : Int := -1
  /-- The columns of the blocks around that one, the innermost first. -/
  outer : List Int := []
  /-- How many brackets and braces are open. -/
  flowDepth : Nat := 0
  /-- A key without a mark of its own may begin here. -/
  keyAllowed : Bool := true
  /-- The places of possible keys, the innermost first. There is at most one inside each open
  bracket or brace, and one outside them. -/
  keys : List PossibleKey := []
  deriving Inhabited

namespace Scan

def inFlow (s : Scan) : Bool := s.flowDepth > 0

/-- Adds a token. -/
def emit (s : Scan) (t : Token) : Scan :=
  { s with tokens := t :: s.tokens, count := s.count + 1 }

/-- Adds a token behind so many others. -/
def insert (s : Scan) (place : Nat) (t : Token) : Scan :=
  { s with tokens := s.tokens.insertIdx (s.count - place) t, count := s.count + 1 }

/-- Adds a token for a sign that is so many characters wide. -/
def emitSign (s : Scan) (t : Token) (width : Nat := 1) : Scan :=
  { s.emit t with cursor := s.cursor.skip width }

/-! ## Keys and blocks -/

/-- Takes out the possible key at this depth, if there is one. -/
def takeKey? (s : Scan) : Option (PossibleKey × Scan) :=
  match s.keys with
  | key :: keys => if key.depth = s.flowDepth then some (key, { s with keys }) else none
  | [] => none

/-- Gives up the possible key at this depth. One that is required cannot be given up. -/
def forgetKey (s : Scan) : Option Scan :=
  match s.takeKey? with
  | some (key, s) => if key.required then none else some s
  | none => some s

/-- Gives up every possible key that began on another line or too far back. -/
def forgetStaleKeys (s : Scan) : Option Scan :=
  let isStale (key : PossibleKey) : Bool :=
    key.line < s.cursor.line || key.index + maxKeySize < s.cursor.index
  let (stale, keys) := s.keys.partition isStale
  if stale.any (·.required) then none else some { s with keys }

/-- Remembers this place as that of a possible key, where a key may begin. -/
def markKey (s : Scan) : Option Scan :=
  if s.keyAllowed then do
    let s ← s.forgetKey
    let c := s.cursor
    let key : PossibleKey :=
      { token := s.count
        depth := s.flowDepth
        index := c.index
        line := c.line
        column := c.column
        required := !s.inFlow && s.indent == c.column }
    return { s with keys := key :: s.keys }
  else some s

/-- Begins a block at a column, if that lies to the right of the innermost block. Its first token
is put in at the given place. -/
def beginBlock (s : Scan) (column : Nat) (place : Nat) (t : Token) : Scan :=
  if s.inFlow ∨ s.indent ≥ column then s
  else { s.insert place t with indent := column, outer := s.indent :: s.outer }

/-- How many of the listed blocks, the innermost first, lie to the right of a column, and the
blocks that remain. -/
def blocksBeyond (column : Int) : (indent : Int) → (outer : List Int) → Nat × Int × List Int
  | indent, [] => (0, indent, [])
  | indent, next :: outer =>
    if indent > column then
      let (ended, indent, outer) := blocksBeyond column next outer
      (ended + 1, indent, outer)
    else (0, indent, next :: outer)

/-- Ends every block that lies to the right of a column. -/
def endBlocks (s : Scan) (column : Int) : Scan :=
  if s.inFlow then s
  else
    let (ended, indent, outer) := blocksBeyond column s.indent s.outer
    { s with
      indent
      outer
      tokens := List.replicate ended .blockEnd ++ s.tokens
      count := s.count + ended }

/-! ## Blanks -/

/-- Marks the order of bytes. At the start of a line it counts as a blank. -/
def byteOrderMark : Char := '\uFEFF'

/-- Goes past blanks, comments and line breaks. At the start of a line of a block a tab is not a
blank. The fuel bounds the number of lines. -/
def skipBlanks : (fuel : Nat) → Scan → Scan
  | 0, s => s
  | fuel + 1, s =>
    let c := s.cursor
    let c := if c.column = 0 ∧ c.peek = byteOrderMark then c.skip else c
    let c := c.skipWhile fun char => char == ' ' || ((s.inFlow || !s.keyAllowed) && char == '\t')
    let c := if c.peek = '#' then c.skipWhile fun char => ¬ isBreakOrEnd char else c
    if isBreak c.peek then
      skipBlanks fuel { s with cursor := c.skipLine, keyAllowed := s.keyAllowed || !s.inFlow }
    else { s with cursor := c }

/-! ## Anchors and tags -/

/-- The name of an anchor behind its sign. -/
def anchorName (c : Cursor) : Option (String × Cursor) :=
  let (name, c) := c.skip.takeWhile isNameChar
  let ends := isSpace c.peek || "?:,]\x7d%@`".toList.contains c.peek
  if name = [] ∨ ¬ ends then none else some (String.ofList name, c)

/-- The tag that begins here. -/
def tagToken (inFlow : Bool) (fuel : Nat) (c : Cursor) : Option (Token × Cursor) := do
  let (t, c) : Token × Cursor ←
    if c.ahead 1 = '<' then do
      let (suffix, c) ← Tag.part? true fuel (c.skip 2)
      if c.peek ≠ '>' then none
      pure (.tag "" suffix, c.skip)
    else do
      let (handle, c) ← Tag.handle? c
      if Tag.isNamedHandle handle then do
        let (suffix, c) ← Tag.part? false fuel c
        pure (.tag handle suffix, c)
      else do
        let known := Utf8.encode (handle.drop 1).toString
        let (suffix, c) ← Tag.partAfter? known false fuel c
        pure (if suffix = [] then .tag "" Tag.nonSpecific else .tag "!" suffix, c)
  if isSpace c.peek ∨ (inFlow ∧ c.peek = ',') then return (t, c) else none

/-! ## Directives -/

/-- A number of at most nine digits. -/
def versionNumber (c : Cursor) : Option (Nat × Cursor) :=
  let (digits, c) := c.takeWhile (·.isDigit)
  if digits = [] ∨ digits.length > 9 then none
  else some (digits.foldl (fun n d => 10 * n + (d.toNat - '0'.toNat)) 0, c)

/-- The directive that begins here, with all of its line. -/
def directive (fuel : Nat) (c : Cursor) : Option (Token × Cursor) := do
  let (name, c) := c.skip.takeWhile isNameChar
  if ¬ isSpace c.peek then none
  let c := c.skipWhile isBlank
  let (t, c) : Token × Cursor ←
    match String.ofList name with
    | "YAML" => do
      let (major, c) ← versionNumber c
      if c.peek ≠ '.' then none
      let (minor, c) ← versionNumber c.skip
      pure (.versionDirective major minor, c)
    | "TAG" => do
      let (handle, c) ← Tag.handle? c
      if handle ≠ "!" ∧ ¬ Tag.isNamedHandle handle then none
      if ¬ isBlank c.peek then none
      let (replacement, c) ← Tag.part? true fuel (c.skipWhile isBlank)
      if ¬ isSpace c.peek then none
      pure (.tagDirective handle replacement, c)
    | _ => none
  let c := c.skipWhile isBlank
  let c := if c.peek = '#' then c.skipWhile fun char => ¬ isBreakOrEnd char else c
  if ¬ isBreakOrEnd c.peek then none
  return (t, if isBreak c.peek then c.skipLine else c)

/-! ## Tokens -/

/-- Ends all blocks, as the bounds of a document do. -/
def leaveBlocks (s : Scan) : Option Scan := do
  return { ← (s.endBlocks (-1)).forgetKey with keyAllowed := false }

/-- Begins a block for a sign, which may stand only where a key could, or does nothing inside
brackets. -/
def beginBlockHere (s : Scan) (t : Token) : Option Scan :=
  if s.inFlow then some s
  else if s.keyAllowed then some (s.beginBlock s.cursor.column s.count t)
  else none

/-- A colon. What stands before it may turn out to be a key. -/
def colon (s : Scan) : Option Scan := do
  match s.takeKey? with
  | some (key, s) =>
    let s := (s.insert key.token .key).beginBlock key.column key.token .blockMappingStart
    return { s with keyAllowed := false }.emitSign .value
  | none =>
    let s ← s.beginBlockHere .blockMappingStart
    return { s with keyAllowed := !s.inFlow }.emitSign .value

/-- An opening bracket or brace. -/
def openFlow (s : Scan) (t : Token) : Option Scan := do
  let s ← s.markKey
  return { s with flowDepth := s.flowDepth + 1, keyAllowed := true }.emitSign t

/-- A closing bracket or brace. -/
def closeFlow (s : Scan) (t : Token) : Option Scan := do
  let s ← s.forgetKey
  return { s with flowDepth := s.flowDepth - 1, keyAllowed := false }.emitSign t

/-- Adds a token that may be a key, and goes on behind it. -/
def emitNode (s : Scan) (t : Token) (c : Cursor) : Scan :=
  { s with keyAllowed := false, cursor := c }.emit t

/-- The character cannot begin a plain scalar. -/
def isIndicator (c : Char) : Bool := "-?:,[]\x7b\x7d#&*!|>'\"%@`".toList.contains c

/-- A plain scalar can begin here. -/
def startsPlain (s : Scan) : Bool :=
  let c := s.cursor
  !(isSpace c.peek || isIndicator c.peek) || (c.peek == '-' && !isBlank (c.ahead 1)) ||
    (!s.inFlow && (c.peek == '?' || c.peek == ':') && !isSpace (c.ahead 1))

/-- The next token, which may bring others with it. The fuel is to be more than the number of
characters that are left. -/
def next (fuel : Nat) (s : Scan) : Option Scan := do
  let s := skipBlanks fuel s
  let s ← s.forgetStaleKeys
  let s := s.endBlocks s.cursor.column
  let c := s.cursor
  let char := c.peek
  let signEnds := isSpace (c.ahead 1)
  if char = endChar then return (← s.leaveBlocks).emit .streamEnd
  else if c.column = 0 ∧ char = '%' then
    let s ← s.leaveBlocks
    let (t, c) ← directive fuel c
    return { s.emit t with cursor := c }
  else if c.isMark '-' then return (← s.leaveBlocks).emitSign .documentStart 3
  else if c.isMark '.' then return (← s.leaveBlocks).emitSign .documentEnd 3
  else if char = '[' then s.openFlow .flowSequenceStart
  else if char = '{' then s.openFlow .flowMappingStart
  else if char = ']' then s.closeFlow .flowSequenceEnd
  else if char = '}' then s.closeFlow .flowMappingEnd
  else if char = ',' then
    return { ← s.forgetKey with keyAllowed := true }.emitSign .flowEntry
  else if char = '-' ∧ signEnds then
    let s ← s.beginBlockHere .blockSequenceStart
    return { ← s.forgetKey with keyAllowed := true }.emitSign .blockEntry
  else if char = '?' ∧ (s.inFlow ∨ signEnds) then
    let s ← s.beginBlockHere .blockMappingStart
    return { ← s.forgetKey with keyAllowed := !s.inFlow }.emitSign .key
  else if char = ':' ∧ (s.inFlow ∨ signEnds) then s.colon
  else if char = '*' ∨ char = '&' then
    let s ← s.markKey
    let (name, c) ← anchorName c
    return s.emitNode (if char = '*' then .alias name else .anchor name) c
  else if char = '!' then
    let s ← s.markKey
    let (t, c) ← tagToken s.inFlow fuel c
    return s.emitNode t c
  else if (char = '|' ∨ char = '>') ∧ ¬ s.inFlow then
    let s ← s.forgetKey
    let (text, c) ← Scalar.block (char = '|') s.indent fuel c
    return { s with keyAllowed := true, cursor := c }.emit
      (.scalar (if char = '|' then .literal else .folded) text)
  else if char = '\'' ∨ char = '"' then
    let s ← s.markKey
    let (text, c) ← Scalar.quoted (char = '\'') fuel c
    return s.emitNode (.scalar (if char = '\'' then .singleQuoted else .doubleQuoted) text) c
  else if s.startsPlain then
    let s ← s.markKey
    let (text, c, newLine) ← Scalar.plain s.inFlow (s.indent + 1) fuel c
    return { s.emitNode (.scalar .plain text) c with keyAllowed := newLine }
  else none

/-- All tokens from here to the end. The fuel is to be more by two than the number of characters
that are left, since every token but the last takes at least one of them. -/
def toEnd : (fuel : Nat) → Scan → Option (List Token)
  | 0, _ => none
  | fuel + 1, s => do
    let s ← s.next fuel
    if s.tokens.head? = some .streamEnd then return s.tokens.reverse else toEnd fuel s

end Scan

/-- The tokens of a text. -/
def Token.scan? (text : String) : Option (List Token) :=
  let chars := text.toList
  if chars.all isAllowed then Scan.toEnd (chars.length + 2) { cursor := { rest := chars } }
  else none

end GameShip.Yaml
