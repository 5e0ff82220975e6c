import GameShip.Json.Number
import GameShip.Text.Digit
import GameShip.Text.Utf16

/-!
# JSON texts

* `Json`: a JSON value. Numbers are kept as they are written, and members of objects in the order
  in which they come, duplicates included.
* `Json.parse?`: the value that a text stands for.
-/

namespace GameShip

/-- A JSON value. A string with half a surrogate pair in it has no text. -/
inductive Json where
  | null
  | bool (b : Bool)
  | number (literal : Json.Literal)
  | string (text : Option String)
  | array (items : List Json)
  | object (members : List (Option String × Json))
  deriving Inhabited

namespace Json

/-! ## Strings -/

/-- A character of a string, or a code unit that is written as an escape. -/
inductive Piece where
  | char (c : Char)
  | unit (u : UInt16)
  deriving DecidableEq, Inhabited, Repr

/-- The character for which a letter stands behind a backslash. -/
def escaped? : Char → Option Char
  | '"' => some '"'
  | '\\' => some '\\'
  | '/' => some '/'
  | 'b' => some '\x08'
  | 'f' => some '\x0c'
  | 'n' => some '\n'
  | 'r' => some '\r'
  | 't' => some '\t'
  | _ => none

/-- The rest of a string after its first quote, and the text after the string. The pieces in
`done` come before, the last one first. -/
def pieces (done : List Piece) : List Char → Option (List Piece × List Char)
  | [] => none
  | '"' :: rest => some (done.reverse, rest)
  | '\\' :: 'u' :: a :: b :: c :: d :: rest => do
    pieces (.unit (UInt16.ofNat (← number? 16 [a, b, c, d])) :: done) rest
  | '\\' :: c :: rest => do pieces (.char (← escaped? c) :: done) rest
  | c :: rest => if c < ' ' ∨ c = '\\' then none else pieces (.char c :: done) rest

/-- The characters that pieces stand for. Both halves of a surrogate pair have to be there. -/
def join : List Piece → Option (List Char)
  | [] => some []
  | .char c :: rest => return c :: (← join rest)
  | .unit u :: rest =>
    if Utf16.isHigh u then
      match rest with
      | .unit v :: rest =>
        if Utf16.isLow v then return Utf16.pair u v :: (← join rest) else none
      | _ => none
    else if Utf16.isLow u then none
    else return Char.ofNat u.toNat :: (← join rest)

/-- A string behind its first quote. -/
def text (input : List Char) : Option (Option String × List Char) := do
  let (ps, rest) ← pieces [] input
  return ((join ps).map String.ofList, rest)

/-! ## Values -/

/-- The text after any blanks. -/
def skipBlanks (input : List Char) : List Char :=
  input.dropWhile fun c => c == ' ' || c == '\n' || c == '\t' || c == '\r'

mutual

/-- The value that a text begins with, and the text after it. The fuel bounds the number of
steps. -/
def value : (fuel : Nat) → List Char → Option (Json × List Char)
  | 0, _ => none
  | fuel + 1, input =>
    match skipBlanks input with
    | 'n' :: 'u' :: 'l' :: 'l' :: rest => some (.null, rest)
    | 't' :: 'r' :: 'u' :: 'e' :: rest => some (.bool true, rest)
    | 'f' :: 'a' :: 'l' :: 's' :: 'e' :: rest => some (.bool false, rest)
    | '"' :: rest => do
      let (s, rest) ← text rest
      return (.string s, rest)
    | '[' :: rest =>
      match skipBlanks rest with
      | ']' :: rest => some (.array [], rest)
      | rest => items fuel [] rest
    | '{' :: rest =>
      match skipBlanks rest with
      | '}' :: rest => some (.object [], rest)
      | rest => members fuel [] rest
    | rest => do
      let (literal, rest) ← Literal.parse rest
      return (.number literal, rest)

/-- One or more items of an array, up to its bracket. -/
def items : (fuel : Nat) → (done : List Json) → List Char → Option (Json × List Char)
  | 0, _, _ => none
  | fuel + 1, done, input => do
    let (item, rest) ← value fuel input
    match skipBlanks rest with
    | ']' :: rest => return (.array (item :: done).reverse, rest)
    | ',' :: rest => items fuel (item :: done) rest
    | _ => none

/-- One or more members of an object, up to its brace. -/
def members : (fuel : Nat) → (done : List (Option String × Json)) → List Char →
    Option (Json × List Char)
  | 0, _, _ => none
  | fuel + 1, done, input =>
    match skipBlanks input with
    | '"' :: rest => do
      let (key, rest) ← text rest
      match skipBlanks rest with
      | ':' :: rest =>
        let (item, rest) ← value fuel rest
        match skipBlanks rest with
        | '}' :: rest => return (.object ((key, item) :: done).reverse, rest)
        | ',' :: rest => members fuel ((key, item) :: done) rest
        | _ => none
      | _ => none
    | _ => none

end

/-- The value that a text stands for. Only blanks may stand around it. -/
def parse? (input : String) : Option Json :=
  let chars := input.toList
  match value (2 * chars.length + 2) chars with
  | some (v, rest) => if skipBlanks rest = [] then some v else none
  | none => none

/-! ## Records -/

/-- The fields of a record, in the order of their names; a field that is missing is `none`. A
record is an object, where other members mean nothing but no field may come twice, or an array of
the first fields in order. -/
def fields? (names : List String) : Json → Option (List (Option Json))
  | .array items =>
    if items.length ≤ names.length then
      some (items.map some ++ List.replicate (names.length - items.length) none)
    else none
  | .object members =>
    names.mapM fun name =>
      if members.any (·.1 = none) then none
      else
        match members.filter (·.1 = some name) with
        | [] => some none
        | [(_, v)] => some (some v)
        | _ => none
  | _ => none

/-- The value of a field that has to be there. -/
def required {α : Type} (decode : Json → Option α) (field : Option Json) : Option α :=
  field.bind decode

/-- The value of a field that has a default. -/
def optional {α : Type} (default : α) (decode : Json → Option α) : Option Json → Option α
  | none => some default
  | some v => decode v

/-- A natural number below a bound. -/
def nat? (bound : Nat) : Json → Option Nat
  | .number l => (Number.ofLiteral? l).bind (·.below? bound)
  | _ => none

/-- A binary32 number. -/
def single? : Json → Option Single
  | .number l => (Number.ofLiteral? l).map (·.toSingle)
  | _ => none

/-- A text. -/
def string? : Json → Option String
  | .string s => s
  | _ => none

/-- A list of values of one kind. -/
def list? {α : Type} (decode : Json → Option α) : Json → Option (List α)
  | .array items => items.mapM decode
  | _ => none

end Json

end GameShip
