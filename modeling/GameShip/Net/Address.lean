import GameShip.Text.Digit

/-!
# Network addresses

* `IpAddress`, `SocketAddress`: an address of a host, and of a port on it.
* `IpAddress.ofString?`, `SocketAddress.ofString?`: the address that a text stands for.
* `IpAddress.display`, `SocketAddress.display`: the one text by which an address is shown.
-/

namespace GameShip

/-- An address of a host. -/
inductive IpAddress where
  | v4 (a b c d : UInt8)
  | v6 (groups : Vector UInt16 8)
  deriving DecidableEq, Repr

/-- A port on a host. -/
structure SocketAddress where
  host : IpAddress
  port : UInt16
  /-- Tells links of one host apart; only an address of version six has one. -/
  scope : UInt32 := 0
  deriving DecidableEq, Repr

namespace IpAddress

/-- A part of an address at the start of a text, and the text after it. -/
abbrev Parse (α : Type) := List Char → Option (α × List Char)

/-- A number below `bound`. All digits that stand at the start of the text belong to it; where
`strict` is set, it has no zero in front of other digits. -/
def number (base maxDigits bound : Nat) (strict : Bool) : Parse Nat := fun text => do
  let digits := text.takeWhile fun c => (digit? base c).isSome
  let value ← numberBelow? bound base digits
  if digits.length > maxDigits ∨ (strict ∧ digits.length > 1 ∧ digits.head? = some '0') then none
  else some (value, text.drop digits.length)

/-- One character. -/
def char (c : Char) : Parse Unit
  | [] => none
  | d :: rest => if c = d then some ((), rest) else none

/-- Four numbers with dots between them. -/
def dotted : Parse (UInt8 × UInt8 × UInt8 × UInt8) := fun text => do
  let part := number 10 3 256 true
  let (a, text) ← part text
  let ((), text) ← char '.' text
  let (b, text) ← part text
  let ((), text) ← char '.' text
  let (c, text) ← part text
  let ((), text) ← char '.' text
  let (d, text) ← part text
  return ((UInt8.ofNat a, UInt8.ofNat b, UInt8.ofNat c, UInt8.ofNat d), text)

/-- Goes past the colon in front of every group but the first. -/
def separator (first : Bool) (text : List Char) : Option (List Char) :=
  if first then some text else (char ':' text).map (·.2)

/-- As many groups with colons between them as there are, up to `limit`. A dotted address may
stand for two groups and is the last then. Says whether there was one. -/
def groups (first : Bool) : (limit : Nat) → List Char → List UInt16 × Bool × List Char
  | 0, text => ([], false, text)
  | limit + 1, text =>
    let tail := do
      if limit = 0 then none
      dotted (← separator first text)
    match tail with
    | some ((a, b, c, d), text) =>
      let pair (high low : UInt8) := UInt16.ofNat (256 * high.toNat + low.toNat)
      ([pair a b, pair c d], true, text)
    | none =>
      match (separator first text).bind (number 16 4 0x10000 false) with
      | some (group, text) =>
        let (more, dots, text) := groups false limit text
        (UInt16.ofNat group :: more, dots, text)
      | none => ([], false, text)

/-- The address that eight groups form. -/
def ofGroups? (gs : List UInt16) : Option IpAddress :=
  if h : gs.length = 8 then some (.v6 ⟨gs.toArray, by simp [h]⟩) else none

/-- Eight groups, or fewer with two colons in the place of one or more groups of zero. -/
def colons : Parse IpAddress := fun text => do
  let (front, dots, text) := groups true 8 text
  if front.length = 8 then return (← ofGroups? front, text)
  if dots then none
  let ((), text) ← char ':' text
  let ((), text) ← char ':' text
  let (back, _, text) := groups true (7 - front.length) text
  let zeros := List.replicate (8 - front.length - back.length) 0
  return (← ofGroups? (front ++ zeros ++ back), text)

/-- The value of a text that consists of one part and nothing else. -/
def whole {α : Type} (parse : Parse α) (text : String) : Option α :=
  match parse text.toList with
  | some (a, []) => some a
  | _ => none

/-- Four numbers with dots between them, as an address. -/
def quad : Parse IpAddress := fun text => do
  let ((a, b, c, d), text) ← dotted text
  return (.v4 a b c d, text)

/-- The address that a text stands for. -/
def ofString? (text : String) : Option IpAddress := whole quad text <|> whole colons text

/-- Numbers to base ten with dots between them. -/
def displayDotted (parts : List Nat) : String := ".".intercalate (parts.map toString)

/-- The digits of a group to base sixteen. -/
def displayGroup (g : UInt16) : String := String.ofList (Nat.toDigits 16 g.toNat)

/-- Groups with colons between them. -/
def displayGroups (gs : List UInt16) : String := ":".intercalate (gs.map displayGroup)

/-- The start and the length of the first among the longest runs of zeros. -/
def zeroRun (gs : List UInt16) : Nat × Nat :=
  let runs := (List.range gs.length).map fun i => (i, ((gs.drop i).takeWhile (· == 0)).length)
  runs.foldl (fun best run => if run.2 > best.2 then run else best) (0, 0)

/-- The text of an address. Of version six, the longest run of at least two groups of zero is
left out, and an embedded address of version four is dotted. -/
def display : IpAddress → String
  | .v4 a b c d => displayDotted ([a, b, c, d].map (·.toNat))
  | .v6 groups =>
    match groups.toList with
    | [0, 0, 0, 0, 0, 0xFFFF, high, low] =>
      "::ffff:" ++ displayDotted
        [high.toNat / 256, high.toNat % 256, low.toNat / 256, low.toNat % 256]
    | gs =>
      let (start, length) := zeroRun gs
      if length > 1 then
        displayGroups (gs.take start) ++ "::" ++ displayGroups (gs.drop (start + length))
      else displayGroups gs

end IpAddress

namespace SocketAddress

/-- A port behind a colon. -/
def portPart : IpAddress.Parse UInt16 := fun text => do
  let ((), text) ← IpAddress.char ':' text
  let (port, text) ← IpAddress.number 10 text.length 0x10000 false text
  return (UInt16.ofNat port, text)

/-- A dotted address and a port. -/
def dotted : IpAddress.Parse SocketAddress := fun text => do
  let (host, text) ← IpAddress.quad text
  let (port, text) ← portPart text
  return ({ host, port }, text)

/-- A scope behind a percent sign, or none. -/
def scopePart (text : List Char) : UInt32 × List Char :=
  let parsed := do
    let ((), text) ← IpAddress.char '%' text
    IpAddress.number 10 text.length 0x100000000 false text
  match parsed with
  | some (scope, text) => (UInt32.ofNat scope, text)
  | none => (0, text)

/-- An address of version six between brackets and a port. -/
def bracketed : IpAddress.Parse SocketAddress := fun text => do
  let ((), text) ← IpAddress.char '[' text
  let (host, text) ← IpAddress.colons text
  let (scope, text) := scopePart text
  let ((), text) ← IpAddress.char ']' text
  let (port, text) ← portPart text
  return ({ host, port, scope }, text)

/-- The address that a text stands for. -/
def ofString? (text : String) : Option SocketAddress :=
  IpAddress.whole dotted text <|> IpAddress.whole bracketed text

/-- The text of an address with its port. -/
def display (a : SocketAddress) : String :=
  let port := ":" ++ toString a.port.toNat
  match a.host with
  | .v4 .. => a.host.display ++ port
  | .v6 _ =>
    let scope := if a.scope = 0 then "" else "%" ++ toString a.scope.toNat
    "[" ++ a.host.display ++ scope ++ "]" ++ port

end SocketAddress

end GameShip
