import GameShip.Yaml.Token
import Std.Data.ExtTreeMap

/-!
# YAML documents

* `Yaml.Node`: a value in a document. Aliases are kept as the numbers of anchors.
* `Yaml.Document`: the value of a document, with the values that anchors stand for.
* `Yaml.Document.ofText?`: the one document of a text.
-/

namespace GameShip.Yaml

/-- A value in a document. -/
inductive Node where
  | scalar (style : Style) (tag : Tag) (text : String)
  /-- The value that an anchor stands for. -/
  | alias (anchor : Nat)
  | sequence (items : List Node)
  | mapping (entries : List (Node × Node))
  deriving Inhabited

namespace Node

/-- What stands where there is nothing. -/
def empty : Node := .scalar .plain [] ""

end Node

/-- A document that is being put together from tokens. -/
structure Assembly where
  tokens : List Token
  /-- What the handles of tags stand for. -/
  handles : List (String × Tag) := []
  /-- The numbers of the anchors, by their names. -/
  anchors : Std.ExtTreeMap String Nat := {}
  /-- How many values with an anchor have begun. -/
  begun : Nat := 0
  /-- For the number of an anchor, how many such values began before the last one of it. -/
  places : Std.ExtTreeMap Nat Nat := {}
  /-- The values with an anchor, by how many began before them. -/
  anchored : Std.ExtTreeMap Nat Node := {}

instance : Inhabited Assembly := ⟨{ tokens := [] }⟩

/-- A step that takes tokens out of an assembly, or fails. -/
abbrev AssembleM := StateT Assembly Option

namespace Assemble

/-- The next token. -/
def peek : AssembleM Token := return (← get).tokens.headD .streamEnd

/-- Takes the next token out. -/
def advance : AssembleM Unit := modify fun a => { a with tokens := a.tokens.drop 1 }

/-- Takes the next token out if it is this one, and says so. -/
def takes (t : Token) : AssembleM Bool := do
  if (← peek) = t then
    advance
    return true
  return false

/-- Takes the next token out, which has to be this one. -/
def expect (t : Token) : AssembleM Unit := do
  if ¬ (← takes t) then failure

/-- What handles stand for where no directive says otherwise. -/
def standardHandles : List (String × Tag) := [("!", Tag.nonSpecific), ("!!", Tag.standard "")]

/-- The tag that a token stands for. -/
def resolveTag (handle : String) (suffix : Tag) : AssembleM Tag := do
  if handle.isEmpty then return suffix
  match ((← get).handles ++ standardHandles).lookup handle with
  | some replacement => return replacement ++ suffix
  | none => failure

/-- Takes out an anchor, if there is one. -/
def anchor? : AssembleM (Option String) := do
  match ← peek with
  | .anchor name => advance; return some name
  | _ => return none

/-- Takes out a tag, if there is one. -/
def tag? : AssembleM (Option Tag) := do
  match ← peek with
  | .tag handle suffix => advance; some <$> resolveTag handle suffix
  | _ => return none

/-- Takes out the anchor and the tag of a value, which come in either order. -/
def properties : AssembleM (Option String × Option Tag) := do
  match ← anchor? with
  | some name => return (some name, ← tag?)
  | none =>
    let tag ← tag?
    return (← anchor?, tag)

/-- Begins a value with an anchor, and gives its place. The number of an anchor is that of the names
known before. -/
def beginAnchored (name : String) : AssembleM Nat := do
  let a ← get
  let number := a.anchors.size
  set { a with
    anchors := a.anchors.insert name number
    begun := a.begun + 1
    places := a.places.insert number a.begun }
  return a.begun

/-- Notes the value that began at a place. -/
def define (place : Option Nat) (node : Node) : AssembleM Node := do
  match place with
  | some n => modify fun a => { a with anchored := a.anchored.insert n node }
  | none => pure ()
  return node

/-- An empty value if one of these tokens is next, and otherwise what `node` gives. -/
def emptyBefore (stops : List Token) (node : AssembleM Node) : AssembleM Node := do
  if stops.contains (← peek) then return .empty else node

mutual

/-- A value. Only a value in a block can be a block itself; a value of a mapping in a block can be
a list of entries that are not indented. The fuel bounds the number of steps. -/
def node (inBlock bare : Bool) : (fuel : Nat) → AssembleM Node
  | 0 => failure
  | fuel + 1 => do
    match ← peek with
    | .alias name =>
      advance
      match (← get).anchors[name]? with
      | some n => return .alias n
      | none => failure
    | _ =>
      let (name, tag) ← properties
      let place ← name.mapM beginAnchored
      define place (← content inBlock bare (name.isSome || tag.isSome) (tag.getD []) fuel)

/-- A value behind its anchor and tag. -/
def content (inBlock bare marked : Bool) (tag : Tag) : (fuel : Nat) → AssembleM Node
  | 0 => failure
  | fuel + 1 => do
    match ← peek, inBlock, bare with
    | .blockEntry, _, true => bareEntries fuel []
    | .scalar style text, _, _ => advance; return .scalar style tag text
    | .flowSequenceStart, _, _ => advance; flowItems fuel true []
    | .flowMappingStart, _, _ => advance; flowMembers fuel true []
    | .blockSequenceStart, true, _ => advance; blockItems fuel []
    | .blockMappingStart, true, _ => advance; blockMembers fuel []
    | _, _, _ => if marked then return .scalar .plain tag "" else failure

/-- The entries of a block sequence. -/
def blockItems : (fuel : Nat) → (done : List Node) → AssembleM Node
  | 0, _ => failure
  | fuel + 1, done => do
    if ← takes .blockEntry then
      let item ← emptyBefore [.blockEntry, .blockEnd] (node true false fuel)
      blockItems fuel (item :: done)
    else
      expect .blockEnd
      return .sequence done.reverse

/-- The entries of a block sequence that is not indented and ends with the entries. -/
def bareEntries : (fuel : Nat) → (done : List Node) → AssembleM Node
  | 0, _ => failure
  | fuel + 1, done => do
    if ← takes .blockEntry then
      let item ← emptyBefore [.blockEntry, .key, .value, .blockEnd] (node true false fuel)
      bareEntries fuel (item :: done)
    else return .sequence done.reverse

/-- The entries of a block mapping. -/
def blockMembers : (fuel : Nat) → (done : List (Node × Node)) → AssembleM Node
  | 0, _ => failure
  | fuel + 1, done => do
    let stops : List Token := [.key, .value, .blockEnd]
    if ← takes .blockEnd then return .mapping done.reverse
    expect .key
    let key ← emptyBefore stops (node true true fuel)
    let item ←
      if ← takes .value then emptyBefore stops (node true true fuel) else pure .empty
    blockMembers fuel ((key, item) :: done)

/-- The entries of a sequence in brackets. Each but the first comes after a comma. -/
def flowItems : (fuel : Nat) → (first : Bool) → (done : List Node) → AssembleM Node
  | 0, _, _ => failure
  | fuel + 1, first, done => do
    if ← takes .flowSequenceEnd then return .sequence done.reverse
    if ¬ first then expect .flowEntry
    if ← takes .flowSequenceEnd then return .sequence done.reverse
    if ← takes .key then flowItems fuel false ((← flowPair fuel) :: done)
    else flowItems fuel false ((← node false false fuel) :: done)

/-- A mapping of one entry in brackets, behind the sign of its key. A sign that ends an empty key
belongs to it. -/
def flowPair : (fuel : Nat) → AssembleM Node
  | 0 => failure
  | fuel + 1 => do
    let key ←
      if [.value, .flowEntry, .flowSequenceEnd].contains (← peek) then
        advance
        pure .empty
      else node false false fuel
    let item ←
      if ← takes .value then
        emptyBefore [.flowEntry, .flowSequenceEnd] (node false false fuel)
      else pure .empty
    return .mapping [(key, item)]

/-- The entries of a mapping in braces. Each but the first comes after a comma. -/
def flowMembers : (fuel : Nat) → (first : Bool) → (done : List (Node × Node)) → AssembleM Node
  | 0, _, _ => failure
  | fuel + 1, first, done => do
    if ← takes .flowMappingEnd then return .mapping done.reverse
    if ¬ first then expect .flowEntry
    if ← takes .flowMappingEnd then return .mapping done.reverse
    if ← takes .key then
      let key ← emptyBefore [.value, .flowEntry, .flowMappingEnd] (node false false fuel)
      let item ←
        if ← takes .value then
          emptyBefore [.flowEntry, .flowMappingEnd] (node false false fuel)
        else pure .empty
      flowMembers fuel false ((key, item) :: done)
    else
      let key ← node false false fuel
      flowMembers fuel false ((key, .empty) :: done)

end

/-- Takes out the directives of a document. Each may come once for the version and for each
handle. Says whether there were any. -/
def directives : (fuel : Nat) → (version : Bool) → AssembleM Bool
  | 0, _ => failure
  | fuel + 1, version => do
    match ← peek with
    | .versionDirective major minor =>
      if version ∨ major ≠ 1 ∨ (minor ≠ 1 ∧ minor ≠ 2) then failure
      advance
      directives fuel true
    | .tagDirective handle replacement =>
      let a ← get
      if (a.handles.lookup handle).isSome then failure
      set { a with handles := (handle, replacement) :: a.handles }
      advance
      directives fuel version
    | _ => return version || !(← get).handles.isEmpty

/-- Takes out every mark that ends a document. -/
def documentEnds : (fuel : Nat) → AssembleM Unit
  | 0 => failure
  | fuel + 1 => do
    if ← takes .documentEnd then documentEnds fuel

/-- The value of a text with one document, or of a text with none. -/
def document (fuel : Nat) : AssembleM (Option Node) := do
  if (← peek) = .streamEnd then return none
  let directed ← directives fuel false
  let marked ← takes .documentStart
  if directed ∧ ¬ marked then failure
  let bounds : List Token := [.documentStart, .documentEnd, .streamEnd]
  let isBound : Bool := match ← peek with
    | .versionDirective .. | .tagDirective .. => true
    | t => bounds.contains t
  let value ← if marked && isBound then pure .empty else node true false fuel
  documentEnds fuel
  expect .streamEnd
  return some value

end Assemble

/-- The value of a document, with the values that anchors stand for. -/
structure Document where
  root : Option Node
  /-- The value that an anchor of a number stands for: of several, the one that begins last. -/
  anchored : Nat → Option Node

namespace Document

/-- The one document of a text. A text without any is an empty document. -/
def ofText? (text : String) : Option Document := do
  let tokens ← Token.scan? text
  let (root, a) ← (Assemble.document (3 * tokens.length + 3)).run { tokens }
  return { root, anchored := fun number => a.places[number]?.bind (a.anchored[·]?) }

/-- The value that a node stands for. -/
def resolve (d : Document) : Node → Node
  | .alias number => (d.anchored number).getD .empty
  | node => node

end Document

end GameShip.Yaml
