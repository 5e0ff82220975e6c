import GameShip.Cipher.KeyFile
import GameShip.Net.Address
import GameShip.Yaml.Node

/-!
# The configuration

* `Config`: how a ship is set up. Everything has a default.
* `Config.ofText?`: the configuration that a YAML text describes.
* `Config.load?`: the configuration that stands in the configuration file.
-/

namespace GameShip

/-- How the session key is recovered from what a client sends. -/
inductive KeyMode where
  | plain
  | static
  deriving DecidableEq, Inhabited, Repr

/-- The mode of a name. -/
def KeyMode.ofName? : String → Option KeyMode
  | "plain" => some .plain
  | "static" => some .static
  | _ => none

/-- How a ship is set up. -/
structure Config where
  port : UInt16 := 12205
  listenAddress : String := "0.0.0.0"
  /-- How long to wait for a connection to become ready, in milliseconds. -/
  pollTimeout : UInt64 := 1000
  /-- The directory of resources. -/
  resources : String := "resources"
  keyMode : KeyMode := .plain
  keyFile : String := "key.bin"
  /-- Every frame is to be recorded. -/
  packetDebugging : Bool := false
  deriving DecidableEq, Inhabited, Repr

namespace Config

open Yaml (Document Node Tag)

/-! ## Values -/

/-- The text of a scalar, however it is written. -/
def text? (d : Document) (node : Node) : Option String :=
  match d.resolve node with
  | .scalar _ _ text => some text
  | _ => none

/-- The text of a scalar that may be something other than a text: a plain one, or a literal one
with the tag of its type. -/
def bare? (d : Document) (type : String) (node : Node) : Option String :=
  match d.resolve node with
  | .scalar .plain _ text => some text
  | .scalar .literal tag text => if tag = Tag.standard type then some text else none
  | _ => none

/-- A natural number below a bound. It may have a plus sign, and a mark for base sixteen, eight or
two; to base ten it has no zero in front of other digits. -/
def natural? (bound : Nat) (text : String) : Option Nat :=
  let unsigned := match text.toList with
    | '+' :: cs => cs
    | cs => cs
  match unsigned with
  | '0' :: 'x' :: cs => numberBelow? bound 16 cs
  | '0' :: 'o' :: cs => numberBelow? bound 8 cs
  | '0' :: 'b' :: cs => numberBelow? bound 2 cs
  | '0' :: _ :: _ => none
  | cs => numberBelow? bound 10 cs

/-- A truth value. -/
def truth? : String → Option Bool
  | "true" | "True" | "TRUE" => some true
  | "false" | "False" | "FALSE" => some false
  | _ => none

/-- A natural number below a bound, as a value of a document. -/
def nat? (bound : Nat) (d : Document) (node : Node) : Option Nat :=
  (bare? d "int" node).bind (natural? bound)

/-- A truth value, as a value of a document. -/
def bool? (d : Document) (node : Node) : Option Bool := (bare? d "bool" node).bind truth?

/-- The text stands for nothing. -/
def isNull (text : String) : Bool := ["", "~", "null", "Null", "NULL"].contains text

/-- A mode, as a value of a document: its name, or a tag of its name on nothing. -/
def keyMode? (d : Document) (node : Node) : Option KeyMode :=
  match d.resolve node with
  | .scalar style tag text =>
    match Tag.own? tag with
    | some name => if style = .plain ∧ isNull text then KeyMode.ofName? name else none
    | none => KeyMode.ofName? text
  | _ => none

/-! ## Sections -/

/-- The entries of a section. A section without a value has none. -/
def entries? (d : Document) (part : Option Node) : Option (List (Node × Node)) :=
  match part.map d.resolve with
  | none => some []
  | some (.mapping entries) => some entries
  | some (.scalar .plain _ "") => some []
  | some _ => none

/-- Reads a section. `field` says what an entry changes, where its name means something; no such
name may come twice, and entries of other names are left out. -/
def readSection {α : Type} (d : Document) (names : List String)
    (field : String → Node → α → Option α) (start : α) (node : Option Node) : Option α := do
  let named ← (← entries? d node).mapM fun (key, value) => do return (← text? d key, value)
  let known := named.filter fun (name, _) => names.contains name
  if ¬ (known.map (·.1)).Nodup then none
  known.foldlM (fun a (name, value) => field name value a) start

/-- What an entry of the section `ship` says. -/
def shipField (d : Document) (name : String) (value : Node) (c : Config) : Option Config := do
  match name with
  | "port" => return { c with port := UInt16.ofNat (← nat? UInt16.size d value) }
  | "listen_address" => return { c with listenAddress := ← text? d value }
  | _ => return { c with pollTimeout := UInt64.ofNat (← nat? UInt64.size d value) }

/-- What an entry of the section `key_exchange` says. -/
def keyField (d : Document) (name : String) (value : Node) (c : Config) : Option Config := do
  match name with
  | "mode" => return { c with keyMode := ← keyMode? d value }
  | _ => return { c with keyFile := ← text? d value }

/-- What an entry of the whole says. -/
def field (d : Document) (name : String) (value : Node) (c : Config) : Option Config :=
  match name with
  | "ship" =>
    readSection d ["port", "listen_address", "poll_timeout_ms"] (shipField d) c (some value)
  | "filesystem" =>
    readSection d ["resources"]
      (fun _ value c => do return { c with resources := ← text? d value }) c (some value)
  | "key_exchange" => readSection d ["mode", "key_file"] (keyField d) c (some value)
  | _ => do return { c with packetDebugging := ← bool? d value }

/-- The configuration that a document describes. -/
def ofDocument? (d : Document) : Option Config :=
  readSection d ["ship", "filesystem", "key_exchange", "packet_debugging"] (field d) {} d.root

/-- The configuration that a text describes. -/
def ofText? (text : String) : Option Config := (Document.ofText? text).bind ofDocument?

/-- The configuration file. -/
def fileName : String := "config.yaml"

/-- The configuration that stands in the configuration file. Where that is no file or no text,
there are the defaults. -/
def load? (disk : Disk) : Option Config :=
  match (disk.read fileName).toOption.bind Utf8.decode? with
  | some text => ofText? text
  | none => some {}

/-! ## Use -/

/-- The address on which the ship listens. -/
def address? (c : Config) : Option SocketAddress :=
  (IpAddress.ofString? c.listenAddress).map fun host => { host, port := c.port }

/-- How session keys are recovered. The key file is read where it is needed. -/
def unwrapper (c : Config) (disk : Disk) : Except FileError KeyUnwrapper :=
  match c.keyMode with
  | .plain => .ok KeyUnwrapper.plain
  | .static => KeyUnwrapper.ofFile disk c.keyFile

end Config

end GameShip
