import GameShip.Bytes

/-!
# Session keys

* `Key`: sixteen bytes.
* `KeyUnwrapper`: how the session key is recovered from what a client sends, with the two ways that
  the ship comes with.
-/

namespace GameShip

/-- A key, or a token of the same size. -/
abbrev Key := Vector UInt8 16

namespace Key

/-- The key made of exactly these bytes. -/
def ofBytes? (bytes : Bytes) : Option Key :=
  if h : bytes.length = 16 then some ⟨bytes.toArray, by simp [h]⟩ else none

/-- The bytes of a key. -/
def toBytes (key : Key) : Bytes := key.toList

end Key

/-- The size of the blob that a client sends to agree on a key. -/
def keyBlobSize : Nat := 0x80

/-- What a client hands over to agree on a key. -/
structure KeyMaterial where
  /-- Sent back to confirm the exchange. -/
  token : Key
  /-- The session key for both directions. -/
  key : Key
  deriving DecidableEq

/-- How the session key is recovered from the blob that a client sends: the token and the key that
the blob stands for, or nothing where it cannot be unwrapped. -/
abbrev KeyUnwrapper := Bytes → Option KeyMaterial

namespace KeyUnwrapper

/-- The blob holds the token and then the key. -/
def plain : KeyUnwrapper := fun blob => do
  let token ← Key.ofBytes? (blob.take 16)
  let key ← Key.ofBytes? ((blob.drop 16).take 16)
  return { token, key }

/-- The blob holds the token; the key was agreed on beforehand. -/
def shared (key : Key) : KeyUnwrapper := fun blob => do
  let token ← Key.ofBytes? (blob.take 16)
  return { token, key }

end KeyUnwrapper

end GameShip
