import GameShip.Cipher.Key
import GameShip.Disk

/-!
# Key files

* `KeyUnwrapper.ofFile`: the unwrapper for a key that stands in a file.
-/

namespace GameShip

/-- The key that a file holds, which is its whole content. -/
def Key.ofFile (disk : Disk) (path : String) : Except FileError Key := do
  let bytes ← disk.read path
  match Key.ofBytes? bytes with
  | some key => return key
  | none => throw (.keySize bytes.length)

/-- Uses the key that stands in a file. -/
def KeyUnwrapper.ofFile (disk : Disk) (path : String) : Except FileError KeyUnwrapper :=
  return KeyUnwrapper.shared (← Key.ofFile disk path)

end GameShip
