import GameShip.Bytes

/-!
# The stream cipher

* `Rc4`: a key stream in progress. There is one for each direction of a connection.
* `Rc4.ofKey`: the start of the key stream of a key.
* `Rc4.apply`: joins a run of bytes with the next bytes of the key stream. The same operation
  encrypts and decrypts.
* `Rc4.through`: the same with a cipher that may not be there yet.
-/

namespace GameShip

/-- A key stream in progress. -/
structure Rc4 where
  i : UInt8
  j : UInt8
  table : Vector UInt8 256
  deriving DecidableEq

namespace Rc4

/-- A byte as an index into the table. -/
def index (k : UInt8) : Fin 256 := k.toFin

/-- Exchanges two entries of a table. -/
def exchange (table : Vector UInt8 256) (a b : UInt8) : Vector UInt8 256 :=
  table.swap a.toNat b.toNat a.toNat_lt b.toNat_lt

/-- The table that holds each byte at its own place. -/
def identity : Vector UInt8 256 := Vector.ofFn fun k => UInt8.ofNat k

/-- Mixes the key bytes into the table, one table entry after the other. An empty key leaves the
table as it is. -/
def schedule (key : Bytes) : Vector UInt8 256 :=
  if key.isEmpty then identity
  else
    let cycle := key.toArray
    let step (state : UInt8 × Vector UInt8 256) (i : Nat) : UInt8 × Vector UInt8 256 :=
      let j := state.1 + state.2.get (index (UInt8.ofNat i)) + cycle.getD (i % cycle.size) 0
      (j, exchange state.2 (UInt8.ofNat i) j)
    ((List.range 256).foldl step (0, identity)).2

/-- The key stream of a key, from its start. -/
def ofKey (key : Bytes) : Rc4 := ⟨0, 0, schedule key⟩

/-- The next byte of the key stream. -/
def next : Rc4 → UInt8 × Rc4
  | ⟨i, j, table⟩ =>
    let i := i + 1
    let j := j + table.get (index i)
    let table := exchange table i j
    (table.get (index (table.get (index i) + table.get (index j))), ⟨i, j, table⟩)

/-- Joins `data` with the key stream and puts the result, in reverse, before `done`. -/
def applyOnto (done : Bytes) : Rc4 → Bytes → Bytes × Rc4
  | cipher, [] => (done, cipher)
  | cipher, b :: data =>
    let step := cipher.next
    applyOnto ((b ^^^ step.1) :: done) step.2 data

/-- Joins `data` with the next bytes of the key stream. -/
def apply (cipher : Rc4) (data : Bytes) : Bytes × Rc4 :=
  let result := applyOnto [] cipher data
  (result.1.reverse, result.2)

theorem applyOnto_eq (done : Bytes) (cipher : Rc4) (data : Bytes) :
    applyOnto done cipher data =
      ((cipher.apply data).1.reverse ++ done, (cipher.apply data).2) := by
  suffices h : ∀ done cipher,
      applyOnto done cipher data =
        ((applyOnto [] cipher data).1 ++ done, (applyOnto [] cipher data).2) by
    rw [h]
    simp [apply]
  induction data with
  | nil => intro done cipher; rfl
  | cons b data ih =>
    intro done cipher
    simp only [applyOnto]
    rw [ih ((b ^^^ _) :: done), ih [b ^^^ _]]
    simp

@[simp] theorem apply_nil (cipher : Rc4) : cipher.apply [] = ([], cipher) := rfl

@[simp] theorem apply_cons (cipher : Rc4) (b : UInt8) (data : Bytes) :
    cipher.apply (b :: data) =
      ((b ^^^ cipher.next.1) :: (cipher.next.2.apply data).1, (cipher.next.2.apply data).2) := by
  simp [apply, applyOnto, applyOnto_eq [_]]

@[simp] theorem length_apply (cipher : Rc4) (data : Bytes) :
    (cipher.apply data).1.length = data.length := by
  induction data generalizing cipher with
  | nil => rfl
  | cons b data ih => simp [ih]

/-- Joins bytes with a cipher, if there is one. -/
def through (cipher : Option Rc4) (data : Bytes) : Bytes × Option Rc4 :=
  match cipher with
  | some cipher => let result := cipher.apply data; (result.1, some result.2)
  | none => (data, none)

@[simp] theorem length_through (cipher : Option Rc4) (data : Bytes) :
    (through cipher data).1.length = data.length := by
  cases cipher <;> simp [through]

end Rc4

end GameShip
