/-!
# Digits

* `digit?`, `number?`: the value of a digit, and of a row of digits.
* `numberBelow?`: the same below a bound.
* `hexDigits`: a number as digits to base sixteen.
-/

namespace GameShip

/-- The value of a digit to base sixteen. Letters of either case count. -/
def hexDigit? (c : Char) : Option Nat :=
  if '0' ≤ c ∧ c ≤ '9' then some (c.toNat - '0'.toNat)
  else if 'a' ≤ c ∧ c ≤ 'f' then some (c.toNat - 'a'.toNat + 10)
  else if 'A' ≤ c ∧ c ≤ 'F' then some (c.toNat - 'A'.toNat + 10)
  else none

/-- The value of a digit to a base of at most sixteen. -/
def digit? (base : Nat) (c : Char) : Option Nat := (hexDigit? c).filter (· < base)

/-- The number that digits to a base stand for, of which there has to be one. -/
def number? (base : Nat) (cs : List Char) : Option Nat :=
  if cs = [] then none else cs.foldlM (fun n c => (digit? base c).map (base * n + ·)) 0

/-- The number below a bound that digits to a base stand for, of which there has to be one. It is
given up at the first digit that is too much. -/
def numberBelow? (bound base : Nat) (cs : List Char) : Option Nat :=
  if cs = [] then none
  else cs.foldlM (fun n c => ((digit? base c).map (base * n + ·)).filter (· < bound)) 0

/-- The digits of a number to base sixteen, in capitals. -/
def hexDigits (n : Nat) : String := String.ofList ((Nat.toDigits 16 n).map Char.toUpper)

/-- The value of a digit is below the base. -/
theorem digit?_lt {base n : Nat} {c : Char} (h : digit? base c = some n) : n < base := by
  rw [digit?, Option.filter_eq_some_iff] at h
  exact of_decide_eq_true h.2

end GameShip
