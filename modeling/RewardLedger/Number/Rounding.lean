import RewardLedger.Number.Digits

/-!
# Rounding a quotient

The eight ways to round a quotient of natural numbers to a neighbour. A direction looks at the sign
of the number, the quotient rounded down, the remainder and the divisor, and says whether to go up
in magnitude. Dropping `k` decimal digits is the case of a divisor `10 ^ k`.
-/

namespace RewardLedger

/-- The directions of rounding. -/
inductive Rounding where
  /-- Toward positive infinity. -/
  | ceiling
  /-- Toward negative infinity. -/
  | floor
  /-- Away from zero. -/
  | up
  /-- Toward zero. -/
  | down
  /-- To the nearest, a half away from zero. -/
  | halfUp
  /-- To the nearest, a half toward zero. -/
  | halfDown
  /-- To the nearest, a half to the even neighbour. -/
  | halfEven
  /-- Away from zero if the last digit kept would be 0 or 5, otherwise toward zero. -/
  | zeroFiveUp
  deriving DecidableEq, Repr, Inhabited

namespace Rounding

/-- The directions by their configuration names. -/
def named : List (String × Rounding) :=
  [("ROUND_CEILING", ceiling), ("ROUND_FLOOR", floor), ("ROUND_UP", up), ("ROUND_DOWN", down),
   ("ROUND_HALF_UP", halfUp), ("ROUND_HALF_DOWN", halfDown), ("ROUND_HALF_EVEN", halfEven),
   ("ROUND_05UP", zeroFiveUp)]

/-- The direction of a configuration name. -/
def ofName? (name : String) : Option Rounding := named.lookup name

/-- Whether a number of this sign with quotient `q` and remainder `r` by `d` goes up in magnitude. -/
def goesUp (mode : Rounding) (negative : Bool) (q r d : Nat) : Bool :=
  match mode with
  | ceiling => r != 0 && !negative
  | floor => r != 0 && negative
  | up => r != 0
  | down => false
  | halfUp => d ≤ 2 * r
  | halfDown => d < 2 * r
  | halfEven => d < 2 * r || (2 * r == d && q % 2 == 1)
  | zeroFiveUp => r != 0 && (q % 10 == 0 || q % 10 == 5)

/-- The quotient `n / d`, rounded to a whole number in the given direction. -/
def divide (mode : Rounding) (negative : Bool) (n d : Nat) : Nat :=
  if mode.goesUp negative (n / d) (n % d) d then n / d + 1 else n / d

/-- The number `n / 10 ^ k`, rounded to a whole number. Beyond the digits of `n` a larger `k` makes
no difference, so the power of ten stays in proportion to `n`. -/
def dropDigits (mode : Rounding) (negative : Bool) (n k : Nat) : Nat :=
  mode.divide negative n (tenTo (min k (digitCount n + 1)))

/-- The rounded quotient is the quotient or the number after it. -/
theorem divide_eq_or (mode : Rounding) (negative : Bool) (n d : Nat) :
    mode.divide negative n d = n / d ∨ mode.divide negative n d = n / d + 1 := by
  unfold divide
  split <;> simp

/-- Dividing by one changes nothing. -/
theorem divide_one (mode : Rounding) (negative : Bool) (n : Nat) :
    mode.divide negative n 1 = n := by
  cases mode <;> simp [divide, goesUp, Nat.mod_one]

end Rounding

end RewardLedger
