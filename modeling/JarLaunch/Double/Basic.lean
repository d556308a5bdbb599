/-! Double-precision numbers, held exactly: a finite magnitude is a whole number of quanta, one
quantum being the least positive double, 2^-1074. Rounding a fraction goes to the nearest double,
and halfway to the even neighbour. -/
namespace JarLaunch

/-- The nearest whole number to a quotient; halfway, the even one. -/
def roundDiv (numerator denominator : Nat) : Nat :=
  let quotient := numerator / denominator
  let twice := 2 * (numerator % denominator)
  if twice < denominator ∨ (twice = denominator ∧ quotient % 2 = 0) then quotient
  else quotient + 1

inductive Double where
  | nan
  | infinite (negative : Bool)
  | finite (negative : Bool) (quanta : Nat)
  deriving DecidableEq

namespace Double

def neg : Double → Double
  | .nan => .nan
  | .infinite negative => .infinite !negative
  | .finite negative quanta => .finite (!negative) quanta

/-- Is a number zero or below? What is no number is neither. -/
def atMostZero : Double → Bool
  | .nan => false
  | .infinite negative => negative
  | .finite negative quanta => negative || quanta = 0

def one : Nat := Nat.pow 2 1074

/-- No finite magnitude reaches this many quanta. -/
def limit : Nat := Nat.pow 2 2098

/-- The quanta of the double nearest to a fraction: 53 bits are kept, fewer near zero. -/
def nearest (numerator denominator : Nat) : Nat :=
  let scaled := numerator * one
  let step := Nat.pow 2 ((scaled / denominator).log2 - 52)
  roundDiv scaled (denominator * step) * step

def ofFraction (negative : Bool) (numerator denominator : Nat) : Double :=
  let quanta := nearest numerator denominator
  if quanta < limit then .finite negative quanta else .infinite negative

def decimal (digits : Nat) (exponent : Int) : Nat × Nat :=
  match exponent with
  | .ofNat e => (digits * Nat.pow 10 e, 1)
  | .negSucc e => (digits, Nat.pow 10 (e + 1))

/-- The double nearest to a decimal. Far outside the range of doubles the answer is known from
the size alone. -/
def ofDecimal (negative : Bool) (digits : Nat) (exponent : Int) : Double :=
  if digits = 0 then .finite negative 0
  else
    let size := exponent + (Nat.toDigits 10 digits).length
    if size > 400 then .infinite negative
    else if size < -400 then .finite negative 0
    else
      let fraction := decimal digits exponent
      ofFraction negative fraction.1 fraction.2

end Double

end JarLaunch
