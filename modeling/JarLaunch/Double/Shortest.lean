import JarLaunch.Double.Basic
import JarLaunch.Text.Basic

/-! The decimal text of a double: the fewest digits that read back as it, and of those the
nearest. -/
namespace JarLaunch.Double

/-- Digits before the decimal point; for a number below one, minus the zeros after it. -/
def pointPosition (quanta : Nat) : Int :=
  (Nat.toDigits 10 (quanta * Nat.pow 10 400 / one)).length - 400

/-- The two decimals of a grid around a number of quanta, the nearer first. -/
def neighbours (quanta : Nat) (exponent : Int) : List Nat :=
  let unit := decimal 1 exponent
  let numerator := quanta * unit.2
  let denominator := one * unit.1
  let below := numerator / denominator
  if roundDiv numerator denominator = below then [below, below + 1] else [below + 1, below]

def readsBack (quanta : Nat) (exponent : Int) (digits : Nat) : Bool :=
  let fraction := decimal digits exponent
  nearest fraction.1 fraction.2 = quanta

/-- Digits and exponent of the shortest decimal; 17 digits always suffice. -/
def shortest (quanta : Nat) : Nat × Int :=
  let point := pointPosition quanta
  let found := (List.range 17).findSome? fun (count : Nat) =>
    let exponent := point - (count + 1 : Nat)
    ((neighbours quanta exponent).find? (readsBack quanta exponent)).map (·, exponent)
  found.getD (0, 0)

structure Layout where
  /-- Positional notation is kept while the point stands after more than this position. -/
  least : Int
  /-- And at this position at most. -/
  most : Int
  /-- The least number of digits of an exponent. -/
  exponentWidth : Nat

/-- Positional from 0.0001 up to 16 digits, and two digits at least in an exponent. -/
def layout : Layout := ⟨-4, 16, 2⟩

private def exponentText (width : Nat) (exponent : Int) : Text :=
  let digits := Nat.toDigits 10 exponent.natAbs
  .char 'e' :: .char (if exponent < 0 then '-' else '+') ::
    Text.ofChars (List.replicate (width - digits.length) '0' ++ digits)

/-- The text of the digits of a positive decimal with the point at a position; a whole number
keeps one zero after the point. -/
def Layout.write (form : Layout) (digits : List Char) (point : Int) : Text :=
  if form.least < point ∧ point ≤ form.most then
    if point ≤ 0 then
      Text.ofString "0." ++ Text.ofChars (List.replicate (-point).toNat '0' ++ digits)
    else
      let whole := point.toNat
      let padded := digits ++ List.replicate (whole - digits.length) '0'
      let rest := padded.drop whole
      Text.ofChars (padded.take whole) ++ .char '.' ::
        Text.ofChars (if rest.isEmpty then ['0'] else rest)
  else
    let head := Text.ofChars (digits.take 1)
    let tail := digits.drop 1
    let body := if tail.isEmpty then head else head ++ .char '.' :: Text.ofChars tail
    body ++ exponentText form.exponentWidth (point - 1)

private def magnitudeText (quanta : Nat) : Text :=
  if quanta = 0 then Text.ofString "0.0"
  else
    let decimal := shortest quanta
    let digits := Nat.toDigits 10 decimal.1
    layout.write (digits.reverse.dropWhile (· = '0')).reverse (decimal.2 + digits.length)

private def sign (negative : Bool) : Text := if negative then [.char '-'] else []

def text : Double → Text
  | .nan => Text.ofString "nan"
  | .infinite negative => sign negative ++ Text.ofString "inf"
  | .finite negative quanta => sign negative ++ magnitudeText quanta

end JarLaunch.Double
