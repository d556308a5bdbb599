import JarLaunch.Double.Basic
import JarLaunch.Text.Classes

/-! Reading a double from text. Blanks around the number are ignored, digits of any script count,
single underscores may stand between digits, and infinities and NaN are spelled in either case. -/
namespace JarLaunch.Double

private def ascii (c : Char) : Bool := c.toNat < 0x80

/-- The blanks a number may stand between; the ASCII separators are not among them. -/
private def asciiBlank (c : Char) : Bool := c = ' ' || (0x09 ≤ c.toNat && c.toNat ≤ 0x0D)

/-- Digits and blanks of other scripts in their ASCII forms. -/
def plainForm (cs : List Char) : List Char :=
  cs.map fun c =>
    if ascii c then c
    else if Text.isBlank c then ' '
    else match Text.digit? c with
      | some d => Char.ofNat ('0'.toNat + d)
      | none => c

def trim (cs : List Char) : List Char :=
  ((cs.dropWhile asciiBlank).reverse.dropWhile asciiBlank).reverse

/-- The text without its underscores, each of which must stand between two digits; `after` is the
character before the text. -/
def dropUnderscores (after : Char) : List Char → Option (List Char)
  | [] => if after = '_' then none else some []
  | c :: cs =>
    if c = '_' then if after.isDigit then dropUnderscores c cs else none
    else if after = '_' ∧ !c.isDigit then none
    else (dropUnderscores c cs).map (c :: ·)

private def signed (cs : List Char) : Bool × List Char :=
  match cs with
  | '-' :: rest => (true, rest)
  | '+' :: rest => (false, rest)
  | _ => (false, cs)

private def number (digits : List Char) : Nat :=
  digits.foldl (fun n c => 10 * n + (c.toNat - '0'.toNat)) 0

private def exponent? : List Char → Option Int
  | [] => some 0
  | c :: cs =>
    if c = 'e' ∨ c = 'E' then
      let (negative, digits) := signed cs
      if digits.isEmpty ∨ !digits.all Char.isDigit then none
      else some (if negative then -(number digits : Int) else number digits)
    else none

private def magnitude? (cs : List Char) : Option (Nat × Int) :=
  let whole := cs.takeWhile Char.isDigit
  let rest := cs.dropWhile Char.isDigit
  let (fraction, tail) := match rest with
    | '.' :: more => (more.takeWhile Char.isDigit, more.dropWhile Char.isDigit)
    | _ => ([], rest)
  if whole.isEmpty ∧ fraction.isEmpty then none
  else (exponent? tail).map fun e => (number (whole ++ fraction), e - fraction.length)

private def special? (negative : Bool) (cs : List Char) : Option Double :=
  let word := String.ofList (cs.map Char.toLower)
  if word = "inf" ∨ word = "infinity" then some (.infinite negative)
  else if word = "nan" then some .nan
  else none

def ofChars? (cs : List Char) : Option Double := do
  let body ← dropUnderscores '\x00' (trim (plainForm cs))
  let (negative, rest) := signed body
  match special? negative rest with
  | some d => some d
  | none => (magnitude? rest).map fun m => ofDecimal negative m.1 m.2

end JarLaunch.Double
