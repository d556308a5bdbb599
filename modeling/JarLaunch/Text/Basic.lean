/-! Text as a launcher meets it. Words that come from the system are bytes; most are UTF-8, and
the bytes that are not must survive a round trip. A text is therefore a list of marks, each a
character or a byte that belongs to no character. -/
namespace JarLaunch

inductive Mark where
  | char (c : Char)
  | raw (b : UInt8)
  deriving DecidableEq

instance : Inhabited Mark := ⟨.char ' '⟩

abbrev Text := List Mark

namespace Mark

def bytes : Mark → List UInt8
  | .char c => String.utf8EncodeChar c
  | .raw b => [b]

def char? : Mark → Option Char
  | .char c => some c
  | .raw _ => none

end Mark

namespace Text

def ofChars (cs : List Char) : Text := cs.map .char

def ofString (s : String) : Text := ofChars s.toList

instance : Coe String Text := ⟨ofString⟩

/-- The characters of a text, if it holds no stray byte. -/
def chars? (t : Text) : Option (List Char) := t.mapM Mark.char?

def bytes (t : Text) : List UInt8 := t.flatMap Mark.bytes

/-- Texts with a separator between neighbours. -/
def join (separator : Text) (ts : List Text) : Text := (ts.intersperse separator).flatten

def ofNat (n : Nat) : Text := ofChars (Nat.toDigits 10 n)

def ofInt : Int → Text
  | .ofNat n => ofNat n
  | .negSucc n => .char '-' :: ofNat (n + 1)

/-- The lower-case hexadecimal digits of a number, padded with zeros to a width. -/
def hex (width n : Nat) : Text :=
  let digits := Nat.toDigits 16 n
  ofChars (List.replicate (width - digits.length) '0' ++ digits)

end Text

end JarLaunch
