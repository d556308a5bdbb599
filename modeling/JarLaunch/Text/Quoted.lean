import JarLaunch.Text.Basic
import JarLaunch.Text.Printable

/-! Texts and byte strings quoted in a message. Single quotes stand around the text, unless it
holds single quotes and no double ones; the quote in use and the backslash are escaped, and what
is not printable is written by number. -/
namespace JarLaunch.Text

private def escape (c : Char) : Text := [.char '\\', .char c]

def quoteFor (t : Text) : Char :=
  if .char '\'' ∈ t ∧ .char '"' ∉ t then '"' else '\''

/-- The escapes that text and bytes have in common. -/
private def escape? (quote c : Char) : Option Text :=
  if c = quote ∨ c = '\\' then some (escape c)
  else if c = '\n' then some (escape 'n')
  else if c = '\r' then some (escape 'r')
  else if c = '\t' then some (escape 't')
  else none

private def numbered (c : Char) : Text :=
  let n := c.toNat
  if n < 0x100 then escape 'x' ++ hex 2 n
  else if n < 0x10000 then escape 'u' ++ hex 4 n
  else escape 'U' ++ hex 8 n

/-- A stray byte is written as the low surrogate that stands for it. -/
def quotedMark (quote : Char) : Mark → Text
  | .raw b => escape 'u' ++ hex 4 (0xDC00 + b.toNat)
  | .char c =>
    match escape? quote c with
    | some t => t
    | none => if isPrintable c then [.char c] else numbered c

def quoted (t : Text) : Text :=
  let quote := quoteFor t
  .char quote :: (t.flatMap (quotedMark quote) ++ [.char quote])

/-- A byte of a quoted byte string; only printable ASCII stands for itself. -/
def quotedByte (quote : Char) (b : UInt8) : Text :=
  let c := Char.ofNat b.toNat
  match escape? quote c with
  | some t => t
  | none => if 0x20 ≤ b && b < 0x7F then [.char c] else escape 'x' ++ hex 2 b.toNat

def quotedBytes (bytes : List UInt8) : Text :=
  let quote := quoteFor (bytes.map fun b => .char (Char.ofNat b.toNat))
  .char 'b' :: .char quote :: (bytes.flatMap (quotedByte quote) ++ [.char quote])

end JarLaunch.Text
