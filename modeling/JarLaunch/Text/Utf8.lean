import JarLaunch.Text.Basic

/-! Reading bytes as UTF-8. The scan cuts its input into characters and maximal stray runs: a run
is the longest piece of a well-formed character that the next byte does not continue, or one
byte that begins no character. Each stray run is shown as one replacement character; where bytes
must be kept, each of its bytes becomes a mark of its own. -/
namespace JarLaunch.Utf8

inductive Piece where
  | char (c : Char)
  | stray (bytes : List UInt8)
  deriving DecidableEq

/-- A character that has begun: how many bytes it still lacks, the range of the next one, the
bits gathered and the bytes seen. -/
structure Begun where
  owed : Nat
  low : UInt8
  high : UInt8
  code : Nat
  seen : List UInt8
  deriving DecidableEq

/-- What a byte is when no character is under way. -/
inductive Opening where
  | whole (c : Char)
  | begun (b : Begun)
  | stray
  deriving DecidableEq

/-- The second byte after E0, ED, F0 and F4 has a narrower range: no overlong form, no surrogate
and nothing above 10FFFF is well formed. -/
def opening (b : UInt8) : Opening :=
  if b < 0x80 then .whole (Char.ofNat b.toNat)
  else if b < 0xC2 then .stray
  else if b < 0xE0 then .begun ⟨1, 0x80, 0xBF, b.toNat - 0xC0, [b]⟩
  else if b < 0xF0 then
    .begun ⟨2, if b = 0xE0 then 0xA0 else 0x80, if b = 0xED then 0x9F else 0xBF,
      b.toNat - 0xE0, [b]⟩
  else if b < 0xF5 then
    .begun ⟨3, if b = 0xF0 then 0x90 else 0x80, if b = 0xF4 then 0x8F else 0xBF,
      b.toNat - 0xF0, [b]⟩
  else .stray

def Begun.accepts (p : Begun) (b : UInt8) : Bool := p.low ≤ b && b ≤ p.high

/-- The character with one more byte; later bytes have the full continuation range. -/
def Begun.push (p : Begun) (b : UInt8) : Begun :=
  ⟨p.owed - 1, 0x80, 0xBF, p.code * 64 + (b.toNat - 0x80), p.seen ++ [b]⟩

/-- The pieces found so far, newest first, and the character under way. -/
structure Scan where
  found : List Piece
  begun : Option Begun

namespace Scan

def start : Scan := ⟨[], none⟩

def enter (found : List Piece) (b : UInt8) : Scan :=
  match opening b with
  | .whole c => ⟨.char c :: found, none⟩
  | .begun p => ⟨found, some p⟩
  | .stray => ⟨.stray [b] :: found, none⟩

def feed (s : Scan) (b : UInt8) : Scan :=
  match s.begun with
  | none => enter s.found b
  | some p =>
    if p.accepts b then
      let q := p.push b
      if q.owed = 0 then ⟨.char (Char.ofNat q.code) :: s.found, none⟩ else ⟨s.found, some q⟩
    else enter (.stray p.seen :: s.found) b

/-- At the end of the input a character under way is a stray run. -/
def close (s : Scan) : List Piece :=
  match s.begun with
  | none => s.found.reverse
  | some p => (.stray p.seen :: s.found).reverse

end Scan

def pieces (bytes : List UInt8) : List Piece := (bytes.foldl Scan.feed Scan.start).close

def replacement : Char := '�'

def Piece.shown : Piece → Char
  | .char c => c
  | .stray _ => replacement

def Piece.marks : Piece → Text
  | .char c => [.char c]
  | .stray bytes => bytes.map .raw

/-- Decoding with one replacement character for each stray run. -/
def decode (bytes : List UInt8) : List Char := (pieces bytes).map Piece.shown

/-- Decoding that loses nothing. -/
def decodeKeeping (bytes : List UInt8) : Text := (pieces bytes).flatMap Piece.marks

def encode (cs : List Char) : List UInt8 := cs.flatMap String.utf8EncodeChar

end JarLaunch.Utf8
