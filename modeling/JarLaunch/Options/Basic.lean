import JarLaunch.Double.Reading
import JarLaunch.Value

/-! The options of the command line. Every word is classified before any is used: an option in
full, by an unambiguous beginning or in a cluster of letters, or an operand. Options are taken up
to the first operand; it and everything after it belong to the launched command. The conventions are
those of argparse before 3.11.9; from then on it reads words such as `-vx`, `-v=h`, `-hx` and
`--timeout=--` in another way. -/
namespace JarLaunch

abbrev Word := Text

inductive Flag where
  | help
  | java
  | timeout
  | verbose
  deriving DecidableEq

namespace Flag

def spellings : List (Word × Flag) := [
  (Text.ofString "-h", .help), (Text.ofString "--help", .help), (Text.ofString "--java", .java),
  (Text.ofString "--timeout", .timeout), (Text.ofString "-v", .verbose),
  (Text.ofString "--verbose", .verbose)]

def takesValue : Flag → Bool
  | .java | .timeout => true
  | .help | .verbose => false

def title : Flag → String
  | .help => "-h/--help"
  | .java => "--java"
  | .timeout => "--timeout"
  | .verbose => "-v/--verbose"

def ofSpelling? (w : Word) : Option Flag := spellings.lookup w

end Flag

inductive UsageError where
  | ambiguous (word : Word) (matching : List Word)
  | expectedValue (flag : Flag)
  | ignoredValue (flag : Flag) (value : Word)
  | badTimeout (value : Word)
  | unrecognized (words : List Word)
  deriving DecidableEq

inductive Stop where
  | help
  | usage (error : UsageError)
  deriving DecidableEq

inductive WordClass where
  | operand
  /-- An option, whether it is written with one dash, and the value written with it. -/
  | option (flag : Flag) (short : Bool) (value : Option Word)
  | unknown
  deriving DecidableEq

namespace Word

/-- The part before the first equals sign, and the part after it if there is one. -/
def splitAtEquals (w : Word) : Word × Option Word :=
  match w.dropWhile (· ≠ .char '=') with
  | [] => (w, none)
  | _ :: value => (w.takeWhile (· ≠ .char '='), some value)

def isShort (spelling : Word) : Bool := spelling.length = 2

/-- The options a word may abbreviate: with two dashes those that begin with it, with one dash the
one-letter option that it begins with, the rest of the word being its value. -/
def abbreviated (w : Word) : List (Word × WordClass) :=
  if w.take 2 = [.char '-', .char '-'] then
    let (start, value) := splitAtEquals w
    (Flag.spellings.filter fun s => start.isPrefixOf s.1).map fun s =>
      (s.1, .option s.2 (isShort s.1) value)
  else
    (Flag.spellings.filter fun s => s.1 = w.take 2).map fun s =>
      (s.1, .option s.2 true (some (w.drop 2)))

private def isDigit (m : Mark) : Bool := m.char?.any Text.isDigit

/-- A dash and a decimal number; a line end after it is let pass. -/
def isNegativeNumber : Word → Bool
  | .char '-' :: rest =>
    let number := if rest.getLast? = some (.char '\n') then rest.dropLast else rest
    let whole := number.takeWhile isDigit
    match number.dropWhile isDigit with
    | [] => !whole.isEmpty
    | .char '.' :: fraction => !fraction.isEmpty && fraction.all isDigit
    | _ => false
  | _ => false

/-- A word with a dash that is written out in full, with or without a value. -/
def inFull (w : Word) : Option WordClass :=
  match Flag.ofSpelling? w with
  | some flag => some (.option flag (isShort w) none)
  | none =>
    match splitAtEquals w with
    | (_, none) => none
    | (name, some value) =>
      (Flag.ofSpelling? name).map fun flag => .option flag (isShort name) (some value)

/-- What a word with a dash and more is. Numbers and words with a space are operands after all. -/
def classifyDashed (w : Word) : Except UsageError WordClass :=
  match inFull w with
  | some c => .ok c
  | none =>
    match abbreviated w with
    | [] => .ok (if isNegativeNumber w || w.contains (.char ' ') then .operand else .unknown)
    | [c] => .ok c.2
    | several => .error (.ambiguous w (several.map (·.1)))

def classify (w : Word) : Except UsageError WordClass :=
  match w with
  | .char '-' :: _ :: _ => classifyDashed w
  | _ => .ok .operand

end Word

structure Options where
  java : Value := .absent
  timeout : Value := .absent
  verbose : Bool := false
  args : List Word := []

namespace Options

/-- A value that is only the separator counts as no value at all. -/
private def given (value : Word) (read : Word → Except Stop Value) : Except Stop Value :=
  if value = Text.ofString "--" then .ok (.list []) else read value

private def readTimeout (value : Word) : Except Stop Value :=
  match (Text.chars? value).bind Double.ofChars? with
  | some d => .ok (.double d)
  | none => .error (.usage (.badTimeout value))

def take (o : Options) : Flag → Except Stop Options
  | .help => .error .help
  | .verbose => .ok { o with verbose := true }
  | flag => .error (.usage (.expectedValue flag))

def takeValue (o : Options) (flag : Flag) (value : Word) : Except Stop Options :=
  match flag with
  | .java => (given value fun w => .ok (.text w)).map fun v => { o with java := v }
  | .timeout => (given value readTimeout).map fun v => { o with timeout := v }
  | _ => .error (.usage (.ignoredValue flag value))

/-- A value that an option takes leaves the timeout alone, or sets it to a number or to nothing but
a separator. -/
theorem takeValue_timeout {o o' : Options} {flag : Flag} {value : Word}
    (taken : o.takeValue flag value = .ok o') :
    o'.timeout = o.timeout ∨ o'.timeout = .list [] ∨ ∃ d, o'.timeout = .double d := by
  cases flag with
  | help | verbose => cases taken
  | java =>
    simp only [takeValue, given] at taken
    split at taken <;> cases taken <;> exact .inl rfl
  | timeout =>
    simp only [takeValue, given, readTimeout] at taken
    split at taken
    · cases taken
      exact .inr (.inl rfl)
    · split at taken
      · rename_i d _
        cases taken
        exact .inr (.inr ⟨d, rfl⟩)
      · cases taken

/-- The options of a cluster of letters that begins with a flag. -/
def cluster (flag : Flag) : Word → Except UsageError (List Flag)
  | [] => .ok [flag]
  | c :: rest =>
    match Flag.ofSpelling? [.char '-', c] with
    | some other => (cluster other rest).map (flag :: ·)
    | none => .error (.ignoredValue flag (c :: rest))

/-- Take an option that has no value, though one may be written with it: after a single dash it
may be a cluster. -/
def takePlain (o : Options) (flag : Flag) (short : Bool) (value : Option Word) :
    Except Stop Options :=
  match value with
  | none => o.take flag
  | some v =>
    if short && !v.isEmpty then
      match cluster flag v with
      | .error e => .error (.usage e)
      | .ok flags => flags.foldlM take o
    else .error (.usage (.ignoredValue flag v))

/-- Take options up to the first operand; words that look like options but are none are kept
apart, and complained about at the end. -/
def collect (o : Options) (strange : List Word) : List (Word × WordClass) → Except Stop Options
  | [] => if strange.isEmpty then .ok o else .error (.usage (.unrecognized strange))
  | (w, .operand) :: rest =>
    if strange.isEmpty then .ok { o with args := w :: rest.map (·.1) }
    else .error (.usage (.unrecognized strange))
  | (w, .unknown) :: rest => collect o (strange ++ [w]) rest
  | (_, .option flag short value) :: rest =>
    if flag.takesValue then
      match value, rest with
      | some v, rest => do collect (← o.takeValue flag v) strange rest
      | none, (v, .operand) :: rest => do collect (← o.takeValue flag v) strange rest
      | none, _ => .error (.usage (.expectedValue flag))
    else do collect (← o.takePlain flag short value) strange rest

/-- The words with their classes; the first ambiguous one ends the reading. -/
def classifyAll (argv : List Word) : Except UsageError (List (Word × WordClass)) :=
  argv.mapM fun w => w.classify.map (w, ·)

def parse (argv : List Word) : Except Stop Options :=
  match classifyAll argv with
  | .error e => .error (.usage e)
  | .ok classified => collect {} [] classified

end Options

end JarLaunch
