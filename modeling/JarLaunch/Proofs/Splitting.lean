import JarLaunch.Proofs.Refusing

/-! Reading a command line back. A shell takes a line apart mark by mark: bare blanks divide words,
quotes of both kinds and backslashes take marks out of their meaning, pieces that touch are one
word, and a bare mark that the shell acts on makes the line something other than a list of words.
A quoted word is read back as that word, so a displayed command is read back as its words. -/
namespace JarLaunch

namespace Shell

inductive Mode where
  | bare
  | escaped
  | single
  | double
  | doubleEscaped
  deriving DecidableEq

/-- The words that are complete, the one under way, and how the next mark is taken. A word can be
under way before it has any mark: a pair of quotes is a word. -/
structure Reader where
  words : List Text
  word : Option Text
  mode : Mode
  deriving DecidableEq

/-- Characters that a shell acts on inside double quotes. -/
def expanding : List Char := ['$', '\x60']

/-- Characters that a shell acts on when they stand bare: operators, expansions, patterns, the
home directory and comments. -/
def acting : List Char := expanding ++ ['|', '&', ';', '<', '>', '(', ')', '*', '?', '[', '#', '~']

namespace Reader

def start : Reader := ⟨[], none, .bare⟩

def take (r : Reader) (t : Text) : Reader := { r with word := some (r.word.getD [] ++ t) }

def turn (r : Reader) (mode : Mode) : Reader := { r with mode := mode }

def finish (r : Reader) : Reader := { r with words := r.words ++ r.word.toList, word := none }

def feedBare (r : Reader) : Mark → Option Reader
  | .raw b => some (r.take [.raw b])
  | .char c =>
    if c.isWhitespace then some r.finish
    else if c = '\'' then some ((r.take []).turn .single)
    else if c = '"' then some ((r.take []).turn .double)
    else if c = '\\' then some (r.turn .escaped)
    else if c ∈ acting then none
    else some (r.take [.char c])

/-- An escaped line break is no mark at all. -/
def feedEscaped (r : Reader) (m : Mark) : Reader :=
  if m = .char '\n' then r.turn .bare else (r.take [m]).turn .bare

def feedSingle (r : Reader) (m : Mark) : Reader :=
  if m = .char '\'' then r.turn .bare else r.take [m]

def feedDouble (r : Reader) : Mark → Option Reader
  | .raw b => some (r.take [.raw b])
  | .char c =>
    if c = '"' then some (r.turn .bare)
    else if c = '\\' then some (r.turn .doubleEscaped)
    else if c ∈ expanding then none
    else some (r.take [.char c])

/-- Inside double quotes a backslash stands for itself unless what follows has a meaning there. -/
def feedDoubleEscaped (r : Reader) (m : Mark) : Reader :=
  if m = .char '\n' then r.turn .double
  else if m ∈ (expanding ++ ['"', '\\']).map Mark.char then (r.take [m]).turn .double
  else (r.take [.char '\\', m]).turn .double

def feed (r : Reader) (m : Mark) : Option Reader :=
  match r.mode with
  | .bare => r.feedBare m
  | .escaped => some (r.feedEscaped m)
  | .single => some (r.feedSingle m)
  | .double => r.feedDouble m
  | .doubleEscaped => some (r.feedDoubleEscaped m)

/-- A line that ends inside quotes or after a backslash is not complete. -/
def close (r : Reader) : Option (List Text) :=
  if r.mode = .bare then some r.finish.words else none

end Reader

def split (line : Text) : Option (List Text) :=
  (line.foldlM Reader.feed Reader.start).bind Reader.close

theorem isPlain_not_special {c : Char} (plain : isPlain c) :
    c.isWhitespace = false ∧ c ≠ '\'' ∧ c ≠ '"' ∧ c ≠ '\\' ∧ c ∉ acting := by
  have special : ([' ', '\t', '\r', '\n', '\'', '"', '\\'] ++ acting).all (!isPlain ·) := by
    decide
  have other {s : Char} (member : s ∈ [' ', '\t', '\r', '\n', '\'', '"', '\\'] ++ acting) :
      c ≠ s := by
    intro same
    have not := List.all_eq_true.mp special s member
    simp [← same, plain] at not
  refine ⟨?_, other (by decide), other (by decide), other (by decide), ?_⟩
  · simp [Char.isWhitespace, other (s := ' ') (by decide), other (s := '\t') (by decide),
      other (s := '\r') (by decide), other (s := '\n') (by decide)]
  · intro acts
    exact other (List.mem_append_right _ acts) rfl

namespace Reader

theorem take_take (r : Reader) (s t : Text) : (r.take s).take t = r.take (s ++ t) := by
  simp [take]

theorem feed_plain {r : Reader} {m : Mark} (bare : r.mode = .bare) (plain : plainMark m) :
    r.feed m = some (r.take [m]) := by
  cases m with
  | raw b => cases plain
  | char c =>
    obtain ⟨blank, single, double, back, acts⟩ := isPlain_not_special plain
    simp [feed, bare, feedBare, blank, single, double, back, acts]

theorem foldlM_plain {w : Text} {r : Reader} {t : Text} (bare : r.mode = .bare)
    (plain : ∀ m ∈ w, plainMark m) : w.foldlM feed (r.take t) = some (r.take (t ++ w)) := by
  induction w generalizing t with
  | nil => simp
  | cons m w ih =>
    have first : (r.take t).feed m = some (r.take (t ++ [m])) := by
      rw [feed_plain (r := r.take t) bare (plain m List.mem_cons_self), take_take]
    rw [List.foldlM_cons, first, Option.bind_eq_bind, Option.bind_some,
      ih fun n member => plain n (List.mem_cons_of_mem _ member)]
    simp

-- A protected single quote takes five marks: out of the single quotes, a pair of double quotes
-- around it, and in again.
theorem foldlM_protect (r : Reader) (t : Text) (m : Mark) :
    (protect m).foldlM feed ((r.take t).turn .single) = some ((r.take (t ++ [m])).turn .single) := by
  by_cases quote : m = .char '\''
  · subst m
    simp [protect, Text.ofString, Text.ofChars, feed, feedSingle, feedBare, feedDouble, take, turn,
      Char.isWhitespace, expanding]
  · simp [protect, quote, feed, feedSingle, turn, take]

theorem foldlM_protected (r : Reader) (t w : Text) :
    (w.flatMap protect).foldlM feed ((r.take t).turn .single) =
      some ((r.take (t ++ w)).turn .single) := by
  induction w generalizing t with
  | nil => simp
  | cons m w ih =>
    rw [List.flatMap_cons, List.foldlM_append, foldlM_protect, Option.bind_eq_bind,
      Option.bind_some, ih]
    simp

/-- A quoted word is read as that word. -/
theorem foldlM_quote {r : Reader} (bare : r.mode = .bare) (w : Text) :
    (quote w).foldlM feed r = some (r.take w) := by
  have back (t : Text) : ((r.take t).turn .single).feed (.char '\'') = some (r.take t) := by
    simp [feed, feedSingle, turn, take, bare]
  have opened : r.feed (.char '\'') = some ((r.take []).turn .single) := by
    simp [feed, bare, feedBare, Char.isWhitespace]
  unfold quote
  split
  next empty =>
    subst w
    simp [Text.ofString, Text.ofChars, opened, back]
  next some =>
    split
    next plain =>
      rw [List.all_eq_true] at plain
      obtain ⟨m, w, rfl⟩ := List.exists_cons_of_ne_nil some
      rw [List.foldlM_cons, feed_plain bare (plain m List.mem_cons_self), Option.bind_eq_bind,
        Option.bind_some, foldlM_plain bare fun n member => plain n (List.mem_cons_of_mem _ member)]
      rfl
    next =>
      rw [List.foldlM_cons, opened, Option.bind_eq_bind, Option.bind_some, List.foldlM_append,
        foldlM_protected, Option.bind_eq_bind, Option.bind_some]
      simp [back]

theorem feed_space {r : Reader} (bare : r.mode = .bare) : r.feed (.char ' ') = some r.finish := by
  simp [feed, bare, feedBare, Char.isWhitespace]

theorem foldlM_join (done : List Text) (ws : List Text) :
    ∃ r : Reader, (join ws).foldlM feed ⟨done, none, .bare⟩ = some r ∧
      r.close = some (done ++ ws) := by
  induction ws generalizing done with
  | nil => exact ⟨⟨done, none, .bare⟩, rfl, by simp [close, finish]⟩
  | cons w ws ih =>
    have first : (quote w).foldlM feed ⟨done, none, .bare⟩ = some ⟨done, some w, .bare⟩ :=
      foldlM_quote rfl w
    cases ws with
    | nil => exact ⟨_, by simpa [join, Text.join] using first, by simp [close, finish]⟩
    | cons v vs =>
      obtain ⟨r, reads, closes⟩ := ih (done ++ [w])
      have between : join (w :: v :: vs) = quote w ++ .char ' ' :: join (v :: vs) := by
        simp [join, Text.join]
      refine ⟨r, ?_, by simpa using closes⟩
      rw [between, List.foldlM_append, first, Option.bind_eq_bind, Option.bind_some,
        List.foldlM_cons, feed_space rfl]
      exact reads

end Reader

theorem split_join (ws : List Text) : split (join ws) = some ws := by
  obtain ⟨r, reads, closes⟩ := Reader.foldlM_join [] ws
  rw [split, Reader.start, reads]
  exact closes

example : split (Text.ofString "a'b c'\"d\"  e\\ f") =
    some [Text.ofString "ab cd", Text.ofString "e f"] := by decide

example : split (Text.ofString "rm x;ls") = none := by decide

end Shell

theorem words_eq_ok {command : List Value} (are : ∀ v ∈ command, v.isWord) :
    ∃ ts, words command = .ok ts ∧ command.map Value.word = ts.map .ok := by
  induction command with
  | nil => exact ⟨[], rfl, rfl⟩
  | cons v vs ih =>
    obtain ⟨t, word, -⟩ := Value.word_of_isWord (are v List.mem_cons_self)
    obtain ⟨ts, shown, each⟩ := ih fun u member => are u (List.mem_cons_of_mem _ member)
    refine ⟨t :: ts, ?_, by rw [List.map_cons, List.map_cons, word, each]⟩
    unfold words at shown ⊢
    simp [List.mapM_cons, word, shown, bind, Except.bind, pure, Except.pure]

theorem display_split {command : List Value} (are : ∀ v ∈ command, v.isWord) :
    ∃ line ts, display command = .ok line ∧ Shell.split line = some ts ∧
      command.map Value.word = ts.map .ok := by
  obtain ⟨ts, shown, each⟩ := words_eq_ok are
  exact ⟨Shell.join ts, ts, by rw [display, shown]; rfl, Shell.split_join ts, each⟩

theorem display_inj {c d : List Value} {line line' : Text} (are : ∀ v ∈ c, v.isWord)
    (are' : ∀ v ∈ d, v.isWord) (shown : display c = .ok line) (shown' : display d = .ok line') :
    line = line' ↔ c.map Value.word = d.map Value.word := by
  obtain ⟨ts, words, each⟩ := words_eq_ok are
  obtain ⟨ts', words', each'⟩ := words_eq_ok are'
  rw [display, words] at shown
  rw [display, words'] at shown'
  cases Except.ok.inj shown
  cases Except.ok.inj shown'
  rw [each, each', List.map_inj_right fun _ _ => Except.ok.inj]
  constructor
  · intro same
    have back := Shell.split_join ts
    rw [same, Shell.split_join] at back
    exact (Option.some.inj back).symm
  · intro same
    rw [same]

namespace Failure

theorem ofExit_message_inj {c d : List Value} {line line' : Text} {code : Int} (failed : code ≠ 0) :
    ∃ f f', ofExit c line code = some f ∧ ofExit d line' code = some f' ∧
      (f.message = f'.message ↔ line = line') := by
  unfold ofExit
  rw [if_neg failed, if_neg failed]
  split
  · exact ⟨_, _, rfl, rfl, by simp⟩
  · exact ⟨_, _, rfl, rfl, by simp⟩

theorem ofTimeout_message_inj {c d : List Value} {line line' : Text} {timeout : Value}
    {code code' : Option Int} :
    (ofTimeout c line timeout code).message = (ofTimeout d line' timeout code').message ↔
      line = line' := by
  simp [ofTimeout]

end Failure

/-- A displayed command is read back as its words, one by one. So two commands are displayed alike,
and named alike where they fail or time out, exactly if their words are the same. -/
theorem displayed_commands_unambiguous {c d : List Value} (are : ∀ v ∈ c, v.isWord)
    (are' : ∀ v ∈ d, v.isWord) :
    ∃ line line', display c = .ok line ∧ display d = .ok line' ∧
      (∃ ts, Shell.split line = some ts ∧ c.map Value.word = ts.map .ok) ∧
      (line = line' ↔ c.map Value.word = d.map Value.word) ∧
      (∀ code ≠ 0, ∃ f f', Failure.ofCommandExit c code = .ok (some f) ∧
        Failure.ofCommandExit d code = .ok (some f') ∧
        (f.message = f'.message ↔ c.map Value.word = d.map Value.word)) ∧
      ∀ timeout code code', (Failure.ofTimeout c line timeout code).message =
        (Failure.ofTimeout d line' timeout code').message ↔
          c.map Value.word = d.map Value.word := by
  obtain ⟨line, ts, shown, back, each⟩ := display_split are
  obtain ⟨line', -, shown', -, -⟩ := display_split are'
  have alike := display_inj are are' shown shown'
  refine ⟨line, line', shown, shown', ⟨ts, back, each⟩, alike, ?_, ?_⟩
  · intro code failed
    obtain ⟨f, f', is, is', same⟩ := Failure.ofExit_message_inj (c := c) (d := d) failed
    refine ⟨f, f', ?_, ?_, same.trans alike⟩
    · rw [Failure.ofCommandExit, if_neg failed, shown, Except.map, is]
    · rw [Failure.ofCommandExit, if_neg failed, shown', Except.map, is']
  · intro timeout code code'
    exact Failure.ofTimeout_message_inj.trans alike

/-- A quote, a stray byte and an empty word beside the same marks in two words. -/
theorem odd_words_unambiguous :
    (∀ v ∈ [Value.text (Text.ofString "it's"), .bytes [0xFF], .text []], v.isWord) ∧
      (∀ v ∈ [Value.text (Text.ofString "it's"), .bytes [0xFF]], v.isWord) ∧
      display [.text (Text.ofString "it's"), .bytes [0xFF], .text []] ≠
        display [.text (Text.ofString "it's"), .bytes [0xFF]] := by
  have are : ∀ v ∈ [Value.text (Text.ofString "it's"), .bytes [0xFF], .text []], v.isWord := by
    simp [Value.isWord]
  have are' : ∀ v ∈ [Value.text (Text.ofString "it's"), .bytes [0xFF]], v.isWord := by
    simp [Value.isWord]
  obtain ⟨line, line', shown, shown', -, alike, -⟩ := displayed_commands_unambiguous are are'
  refine ⟨are, are', ?_⟩
  rw [shown, shown']
  intro same
  have words := congrArg List.length (alike.mp (Except.ok.inj same))
  contradiction

end JarLaunch
