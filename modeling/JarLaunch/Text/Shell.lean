import JarLaunch.Text.Basic

/-! Words as a shell would have to be given them. -/
namespace JarLaunch.Shell

/-- Characters that no shell gives a meaning of their own inside a word. -/
def isPlain (c : Char) : Bool :=
  c.isAlphanum || c = '_' || c = '@' || c = '%' || c = '+' || c = '=' || c = ':' || c = ',' ||
    c = '.' || c = '/' || c = '-'

def plainMark : Mark → Bool
  | .char c => isPlain c
  | .raw _ => false

/-- Inside single quotes only the single quote itself needs care: the quotes are closed around a
double-quoted one. -/
def protect (m : Mark) : Text :=
  if m = .char '\'' then Text.ofString "'\"'\"'" else [m]

/-- A word that one shell word reads back as. -/
def quote (word : Text) : Text :=
  if word = [] then Text.ofString "''"
  else if word.all plainMark then word
  else .char '\'' :: (word.flatMap protect ++ [.char '\''])

def join (words : List Text) : Text := Text.join [.char ' '] (words.map quote)

end JarLaunch.Shell
