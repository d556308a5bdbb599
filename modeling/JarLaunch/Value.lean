import JarLaunch.Double.Shortest
import JarLaunch.Path.Basic
import JarLaunch.Text.Quoted
import JarLaunch.Text.Shell
import JarLaunch.Text.Utf8

/-! What a caller may put into a command or a setting. Texts, bytes and paths are words; the other
kinds are accepted as settings or refused when a command is started. A refused launch starts
nothing, and nothing is ever delivered for it. -/
namespace JarLaunch

/-- Why a launch can be refused outright. -/
inductive Refusal where
  /-- A value that is no word of a command, by the name of its type. -/
  | notAWord (type : String)
  /-- A jar given as bytes. -/
  | jarOfBytes
  /-- A queue, which takes no insertion at its front. -/
  | noInsertion
  /-- A byte buffer, which takes no text. -/
  | noText
  /-- A value that holds no elements, by the name of its type. -/
  | notIterable (type : String)
  /-- The system refused with a complaint about a type. -/
  | badType (text : Text)
  /-- The system refused for a reason of its own. -/
  | runtime (text : Text)
  deriving DecidableEq

def Refusal.message : Refusal → Text
  | .notAWord type => "expected str, bytes or os.PathLike object, not " ++ type
  | .jarOfBytes =>
    "argument should be a str object or an os.PathLike object returning str, not <class 'bytes'>"
  | .noInsertion => "sequence index must be integer, not 'slice'"
  | .noText => "'str' object cannot be interpreted as an integer"
  | .notIterable type => "'" ++ type ++ "' object is not iterable"
  | .badType text => text
  | .runtime text => text

inductive Value where
  | absent
  | flag (b : Bool)
  | integer (n : Int)
  | double (d : Double)
  | text (t : Text)
  | path (p : Path)
  | bytes (bs : List UInt8)
  | list (vs : List Value)

namespace Value

instance : Inhabited Value := ⟨.absent⟩

def isAbsent : Value → Bool
  | .absent => true
  | _ => false

def typeName : Value → String
  | .absent => "NoneType"
  | .flag _ => "bool"
  | .integer _ => "int"
  | .double _ => "float"
  | .text _ => "str"
  | .path _ => "PosixPath"
  | .bytes _ => "bytes"
  | .list _ => "list"

mutual

def quoted : Value → Text
  | .absent => Text.ofString "None"
  | .flag b => Text.ofString (if b then "True" else "False")
  | .integer n => Text.ofInt n
  | .double d => d.text
  | .text t => Text.quoted t
  | .path p => Text.ofString "PosixPath(" ++ Text.quoted p.text ++ Text.ofString ")"
  | .bytes bs => Text.quotedBytes bs
  | .list vs =>
    Text.ofString "[" ++ Text.join (Text.ofString ", ") (quotedEach vs) ++ Text.ofString "]"

def quotedEach : List Value → List Text
  | [] => []
  | v :: vs => v.quoted :: quotedEach vs

end

/-- A value as it is written in a message. Whole numbers of more than 4300 digits, which are never
written out, are left out of account. -/
def shown : Value → Text
  | .text t => t
  | .path p => p.text
  | v => v.quoted

def word : Value → Except Refusal Text
  | .text t => .ok t
  | .path p => .ok p.text
  | .bytes bs => .ok (Utf8.decodeKeeping bs)
  | v => .error (.notAWord v.typeName)

end Value

/-- The words of a command; the first value that is none decides the refusal. -/
def words (command : List Value) : Except Refusal (List Text) := command.mapM Value.word

/-- A command as one line that a shell would read back. -/
def display (command : List Value) : Except Refusal Text := (words command).map Shell.join

end JarLaunch
