import JarLaunch.Child
import JarLaunch.Failure.Basic

/-! Asking the system to start a command. The words are looked at first, left to right; what the
system answers comes after. -/
namespace JarLaunch

inductive SpawnFault where
  /-- A numbered system error, perhaps about a file. -/
  | system (errno : Int) (reason : Text) (file : Option Text)
  /-- A system error that is only a text. -/
  | unnumbered (text : Text)
  /-- A word that the system cannot be given. -/
  | badWord (text : Text)
  deriving DecidableEq

namespace SpawnFault

def text : SpawnFault → Text
  | .system errno reason file =>
    let head := Text.ofString "[Errno " ++ Text.ofInt errno ++ Text.ofString "] " ++ reason
    match file with
    | none => head
    | some name => head ++ Text.ofString ": " ++ Text.quoted name
  | .unnumbered text | .badWord text => text

/-- The reason on its own, unless it is empty. -/
def reason : SpawnFault → Text
  | .system errno reason file =>
    if reason = [] then (SpawnFault.system errno reason file).text else reason
  | fault => fault.text

def errno : SpawnFault → Option Int
  | .system errno _ _ => some errno
  | _ => none

def cause : SpawnFault → Cause
  | .system errno _ _ => .system (some errno)
  | .unnumbered _ => .system none
  | .badWord _ => .value

def failure (fault : SpawnFault) (command : List Value) (executable : Text) : Failure :=
  ⟨.spawn fault.errno (some fault.cause),
    Text.ofString "spawn " ++ executable ++ Text.ofString " failed: " ++ fault.reason,
    Failure.commandDetails command⟩

end SpawnFault

/-- What the system does with a command whose words are in order. -/
inductive Spawn where
  | starts (behaviour : Behaviour)
  | fails (fault : SpawnFault)
  | refuses (refusal : Refusal)
  deriving DecidableEq

namespace Spawn

def nulWord : SpawnFault := .badWord (Text.ofString "embedded null byte")

/-- The words of a command, or what is wrong with the first one that is not in order. -/
def checkWords : List Value → Except Spawn (List Text)
  | [] => .ok []
  | v :: vs =>
    match v.word with
    | .error refusal => .error (.refuses refusal)
    | .ok t =>
      if .char '\x00' ∈ t then .error (.fails nulWord)
      else (checkWords vs).map (t :: ·)

/-- What comes of a command: its own first fault, or else what the system does; with the command
as a line of text when it has one. -/
def attempt (system : Spawn) (command : List Value) : Text × Spawn :=
  match checkWords command with
  | .error fault => ([], fault)
  | .ok ts => (Shell.join ts, system)

end Spawn

end JarLaunch
