import JarLaunch.Spawn

/-! What a launch is asked to do, and the handlers of its completion. The arguments of a launch come
in a container of the caller's. The jar goes in front of them: a mutable sequence is extended in
place, any other container is copied. -/
namespace JarLaunch

def jarFlag : Text := Text.ofString "-jar"

inductive Arguments where
  | list (vs : List Value)
  | tuple (vs : List Value)
  | queue (vs : List Value)
  | userList (vs : List Value)
  | iterator (vs : List Value)
  | text (t : Text)
  | bytes (bs : List UInt8)
  | buffer (bs : List UInt8)
  | nothing
  | number (n : Int)

namespace Arguments

def jarWords (jar : Text) : List Value := [.text jarFlag, .text jar]

private def byteValues (bs : List UInt8) : List Value := bs.map fun b => .integer b.toNat

/-- The arguments of the command with the jar in front, or why there are none. -/
def withJar (jar : Text) : Arguments → Except Refusal (List Value)
  | .list vs | .tuple vs | .userList vs | .iterator vs => .ok (jarWords jar ++ vs)
  | .queue _ => .error .noInsertion
  | .text t => .ok (jarWords jar ++ t.map fun m => .text [m])
  | .bytes bs => .ok (jarWords jar ++ byteValues bs)
  | .buffer _ => .error .noText
  | .nothing => .error (.notIterable "NoneType")
  | .number _ => .error (.notIterable "int")

/-- The container afterwards: only the mutable sequences that take an insertion have changed. -/
def afterJar (jar : Text) : Arguments → Arguments
  | .list vs => .list (jarWords jar ++ vs)
  | .userList vs => .userList (jarWords jar ++ vs)
  | args => args

end Arguments

/-- Where the arguments of a launch come from: a container of its own, or a list that several
launches share by name. -/
inductive Source where
  | own (args : Arguments)
  | shared (name : String)

/-- A launch to be made: on which launcher, with which arguments, and what the system will do. -/
structure Target where
  launcher : String
  source : Source
  spawn : Spawn

/-- A completion handler, by what it does with its call. Delays are in milliseconds. -/
inductive Handler where
  /-- Records the call. -/
  | records
  /-- Records the call, then fails. -/
  | fails
  /-- Records the call, then gives up. -/
  | cancels
  /-- Records the call and returns a plain value. -/
  | returns
  /-- Records the call and returns work that takes a while. -/
  | lingers (delay : Nat)
  /-- Takes a while, then records the call. -/
  | dozes (delay : Nat)
  /-- Takes a while, records the call, then fails. -/
  | dozesThenFails (delay : Nat)
  /-- Records the call, but counts as no handler where one is chosen. -/
  | hollow
  /-- Cannot take the call. -/
  | misfits
  /-- Writes the output and the failure to the standard streams. -/
  | prints
  /-- Records the call, then makes a launch of its own. -/
  | launches (target : Target) (handler : Option Handler)

namespace Handler

/-- Does a handler count where one is chosen? -/
def counts : Handler → Bool
  | .hollow => false
  | _ => true

/-- The first choice if it counts, and otherwise the second whatever it is. -/
def choose (first second : Option Handler) : Option Handler :=
  match first with
  | some h => if h.counts then some h else second
  | none => second

end Handler

inductive HandlerFault where
  | runtime
  | key
  | type
  deriving DecidableEq

structure Completion where
  failure : Option Failure
  stdout : List UInt8
  stderr : List UInt8

/-- What the printing handler looks at: the output, and the text of the failure if there is one. -/
structure Printout where
  message : Option Text
  stdout : List UInt8
  stderr : List UInt8
  deriving DecidableEq

def Completion.printout (c : Completion) : Printout :=
  ⟨c.failure.map Failure.message, c.stdout, c.stderr⟩

namespace Printout

def complaint (message : Text) : Text :=
  Text.ofString "exec error: " ++ message ++ Text.ofString "\n"

def out (p : Printout) : Text := Text.ofChars (Utf8.decode p.stdout)

def err (p : Printout) : Text :=
  Text.ofChars (Utf8.decode p.stderr) ++ (p.message.map complaint).getD []

end Printout

end JarLaunch
