import JarLaunch.Failure.Basic

/-! The account of a failure: its kind and its fields, as anyone may have put them there. A launch
puts numbers into them; an account made by hand can hold any values, and only those who use a field
find out whether it is fit for the use. -/
namespace JarLaunch

/-- What a value was used for in vain, with the name of its type. -/
inductive Misuse where
  | negated (type : String)
  /-- Compared with a whole number. -/
  | compared (type : String)
  deriving DecidableEq

def Misuse.message : Misuse → Text
  | .negated type => "bad operand type for unary -: '" ++ type ++ "'"
  | .compared type => "'<=' not supported between instances of '" ++ type ++ "' and 'int'"

namespace Value

def ofNumber : Option Int → Value
  | none => .absent
  | some n => .integer n

/-- The negative of a number; a truth value counts as one. -/
def negated : Value → Except Misuse Value
  | .flag b => .ok (.integer (if b then -1 else 0))
  | .integer n => .ok (.integer (-n))
  | .double d => .ok (.double d.neg)
  | v => .error (.negated v.typeName)

def atMostZero : Value → Except Misuse Bool
  | .flag b => .ok !b
  | .integer n => .ok (n ≤ 0)
  | .double d => .ok d.atMostZero
  | v => .error (.compared v.typeName)

end Value

inductive FailureKind where
  | general
  | spawn
  | signalled
  | exited
  | timedOut
  deriving DecidableEq

namespace FailureKind

def all : List FailureKind := [.general, .spawn, .signalled, .exited, .timedOut]

def label : FailureKind → String
  | .general => "LaunchError"
  | .spawn => "SpawnError"
  | .signalled => "SignalledError"
  | .exited => "NonZeroExitError"
  | .timedOut => "LaunchTimeoutError"

def ofLabel? (label : String) : Option FailureKind := all.find? (·.label = label)

end FailureKind

/-- The fields that the kinds have beside message and details. -/
inductive Particulars where
  | general
  | spawn (errno : Value)
  | signalled (signal : Value)
  | exited (returncode : Value)
  | timedOut (timeout returncode : Value)

structure Account where
  particulars : Particulars
  message : Value
  details : List (String × Value)

namespace Account

def kind (a : Account) : FailureKind :=
  match a.particulars with
  | .general => .general
  | .spawn _ => .spawn
  | .signalled _ => .signalled
  | .exited _ => .exited
  | .timedOut _ _ => .timedOut

def text (a : Account) : Text := a.message.shown

/-- The return code that goes with a failure; a signal counts as its negative. -/
def returncode (a : Account) : Except Misuse Value :=
  match a.particulars with
  | .general | .spawn _ => .ok .absent
  | .signalled signal => signal.negated
  | .exited code | .timedOut _ code => .ok code

/-- The status that a return code stands for: one unless it is positive. -/
def statusOf (code : Value) : Except Misuse Value :=
  if code.isAbsent then .ok (.integer 1)
  else code.atMostZero.map fun low => if low then .integer 1 else code

def exitStatus (a : Account) : Except Misuse Value := a.returncode.bind statusOf

end Account

namespace Failure

def account (failure : Failure) : Account :=
  ⟨match failure.reason with
    | .general => .general
    | .spawn errno _ => .spawn (.ofNumber errno)
    | .signalled signal => .signalled (.integer signal)
    | .exited code => .exited (.ofNumber code)
    | .timedOut timeout code => .timedOut timeout (.ofNumber code),
    .text failure.message, failure.details⟩

end Failure

end JarLaunch
