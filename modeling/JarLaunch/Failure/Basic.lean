import JarLaunch.Value

/-! What a completion handler is told when a launch does not end well. -/
namespace JarLaunch

namespace Signal

def names : List String := [
  "SIGHUP", "SIGINT", "SIGQUIT", "SIGILL", "SIGTRAP", "SIGABRT", "SIGBUS", "SIGFPE", "SIGKILL",
  "SIGUSR1", "SIGSEGV", "SIGUSR2", "SIGPIPE", "SIGALRM", "SIGTERM", "SIGSTKFLT", "SIGCHLD",
  "SIGCONT", "SIGSTOP", "SIGTSTP", "SIGTTIN", "SIGTTOU", "SIGURG", "SIGXCPU", "SIGXFSZ",
  "SIGVTALRM", "SIGPROF", "SIGWINCH", "SIGIO", "SIGPWR", "SIGSYS"]

/-- Of the real-time signals only the first and the last have a name. -/
def name? : Int → Option String
  | .ofNat 34 => some "SIGRTMIN"
  | .ofNat 64 => some "SIGRTMAX"
  | .ofNat (n + 1) => names[n]?
  | _ => none

def name (signal : Int) : Text :=
  match name? signal with
  | some s => Text.ofString s
  | none => Text.ofString "signal " ++ Text.ofInt signal

end Signal

/-- What kept a command from being started: the system, perhaps with a number, or a word that the
system cannot be given. -/
inductive Cause where
  | system (errno : Option Int)
  | value
  deriving DecidableEq

inductive Reason where
  | general
  | spawn (errno : Option Int) (cause : Option Cause)
  | signalled (signal : Int)
  | exited (returncode : Option Int)
  | timedOut (timeout : Value) (returncode : Option Int)

structure Failure where
  reason : Reason
  message : Text
  details : List (String × Value)

namespace Failure

def returncode (failure : Failure) : Option Int :=
  match failure.reason with
  | .general | .spawn _ _ => none
  | .signalled signal => some (-signal)
  | .exited code | .timedOut _ code => code

/-- The status of a command line that ends with a failure: signals and commands that did not start
have no positive status of their own. -/
def exitStatus (failure : Failure) : Int :=
  match failure.returncode with
  | none => 1
  | some code => if code ≤ 0 then 1 else code

/-- Every failure of a launch names the command. -/
def commandDetails (command : List Value) : List (String × Value) := [("argv", .list command)]

def ofExit (command : List Value) (line : Text) (code : Int) : Option Failure :=
  if code = 0 then none
  else if code < 0 then
    some ⟨.signalled (-code), Text.ofString "Command failed: " ++ line ++
      Text.ofString " (killed by " ++ Signal.name (-code) ++ Text.ofString ")",
      commandDetails command⟩
  else
    some ⟨.exited (some code), Text.ofString "Command failed: " ++ line ++
      Text.ofString " (exit status " ++ Text.ofInt code ++ Text.ofString ")",
      commandDetails command⟩

def ofTimeout (command : List Value) (line : Text) (timeout : Value) (code : Option Int) :
    Failure :=
  ⟨.timedOut timeout code, Text.ofString "Command timed out after " ++ timeout.shown ++
    Text.ofString "s: " ++ line, commandDetails command⟩

/-- The failure behind a return code, when the command still has to be shown. -/
def ofCommandExit (command : List Value) (code : Int) : Except Refusal (Option Failure) :=
  if code = 0 then .ok none
  else (display command).map fun line => ofExit command line code

end Failure

/-- The status of a command line whose launch has ended. -/
def exitStatus : Option Failure → Int
  | none => 0
  | some failure => failure.exitStatus

end JarLaunch
