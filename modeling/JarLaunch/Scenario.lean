import JarLaunch.World

/-! Scenarios: what is done to a world step by step, and what each step shows. -/
namespace JarLaunch

structure Change where
  javaPath : Option Value := none
  jarPath : Option Value := none
  timeout : Option Value := none
  callback : Option (Option Handler) := none

def Change.apply (change : Change) (launcher : Launcher) : Launcher where
  javaPath := change.javaPath.getD launcher.javaPath
  jarPath := change.jarPath.getD launcher.jarPath
  timeout := change.timeout.getD launcher.timeout
  callback := change.callback.getD launcher.callback

inductive Step where
  | run (target : Target) (handler : Option Handler)
  | sleep (ms : Nat)
  | drain (launcher : String)
  | set (launcher : String) (change : Change)
  | setJava (java : Value)
  | signal (number : Nat) (order : Order)

inductive Answer where
  | quiet
  /-- A launch: its number, what is left of its arguments, and the child's number or the refusal. -/
  | launched (number : Nat) (args : Arguments) (outcome : Except Refusal (Option Nat))
  /-- A signal found no process. -/
  | noProcess

structure Observed where
  number : Nat
  entry : Entry

structure Report where
  answer : Answer
  now : Instant
  pending : List (String × Nat)
  /-- For each launch: nothing without a child, and no code while the child runs. -/
  returncodes : List (Option (Option Int))
  events : List Observed

namespace World

/-- One step; nothing comes back if it never ends. -/
def perform (w : World) : Step → Option (World × Answer)
  | .run target handler =>
    let launched := w.launch target handler
    some (launched.world, .launched w.runs.length launched.args launched.outcome)
  | .sleep ms => (w.sleep ms).map (·, .quiet)
  | .drain launcher => (w.drain launcher).map (·, .quiet)
  | .set launcher change => some (w.configure launcher change.apply, .quiet)
  | .setJava java => some ({ w with java := java }, .quiet)
  | .signal number order =>
    match w.signal number order with
    | (w, true) => some (w, .quiet)
    | (w, false) => some (w, .noProcess)

/-- The events of each launch that an earlier state had not seen, launch by launch. -/
def eventsSince (w earlier : World) : List Observed :=
  w.runs.zipIdx.flatMap fun (r, i) =>
    let seen := ((earlier.runs[i]?).map fun e => e.trace.length).getD 0
    (r.trace.drop seen).map (⟨i, ·⟩)

def report (w earlier : World) (answer : Answer) : Report where
  answer := answer
  now := w.now
  pending := w.launchers.map fun l => (l.1, w.pending l.1)
  returncodes := w.runs.map (·.returncode w.now)
  events := w.eventsSince earlier

/-- Play the steps in order; nothing comes back if one never ends. -/
def play (w : World) : List Step → Option (List Report)
  | [] => some []
  | s :: steps => do
    let (later, answer) ← w.perform s
    return later.report w answer :: (← later.play steps)

end World

end JarLaunch
