import JarLaunch.Options.Usage
import JarLaunch.World

/-! The command line: read the options, launch the command, wait for it, and end with its
status. -/
namespace JarLaunch.CommandLine

/-- Words after the separator are never looked at. -/
def separator : Word := Text.ofString "--"

structure Ending where
  exit : Exit
  /-- The commands that were started. -/
  spawned : List (List Value)

inductive Outcome where
  | exits (ending : Ending)
  /-- The launch was refused, and so is the command line. -/
  | escapes (refusal : Refusal)
  /-- The command never ends. -/
  | hangs

/-- The options of a command line, the words after the separator added to its arguments. -/
def read (argv : List Word) : Except Stop Options :=
  match argv.dropWhile (· ≠ separator) with
  | [] => Options.parse argv
  | _ :: tail =>
    (Options.parse (argv.takeWhile (· ≠ separator))).map fun o => { o with args := o.args ++ tail }

structure Setting where
  site : Site
  /-- What the system does with the command. -/
  spawn : Spawn
  /-- What stands at the beginning of a full log line. -/
  stamp : Text

/-- A log record as a line: in full, or bare and from warnings up. -/
def logLine (stamp : Text) (verbose : Bool) (level : Level) (text : Text) : Text :=
  if verbose then
    stamp ++ Text.ofString (" yjs.launcher " ++ level.name ++ " ") ++ text ++ [.char '\n']
  else if level = .debug then []
  else text ++ [.char '\n']

def stdoutOf : Event → Text
  | .out text => text
  | _ => []

def stderrOf (stamp : Text) (verbose : Bool) : Event → Text
  | .err text => text
  | .log level text => logLine stamp verbose level text
  | .raised _ => logLine stamp verbose .error handlerRaised
  | _ => []

/-- The status starts out as success, and the handler sets it when it is called. -/
def status (l : Launch) : Int :=
  match l.calls.getLast? with
  | none => 0
  | some (_, completion) => exitStatus completion.failure

def launcherName : String := "launcher"

def world (site : Site) (o : Options) : World :=
  World.create (.text site.java) site.jar
    [(launcherName, Launcher.create o.java .absent o.timeout none)] []

def target (spawn : Spawn) (o : Options) : Target :=
  ⟨launcherName, .own (.list (o.args.map .text)), spawn⟩

def ending (stamp : Text) (verbose : Bool) (l : Launch) : Ending :=
  let events := l.trace.map Entry.event
  ⟨⟨status l, events.flatMap stdoutOf, events.flatMap (stderrOf stamp verbose)⟩,
    if l.child.isSome then [l.command] else []⟩

def launch (s : Setting) (o : Options) : Outcome :=
  let launched := (world s.site o).launch (target s.spawn o) (some .prints)
  match launched.outcome with
  | .error refusal => .escapes refusal
  | .ok _ =>
    match (launched.world.drain launcherName).bind (·.runs.findSome? Run.launch?) with
    | none => .hangs
    | some l => .exits (ending s.stamp o.verbose l)

def run (s : Setting) (argv : List Word) : Outcome :=
  match read argv with
  | .error stop => .exits ⟨stop.exit, []⟩
  | .ok o => launch s o

end JarLaunch.CommandLine
