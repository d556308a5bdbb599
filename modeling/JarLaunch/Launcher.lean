import JarLaunch.Launch
import JarLaunch.Path.Links

/-! Where the runtime and the jar are found, the settings of a launcher, and how a launch is
prepared with them. -/
namespace JarLaunch

def jarName : Text := Text.ofString "yjs.jar"

def defaultJava : Text := Text.ofString "java"

structure Site where
  java : Text
  jar : Path
  deriving DecidableEq

namespace Site

/-- The jar stands in the directory of the installed sources, links resolved. -/
def jarBeside (tree : List Link) (file : Text) : Path :=
  (resolve tree file).parent.child jarName

/-- The executable comes from the environment if it says anything, even an empty text. -/
def ofSources (environment : Option Text) (tree : List Link) (file : Text) : Site :=
  ⟨environment.getD defaultJava, jarBeside tree file⟩

end Site

structure Launcher where
  /-- The executable; absent means the default one as it stands when a launch is made. -/
  javaPath : Value := .absent
  /-- The jar; absent means the one that is installed. -/
  jarPath : Value := .absent
  timeout : Value := .absent
  /-- The handler of launches that are given none; nothing if there is nothing to call. -/
  callback : Option Handler := some .prints

namespace Launcher

/-- A new launcher prints what is completed, unless it is given a handler that counts. -/
def create (javaPath jarPath timeout : Value) (callback : Option Handler) : Launcher :=
  ⟨javaPath, jarPath, timeout, Handler.choose callback (some .prints)⟩

def executable (launcher : Launcher) (java : Value) : Value :=
  if launcher.javaPath.isAbsent then java else launcher.javaPath

def jar (launcher : Launcher) (installed : Path) : Except Refusal Path :=
  match launcher.jarPath with
  | .absent => .ok installed
  | .text t => .ok (Path.ofText t)
  | .path p => .ok p
  | .bytes _ => .error .jarOfBytes
  | v => .error (.notAWord v.typeName)

def handlerFor (launcher : Launcher) (name : String) (given : Option Handler) :
    Option Handler × Recipient :=
  if given.any Handler.counts then (given, .run) else (launcher.callback, .launcher name)

end Launcher

/-- A command about to be started, and what the preparation left of its arguments. -/
structure Prepared where
  command : Except Refusal (List Value)
  args : Arguments

/-- Put a command together. The jar is looked at before the arguments are touched. -/
def Launcher.prepare (launcher : Launcher) (java : Value) (installed : Path) (args : Arguments) :
    Prepared :=
  match launcher.jar installed with
  | .error refusal => ⟨.error refusal, args⟩
  | .ok jar =>
    ⟨(args.withJar jar.text).map (launcher.executable java :: ·), args.afterJar jar.text⟩

namespace Launch

def executableText (command : List Value) : Text := (command.head?.getD .absent).shown

def startedText (pid : Nat) (line : Text) : Text :=
  Text.ofString "Started pid " ++ Text.ofNat pid ++ Text.ofString ": " ++ line

def notStartedText (command : List Value) (fault : SpawnFault) : Text :=
  Text.ofString "Could not start " ++ executableText command ++ Text.ofString ": " ++ fault.text

/-- A launch as it stands when it has just been made. -/
def create (launcher : String) (handler : Option Handler × Recipient) (now : Instant) (pid : Nat)
    (command : List Value) (spawn : Spawn) : Except Refusal Launch :=
  let blank (line : Text) (child : Option Child) (stage : Stage) (event : Event) : Launch :=
    ⟨launcher, command, line, handler.2, handler.1, child, {}, stage, now, [⟨now, event⟩], [], []⟩
  match spawn.attempt command with
  | (_, .refuses refusal) => .error refusal
  | (line, .fails fault) =>
    .ok (blank line none (.unstarted (fault.failure command (executableText command)))
      (.log .warning (notStartedText command fault)))
  | (line, .starts behaviour) =>
    .ok (blank line (some (Child.start pid now behaviour)) .fresh
      (.log .debug (startedText pid line)))

end Launch

end JarLaunch
