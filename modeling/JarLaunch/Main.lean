import JarLaunch.CommandLine

/-! The program. This build has no way to start processes: the system answers every command with
"Function not implemented", and the command line ends as it does whenever a command cannot be
started. -/
namespace JarLaunch

def noProcesses : Spawn := .fails (.system 38 (Text.ofString "Function not implemented") none)

def installedSources : Text := Text.ofString "/opt/yjs/launch"

private def write (stream : IO.FS.Stream) (t : Text) : IO Unit :=
  stream.write ⟨(Text.bytes t).toArray⟩

end JarLaunch

open JarLaunch in
def main (args : List String) : IO UInt32 := do
  let java ← IO.getEnv "YJS_JAVA"
  let site := Site.ofSources (java.map Text.ofString) [] installedSources
  let stamp := Text.ofNat (← IO.monoMsNow)
  match CommandLine.run ⟨site, noProcesses, stamp⟩ (args.map Text.ofString) with
  | .exits ending =>
    JarLaunch.write (← IO.getStdout) ending.exit.stdout
    JarLaunch.write (← IO.getStderr) ending.exit.stderr
    return ending.exit.status.toNat.toUInt32
  | .escapes refusal =>
    JarLaunch.write (← IO.getStderr) (refusal.message ++ [.char '\n'])
    return 1
  | .hangs => return 1
