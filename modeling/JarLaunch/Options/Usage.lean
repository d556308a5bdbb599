import JarLaunch.Options.Basic

/-! What the command line says about itself. -/
namespace JarLaunch

def usageLine : String := "usage: yjs [-h] [--java JAVA] [--timeout TIMEOUT] [-v] ...\n"

def helpText : String :=
  usageLine ++
  "\n" ++
  "Run the bundled YJS compiler jar. Arguments after '--' are passed to it\n" ++
  "verbatim.\n" ++
  "\n" ++
  "positional arguments:\n" ++
  "  args               Arguments for the compiler\n" ++
  "\n" ++
  "options:\n" ++
  "  -h, --help         show this help message and exit\n" ++
  "  --java JAVA        Java executable to use (default: $YJS_JAVA or 'java')\n" ++
  "  --timeout TIMEOUT  Terminate the compiler after this many seconds\n" ++
  "  -v, --verbose      Log launcher activity to stderr\n"

private def about (flag : Flag) : Text :=
  Text.ofString "argument " ++ Text.ofString flag.title ++ Text.ofString ": "

def UsageError.message : UsageError → Text
  | .ambiguous word matching =>
    Text.ofString "ambiguous option: " ++ word ++ Text.ofString " could match " ++
      Text.join (Text.ofString ", ") matching
  | .expectedValue flag => about flag ++ Text.ofString "expected one argument"
  | .ignoredValue flag value =>
    about flag ++ Text.ofString "ignored explicit argument " ++ Text.quoted value
  | .badTimeout value =>
    about .timeout ++ Text.ofString "invalid float value: " ++ Text.quoted value
  | .unrecognized words =>
    Text.ofString "unrecognized arguments: " ++ Text.join [.char ' '] words

structure Exit where
  status : Int
  stdout : Text
  stderr : Text
  deriving DecidableEq

/-- Help is a success; a complaint goes to the error stream below the usage line. -/
def Stop.exit : Stop → Exit
  | .help => ⟨0, Text.ofString helpText, []⟩
  | .usage error =>
    ⟨2, [], Text.ofString usageLine ++ Text.ofString "yjs: error: " ++ error.message ++
      Text.ofString "\n"⟩

end JarLaunch
