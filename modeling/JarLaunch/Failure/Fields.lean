import JarLaunch.Failure.Account

/-! Accounts made by hand from named fields. Each kind asks for some fields, allows others, and
hands every field it does not know to the general kind, which refuses it. -/
namespace JarLaunch

namespace FailureKind

def required : FailureKind → List String
  | .general | .spawn => ["message"]
  | .signalled => ["message", "signal"]
  | .exited => ["message", "returncode"]
  | .timedOut => []

def known : FailureKind → List String
  | .general => ["message"]
  | .spawn => ["message", "errno"]
  | .signalled => ["message", "signal"]
  | .exited => ["message", "returncode"]
  | .timedOut => ["message", "timeout", "returncode"]

end FailureKind

inductive FieldError where
  | missing (kind : FailureKind) (fields : List String)
  | unknown (field : String)
  deriving DecidableEq

/-- Field names as a sentence lists them; no kind asks for more than two. -/
def FieldError.listed (fields : List String) : String :=
  " and ".intercalate (fields.map fun f => "'" ++ f ++ "'")

def FieldError.message : FieldError → Text
  | .missing kind fields =>
    let plural := if fields.length = 1 then "" else "s"
    kind.label ++ ".__init__() missing " ++ Nat.repr fields.length ++
      " required positional argument" ++ plural ++ ": " ++ listed fields
  | .unknown field => "LaunchError.__init__() got an unexpected keyword argument '" ++ field ++ "'"

structure Fields where
  details : List (String × Value)
  others : List (String × Value)

namespace Fields

def has (fields : Fields) (name : String) : Bool := (fields.others.lookup name).isSome

def get (fields : Fields) (name : String) : Value := (fields.others.lookup name).getD .absent

def timeoutMessage : Value := .text (Text.ofString "Command timed out")

def particulars (fields : Fields) : FailureKind → Particulars
  | .general => .general
  | .spawn => .spawn (fields.get "errno")
  | .signalled => .signalled (fields.get "signal")
  | .exited => .exited (fields.get "returncode")
  | .timedOut => .timedOut (fields.get "timeout") (fields.get "returncode")

/-- An account of a kind. The general kind looks for unknown fields first, the others look for
missing ones first. -/
def build (kind : FailureKind) (fields : Fields) : Except FieldError Account := do
  let missing := kind.required.filter fun name => !fields.has name
  let unknown := fields.others.find? fun f => f.1 ∉ kind.known
  let incomplete : Except FieldError Unit :=
    if missing.isEmpty then .ok () else .error (.missing kind missing)
  let excess : Except FieldError Unit :=
    match unknown with
    | none => .ok ()
    | some f => .error (.unknown f.1)
  if kind = .general then do excess; incomplete else do incomplete; excess
  return ⟨fields.particulars kind, (fields.others.lookup "message").getD timeoutMessage,
    fields.details⟩

end Fields

end JarLaunch
