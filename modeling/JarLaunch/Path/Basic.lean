import JarLaunch.Text.Basic

/-! Paths in their written normal form: empty components and single dots are dropped, double dots
stay because they may follow a link, and exactly two leading slashes are a root of their own. -/
namespace JarLaunch

inductive Root where
  | relative
  | single
  | double
  deriving DecidableEq

def Root.text : Root → Text
  | .relative => []
  | .single => [.char '/']
  | .double => [.char '/', .char '/']

structure Path where
  root : Root
  parts : List Text
  deriving DecidableEq

namespace Path

def slash : Mark := .char '/'

/-- A single dot names the directory itself. -/
def here : Text := [.char '.']

/-- A double dot names the directory above. -/
def above : Text := [.char '.', .char '.']

def segments : Text → List Text
  | [] => [[]]
  | m :: rest =>
    match segments rest with
    | [] => [[m]]
    | piece :: pieces => if m = slash then [] :: piece :: pieces else (m :: piece) :: pieces

/-- Does a component take part in a path? -/
def names (piece : Text) : Bool := piece ≠ [] && piece ≠ here

def rootOf (t : Text) : Root :=
  match (t.takeWhile (· = slash)).length with
  | 0 => .relative
  | 2 => .double
  | _ => .single

def ofText (t : Text) : Path := ⟨rootOf t, (segments t).filter names⟩

/-- A path with neither root nor component is written as a dot. -/
def text (p : Path) : Text :=
  if p.root = .relative ∧ p.parts = [] then here
  else p.root.text ++ Text.join [slash] p.parts

/-- The last component; empty for a bare root. -/
def name (p : Path) : Text := p.parts.getLast?.getD []

def parent (p : Path) : Path := { p with parts := p.parts.dropLast }

def child (p : Path) (name : Text) : Path := { p with parts := p.parts ++ [name] }

end Path

end JarLaunch
