import JarLaunch.Path.Basic

/-! Resolving symbolic links. A tree is known by its links alone: any other name, whether or not it
exists, stands for itself. A double dot goes up from where the links led. A link met while it is
itself being followed ends the resolution, and what is left of the path is kept as written. -/
namespace JarLaunch

/-- A symbolic link: the resolved components of its own place, and the text it holds. -/
structure Link where
  place : List Text
  target : Text
  deriving DecidableEq

namespace Link

def isAbsolute (link : Link) : Bool := link.target.head? = some Path.slash

/-- Where following the link starts, when it stands in a directory. -/
def base (link : Link) (directory : List Text) : List Text :=
  if link.isAbsolute then [] else directory

end Link

/-- Where a path leads: to a resolved place, or into a loop of links, with the path as far as it
was resolved and the rest as written. -/
inductive Resolution where
  | reached (place : List Text)
  | looped (path : Text)
  deriving DecidableEq

/-- The unread pieces of a path after a path; pieces that begin with a slash are a path of their
own. -/
def rejoin (path : Text) (pieces : List Text) : Text :=
  let rest := Text.join [Path.slash] pieces
  if rest.head? = some Path.slash then rest
  else if path.getLast? = some Path.slash then path ++ rest
  else path ++ Path.slash :: rest

/-- Follow the components `rest` from a resolved directory. `free` are the links not being
followed at this point; entering a link takes it out of them. -/
def follow (tree free : List Link) (directory : List Text) : List Text → Resolution
  | [] => .reached directory
  | name :: rest =>
    if !Path.names name then follow tree free directory rest
    else if name = Path.above then follow tree free directory.dropLast rest
    else
      match tree.find? (·.place = directory ++ [name]) with
      | none => follow tree free (directory ++ [name]) rest
      | some link =>
        if link ∈ free then
          match follow tree (free.erase link) (link.base directory) (Path.segments link.target) with
          | .reached place => follow tree free place rest
          | .looped path => .looped (rejoin path rest)
        else .looped (rejoin (Path.mk .single (directory ++ [name])).text rest)
termination_by rest => (free.length, rest.length)
decreasing_by
  all_goals simp_wf
  all_goals try (apply Prod.Lex.right; simp)
  rename_i member
  apply Prod.Lex.left
  have positive := List.length_pos_of_mem member
  rw [List.length_erase_of_mem member]
  omega

/-- Take dots out of an absolute path without looking at any link. -/
def tidy (components : List Text) : List Text :=
  components.foldl (fun place name =>
    if !Path.names name then place
    else if name = Path.above then place.dropLast
    else place ++ [name]) []

def resolve (tree : List Link) (file : Text) : Path :=
  match follow tree tree [] (Path.segments file) with
  | .reached place => ⟨.single, place⟩
  | .looped path => ⟨Path.rootOf path, tidy (Path.segments path)⟩

/-- Add a link to a tree. Its place is written as a path, whose directory is found through the links
that are already there. -/
def plant (tree : List Link) (place target : Text) : List Link :=
  let path := Path.ofText place
  tree ++ [⟨(resolve tree path.parent.text).parts ++ [path.name], target⟩]

/-- The tree of links that are added one after the other, each with its place and what it holds. -/
def plantAll (links : List (Text × Text)) : List Link :=
  links.foldl (fun tree link => plant tree link.1 link.2) []

end JarLaunch
