import JarLaunch.Launcher
import JarLaunch.Proofs.Beside

/-! How the path of a jar is spelled. Its normal form keeps the root and the components that name
something, and nothing else. Commands are made from the normal form, and a walk passes over the
components that were dropped, so neither tells one spelling from another. -/
namespace JarLaunch

namespace Path

theorem segments_text {p : Path} (normal : p.Normal) (some : p.parts ≠ []) :
    segments (p.text.dropWhile (· = slash)) = p.parts := by
  rw [text, if_neg fun bare => some bare.2, dropWhile_append p.root (head?_join_ne_slash normal),
    segments_join some fun part member => (normal part member).2]

theorem text_bare (root : Root) :
    (Path.mk root []).text = if root = .relative then here else root.text := by
  cases root <;> rfl

/-- What a path means in a working directory. -/
def within (directory : List Text) (t : Text) : Text :=
  rejoin (Path.mk .single directory).text (segments t)

theorem filter_segments_within (directory : List Text) (t : Text) :
    (segments (within directory t)).filter names =
      (if rootOf t = .relative then (segments (Path.mk .single directory).text).filter names
        else []) ++ (segments t).filter names := by
  generalize base : (Path.mk .single directory).text = path
  rw [within, base, rejoin, join_segments]
  by_cases relative : rootOf t = .relative
  · rw [if_pos relative, if_neg (rootOf_eq_relative_iff.mp relative)]
    split
    next ends =>
      obtain ⟨front, rfl⟩ := List.getLast?_eq_some_iff.mp ends
      rw [List.append_assoc, List.singleton_append, segments_append, segments_append]
      simp [segments, names]
    next => rw [segments_append, List.filter_append]
  · have absolute : t.head? = some slash :=
      Decidable.of_not_not fun bare => relative (rootOf_eq_relative_iff.mpr bare)
    rw [if_neg relative, if_pos absolute, List.nil_append]

theorem filter_segments_within_text (directory : List Text) (t : Text) :
    (segments (within directory (ofText t).text)).filter names =
      (segments (within directory t)).filter names := by
  have root : rootOf (ofText t).text = rootOf t := congrArg Path.root (ofText_text_ofText t)
  have parts : (segments (ofText t).text).filter names = (segments t).filter names :=
    congrArg Path.parts (ofText_text_ofText t)
  simp only [filter_segments_within, root, parts]

end Path

/-- Paths that differ in components that name nothing lead to the same place. -/
theorem resolve_congr {tree : List Link} {s t : Text} (straight : ¬ MeetsCycle tree (.ofText s))
    (same : (Path.segments t).filter Path.names = (Path.segments s).filter Path.names) :
    resolve tree t = resolve tree s := by
  obtain ⟨place, reached⟩ := reached_iff.mpr straight
  have filtered := follow_filter.mpr reached
  rw [← same] at filtered
  rw [resolve_eq, resolve_eq, reached, follow_filter.mp filtered]

/-- The normal form of a jar is its own normal form and makes the same commands. It has the root of
the path it was made from and, in order, exactly the components other than empty ones and single
dots. Where no link leads back to itself, both lead to the same place from every directory. -/
theorem jar_spelling_harmless (s : Text) (javaPath timeout : Value) (callback : Option Handler)
    (installed : Path) :
    ∃ jar, (Launcher.create javaPath (.text s) timeout callback).jar installed = .ok jar ∧
      (Launcher.create javaPath (.text jar.text) timeout callback).jar installed = .ok jar ∧
      (∀ java args,
        (Launcher.create javaPath (.text jar.text) timeout callback).prepare java installed args =
          (Launcher.create javaPath (.text s) timeout callback).prepare java installed args) ∧
      Path.rootOf jar.text = Path.rootOf s ∧
      (let kept := (Path.segments s).filter fun piece => piece ≠ [] ∧ piece ≠ Path.here
       if kept = [] then
         jar.text = if Path.rootOf s = .relative then Path.here else (Path.rootOf s).text
       else Path.segments (jar.text.dropWhile (· = Path.slash)) = kept) ∧
      ∀ fs : FileSystem, Acyclic fs.links → ∀ directory,
        resolve fs.links (Path.within directory jar.text) =
          resolve fs.links (Path.within directory s) := by
  have again : Path.ofText (Path.ofText s).text = Path.ofText s := Path.ofText_text_ofText s
  refine ⟨Path.ofText s, rfl, congrArg Except.ok again, ?_, congrArg Path.root again, ?_, ?_⟩
  · intro java args
    simp only [Launcher.prepare, Launcher.jar, Launcher.create, again]
    rfl
  · intro kept
    have parts : (Path.ofText s).parts = kept :=
      List.filter_congr fun piece _ => by simp [Path.names]
    split
    next none =>
      have bare : Path.ofText s = ⟨Path.rootOf s, []⟩ := by rw [← none, ← parts]; rfl
      rw [bare, Path.text_bare]
    next some =>
      rw [Path.segments_text (Path.ofText_normal s) (parts ▸ some), parts]
  · intro fs acyclic directory
    exact resolve_congr acyclic.not_meetsCycle (Path.filter_segments_within_text directory s)

theorem linked_install_spelling_harmless :
    Acyclic linkedInstall.links ∧
      resolve linkedInstall.links
          (Path.within [Text.ofString "opt"]
            (Path.ofText (Text.ofString "yjs//./../lib/.//yjs.jar/")).text) =
        resolve linkedInstall.links
          (Path.within [Text.ofString "opt"] (Text.ofString "yjs//./../lib/.//yjs.jar/")) := by
  have acyclic : Acyclic linkedInstall.links := by decide
  obtain ⟨jar, made, -, -, -, -, same⟩ := jar_spelling_harmless
    (Text.ofString "yjs//./../lib/.//yjs.jar/") .absent .absent none ⟨.relative, []⟩
  cases made
  exact ⟨acyclic, same linkedInstall acyclic _⟩

end JarLaunch
