import JarLaunch.Launcher
import JarLaunch.Proofs.Touring

/-! The jar beside the sources. Wherever a walk has come to, there are no dots and no links in what
it stands for, so a path that leads to a place is resolved to a path that leads there by itself. The
jar stands in the directory of that place. -/
namespace JarLaunch

section
variable {tree free : List Link} {p q : Position} {link : Link}

/-- A place that is written as it is: no dots in it, and no link on the way to it. -/
structure Canonical (tree : List Link) (place : List Text) : Prop where
  named : ∀ name ∈ place, Path.names name ∧ name ≠ Path.above
  apart : ∀ name ∈ place, Path.slash ∉ name
  unlinked : ∀ link ∈ tree, link.place ≠ [] → ¬ link.place <+: place

namespace Canonical
variable {place : List Text}

theorem nil : Canonical tree [] where
  named := by simp
  apart := by simp
  unlinked link _ some there := some (List.prefix_nil.mp there)

theorem dropLast (canonical : Canonical tree place) : Canonical tree place.dropLast where
  named name member := canonical.named name ((List.dropLast_prefix place).subset member)
  apart name member := canonical.apart name ((List.dropLast_prefix place).subset member)
  unlinked link member some there :=
    canonical.unlinked link member some (there.trans (List.dropLast_prefix place))

theorem enter {name : Text} (canonical : Canonical tree place)
    (is : component tree place name = .entry) (apart : Path.slash ∉ name) :
    Canonical tree (place ++ [name]) := by
  obtain ⟨named, other, free⟩ := component_entry_iff.mp is
  refine ⟨?_, ?_, ?_⟩
  · intro n member
    rcases List.mem_append.mp member with earlier | last
    · exact canonical.named n earlier
    · cases List.mem_singleton.mp last
      exact ⟨named, other⟩
  · intro n member
    rcases List.mem_append.mp member with earlier | last
    · exact canonical.apart n earlier
    · cases List.mem_singleton.mp last
      exact apart
  · intro link member some there
    rcases List.prefix_concat_iff.mp there with whole | earlier
    · exact free link member whole
    · exact canonical.unlinked link member some earlier

end Canonical

def Position.Sound (tree : List Link) (p : Position) : Prop :=
  Canonical tree p.directory ∧ ∀ piece ∈ p.pieces, Path.slash ∉ piece

theorem Position.Sound.next (sound : p.Sound tree) (step : p.next tree = some q) :
    q.Sound tree := by
  obtain ⟨directory, pieces⟩ := p
  obtain ⟨canonical, apart⟩ := sound
  cases pieces with
  | nil => cases step
  | cons name rest =>
    have first := apart name List.mem_cons_self
    have others : ∀ piece ∈ rest, Path.slash ∉ piece := fun piece member =>
      apart piece (List.mem_cons_of_mem _ member)
    cases is : component tree directory name with
    | blank =>
      rw [Position.next, is] at step
      cases step
      exact ⟨canonical, others⟩
    | above =>
      rw [Position.next, is] at step
      cases step
      exact ⟨canonical.dropLast, others⟩
    | entry =>
      rw [Position.next, is] at step
      cases step
      exact ⟨canonical.enter is first, others⟩
    | link link =>
      rw [Position.next, is] at step
      cases step
      constructor
      · dsimp only [Position.before]
        rw [Link.start_eq is, Link.base]
        split
        · exact .nil
        · exact canonical
      · intro piece member
        rcases List.mem_append.mp member with target | behind
        · exact Path.slash_not_mem_segments target
        · exact others piece behind

theorem Position.Sound.walks (sound : p.Sound tree) (walks : Walks tree p q) : q.Sound tree := by
  induction walks with
  | refl => exact sound
  | tail _ step ih => exact ih.next step

theorem canonical_of_reached {file : Text} {place : List Text}
    (reached : follow tree free [] (Path.segments file) = .reached place) : Canonical tree place := by
  have sound : (Position.ofText file).Sound tree :=
    ⟨.nil, fun piece => Path.slash_not_mem_segments⟩
  exact (sound.walks (walks_of_reached reached)).1

theorem follow_canonical {directory pieces : List Text}
    (canonical : Canonical tree (directory ++ pieces)) :
    follow tree free directory pieces = .reached (directory ++ pieces) := by
  induction pieces generalizing directory with
  | nil => rw [follow_nil, List.append_nil]
  | cons name rest ih =>
    obtain ⟨named, other⟩ := canonical.named name (by simp)
    have on : directory ++ name :: rest = directory ++ [name] ++ rest := by simp
    have entry : component tree directory name = .entry := by
      refine component_entry_iff.mpr ⟨named, other, fun link member there => ?_⟩
      refine canonical.unlinked link member (by simp [there]) ?_
      rw [there, on]
      exact List.prefix_append _ _
    rw [on] at canonical ⊢
    rw [follow_cons, entry]
    exact ih canonical

/-- Components that name nothing make no difference to where a path leads. -/
theorem follow_filter {directory pieces place : List Text} :
    follow tree free directory (pieces.filter Path.names) = .reached place ↔
      follow tree free directory pieces = .reached place := by
  induction free, directory, pieces using follow_induction tree with
  | nil free directory => rfl
  | blank free directory name rest is ih =>
    rw [follow_cons, is, List.filter_cons_of_neg (by simp [component_blank_iff.mp is])]
    exact ih
  | above free directory name rest is ih
  | entry free directory name rest is ih =>
    have named := names_of_component is (by simp)
    rw [List.filter_cons_of_pos named, follow_cons, is, follow_cons, is]
    exact ih
  | link free directory name rest link is member inner ih =>
    have named := names_of_component is (by simp)
    rw [List.filter_cons_of_pos named, follow_turn is member, follow_turn is member]
    cases led : link.lead tree (free.erase link) with
    | looped path => simp [Resolution.andThen]
    | reached there => exact ih there led
  | pending free directory name rest link is gone =>
    have named := names_of_component is (by simp)
    rw [List.filter_cons_of_pos named, follow_pending is gone, follow_pending is gone]
    simp

def Resolution.path : Resolution → Path
  | .reached place => ⟨.single, place⟩
  | .looped path => ⟨Path.rootOf path, tidy (Path.segments path)⟩

theorem resolve_eq (tree : List Link) (file : Text) :
    resolve tree file = (follow tree tree [] (Path.segments file)).path := by
  rw [resolve]
  cases follow tree tree [] (Path.segments file) <;> rfl

theorem head?_rejoin {path : Text} (absolute : path.head? = some Path.slash) (rest : List Text) :
    (rejoin path rest).head? = some Path.slash := by
  cases path with
  | nil => cases absolute
  | cons m marks =>
    unfold rejoin
    dsimp only
    split
    · assumption
    · split
      · exact absolute
      · exact absolute

theorem head?_looped {directory pieces : List Text} {path : Text}
    (looped : follow tree free directory pieces = .looped path) :
    path.head? = some Path.slash := by
  induction free, directory, pieces using follow_induction tree generalizing path with
  | nil free directory => rw [follow_nil] at looped; cases looped
  | blank free directory name rest is ih
  | above free directory name rest is ih
  | entry free directory name rest is ih =>
    rw [follow_cons, is] at looped
    exact ih looped
  | link free directory name rest link is member inner ih =>
    rw [follow_turn is member] at looped
    cases led : link.lead tree (free.erase link) with
    | looped within =>
      rw [led] at looped
      cases looped
      exact head?_rejoin (inner led) rest
    | reached there =>
      rw [led] at looped
      exact ih there led looped
  | pending free directory name rest link is gone =>
    rw [follow_pending is gone] at looped
    cases looped
    exact head?_rejoin rfl rest

theorem resolve_root (tree : List Link) (file : Text) : (resolve tree file).root ≠ .relative := by
  rw [resolve_eq]
  cases led : follow tree tree [] (Path.segments file) with
  | reached place => exact Root.noConfusion
  | looped path => exact fun relative => Path.rootOf_eq_relative_iff.mp relative (head?_looped led)

theorem resolve_reached {file : Text} (none : ¬ MeetsCycle tree (.ofText file)) :
    ∃ place, resolve tree file = ⟨.single, place⟩ ∧ Canonical tree place := by
  obtain ⟨place, reached⟩ := reached_iff.mpr none
  exact ⟨place, by rw [resolve_eq, reached]; rfl, canonical_of_reached reached⟩

theorem resolve_text {place : List Text} (canonical : Canonical tree place) :
    resolve tree (Path.mk .single place).text = ⟨.single, place⟩ := by
  have pieces : (Path.segments (Path.mk .single place).text).filter Path.names = place := by
    have normal : ∀ part ∈ place, Path.names part ∧ Path.slash ∉ part := fun part member =>
      ⟨(canonical.named part member).1, canonical.apart part member⟩
    have text : (Path.mk .single place).text =
        Root.single.text ++ Text.join [Path.slash] place := by
      rw [Path.text, if_neg (by simp)]
    rw [text, Path.filter_segments_append, Path.filter_segments_join normal]
  have reached : follow tree tree [] (Path.segments (Path.mk .single place).text) =
      .reached place := by
    rw [← follow_filter, pieces]
    exact follow_canonical canonical
  rw [resolve_eq, reached, Resolution.path]

end

/-- In every file system the resolution of the sources comes to an end, and the jar has an absolute
path with its own name at the end. If no link on the way leads back to itself, the directory of the
jar has no dots and no links in it, and the resolved sources have the same jar. -/
theorem jar_beside_real_sources (fs : FileSystem) (environment : Option Text) (rest : Text) :
    let file := Path.slash :: rest
    let site := Site.ofSources environment fs.links file
    (∃ r, Tour.run fs.links (Tour.bound fs.links (.ofText file)) (Tour.start (.ofText file)) = some r ∧
      site.jar = r.path.parent.child jarName) ∧
    site.jar.root ≠ .relative ∧ site.jar.name = jarName ∧
    (¬ MeetsCycle fs.links (.ofText file) →
      (∀ part ∈ site.jar.parent.parts, part ≠ Path.here ∧ part ≠ Path.above) ∧
      (∀ link ∈ fs.links, ¬ link.place <+: site.jar.parent.parts) ∧
      (Site.ofSources environment fs.links (resolve fs.links file).text).jar = site.jar) := by
  intro file site
  have directory : site.jar.parent = (resolve fs.links file).parent := by
    simp [site, Site.ofSources, Site.jarBeside, Path.parent, Path.child]
  refine ⟨⟨_, Tour.run_bound fs (.ofText file), ?_⟩, resolve_root fs.links file, ?_, ?_⟩
  · simp only [site, Site.ofSources, Site.jarBeside, resolve_eq]
    rfl
  · simp [site, Site.ofSources, Site.jarBeside, Path.name, Path.child]
  · intro none
    obtain ⟨place, resolved, canonical⟩ := resolve_reached none
    have above := canonical.dropLast
    rw [directory, resolved]
    refine ⟨fun part member => ?_, fun link member => ?_, ?_⟩
    · obtain ⟨named, other⟩ := above.named part member
      exact ⟨fun same => by simp [same, Path.names] at named, other⟩
    · exact above.unlinked link member (fs.rooted link member)
    · simp only [site, Site.ofSources, Site.jarBeside, resolved, resolve_text canonical]

/-- An installation behind two links, one of them going up from where the other leads. -/
def linkedInstall : FileSystem where
  links := [⟨[Text.ofString "opt"], Text.ofString "/usr/share"⟩,
    ⟨[Text.ofString "usr", Text.ofString "share", Text.ofString "yjs"],
      Text.ofString "../lib/../yjs-1"⟩]
  apart := by decide
  rooted := by decide

theorem linked_install_jar_beside :
    ¬ MeetsCycle linkedInstall.links (.ofText (Text.ofString "/opt/./yjs/utils.py")) ∧
      ∀ link ∈ linkedInstall.links, ¬ link.place <+:
        (Site.ofSources none linkedInstall.links
          (Text.ofString "/opt/./yjs/utils.py")).jar.parent.parts := by
  have straight :
      ¬ MeetsCycle linkedInstall.links (.ofText (Text.ofString "/opt/./yjs/utils.py")) := by
    decide
  obtain ⟨-, -, -, real⟩ := jar_beside_real_sources linkedInstall none
    (Text.ofString "opt/./yjs/utils.py")
  exact ⟨straight, (real straight).2.1⟩

end JarLaunch
