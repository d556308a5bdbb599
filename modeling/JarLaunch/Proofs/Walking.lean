import JarLaunch.Proofs.Segments
import Mathlib.Logic.Relation

/-! Walking along a path. A walker takes the components one by one, and puts the text of a link in
the place of a link. Such a walk ends exactly if no link is met that leads back to itself, and that
is when following the path reaches a place. -/
namespace JarLaunch

/-- What a component is to somebody in a directory. -/
inductive Component where
  | blank
  | above
  | entry
  | link (link : Link)

def component (tree : List Link) (directory : List Text) (name : Text) : Component :=
  if !Path.names name then .blank
  else if name = Path.above then .above
  else
    match tree.find? (·.place = directory ++ [name]) with
    | none => .entry
    | some link => .link link

/-- A path being walked: the place that has been reached, and the components still to be taken. -/
structure Position where
  directory : List Text
  pieces : List Text

def Position.ofText (file : Text) : Position := ⟨[], Path.segments file⟩

def Position.before (p : Position) (rest : List Text) : Position := ⟨p.directory, p.pieces ++ rest⟩

def Link.start (link : Link) : Position :=
  ⟨link.base link.place.dropLast, Path.segments link.target⟩

def Link.lead (tree free : List Link) (link : Link) : Resolution :=
  follow tree free link.start.directory link.start.pieces

/-- Go on from where a path has led, or take the rest of it into the loop. -/
def Resolution.andThen (r : Resolution) (rest : List Text) (go : List Text → Resolution) :
    Resolution :=
  match r with
  | .reached place => go place
  | .looped path => .looped (rejoin path rest)

section
variable {tree free : List Link} {directory rest : List Text} {name : Text} {link : Link}

theorem component_spec (tree : List Link) (directory : List Text) (name : Text) :
    match component tree directory name with
    | .blank => Path.names name = false
    | .above => name = Path.above
    | .entry => Path.names name ∧ name ≠ Path.above ∧
        tree.find? (·.place = directory ++ [name]) = none
    | .link link => Path.names name ∧ name ≠ Path.above ∧
        tree.find? (·.place = directory ++ [name]) = some link := by
  unfold component
  by_cases named : Path.names name
  · by_cases up : name = Path.above
    · simp [up, show Path.names Path.above from rfl]
    · cases found : tree.find? (·.place = directory ++ [name]) with
      | none => simp [named, up]
      | some link => simp [named, up]
  · simp [named]

theorem component_blank_iff :
    component tree directory name = .blank ↔ Path.names name = false := by
  have spec := component_spec tree directory name
  cases is : component tree directory name with
  | blank => simpa [is] using spec
  | above =>
    simp only [is] at spec
    simp [spec, show Path.names Path.above from rfl]
  | entry | link =>
    simp only [is] at spec
    simp [spec.1]

theorem names_of_component {c : Component} (is : component tree directory name = c)
    (other : c ≠ .blank) : Path.names name := by
  subst is
  simpa [component_blank_iff] using other

theorem component_entry_iff : component tree directory name = .entry ↔
    Path.names name ∧ name ≠ Path.above ∧ ∀ link ∈ tree, link.place ≠ directory ++ [name] := by
  constructor
  · intro is
    have spec := component_spec tree directory name
    simpa [is, List.find?_eq_none] using spec
  · rintro ⟨named, other, unlinked⟩
    have none : tree.find? (·.place = directory ++ [name]) = none := by
      simpa [List.find?_eq_none] using unlinked
    simp [component, named, other, none]

theorem component_link (is : component tree directory name = .link link) :
    link ∈ tree ∧ link.place = directory ++ [name] := by
  have spec := component_spec tree directory name
  simp only [is] at spec
  exact ⟨List.mem_of_find?_eq_some spec.2.2, by simpa using List.find?_some spec.2.2⟩

theorem Link.start_eq (is : component tree directory name = .link link) :
    link.start = ⟨link.base directory, Path.segments link.target⟩ := by
  rw [Link.start, (component_link is).2, List.dropLast_concat]

theorem follow_nil : follow tree free directory [] = .reached directory := by
  rw [follow]

theorem follow_cons : follow tree free directory (name :: rest) =
    match component tree directory name with
    | .blank => follow tree free directory rest
    | .above => follow tree free directory.dropLast rest
    | .entry => follow tree free (directory ++ [name]) rest
    | .link link =>
      if link ∈ free then
        (link.lead tree (free.erase link)).andThen rest fun place => follow tree free place rest
      else .looped (rejoin (Path.mk .single (directory ++ [name])).text rest) := by
  have spec := component_spec tree directory name
  cases is : component tree directory name with
  | blank =>
    simp only [is] at spec
    simp [follow, spec]
  | above =>
    simp only [is] at spec
    simp [follow, spec, show Path.names Path.above from rfl]
  | entry =>
    simp only [is] at spec
    simp [follow, spec]
  | link link =>
    simp only [is] at spec
    simp only [follow, spec, Link.lead, Link.start_eq is]
    rfl

theorem follow_induction (tree : List Link)
    {motive : List Link → List Text → List Text → Prop}
    (nil : ∀ free directory, motive free directory [])
    (blank : ∀ free directory name rest, component tree directory name = .blank →
      motive free directory rest → motive free directory (name :: rest))
    (above : ∀ free directory name rest, component tree directory name = .above →
      motive free directory.dropLast rest → motive free directory (name :: rest))
    (entry : ∀ free directory name rest, component tree directory name = .entry →
      motive free (directory ++ [name]) rest → motive free directory (name :: rest))
    (link : ∀ free directory name rest link, component tree directory name = .link link →
      link ∈ free → motive (free.erase link) link.start.directory link.start.pieces →
      (∀ place, link.lead tree (free.erase link) = .reached place → motive free place rest) →
      motive free directory (name :: rest))
    (pending : ∀ free directory name rest link, component tree directory name = .link link →
      link ∉ free → motive free directory (name :: rest))
    (free : List Link) (directory pieces : List Text) : motive free directory pieces := by
  induction free, directory, pieces using follow.induct tree with
  | case1 free directory => exact nil free directory
  | case2 free directory name rest is ih => exact blank _ _ _ _ (by simp [component, is]) ih
  | case3 free directory rest is ih => exact above _ _ _ _ (by simp [component, is]) ih
  | case4 free directory name rest is other none ih =>
    exact entry _ _ _ _ (by simp [component, is, other, none]) ih
  | case5 free directory name rest is other l found member place reached inner ih =>
    have turned : component tree directory name = .link l := by simp [component, is, other, found]
    refine link _ _ _ _ l turned member (by rwa [Link.start_eq turned]) fun there led => ?_
    rw [Link.lead, Link.start_eq turned] at led
    cases reached.symm.trans led
    exact ih
  | case6 free directory name rest is other l found member path looped inner =>
    have turned : component tree directory name = .link l := by simp [component, is, other, found]
    refine link _ _ _ _ l turned member (by rwa [Link.start_eq turned]) fun there led => ?_
    rw [Link.lead, Link.start_eq turned] at led
    cases looped.symm.trans led
  | case7 free directory name rest is other l found gone =>
    exact pending _ _ _ _ l (by simp [component, is, other, found]) gone

theorem follow_turn (is : component tree directory name = .link link) (member : link ∈ free) :
    follow tree free directory (name :: rest) =
      (link.lead tree (free.erase link)).andThen rest fun place => follow tree free place rest := by
  rw [follow_cons, is]
  exact if_pos member

theorem follow_pending (is : component tree directory name = .link link) (gone : link ∉ free) :
    follow tree free directory (name :: rest) =
      .looped (rejoin (Path.mk .single (directory ++ [name])).text rest) := by
  rw [follow_cons, is]
  exact if_neg gone

end

namespace Position

/-- One component further; a link gives way to the text it holds. -/
def next (tree : List Link) : Position → Option Position
  | ⟨_, []⟩ => none
  | ⟨directory, name :: rest⟩ =>
    match component tree directory name with
    | .blank => some ⟨directory, rest⟩
    | .above => some ⟨directory.dropLast, rest⟩
    | .entry => some ⟨directory ++ [name], rest⟩
    | .link link => some (link.start.before rest)

def At (tree : List Link) (p : Position) (link : Link) : Prop :=
  ∃ name rest, p.pieces = name :: rest ∧ component tree p.directory name = .link link

end Position

def Walks (tree : List Link) : Position → Position → Prop :=
  Relation.ReflTransGen fun p q => p.next tree = some q

def Meets (tree : List Link) (p : Position) (link : Link) : Prop :=
  ∃ q, Walks tree p q ∧ q.At tree link

/-- Following the link leads back to it. -/
def Cyclic (tree : List Link) (link : Link) : Prop := Meets tree link.start link

def MeetsCycle (tree : List Link) (p : Position) : Prop :=
  ∃ link, Meets tree p link ∧ Cyclic tree link

def Acyclic (tree : List Link) : Prop := ∀ link ∈ tree, ¬ Cyclic tree link

section
variable {tree free : List Link} {p q : Position} {link : Link}

theorem Position.next_before (onward : p.next tree = some q) (rest : List Text) :
    (p.before rest).next tree = some (q.before rest) := by
  obtain ⟨directory, pieces⟩ := p
  cases pieces with
  | nil => cases onward
  | cons name pieces =>
    simp only [next, before, List.cons_append] at onward ⊢
    split at onward <;> cases onward <;> simp

theorem Position.At.before (is : p.At tree link) (rest : List Text) :
    (p.before rest).At tree link := by
  obtain ⟨name, pieces, split, found⟩ := is
  exact ⟨name, pieces ++ rest, by rw [Position.before, split, List.cons_append], found⟩

theorem Position.At.next (is : p.At tree link) :
    ∃ rest, p.next tree = some (link.start.before rest) := by
  obtain ⟨directory, pieces⟩ := p
  obtain ⟨name, rest, split, found⟩ := is
  dsimp only at split found
  subst split
  exact ⟨rest, by rw [Position.next, found]⟩

theorem Walks.before (walks : Walks tree p q) (rest : List Text) :
    Walks tree (p.before rest) (q.before rest) := by
  induction walks with
  | refl => exact .refl
  | tail _ onward ih => exact ih.tail (Position.next_before onward rest)

theorem MeetsCycle.of_walks (walks : Walks tree p q) (meets : MeetsCycle tree q) :
    MeetsCycle tree p := by
  obtain ⟨link, ⟨r, onward, is⟩, cyclic⟩ := meets
  exact ⟨link, ⟨r, walks.trans onward, is⟩, cyclic⟩

theorem MeetsCycle.before (meets : MeetsCycle tree p) (rest : List Text) :
    MeetsCycle tree (p.before rest) := by
  obtain ⟨link, ⟨q, walks, is⟩, cyclic⟩ := meets
  exact ⟨link, ⟨q.before rest, walks.before rest, is.before rest⟩, cyclic⟩

theorem Acyclic.not_meetsCycle (acyclic : Acyclic tree) : ¬ MeetsCycle tree p := by
  rintro ⟨link, ⟨q, -, name, rest, -, found⟩, cyclic⟩
  exact acyclic link (component_link found).1 cyclic

def Ends (tree : List Link) : Position → Prop := Acc fun q p => Position.next tree p = some q

theorem Walks.ends {place : List Text} (walks : Walks tree p ⟨place, []⟩) : Ends tree p := by
  induction walks using Relation.ReflTransGen.head_induction_on with
  | refl =>
    refine Acc.intro _ fun q onward => ?_
    cases onward
  | head step _ ih =>
    refine Acc.intro _ fun q onward => ?_
    cases step.symm.trans onward
    exact ih

theorem Ends.of_walks (ends : Ends tree p) (walks : Walks tree p q) : Ends tree q := by
  induction walks with
  | refl => exact ends
  | tail _ step ih => exact ih.inv step

/-- Whoever turns into a link that leads back to itself does not come out of it: each round only
puts more components behind the next. -/
theorem Cyclic.not_ends (cyclic : Cyclic tree link) (rest : List Text) :
    ¬ Ends tree (link.start.before rest) := by
  intro ends
  obtain ⟨q, walks, is⟩ := cyclic
  obtain ⟨more, onward⟩ := is.next
  have round (rest : List Text) : Relation.TransGen (fun q p => Position.next tree p = some q)
      (link.start.before (more ++ rest)) (link.start.before rest) := by
    have again : Position.next tree (q.before rest) = some (link.start.before (more ++ rest)) := by
      rw [Position.next_before onward]
      simp [Position.before]
    exact Relation.transGen_swap.mp (Relation.TransGen.tail' (walks.before rest) again)
  have never : ∀ p, Acc (Relation.TransGen fun q p => Position.next tree p = some q) p →
      ∀ rest, p ≠ link.start.before rest := by
    intro p acc
    induction acc with
    | intro p _ ih =>
      rintro rest rfl
      exact ih _ (round rest) (more ++ rest) rfl
  exact never _ ends.transGen rest rfl

theorem walks_of_reached {directory pieces place : List Text}
    (reached : follow tree free directory pieces = .reached place) :
    Walks tree ⟨directory, pieces⟩ ⟨place, []⟩ := by
  induction free, directory, pieces using follow_induction tree generalizing place with
  | nil free directory =>
    rw [follow_nil] at reached
    cases reached
    exact .refl
  | blank free directory name rest is ih
  | above free directory name rest is ih
  | entry free directory name rest is ih =>
    rw [follow_cons, is] at reached
    exact .head (by rw [Position.next, is]) (ih reached)
  | link free directory name rest link is member inner ih =>
    rw [follow_turn is member] at reached
    cases led : link.lead tree (free.erase link) with
    | looped path => rw [led] at reached; cases reached
    | reached there =>
      rw [led] at reached
      refine .head (by rw [Position.next, is]) ?_
      exact ((inner led).before rest).trans (ih there led reached)
  | pending free directory name rest link is gone =>
    rw [follow_pending is gone] at reached
    cases reached

/-- Every link that is not free is being followed, and following it has come to this position. -/
def Position.Beneath (tree free : List Link) (p : Position) : Prop :=
  ∀ link ∈ tree, link ∉ free → ∃ rest, Walks tree link.start (p.before rest)

theorem Position.Beneath.onward (under : p.Beneath tree free) (walks : Walks tree p q) :
    q.Beneath tree free := by
  intro link member gone
  obtain ⟨rest, led⟩ := under link member gone
  exact ⟨rest, led.trans (walks.before rest)⟩

theorem Position.Beneath.turn {rest : List Text}
    (under : (link.start.before rest).Beneath tree free) :
    link.start.Beneath tree (free.erase link) := by
  intro other member gone
  by_cases same : other = link
  · subst other
    exact ⟨[], by rw [Position.before, List.append_nil]; exact .refl⟩
  · rw [List.mem_erase_of_ne same] at gone
    obtain ⟨more, led⟩ := under other member gone
    exact ⟨rest ++ more, by simpa [Position.before] using led⟩

/-- A loop is found where a link is met that is being followed: it leads back to itself. -/
theorem meetsCycle_of_looped {directory pieces : List Text} {path : Text}
    (looped : follow tree free directory pieces = .looped path)
    (under : Position.Beneath tree free ⟨directory, pieces⟩) :
    MeetsCycle tree ⟨directory, pieces⟩ := by
  induction free, directory, pieces using follow_induction tree generalizing path with
  | nil free directory => rw [follow_nil] at looped; cases looped
  | blank free directory name rest is ih
  | above free directory name rest is ih
  | entry free directory name rest is ih =>
    rw [follow_cons, is] at looped
    have step : Walks tree ⟨directory, name :: rest⟩ _ := .single (by rw [Position.next, is])
    exact (ih looped (under.onward step)).of_walks step
  | link free directory name rest link is member inner ih =>
    have turned : Walks tree ⟨directory, name :: rest⟩ (link.start.before rest) :=
      .single (by rw [Position.next, is])
    rw [follow_turn is member] at looped
    cases led : link.lead tree (free.erase link) with
    | looped path => exact ((inner led (under.onward turned).turn).before rest).of_walks turned
    | reached there =>
      rw [led] at looped
      have through := turned.trans ((walks_of_reached led).before rest)
      exact (ih there led looped (under.onward through)).of_walks through
  | pending free directory name rest link is gone =>
    have here : Position.At tree ⟨directory, name :: rest⟩ link := ⟨name, rest, rfl, is⟩
    obtain ⟨more, led⟩ := under link (component_link is).1 gone
    exact ⟨link, ⟨_, .refl, here⟩, _, led, here.before more⟩

/-- A path leads to a place exactly if no link on the way leads back to itself. -/
theorem reached_iff {directory pieces : List Text} :
    (∃ place, follow tree tree directory pieces = .reached place) ↔
      ¬ MeetsCycle tree ⟨directory, pieces⟩ := by
  constructor
  · rintro ⟨place, reached⟩ ⟨link, ⟨q, walks, is⟩, cyclic⟩
    obtain ⟨rest, turned⟩ := is.next
    exact cyclic.not_ends rest ((walks_of_reached reached).ends.of_walks (walks.tail turned))
  · intro none
    cases led : follow tree tree directory pieces with
    | reached place => exact ⟨place, rfl⟩
    | looped path =>
      exact absurd (meetsCycle_of_looped led fun link member gone => absurd member gone) none

end

end JarLaunch
