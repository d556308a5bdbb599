import JarLaunch.Proofs.Walking

/-! Following a path with a memory. Links that are being followed wait for their end, and where a
link has led is remembered, so no link is turned into twice. Each step takes up a component of the
path or of a link, or leaves a link, so there are no more steps than components and links. What
comes out is what following the path anew each time would give. -/
namespace JarLaunch

/-- The links of a file system. There is one at a place, and the root is none. -/
structure FileSystem where
  links : List Link
  apart : (links.map Link.place).Nodup
  rooted : ∀ link ∈ links, link.place ≠ []

theorem FileSystem.nodup (fs : FileSystem) : fs.links.Nodup :=
  List.Pairwise.of_map Link.place (fun _ _ other same => other (congrArg Link.place same)) fs.apart

structure Errand where
  link : Link
  rest : List Text

/-- Where the resolution of a path stands: the place reached, the components to take from there, the
links being followed from the innermost out, and where those that were followed have led. -/
structure Tour where
  directory : List Text
  pieces : List Text
  under : List Errand
  known : List (Link × List Text)

namespace Tour

def start (p : Position) : Tour := ⟨p.directory, p.pieces, [], []⟩

/-- The rest of a path and of all links being followed is kept as it is written. -/
def giveUp (under : List Errand) (path : Text) : Resolution :=
  .looped (under.foldl (fun path e => rejoin path e.rest) path)

def step (tree : List Link) : Tour → Resolution ⊕ Tour
  | ⟨directory, [], [], _⟩ => .inl (.reached directory)
  | ⟨directory, [], e :: under, known⟩ =>
    .inr ⟨directory, e.rest, under, (e.link, directory) :: known⟩
  | ⟨directory, name :: rest, under, known⟩ =>
    match component tree directory name with
    | .blank => .inr ⟨directory, rest, under, known⟩
    | .above => .inr ⟨directory.dropLast, rest, under, known⟩
    | .entry => .inr ⟨directory ++ [name], rest, under, known⟩
    | .link link =>
      match known.lookup link with
      | some place => .inr ⟨place, rest, under, known⟩
      | none =>
        if link ∈ under.map Errand.link then
          .inl (giveUp under (rejoin (Path.mk .single (directory ++ [name])).text rest))
        else .inr ⟨link.start.directory, link.start.pieces, ⟨link, rest⟩ :: under, known⟩

/-- At most so many steps; nothing comes back if they are not enough. -/
def run (tree : List Link) : Nat → Tour → Option Resolution
  | 0, _ => none
  | n + 1, t =>
    match t.step tree with
    | .inl r => some r
    | .inr later => run tree n later

inductive Moves (tree : List Link) : Tour → Tour → Prop
  | leave (directory : List Text) (e : Errand) (under : List Errand)
      (known : List (Link × List Text)) :
      Moves tree ⟨directory, [], e :: under, known⟩
        ⟨directory, e.rest, under, (e.link, directory) :: known⟩
  | pass {directory place rest : List Text} {name : Text} (under : List Errand)
      (known : List (Link × List Text))
      (same : ∀ free, follow tree free directory (name :: rest) = follow tree free place rest) :
      Moves tree ⟨directory, name :: rest, under, known⟩ ⟨place, rest, under, known⟩
  | reuse {directory place : List Text} {name : Text} {link : Link} {under : List Errand}
      {known : List (Link × List Text)} (rest : List Text)
      (is : component tree directory name = .link link) (there : (link, place) ∈ known) :
      Moves tree ⟨directory, name :: rest, under, known⟩ ⟨place, rest, under, known⟩
  | turn {directory : List Text} {name : Text} {link : Link} {under : List Errand}
      {known : List (Link × List Text)} (rest : List Text)
      (is : component tree directory name = .link link) (free : link ∉ under.map Errand.link)
      (fresh : link ∉ known.map Prod.fst) :
      Moves tree ⟨directory, name :: rest, under, known⟩
        ⟨link.start.directory, link.start.pieces, ⟨link, rest⟩ :: under, known⟩

inductive Stops (tree : List Link) : Tour → Resolution → Prop
  | arrive (directory : List Text) (known : List (Link × List Text)) :
      Stops tree ⟨directory, [], [], known⟩ (.reached directory)
  | loop {directory : List Text} {name : Text} {link : Link} {under : List Errand}
      (rest : List Text) (known : List (Link × List Text))
      (is : component tree directory name = .link link) (again : link ∈ under.map Errand.link) :
      Stops tree ⟨directory, name :: rest, under, known⟩
        (giveUp under (rejoin (Path.mk .single (directory ++ [name])).text rest))

theorem step_cases (tree : List Link) (t : Tour) :
    (∃ r, t.step tree = .inl r ∧ Stops tree t r) ∨
      ∃ later, t.step tree = .inr later ∧ Moves tree t later := by
  obtain ⟨directory, pieces, under, known⟩ := t
  cases pieces with
  | nil =>
    cases under with
    | nil => exact .inl ⟨_, rfl, .arrive directory known⟩
    | cons e under => exact .inr ⟨_, rfl, .leave directory e under known⟩
  | cons name rest =>
    cases is : component tree directory name with
    | blank | above | entry =>
      refine .inr ⟨⟨_, rest, under, known⟩, by rw [step, is], .pass under known fun free => ?_⟩
      rw [follow_cons, is]
    | link link =>
      cases memory : known.lookup link with
      | some place =>
        refine .inr ⟨⟨place, rest, under, known⟩, by simp only [step, is, memory], .reuse rest is ?_⟩
        obtain ⟨before, after, whole, -⟩ := List.lookup_eq_some_iff.mp memory
        simp [whole]
      | none =>
        have fresh : link ∉ known.map Prod.fst := by
          intro there
          obtain ⟨k, member, same⟩ := List.mem_map.mp there
          have other := List.lookup_eq_none_iff.mp memory k member
          simp [same] at other
        by_cases again : link ∈ under.map Errand.link
        · exact .inl ⟨_, by simp only [step, is, memory, if_pos again], .loop rest known is again⟩
        · exact .inr ⟨_, by simp only [step, is, memory, if_neg again], .turn rest is again fresh⟩

def remaining (touched : List Link) : List Link → Nat
  | [] => 0
  | link :: links =>
    (if link ∈ touched then 0 else (Path.segments link.target).length + 1) + remaining touched links

/-- As many steps as the path has components, and for each link as many as it has and one more. -/
def bound (tree : List Link) (p : Position) : Nat := p.pieces.length + remaining [] tree + 1

section
variable {tree touched touched' : List Link} {link : Link}

theorem remaining_mono (more : ∀ l ∈ touched, l ∈ touched') :
    remaining touched' tree ≤ remaining touched tree := by
  induction tree with
  | nil => exact Nat.le_refl _
  | cons l links ih =>
    simp only [remaining]
    by_cases there : l ∈ touched
    · rw [if_pos there, if_pos (more l there)]
      omega
    · rw [if_neg there]
      split <;> omega

theorem remaining_turn (member : link ∈ tree) (fresh : link ∉ touched) :
    remaining (link :: touched) tree + (Path.segments link.target).length + 1 ≤
      remaining touched tree := by
  induction tree with
  | nil => cases member
  | cons l links ih =>
    have rest : remaining (link :: touched) links ≤ remaining touched links :=
      remaining_mono fun _ => List.mem_cons_of_mem _
    simp only [remaining]
    rcases List.mem_cons.mp member with rfl | behind
    · rw [if_pos List.mem_cons_self, if_neg fresh]
      omega
    · have later := ih behind
      by_cases there : l ∈ touched
      · rw [if_pos (List.mem_cons_of_mem _ there), if_pos there]
        omega
      · rw [if_neg there]
        split <;> omega

end

def touched (t : Tour) : List Link := t.under.map Errand.link ++ t.known.map Prod.fst

def waiting : List Errand → Nat
  | [] => 0
  | e :: under => e.rest.length + 1 + waiting under

def load (tree : List Link) (t : Tour) : Nat :=
  t.pieces.length + waiting t.under + remaining t.touched tree

theorem load_move {tree : List Link} {t later : Tour} (moves : Moves tree t later) :
    later.load tree < t.load tree := by
  cases moves with
  | leave directory e under known =>
    have same : remaining (touched ⟨directory, e.rest, under, (e.link, directory) :: known⟩) tree ≤
        remaining (touched ⟨directory, [], e :: under, known⟩) tree := by
      refine remaining_mono fun l there => ?_
      simp only [touched, List.map_cons, List.mem_append, List.mem_cons] at there ⊢
      grind
    simp only [load, waiting, List.length_nil]
    omega
  | pass | reuse =>
    simp only [load, touched, List.length_cons]
    omega
  | turn rest is free fresh =>
    have turned := remaining_turn (component_link is).1
      fun there => (List.mem_append.mp there).elim free fresh
    simp only [load, touched, waiting, Link.start, List.map_cons, List.length_cons,
      List.cons_append]
    omega

def spare (tree : List Link) (under : List Errand) : List Link :=
  under.foldr (fun e free => free.erase e.link) tree

def unwind (tree : List Link) : List Errand → Resolution → Resolution
  | [], r => r
  | e :: under, r =>
    unwind tree under (r.andThen e.rest fun place => follow tree (spare tree under) place e.rest)

/-- What comes of a tour if everything still ahead is followed anew. -/
def outcome (tree : List Link) (t : Tour) : Resolution :=
  unwind tree t.under (follow tree (spare tree t.under) t.directory t.pieces)

theorem unwind_looped (tree : List Link) (under : List Errand) (path : Text) :
    unwind tree under (.looped path) = giveUp under path := by
  induction under generalizing path with
  | nil => rfl
  | cons e under ih => exact ih (rejoin path e.rest)

theorem mem_spare {tree : List Link} {link : Link} (nodup : tree.Nodup) (under : List Errand) :
    (spare tree under).Nodup ∧
      (link ∈ spare tree under ↔ link ∈ tree ∧ link ∉ under.map Errand.link) := by
  induction under with
  | nil => exact ⟨nodup, by simp [spare]⟩
  | cons e under ih =>
    obtain ⟨distinct, members⟩ := ih
    refine ⟨distinct.erase _, ?_⟩
    rw [spare, List.foldr_cons, ← spare, distinct.mem_erase_iff, members]
    simp only [List.map_cons, List.mem_cons, not_or]
    grind

/-- Following the innermost link goes on as `go` says, and following each of the others goes on when
the one inside it has come to its end; as long as the links `held` are free to be turned into. -/
def Led (tree : List Link) : List Link → List Errand → (List Link → Resolution) → Prop
  | _, [], _ => True
  | held, e :: under, go =>
    (∀ free, held ⊆ free → e.link.lead tree free = go free) ∧
      Led tree (e.link :: held) under fun free =>
        (e.link.lead tree (free.erase e.link)).andThen e.rest fun place =>
          follow tree free place e.rest

theorem Led.mono {tree held held' : List Link} {under : List Errand}
    {go go' : List Link → Resolution} (led : Led tree held under go) (more : held ⊆ held')
    (same : ∀ free, held' ⊆ free → go free = go' free) : Led tree held' under go' := by
  induction under generalizing held held' go go' with
  | nil => trivial
  | cons e under ih =>
    obtain ⟨first, others⟩ := led
    refine ⟨fun free there => (first free (List.Subset.trans more there)).trans (same free there), ?_⟩
    exact ih others (List.cons_subset_cons _ more) fun _ _ => rfl

/-- Whatever is remembered is so, whenever the links remembered are free, and the links being
followed are where the tour has come to. -/
structure Sound (tree : List Link) (t : Tour) : Prop where
  members : ∀ k ∈ t.known, k.1 ∈ tree
  inside : ∀ e ∈ t.under, e.link ∈ tree
  distinct : (t.under.map Errand.link).Nodup
  apart : ∀ k ∈ t.known, k.1 ∉ t.under.map Errand.link
  remembered : ∀ k ∈ t.known, ∀ free, t.known.map Prod.fst ⊆ free →
    k.1.lead tree (free.erase k.1) = .reached k.2
  led : Led tree (t.known.map Prod.fst) t.under fun free => follow tree free t.directory t.pieces

theorem start_sound (tree : List Link) (p : Position) : (start p).Sound tree where
  members := by simp [start]
  inside := by simp [start]
  distinct := by simp [start]
  apart := by simp [start]
  remembered := by simp [start]
  led := trivial

section
variable {tree : List Link} {t later : Tour} {r : Resolution}

theorem Sound.move (sound : t.Sound tree) (moves : Moves tree t later) : later.Sound tree := by
  cases moves with
  | leave directory e under known =>
    obtain ⟨members, inside, distinct, apart, remembered, first, others⟩ := sound
    simp only [List.map_cons, List.nodup_cons] at distinct apart
    have lead (free : List Link) (there : e.link :: known.map Prod.fst ⊆ free) :
        e.link.lead tree (free.erase e.link) = .reached directory := by
      refine (first _ ?_).trans follow_nil
      intro l member
      obtain ⟨k, known, rfl⟩ := List.mem_map.mp member
      have other : k.1 ≠ e.link := fun same => apart k known (same ▸ List.mem_cons_self)
      exact (List.mem_erase_of_ne other).mpr (there (List.mem_cons_of_mem _ member))
    refine ⟨?_, fun d member => inside d (List.mem_cons_of_mem _ member), distinct.2, ?_, ?_, ?_⟩
    · intro k member
      rcases List.mem_cons.mp member with rfl | earlier
      · exact inside e List.mem_cons_self
      · exact members k earlier
    · intro k member
      rcases List.mem_cons.mp member with rfl | earlier
      · exact distinct.1
      · exact fun there => apart k earlier (List.mem_cons_of_mem _ there)
    · intro k member free there
      rcases List.mem_cons.mp member with rfl | earlier
      · exact lead free there
      · exact remembered k earlier free fun l old => there (List.mem_cons_of_mem _ old)
    · refine others.mono (List.Subset.refl _) fun free there => ?_
      rw [lead free there]
      rfl
  | pass under known same =>
    obtain ⟨members, inside, distinct, apart, remembered, led⟩ := sound
    exact ⟨members, inside, distinct, apart, remembered,
      led.mono (List.Subset.refl _) fun free _ => same free⟩
  | reuse rest is member =>
    obtain ⟨members, inside, distinct, apart, remembered, led⟩ := sound
    refine ⟨members, inside, distinct, apart, remembered,
      led.mono (List.Subset.refl _) fun free there => ?_⟩
    rw [follow_turn is (there (List.mem_map_of_mem member)), remembered _ member free there]
    rfl
  | turn rest is free fresh =>
    obtain ⟨members, inside, distinct, apart, remembered, led⟩ := sound
    refine ⟨members, ?_, List.nodup_cons.mpr ⟨free, distinct⟩, ?_, remembered, ?_, ?_⟩
    · intro e member
      rcases List.mem_cons.mp member with rfl | behind
      · exact (component_link is).1
      · exact inside e behind
    · intro k member there
      rcases List.mem_cons.mp there with same | behind
      · have old := List.mem_map_of_mem (f := Prod.fst) member
        rw [same] at old
        exact fresh old
      · exact apart k member behind
    · intro free _
      rfl
    · refine led.mono (fun l old => List.mem_cons_of_mem _ old) fun free there => ?_
      exact follow_turn is (there List.mem_cons_self)

theorem outcome_move (nodup : tree.Nodup) (sound : t.Sound tree) (moves : Moves tree t later) :
    later.outcome tree = t.outcome tree := by
  cases moves with
  | leave directory e under known =>
    simp only [outcome, unwind]
    rw [follow_nil, Resolution.andThen]
  | pass under known same => simp only [outcome, same]
  | reuse rest is member =>
    rename_i directory place name link under known
    have free : known.map Prod.fst ⊆ spare tree under := by
      intro l there
      obtain ⟨k, old, rfl⟩ := List.mem_map.mp there
      exact (mem_spare nodup under).2.mpr ⟨sound.members k old, sound.apart k old⟩
    simp only [outcome]
    rw [follow_turn is (free (List.mem_map_of_mem member)), sound.remembered _ member _ free,
      Resolution.andThen]
  | turn rest is free fresh =>
    have spared := (mem_spare nodup _).2.mpr ⟨(component_link is).1, free⟩
    simp only [outcome, unwind]
    rw [follow_turn is spared]
    rfl

theorem outcome_stop (nodup : tree.Nodup) (stops : Stops tree t r) : t.outcome tree = r := by
  cases stops with
  | arrive directory known => rw [outcome, unwind, follow_nil]
  | loop rest known is again =>
    have gone := fun spared => ((mem_spare nodup _).2.mp spared).2 again
    rw [outcome, follow_pending is gone]
    exact unwind_looped tree _ _

/-- With enough steps a tour ends, and it ends as following everything anew would. -/
theorem run_eq_outcome {n : Nat} (nodup : tree.Nodup) (sound : t.Sound tree)
    (enough : t.load tree < n) : run tree n t = some (t.outcome tree) := by
  induction n generalizing t with
  | zero => omega
  | succ n ih =>
    rcases step_cases tree t with ⟨r, step, stops⟩ | ⟨later, step, moves⟩
    · rw [run, step, outcome_stop nodup stops]
    · have less := load_move moves
      rw [run, step, ← outcome_move nodup sound moves]
      exact ih (sound.move moves) (by omega)

end

/-- Following a path comes to an end within its bound. -/
theorem run_bound (fs : FileSystem) (p : Position) :
    run fs.links (bound fs.links p) (start p) =
      some (follow fs.links fs.links p.directory p.pieces) := by
  refine run_eq_outcome fs.nodup (start_sound fs.links p) ?_
  simp [load, bound, start, waiting, touched]

def arrives (tree : List Link) (p : Position) : Bool :=
  match run tree (bound tree p) (start p) with
  | some (.reached _) => true
  | _ => false

theorem arrives_iff (fs : FileSystem) (p : Position) :
    arrives fs.links p ↔ ¬ MeetsCycle fs.links p := by
  rw [arrives, run_bound, ← show _ ↔ ¬ MeetsCycle fs.links p from reached_iff]
  cases follow fs.links fs.links p.directory p.pieces <;> simp

end Tour

instance (fs : FileSystem) (p : Position) : Decidable (MeetsCycle fs.links p) :=
  decidable_of_iff (¬ Tour.arrives fs.links p) (by rw [Tour.arrives_iff, Classical.not_not])

theorem acyclic_iff (fs : FileSystem) :
    Acyclic fs.links ↔ ∀ link ∈ fs.links, ¬ MeetsCycle fs.links link.start := by
  constructor
  · intro acyclic link _
    exact acyclic.not_meetsCycle
  · intro none link member cyclic
    exact none link member ⟨link, cyclic, cyclic⟩

instance (fs : FileSystem) : Decidable (Acyclic fs.links) :=
  decidable_of_iff _ (acyclic_iff fs).symm

end JarLaunch
