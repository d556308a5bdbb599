import JarLaunch.Proofs.Grammar

/-! Command lines side by side. A line that is accepted falls into options and arguments, and its
options are accepted alone. Lines of options may be put one after the other: an option does not look
at what was taken before it, so each line gives the values it would give alone, and where two lines
give the same option the later one counts. -/
namespace JarLaunch

def WordClass.flag? : WordClass → Option Flag
  | .option flag _ _ => some flag
  | .operand | .unknown => none

namespace Word

/-- The option that a word is, in full, abbreviated or at the head of a cluster. -/
def flag? (w : Word) : Option Flag :=
  match w.classify with
  | .ok c => c.flag?
  | .error _ => none

theorem isBare_iff {w : Word} :
    w.isBare = true ↔ w = Text.ofString "--" ∨ Text.ofString "--=" <+: w := by
  constructor
  · intro bare
    unfold isBare at bare
    split at bare
    · exact .inl rfl
    · rename_i value
      exact .inr ⟨value, rfl⟩
    · cases bare
  · rintro (rfl | ⟨value, rfl⟩) <;> rfl

end Word

namespace Options

def gives (line : List Word) (flag : Flag) : Bool := line.any fun w => w.flag? = some flag

section
variable {xs : List Word} {cs front rest : List (Word × WordClass)}

theorem gives_eq (classified : classifyAll xs = .ok cs) (flag : Flag) :
    gives xs flag = cs.any fun c => c.2.flag? = some flag := by
  induction xs generalizing cs with
  | nil =>
    cases classified
    rfl
  | cons x xs ih =>
    rw [classifyAll_cons] at classified
    obtain ⟨c, is, following⟩ := bind_eq_ok classified
    obtain ⟨rest, known, done⟩ := bind_eq_ok following
    cases done
    have first : x.flag? = c.flag? := by rw [Word.flag?, is]
    rw [gives, List.any_cons, List.any_cons, first]
    exact congrArg _ (ih known)

theorem classifyAll_parts (classified : classifyAll xs = .ok (front ++ rest)) :
    xs = front.map Prod.fst ++ rest.map Prod.fst ∧
      classifyAll (front.map Prod.fst) = .ok front ∧
      classifyAll (rest.map Prod.fst) = .ok rest := by
  induction front generalizing xs with
  | nil =>
    have words := classifyAll_words classified
    rw [← words] at classified
    exact ⟨words.symm, rfl, classified⟩
  | cons c front ih =>
    cases xs with
    | nil => cases classified
    | cons x xs =>
      rw [classifyAll_cons] at classified
      obtain ⟨d, is, following⟩ := bind_eq_ok classified
      obtain ⟨ds, known, done⟩ := bind_eq_ok following
      obtain ⟨rfl, rfl⟩ := List.cons.inj (Except.ok.inj done)
      obtain ⟨line, alone, after⟩ := ih known
      refine ⟨congrArg (x :: ·) line, ?_, after⟩
      rw [List.map_cons, classifyAll_cons, is, alone]
      rfl

theorem classify_of_classifyAll {w : Word} {c : WordClass}
    (classified : classifyAll (w :: xs) = .ok ((w, c) :: cs)) : w.classify = .ok c := by
  rw [classifyAll_cons] at classified
  obtain ⟨d, is, following⟩ := bind_eq_ok classified
  obtain ⟨ds, -, done⟩ := bind_eq_ok following
  cases done
  exact is

end

structure Given where
  java : Option Value := none
  timeout : Option Value := none
  verbose : Bool := false

namespace Given

def apply (g : Given) (o : Options) : Options :=
  { o with
    java := g.java.getD o.java
    timeout := g.timeout.getD o.timeout
    verbose := o.verbose || g.verbose }

def andThen (first second : Given) : Given where
  java := second.java.or first.java
  timeout := second.timeout.or first.timeout
  verbose := first.verbose || second.verbose

theorem apply_andThen (first second : Given) (o : Options) :
    (first.andThen second).apply o = second.apply (first.apply o) := by
  simp [apply, andThen, Option.getD_or, Bool.or_assoc]

/-- Something is set for an option exactly if the option is there. -/
structure By (g : Given) (there : Flag → Bool) : Prop where
  java : g.java.isSome = there .java
  timeout : g.timeout.isSome = there .timeout
  verbose : g.verbose = there .verbose

theorem By.andThen {first second : Given} {there more : Flag → Bool} (one : first.By there)
    (two : second.By more) : (first.andThen second).By fun flag => there flag || more flag := by
  refine ⟨?_, ?_, ?_⟩
  · rw [Given.andThen, Option.isSome_or, one.java, two.java, Bool.or_comm]
  · rw [Given.andThen, Option.isSome_or, one.timeout, two.timeout, Bool.or_comm]
  · rw [Given.andThen, one.verbose, two.verbose]

end Given

structure Sets (take : Options → Except Stop Options) (flag : Flag) (g : Given) : Prop where
  own : g.By fun f => flag = f
  always : ∀ o, take o = .ok (g.apply o)

section
variable {o o' : Options} {flag : Flag}

theorem takeValue_sets {value : Word} (taken : o.takeValue flag value = .ok o') :
    ∃ g, Sets (·.takeValue flag value) flag g := by
  cases flag with
  | help | verbose => cases taken
  | java =>
    obtain ⟨v, is, -⟩ := map_eq_ok taken
    refine ⟨{ java := some v }, ⟨rfl, rfl, rfl⟩, fun a => ?_⟩
    simp [takeValue, is, Except.map, Given.apply]
  | timeout =>
    obtain ⟨v, is, -⟩ := map_eq_ok taken
    refine ⟨{ timeout := some v }, ⟨rfl, rfl, rfl⟩, fun a => ?_⟩
    simp [takeValue, is, Except.map, Given.apply]

theorem take_sets (taken : o.take flag = .ok o') : Sets (·.take flag) flag { verbose := true } := by
  cases flag <;> cases taken
  refine ⟨⟨rfl, rfl, rfl⟩, fun a => ?_⟩
  simp [take, Given.apply]

theorem foldlM_take_sets {flags : List Flag} (taken : (flag :: flags).foldlM take o = .ok o') :
    Sets ((flag :: flags).foldlM take) flag { verbose := true } := by
  induction flags generalizing flag o with
  | nil =>
    obtain ⟨o₁, first, -⟩ := bind_eq_ok taken
    have sets := take_sets first
    refine ⟨sets.own, fun a => ?_⟩
    rw [List.foldlM_cons, sets.always]
    rfl
  | cons next flags ih =>
    obtain ⟨o₁, first, rest⟩ := bind_eq_ok taken
    have sets := take_sets first
    refine ⟨sets.own, fun a => ?_⟩
    rw [List.foldlM_cons, sets.always]
    refine ((ih rest).always _).trans ?_
    rw [← Given.apply_andThen]
    rfl

theorem takePlain_sets {short : Bool} {value : Option Word}
    (taken : o.takePlain flag short value = .ok o') :
    Sets (·.takePlain flag short value) flag { verbose := true } := by
  unfold takePlain at taken
  split at taken
  · exact take_sets taken
  · rename_i letters
    split at taken
    · rename_i short
      split at taken
      · cases taken
      · rename_i flags are
        obtain ⟨more, rfl⟩ := cluster_eq_ok are
        have sets := foldlM_take_sets taken
        refine ⟨sets.own, fun a => ?_⟩
        simp only [takePlain, short, if_true, are]
        exact sets.always a
    · cases taken

end

section
variable {o o' : Options} {cs : List (Word × WordClass)}

/-- Options that are taken would be taken after any others, and would set the same. -/
theorem Takes.given (takes : Takes o cs o') :
    ∃ g : Given, g.By (fun flag => cs.any fun c => c.2.flag? = some flag) ∧ o' = g.apply o ∧
      ∀ a : Options, Takes a cs (g.apply a) := by
  induction takes with
  | done o =>
    have nothing (a : Options) : a = ({} : Given).apply a := by simp [Given.apply]
    refine ⟨{}, ⟨rfl, rfl, rfl⟩, nothing o, fun a => ?_⟩
    rw [← nothing a]
    exact .done a
  | attached w short valued taken _ ih =>
    obtain ⟨g, sets⟩ := takeValue_sets taken
    obtain ⟨g', more, rfl, rest⟩ := ih
    refine ⟨g.andThen g', ?_, ?_, fun a => ?_⟩
    · simpa [WordClass.flag?] using sets.own.andThen more
    · rw [Given.apply_andThen, Except.ok.inj (taken.symm.trans (sets.always _))]
    · rw [Given.apply_andThen]
      exact .attached w short valued (sets.always a) (rest _)
  | apart w short valued taken _ ih =>
    obtain ⟨g, sets⟩ := takeValue_sets taken
    obtain ⟨g', more, rfl, rest⟩ := ih
    refine ⟨g.andThen g', ?_, ?_, fun a => ?_⟩
    · simpa [WordClass.flag?] using sets.own.andThen more
    · rw [Given.apply_andThen, Except.ok.inj (taken.symm.trans (sets.always _))]
    · rw [Given.apply_andThen]
      exact .apart w short valued (sets.always a) (rest _)
  | plain w unvalued taken _ ih =>
    have sets := takePlain_sets taken
    obtain ⟨g', more, rfl, rest⟩ := ih
    refine ⟨Given.andThen { verbose := true } g', ?_, ?_, fun a => ?_⟩
    · simpa [WordClass.flag?] using sets.own.andThen more
    · rw [Given.apply_andThen, Except.ok.inj (taken.symm.trans (sets.always _))]
    · rw [Given.apply_andThen]
      exact .plain w unvalued (sets.always a) (rest _)

end

section
variable {p q r : List Word} {o a b : Options}

theorem parse_splits (parsed : parse p = .ok o) :
    ∃ front, p = front ++ o.args ∧ parse front = .ok { o with args := [] } ∧
      ∀ w rest, o.args = w :: rest → w.classify = .ok .operand := by
  obtain ⟨cs, classified, collected⟩ := parse_eq_ok parsed
  obtain ⟨-, front, rest, o₁, rfl, takes, ends⟩ := collect_accepts collected
  obtain ⟨line, alone, after⟩ := classifyAll_parts classified
  have none : o₁.args = [] := takes.args
  have accepted : parse (front.map Prod.fst) = .ok { o₁ with args := [] } := by
    have all := takes.collect [] []
    rw [List.append_nil] at all
    rw [← none, parse, alone]
    exact all
  refine ⟨front.map Prod.fst, ?_⟩
  rcases ends with ⟨rfl, rfl⟩ | ⟨⟨w, more, rfl⟩, rfl⟩
  · refine ⟨none ▸ line, accepted, ?_⟩
    intro w rest some
    cases none.symm.trans some
  · refine ⟨line, accepted, ?_⟩
    intro w' rest' is
    obtain ⟨rfl, -⟩ := List.cons.inj is
    exact classify_of_classifyAll after

theorem parse_given (options : parse p = .ok a) (none : a.args = []) :
    ∃ cs g, classifyAll p = .ok cs ∧ Given.By g (gives p) ∧ a = g.apply {} ∧
      ∀ o : Options, Takes o cs (g.apply o) := by
  obtain ⟨cs, classified, collected⟩ := parse_eq_ok options
  obtain ⟨g, own, is, takes⟩ := (takes_of_collect collected none).given
  have same : gives p = fun flag => cs.any fun c => c.2.flag? = some flag :=
    funext (gives_eq classified)
  exact ⟨cs, g, classified, same ▸ own, is, takes⟩

theorem parse_append (first : parse p = .ok a) (none : a.args = []) (second : parse q = .ok b)
    (none' : b.args = []) :
    parse (p ++ q) = .ok
      { java := if gives q .java then b.java else a.java
        timeout := if gives q .timeout then b.timeout else a.timeout
        verbose := gives p .verbose || gives q .verbose } := by
  obtain ⟨cs, g, classified, own, rfl, takes⟩ := parse_given first none
  obtain ⟨ds, g', classified', own', rfl, takes'⟩ := parse_given second none'
  have whole : classifyAll (p ++ q) = .ok (cs ++ ds) := by
    rw [classifyAll_append classified, classified']
    rfl
  have all := (takes' (g.apply {})).collect [] []
  rw [List.append_nil] at all
  have collected : parse (p ++ q) = .ok (g'.apply (g.apply {})) := by
    simp only [parse, whole]
    rw [(takes {}).collect, all]
    rfl
  rw [collected, ← own'.java, ← own'.timeout, ← own'.verbose, ← own.verbose]
  cases java : g'.java <;> cases timeout : g'.timeout <;> simp [Given.apply, java, timeout]

end

/-- Lines split and join. A line that is accepted is a line of options, accepted alone, with the
arguments after it, the first of them an operand. Two lines of options and arguments after them,
none of them bare, make a line whose arguments are these; it asks for more to be logged if either
line does, and for the rest the later line counts where it gives an option. -/
theorem lines_split_and_join :
    (∀ (argv : List Word) (o : Options), parse argv = .ok o →
      ∃ front, argv = front ++ o.args ∧ parse front = .ok { o with args := [] } ∧
        ∀ w rest, o.args = w :: rest → w.classify = .ok .operand) ∧
    ∀ (p q r : List Word) (a b : Options),
      parse p = .ok a → a.args = [] → parse q = .ok b → b.args = [] →
      (∀ w rest, r = w :: rest → w.classify = .ok .operand) →
      Text.ofString "--" ∉ r → (∀ x ∈ r, ¬ Text.ofString "--=" <+: x) →
      parse (p ++ q ++ r) = .ok
        { java := if gives q .java then b.java else a.java
          timeout := if gives q .timeout then b.timeout else a.timeout
          verbose := gives p .verbose || gives q .verbose
          args := r } := by
  refine ⟨fun argv o => parse_splits, ?_⟩
  intro p q r a b first none second none' operand uncut named
  have joined := parse_append first none second none'
  cases r with
  | nil =>
    rw [List.append_nil]
    exact joined
  | cons w rest =>
    refine parse_operand joined rfl (operand w rest rfl) ?_
    intro x member
    apply Bool.eq_false_iff.mpr
    intro bare
    rcases Word.isBare_iff.mp bare with rfl | begins
    · exact uncut (List.mem_cons_of_mem w member)
    · exact named x (List.mem_cons_of_mem w member) begins

/-- Options in every manner of writing: a value apart, a value attached to an abbreviation, a
cluster and a value that is no value. The operand looks like an option. -/
theorem abbreviations_join :
    let p := [Text.ofString "--java", Text.ofString "a b", Text.ofString "-v"]
    let q := [Text.ofString "--jav=jvm", Text.ofString "--timeout=--", Text.ofString "-vv"]
    let r := [Text.ofString "-5", Text.ofString "--unknown", Text.ofString "--help", []]
    parse (p ++ q ++ r) = .ok
      { java := .text (Text.ofString "jvm"), timeout := .list [], verbose := true, args := r } := by
  intro p q r
  have first : parse p = .ok { java := .text (Text.ofString "a b"), verbose := true } := rfl
  have classified : classifyAll q = .ok [
      (Text.ofString "--jav=jvm", .option .java false (some (Text.ofString "jvm"))),
      (Text.ofString "--timeout=--", .option .timeout false (some (Text.ofString "--"))),
      (Text.ofString "-vv", .option .verbose true (some (Text.ofString "v")))] := rfl
  have second : parse q =
      .ok { java := .text (Text.ofString "jvm"), timeout := .list [], verbose := true } := by
    rw [parse, classified]
    rfl
  have operand : ∀ (w : Word) rest, r = w :: rest → w.classify = .ok .operand := by
    intro w rest is
    obtain ⟨rfl, -⟩ := List.cons.inj is
    rfl
  exact lines_split_and_join.2 p q r _ _ first rfl second rfl operand (by decide) (by decide)

end Options

end JarLaunch
