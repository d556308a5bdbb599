import JarLaunch.Proofs.Success
import Mathlib.Data.List.TakeWhile

/-! What a command line passes on to the command that it starts. The words after the first separator
are passed on as they are, and no option depends on them. Without a separator in front of them so
are an operand after the options and the words after it, up to the first bare word: that is the
separator, which is dropped, or else it is taken for an ambiguous option and nothing is started. -/
namespace JarLaunch

def Launch.spawned (l : Launch) : List (List Value) :=
  if l.child.isSome then [l.command] else []

def Run.spawned : Run → List (List Value)
  | .refused _ _ => []
  | .accepted l => l.spawned

def World.commands (w : World) : List (List Value) := w.runs.flatMap Run.spawned

theorem Launch.act_spawned (l : Launch) (t : Instant) (timeout : Value) :
    (l.act t timeout).spawned = l.spawned := by
  have same : (l.act t timeout).command = l.command := congrArg (·.2.1) (l.act_frame t timeout)
  unfold spawned
  rw [same, act_manned]

namespace World

/-- A world that is left to itself: launches act when they are due, and time passes. -/
inductive Waits (u : World) : World → Prop where
  | here : Waits u u
  | act {v : World} {t : Instant} {i : Nat} (so : Waits u v) (first : v.next = some (t, i)) :
      Waits u (v.step t i)
  | pass {v : World} (so : Waits u v) (t : Instant) :
      Waits u { v with now := t, tasks := v.undone }

section
variable {u v w : World}

theorem Waits.trans (first : Waits u v) (second : Waits v w) : Waits u w := by
  induction second with
  | here => exact first
  | act _ due ih => exact ih.act due
  | pass _ t ih => exact ih.pass t

theorem gatherWithin_waits {numbers : List Nat} {fuel : Nat}
    (gathered : gatherWithin numbers fuel u = some w) : Waits u w := by
  induction fuel generalizing u with
  | zero => cases gathered
  | succ fuel ih =>
    unfold gatherWithin at gathered
    split at gathered
    · cases Option.some.inj gathered
      exact .here
    · split at gathered
      · rename_i t i first
        exact (Waits.here.act first).trans (ih gathered)
      · cases gathered

theorem told_waits (w : World) : Waits w w.told :=
  told_keeps (P := Waits w) (fun _ _ _ so first _ => so.act first) (.pass .here w.now)

theorem drainWithin_waits {launcher : String} {rounds : Nat}
    (drained : drainWithin launcher rounds u = some w) : Waits u w := by
  induction rounds generalizing u with
  | zero => cases drained
  | succ rounds ih =>
    unfold drainWithin at drained
    split at drained
    · cases Option.some.inj drained
      exact .here
    · obtain ⟨v, gathered, rest⟩ := Option.bind_eq_some_iff.mp drained
      have turned : Waits v v.told.told := (told_waits v).trans (told_waits v.told)
      exact (gatherWithin_waits gathered).trans (turned.trans (ih rest))

theorem drain_waits {launcher : String} (drained : u.drain launcher = some w) : Waits u w := by
  obtain ⟨v, returned, settled⟩ := Option.bind_eq_some_iff.mp drained
  exact settleWithin_keeps (P := Waits u) (fun _ _ _ so first => so.act first)
    (fun _ t so => so.pass t) settled (drainWithin_waits returned)

theorem acted_commands {t : Instant} {i : Nat} {l : Launch}
    (there : w.runs[i]? = some (.accepted l)) : (w.acted t i l).commands = w.commands := by
  obtain ⟨bound, is⟩ := List.getElem?_eq_some_iff.mp there
  have bound' : i < (w.runs.map Run.spawned).length := by simpa using bound
  have same : Run.spawned (.accepted (l.act t (w.launcher l.launcher).timeout)) =
      (w.runs.map Run.spawned)[i] := by
    rw [List.getElem_map, is]
    exact l.act_spawned t _
  unfold commands acted
  rw [List.flatMap_def, List.map_set, same, List.set_getElem_self, List.flatMap_def]

theorem Quiet.waits (quiet : u.Quiet) (waits : Waits u w) :
    w.Quiet ∧ w.runs.length = u.runs.length ∧ w.commands = u.commands := by
  induction waits with
  | here => exact ⟨quiet, rfl, rfl⟩
  | @act v t i _ first ih =>
    obtain ⟨quiet', length, commands⟩ := ih
    obtain ⟨l, there, acts⟩ := quiet'.step_eq first
    refine ⟨quiet'.step first, ?_, ?_⟩
    · rw [acts]
      exact List.length_set.trans length
    · rw [acts, ← commands]
      exact acted_commands there
  | pass _ t ih => exact ⟨⟨ih.1.reckoned, ih.1.handlers⟩, ih.2⟩

end

end World

/-- The commands that come of one: the command itself, or none if it does not start. -/
def Spawn.started (spawn : Spawn) (command : List Value) : List (List Value) :=
  match (spawn.attempt command).2 with
  | .starts _ => [command]
  | _ => []

theorem Spawn.mem_started {spawn : Spawn} {command c : List Value}
    (member : c ∈ spawn.started command) : c = command := by
  unfold started at member
  split at member
  · exact List.mem_singleton.mp member
  · cases member

theorem Launch.create_spawned (launcher : String) (handler : Option Handler × Recipient)
    (now : Instant) (pid : Nat) (command : List Value) (spawn : Spawn) :
    (match create launcher handler now pid command spawn with
      | .error _ => []
      | .ok l => l.spawned) = spawn.started command := by
  unfold create Spawn.started
  cases spawn.attempt command with
  | mk line answer => cases answer <;> rfl

theorem World.launch_commands (w : World) (target : Target) (handler : Option Handler) :
    (w.launch target handler).world.commands = w.commands ++
      match w.commandFor target with
      | .error _ => []
      | .ok command => target.spawn.started command := by
  have last : (w.made target handler).spawned =
      match w.commandFor target with
      | .error _ => []
      | .ok command => target.spawn.started command := by
    unfold World.made
    cases w.commandFor target with
    | error refusal => rfl
    | ok command =>
      have created := Launch.create_spawned target.launcher (w.handlerFor target handler) w.now
        w.nextPid command target.spawn
      dsimp only [Except.bind]
      rw [← created]
      cases Launch.create target.launcher (w.handlerFor target handler) w.now w.nextPid command
          target.spawn with
      | error refusal => rfl
      | ok l => rfl
  rw [commands, launch_runs, List.flatMap_append, List.flatMap_singleton, last]
  rfl

namespace CommandLine

def command (site : Site) (o : Options) : List Value :=
  (if o.java.isAbsent then .text site.java else o.java) ::
    .text jarFlag :: .text site.jar.text :: o.args.map .text

def launched (s : Setting) (o : Options) : World :=
  ((world s.site o).launch (target s.spawn o) (some .prints)).world

def started (s : Setting) (argv : List Word) : List (List Value) :=
  match read argv with
  | .error _ => []
  | .ok o => (launched s o).commands

section
variable {s : Setting} {argv : List Word} {o : Options}

theorem commandFor_eq (site : Site) (spawn : Spawn) (o : Options) :
    (world site o).commandFor (target spawn o) = .ok (command site o) := rfl

theorem launched_commands (s : Setting) (o : Options) :
    (launched s o).commands = s.spawn.started (command s.site o) := by
  have added := (world s.site o).launch_commands (target s.spawn o) (some .prints)
  rw [commandFor_eq] at added
  exact added

theorem launched_quiet (s : Setting) (o : Options) : (launched s o).Quiet := by
  have empty : (world s.site o).Quiet :=
    ⟨fun _ member => (List.not_mem_nil member).elim, fun _ member => (List.not_mem_nil member).elim⟩
  have reserves : (world s.site o).Reserves (target s.spawn o).source (world s.site o) :=
    ⟨rfl, rfl, rfl, rfl, empty⟩
  have launched : (world s.site o).Reserves (target s.spawn o).source (launched s o) := by
    apply reserves.launch
    · intro name shared
      cases shared
    · intro h prints
      cases Option.some.inj prints
      rfl
  exact launched.quiet

def Visits (s : Setting) (argv : List Word) (v : World) : Prop :=
  ∃ o, read argv = .ok o ∧ (launched s o).Waits v

theorem Visits.commands_eq {v : World} (visits : Visits s argv v) :
    v.commands = started s argv := by
  obtain ⟨o, accepted, waits⟩ := visits
  rw [started, accepted]
  exact ((launched_quiet s o).waits waits).2.2

theorem exits_spawned {e : Ending} (ends : run s argv = .exits e) : e.spawned = started s argv := by
  cases accepted : read argv with
  | error stop =>
    rw [run, accepted] at ends
    cases ends
    rw [started, accepted]
  | ok o =>
    rw [run, accepted] at ends
    obtain ⟨l₀, v, l, -, drained, first, rfl⟩ := launch_exits ends
    obtain ⟨-, single, same⟩ := (launched_quiet s o).waits (World.drain_waits drained)
    rw [launched, World.launch_runs] at single
    obtain ⟨r, one⟩ := List.length_eq_one_iff.mp single
    rw [started, accepted]
    dsimp only
    rw [← same, World.commands, one]
    rw [one] at first
    cases r with
    | refused name refusal => cases first
    | accepted l' =>
      cases Option.some.inj first
      exact (List.append_nil _).symm

/-- A command line starts these commands and no others: at once, while it waits, and by its end. -/
structure Starts (s : Setting) (argv : List Word) (commands : List (List Value)) : Prop where
  begun : started s argv = commands
  waiting : ∀ v, Visits s argv v → v.commands = commands
  ended : ∀ e, run s argv = .exits e → e.spawned = commands

theorem starts_started (s : Setting) (argv : List Word) : Starts s argv (started s argv) :=
  ⟨rfl, fun _ visits => visits.commands_eq, fun _ ends => exits_spawned ends⟩

theorem starts_of_read (s : Setting) (accepted : read argv = .ok o) :
    Starts s argv (s.spawn.started (command s.site o)) := by
  have begun : started s argv = s.spawn.started (command s.site o) := by
    rw [started, accepted]
    exact launched_commands s o
  exact begun ▸ starts_started s argv

theorem rejects_of_read (s : Setting) {stop : Stop} (rejected : read argv = .error stop) :
    run s argv = .exits ⟨stop.exit, []⟩ ∧ Starts s argv [] := by
  have begun : started s argv = [] := by rw [started, rejected]
  refine ⟨?_, begun ▸ starts_started s argv⟩
  rw [run, rejected]

theorem read_of_not_mem (uncut : separator ∉ argv) : read argv = Options.parse argv := by
  have all : argv.dropWhile (· ≠ separator) = [] := by
    rw [List.dropWhile_eq_nil_iff]
    intro x member
    simpa using ne_of_mem_of_not_mem member uncut
  unfold read
  rw [all]

/-- A line is cut at its first separator. -/
theorem read_append {front : List Word} (uncut : separator ∉ front) (tail : List Word) :
    read (front ++ separator :: tail) =
      (Options.parse front).map fun o => { o with args := o.args ++ tail } := by
  have before : ∀ x ∈ front, decide (x ≠ separator) = true := by
    intro x member
    simpa using ne_of_mem_of_not_mem member uncut
  unfold read
  rw [List.dropWhile_append_of_pos before, List.takeWhile_append_of_pos before]
  simp

/-- What comes after the first separator is passed on as it is, and nothing else depends on it: a
line that stops short of it stops in the same way, and any other asks for the same launch with these
words after its own. -/
theorem tail_forwarded_verbatim (s : Setting) {front : List Word} (uncut : separator ∉ front)
    (tail : List Word) :
    (∀ stop, Options.parse front = .error stop →
      run s (front ++ separator :: tail) = .exits ⟨stop.exit, []⟩ ∧
      run s front = .exits ⟨stop.exit, []⟩ ∧ Starts s (front ++ separator :: tail) []) ∧
    ∀ o, Options.parse front = .ok o →
      run s (front ++ separator :: tail) = launch s { o with args := o.args ++ tail } ∧
      Starts s (front ++ separator :: tail)
        (s.spawn.started (command s.site { o with args := o.args ++ tail })) := by
  have whole := read_append uncut tail
  have alone := read_of_not_mem uncut
  constructor
  · intro stop rejected
    rw [rejected] at whole alone
    obtain ⟨stops, nothing⟩ := rejects_of_read s whole
    exact ⟨stops, (rejects_of_read s alone).1, nothing⟩
  · intro o parsed
    rw [parsed] at whole
    refine ⟨?_, starts_of_read s whole⟩
    rw [run, whole]
    rfl

/-- Options, an empty word and a second separator come after the first. -/
theorem options_forwarded_after_separator :
    let s : Setting := ⟨⟨defaultJava, ⟨.single, [jarName]⟩⟩, .starts { exit := some 0 }, []⟩
    let front := [Text.ofString "--java", Text.ofString "jvm", Text.ofString "main.yjs"]
    let tail := [Text.ofString "--help", [], separator, Text.ofString "--timeout"]
    separator ∉ front ∧
      Starts s (front ++ separator :: tail)
        [.text (Text.ofString "jvm") :: .text jarFlag :: .text s.site.jar.text ::
          (Text.ofString "main.yjs" :: tail).map .text] := by
  intro s front tail
  have uncut : separator ∉ front := by decide
  have parsed : Options.parse front =
      .ok { java := .text (Text.ofString "jvm"), args := [Text.ofString "main.yjs"] } := rfl
  exact ⟨uncut, ((tail_forwarded_verbatim s uncut tail).2 _ parsed).2⟩

theorem separator_not_mem {xs : List Word} (named : ∀ x ∈ xs, x.isBare = false) :
    separator ∉ xs := by
  intro member
  cases named separator member

theorem read_after_separator {p : List Word} (options : read p = .ok o) (none : o.args = [])
    (cut : separator ∈ p) (rest : List Word) : read (p ++ rest) = .ok { o with args := rest } := by
  obtain ⟨front, tail, rfl, uncut⟩ := List.eq_append_cons_of_mem cut
  rw [read_append uncut] at options
  obtain ⟨o₁, parsed, rfl⟩ := map_eq_ok options
  obtain ⟨first, rfl⟩ := List.append_eq_nil_iff.mp none
  rw [List.append_assoc, List.cons_append, read_append uncut, parsed]
  simp [Except.map, first]

/-- The first bare word ends the reading unless it is the separator. -/
theorem read_bare {xs : List Word} {x : Word} (named : ∀ y ∈ xs, y.isBare = false)
    (bare : x.isBare) (other : x ≠ separator) (ys : List Word) :
    read (xs ++ x :: ys) = .error (.usage (.ambiguous x Word.longOptions)) := by
  have before : separator ∉ xs := separator_not_mem named
  by_cases cut : separator ∈ ys
  · obtain ⟨front, tail, rfl, uncut⟩ := List.eq_append_cons_of_mem cut
    have uncut' : separator ∉ xs ++ x :: front := by simp [before, uncut, Ne.symm other]
    have line : xs ++ x :: (front ++ separator :: tail) =
        (xs ++ x :: front) ++ separator :: tail := by simp
    rw [line, read_append uncut', Options.parse_bare named bare]
    rfl
  · have uncut : separator ∉ xs ++ x :: ys := by simp [before, cut, Ne.symm other]
    rw [read_of_not_mem uncut, Options.parse_bare named bare]

section
variable {p r : List Word} {w : Word}

theorem named_operand (options : read p = .ok o) (operand : w.classify = .ok .operand)
    (uncut : separator ∉ p) (named : ∀ x ∈ r, x.isBare = false) :
    ∀ x ∈ p ++ w :: r, x.isBare = false := by
  rw [read_of_not_mem uncut] at options
  intro x member
  rcases List.mem_append.mp member with first | rest
  · exact Options.named_of_parse options x first
  · rcases List.mem_cons.mp rest with rfl | later
    · exact Word.named_of_classify operand
    · exact named x later

theorem parse_forwarded (options : read p = .ok o) (none : o.args = [])
    (operand : w.classify = .ok .operand) (uncut : separator ∉ p)
    (named : ∀ x ∈ r, x.isBare = false) :
    Options.parse (p ++ w :: r) = .ok { o with args := w :: r } := by
  rw [read_of_not_mem uncut] at options
  exact Options.parse_operand options none operand named

theorem read_forwarded (options : read p = .ok o) (none : o.args = [])
    (operand : w.classify = .ok .operand)
    (verbatim : separator ∈ p ∨ ∀ x ∈ r, x.isBare = false) :
    read (p ++ w :: r) = .ok { o with args := w :: r } := by
  by_cases cut : separator ∈ p
  · exact read_after_separator options none cut (w :: r)
  · have named := verbatim.resolve_left cut
    rw [read_of_not_mem (separator_not_mem (named_operand options operand cut named))]
    exact parse_forwarded options none operand cut named

theorem read_dropped (options : read p = .ok o) (none : o.args = [])
    (operand : w.classify = .ok .operand) (uncut : separator ∉ p)
    (named : ∀ x ∈ r, x.isBare = false) (tail : List Word) :
    read (p ++ w :: (r ++ separator :: tail)) = .ok { o with args := w :: (r ++ tail) } := by
  have line : p ++ w :: (r ++ separator :: tail) = (p ++ w :: r) ++ separator :: tail := by simp
  rw [line, read_append (separator_not_mem (named_operand options operand uncut named)),
    parse_forwarded options none operand uncut named]
  rfl

theorem read_ambiguous (options : read p = .ok o) (operand : w.classify = .ok .operand)
    (uncut : separator ∉ p) (named : ∀ x ∈ r, x.isBare = false) {x : Word} (bare : x.isBare)
    (other : x ≠ separator) (tail : List Word) :
    read (p ++ w :: (r ++ x :: tail)) = .error (.usage (.ambiguous x Word.longOptions)) := by
  have line : p ++ w :: (r ++ x :: tail) = (p ++ w :: r) ++ x :: tail := by simp
  rw [line]
  exact read_bare (named_operand options operand uncut named) bare other tail

end

/-- The words after the options and an operand are passed on as they are exactly if a separator
stands before them or none of them is bare. Otherwise the first bare word decides: a separator is
dropped, and any other is taken for an ambiguous option, so that nothing is started. -/
theorem operands_forwarded_iff (s : Setting) {p r : List Word} {w : Word} {o : Options}
    (options : read p = .ok o) (none : o.args = []) (operand : w.classify = .ok .operand) :
    (∀ b, (s.spawn.attempt (command s.site { o with args := w :: r })).2 = .starts b →
      (Starts s (p ++ w :: r) [command s.site { o with args := w :: r }] ↔
        separator ∈ p ∨ ∀ x ∈ r, x.isBare = false)) ∧
    ∀ r₁ x r₂, separator ∉ p → r = r₁ ++ x :: r₂ → (∀ y ∈ r₁, y.isBare = false) → x.isBare →
      if x = separator then
        Starts s (p ++ w :: r) (s.spawn.started (command s.site { o with args := w :: (r₁ ++ r₂) }))
      else
        run s (p ++ w :: r) = .exits ⟨(Stop.usage (.ambiguous x Word.longOptions)).exit, []⟩ ∧
        Starts s (p ++ w :: r) [] := by
  constructor
  · intro b starts
    constructor
    · intro forwarded
      by_contra garbled
      obtain ⟨uncut, some⟩ := not_or.mp garbled
      obtain ⟨r₁, x, r₂, rfl, named, bare⟩ := Word.first_bare some
      by_cases is : x = separator
      · -- the command lacks a word
        subst x
        have dropped := starts_of_read s (read_dropped options none operand uncut named r₂)
        have begun := forwarded.begun.symm.trans dropped.begun
        have same := Spawn.mem_started (begun ▸ List.mem_singleton_self _)
        have lengths := congrArg List.length same
        simp [command] at lengths
      · have nothing := (rejects_of_read s
          (read_ambiguous options operand uncut named bare is r₂)).2
        cases forwarded.begun.symm.trans nothing.begun
    · intro verbatim
      have accepted := read_forwarded options none operand verbatim
      have begun := starts_of_read s accepted
      rw [Spawn.started, starts] at begun
      exact begun
  · rintro r₁ x r₂ uncut rfl named bare
    split
    · rename_i is
      subst x
      exact starts_of_read s (read_dropped options none operand uncut named r₂)
    · rename_i other
      exact rejects_of_read s (read_ambiguous options operand uncut named bare other r₂)

/-- A word after the operand that names no option stops the command line. -/
theorem nameless_option_stops :
    let s : Setting := ⟨⟨defaultJava, ⟨.single, [jarName]⟩⟩, .starts { exit := some 0 }, []⟩
    let p := [Text.ofString "-v"]
    let r := [Text.ofString "a", Text.ofString "--=x", separator]
    ∃ o, read p = .ok o ∧ o.args = [] ∧ Word.classify (Text.ofString "main.yjs") = .ok .operand ∧
      ¬ Starts s (p ++ Text.ofString "main.yjs" :: r)
          [command s.site { o with args := Text.ofString "main.yjs" :: r }] ∧
      Starts s (p ++ Text.ofString "main.yjs" :: r) [] := by
  intro s p r
  have options : read p = .ok { verbose := true } := rfl
  have operand : Word.classify (Text.ofString "main.yjs") = .ok .operand := rfl
  obtain ⟨verbatim, decides⟩ := operands_forwarded_iff s (r := r) options rfl operand
  have starts : (s.spawn.attempt
      (command s.site { verbose := true, args := Text.ofString "main.yjs" :: r })).2 =
        .starts { exit := some 0 } := rfl
  refine ⟨_, options, rfl, operand, ?_, ?_⟩
  · rw [verbatim _ starts]
    decide
  · have decided := decides [Text.ofString "a"] (Text.ofString "--=x") [separator] (by decide) rfl
      (by decide) rfl
    rw [if_neg (by decide)] at decided
    exact decided.2

end

end CommandLine

end JarLaunch
