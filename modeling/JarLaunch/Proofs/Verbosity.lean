import JarLaunch.Proofs.Forwarding

/-! Verbosity. The option for more to be logged changes how log records are written and nothing
else. It is read like any other option and never asked about until the end, so a line with it goes
through the same worlds as the line without it, and what differs in the end is the records on the
error stream. -/
namespace JarLaunch

namespace Options

def louder (o : Options) : Options := { o with verbose := true }

theorem map_louder (x : Except Stop Value) (set : Value → Options) :
    x.map (fun v => (set v).louder) = (x.map set).map louder := by
  cases x <;> rfl

section
variable (o : Options) (flag : Flag)

theorem takeValue_louder (value : Word) :
    o.louder.takeValue flag value = (o.takeValue flag value).map louder := by
  cases flag with
  | help | verbose => rfl
  | java => exact map_louder _ fun v => { o with java := v }
  | timeout => exact map_louder _ fun v => { o with timeout := v }

theorem take_louder : o.louder.take flag = (o.take flag).map louder := by
  cases flag <;> rfl

theorem foldlM_take_louder (flags : List Flag) :
    flags.foldlM take o.louder = (flags.foldlM take o).map louder := by
  induction flags generalizing o with
  | nil => rfl
  | cons flag flags ih =>
    rw [List.foldlM_cons, List.foldlM_cons, take_louder]
    cases o.take flag with
    | error stop => rfl
    | ok o₁ => exact ih o₁

theorem takePlain_louder (short : Bool) (value : Option Word) :
    o.louder.takePlain flag short value = (o.takePlain flag short value).map louder := by
  unfold takePlain
  split
  · exact o.take_louder flag
  · split
    · split
      · rfl
      · exact o.foldlM_take_louder _
    · rfl

end

theorem collect_louder (o : Options) (strange : List Word) (cs : List (Word × WordClass)) :
    collect o.louder strange cs = (collect o strange cs).map louder := by
  fun_induction collect o strange cs with
  | case1 o strange none | case2 o strange some => simp_all [collect, Except.map]
  | case3 o strange w rest none | case4 o strange w rest some =>
    simp_all [collect, Except.map, louder]
  | case5 o strange w rest ih => exact ih
  | case6 o strange w flag short valued v rest ih =>
    rw [collect.eq_def]
    simp only [valued, if_true, takeValue_louder]
    cases o.takeValue flag v with
    | error stop => rfl
    | ok o₁ => exact ih o₁
  | case7 o strange w flag short valued v rest ih =>
    rw [collect.eq_def]
    simp only [valued, if_true, takeValue_louder]
    cases o.takeValue flag v with
    | error stop => rfl
    | ok o₁ => exact ih o₁
  | case8 o strange w flag short rest valued alone =>
    rw [collect.eq_def]
    simp only [valued, if_true]
    rfl
  | case9 o strange w flag short value rest unvalued ih =>
    rw [collect.eq_def]
    simp only [unvalued, takePlain_louder]
    cases o.takePlain flag short value with
    | error stop => rfl
    | ok o₁ => exact ih o₁

def loudFlag : Word := Text.ofString "-v"

theorem parse_loud (argv : List Word) : parse (loudFlag :: argv) = (parse argv).map louder := by
  have flag : loudFlag.classify = .ok (.option .verbose true none) := rfl
  unfold parse
  rw [classifyAll_cons, flag]
  cases classifyAll argv with
  | error e => rfl
  | ok cs =>
    have taken : collect {} [] ((loudFlag, .option .verbose true none) :: cs) =
        collect (louder {}) [] cs := by
      rw [collect.eq_def]
      rfl
    exact taken.trans (collect_louder {} [] cs)

end Options

namespace CommandLine

open Options

theorem read_loud (argv : List Word) : read (loudFlag :: argv) = (read argv).map louder := by
  have other : loudFlag ≠ separator := by decide
  unfold read
  rw [List.dropWhile_cons_of_pos (by simpa using other),
    List.takeWhile_cons_of_pos (by simpa using other)]
  split
  · exact parse_loud argv
  · rw [parse_loud]
    cases parse (argv.takeWhile (· ≠ separator)) <;> rfl

def record? : Event → Option (Level × Text)
  | .log level text => some (level, text)
  | .raised _ => some (.error, handlerRaised)
  | _ => none

def errOf : Event → Text
  | .err text => text
  | _ => []

/-- A stream holds these records, each written as a line, and without them this text is left. -/
inductive Strips (line : Level → Text → Text) : List (Level × Text) → Text → Text → Prop where
  | nothing : Strips line [] [] []
  | record {records : List (Level × Text)} {stream rest : Text} (level : Level) (text : Text)
      (so : Strips line records stream rest) :
      Strips line ((level, text) :: records) (line level text ++ stream) rest
  | other {records : List (Level × Text)} {stream rest : Text} (text : Text)
      (so : Strips line records stream rest) : Strips line records (text ++ stream) (text ++ rest)

theorem strips_stderr (stamp : Text) (verbose : Bool) (events : List Event) :
    Strips (logLine stamp verbose) (events.filterMap record?)
      (events.flatMap (stderrOf stamp verbose)) (events.flatMap errOf) := by
  induction events with
  | nil => exact .nothing
  | cons e events ih =>
    cases e with
    | log level text => exact .record level text ih
    | raised fault => exact .record .error handlerRaised ih
    | err text => exact .other text ih
    | call recipient completion => exact ih
    | out text => exact ih

theorem strips_alone (line : Level → Text → Text) (text : Text) : Strips line [] text text := by
  have alone : Strips line [] (text ++ []) (text ++ []) := .other text .nothing
  simpa using alone

def loud (argv : List Word) : Bool :=
  match read argv with
  | .ok o => o.verbose
  | .error _ => false

def lastLaunch (s : Setting) (o : Options) : Option Launch :=
  ((launched s o).drain launcherName).bind (·.runs.findSome? Run.launch?)

theorem launch_eq (s : Setting) (o : Options) :
    launch s o =
      match ((world s.site o).launch (target s.spawn o) (some .prints)).outcome with
      | .error refusal => .escapes refusal
      | .ok _ =>
        match lastLaunch s o with
        | none => .hangs
        | some l => .exits (ending s.stamp o.verbose l) := rfl

def logged (s : Setting) (argv : List Word) : List (Level × Text) :=
  match read argv with
  | .error _ => []
  | .ok o => (lastLaunch s o).toList.flatMap fun l => (l.trace.map Entry.event).filterMap record?

/-- Two lines come to the same end, but for what they log: both exit, with the same status, output
and commands, and with the same text on the error stream once the records of each are taken out; or
both are refused for the same reason; or neither ends. -/
inductive Alike (s : Setting) (argv argv' : List Word) : Prop where
  | exit {e e' : Ending} (rest : Text) (ends : run s argv = .exits e)
      (ends' : run s argv' = .exits e') (status : e.exit.status = e'.exit.status)
      (stdout : e.exit.stdout = e'.exit.stdout) (spawned : e.spawned = e'.spawned)
      (stderr : Strips (logLine s.stamp (loud argv)) (logged s argv) e.exit.stderr rest)
      (stderr' : Strips (logLine s.stamp (loud argv')) (logged s argv') e'.exit.stderr rest)
  | escape {refusal : Refusal} (ends : run s argv = .escapes refusal)
      (ends' : run s argv' = .escapes refusal)
  | hang (hangs : run s argv = .hangs) (hangs' : run s argv' = .hangs)

section
variable {s : Setting} {argv argv' : List Word}

theorem alike_of_rejected {stop : Stop} (rejected : read argv = .error stop)
    (rejected' : read argv' = .error stop) : Alike s argv argv' := by
  have ends (line : List Word) (is : read line = .error stop) :
      run s line = .exits ⟨stop.exit, []⟩ ∧
        Strips (logLine s.stamp (loud line)) (logged s line) stop.exit.stderr stop.exit.stderr := by
    refine ⟨(rejects_of_read s is).1, ?_⟩
    rw [logged, is]
    exact strips_alone _ _
  obtain ⟨first, stderr⟩ := ends argv rejected
  obtain ⟨second, stderr'⟩ := ends argv' rejected'
  exact .exit _ first second rfl rfl rfl stderr stderr'

/-- Lines that ask for the same launch go through the same worlds to the same launch; only then are
the log records written down. -/
theorem alike_of_accepted {o : Options} (accepted : read argv = .ok o)
    (accepted' : read argv' = .ok o.louder) : Alike s argv argv' := by
  have same : lastLaunch s o.louder = lastLaunch s o := rfl
  have runs : run s argv = launch s o := by rw [run, accepted]
  have runs' : run s argv' = launch s o.louder := by rw [run, accepted']
  rw [launch_eq] at runs runs'
  cases outcome : ((world s.site o).launch (target s.spawn o) (some .prints)).outcome with
  | error refusal =>
    have outcome' : ((world s.site o.louder).launch (target s.spawn o.louder)
        (some .prints)).outcome = .error refusal := outcome
    rw [outcome] at runs
    rw [outcome'] at runs'
    exact .escape runs runs'
  | ok pid =>
    have outcome' : ((world s.site o.louder).launch (target s.spawn o.louder)
        (some .prints)).outcome = .ok pid := outcome
    rw [outcome] at runs
    rw [outcome', same] at runs'
    cases found : lastLaunch s o with
    | none =>
      rw [found] at runs runs'
      exact .hang runs runs'
    | some l =>
      rw [found] at runs runs'
      have records : logged s argv = (l.trace.map Entry.event).filterMap record? := by
        simp [logged, accepted, found]
      have records' : logged s argv' = (l.trace.map Entry.event).filterMap record? := by
        simp [logged, accepted', same, found]
      have loudness : loud argv = o.verbose := by rw [loud, accepted]
      have loudness' : loud argv' = o.louder.verbose := by rw [loud, accepted']
      refine .exit ((l.trace.map Entry.event).flatMap errOf) runs runs' rfl rfl rfl ?_ ?_
      · rw [records, loudness]
        exact strips_stderr _ _ _
      · rw [records', loudness']
        exact strips_stderr _ _ _

theorem starts_iff {commands : List (List Value)} :
    Starts s argv commands ↔ started s argv = commands := by
  constructor
  · intro starts
    exact starts.begun
  · rintro rfl
    exact starts_started s argv

end

/-- Whatever the line and whatever the child does: with the flag in front of it the line goes
through the same worlds, starts the same commands and comes to the same end but for its log. -/
theorem verbosity_inert (s : Setting) (argv : List Word) :
    Alike s argv (loudFlag :: argv) ∧
      (∀ commands, Starts s argv commands ↔ Starts s (loudFlag :: argv) commands) ∧
      ∀ v, Visits s argv v ↔ Visits s (loudFlag :: argv) v := by
  have line := read_loud argv
  cases accepted : read argv with
  | error stop =>
    rw [accepted] at line
    refine ⟨alike_of_rejected accepted line, ?_, ?_⟩
    · intro commands
      rw [starts_iff, starts_iff, started, started, accepted, line]
      rfl
    · intro v
      simp [Visits, accepted, line, Except.map]
  | ok o =>
    rw [accepted] at line
    have same : launched s o.louder = launched s o := rfl
    refine ⟨alike_of_accepted accepted line, ?_, ?_⟩
    · intro commands
      rw [starts_iff, starts_iff, started, started, accepted, line]
      rfl
    · intro v
      simp [Visits, accepted, line, Except.map, same]

end CommandLine

end JarLaunch
