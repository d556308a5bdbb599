import JarLaunch.CommandLine
import JarLaunch.Proofs.Grammar
import JarLaunch.Proofs.Isolation
import JarLaunch.Proofs.Signals

/-! What success means on the command line. The status is a success until the handler says
otherwise, so everything depends on the handler being called: it is under every timeout that a
command line can ask for but one, the empty list that a lone separator leaves in place of a number.
Under that one every command succeeds, and nothing of its output is printed. -/
namespace JarLaunch

namespace Options

def Askable (timeout : Value) : Prop :=
  timeout = .absent ∨ timeout = .list [] ∨ ∃ d, timeout = .double d

theorem takeValue_askable {o o' : Options} {flag : Flag} {value : Word}
    (taken : o.takeValue flag value = .ok o') (askable : Askable o.timeout) :
    Askable o'.timeout := by
  rcases takeValue_timeout taken with same | set
  · rw [same]
    exact askable
  · exact .inr set

theorem Takes.askable {o o' : Options} {words : List (Word × WordClass)} (takes : Takes o words o')
    (askable : Askable o.timeout) : Askable o'.timeout := by
  induction takes with
  | done _ => exact askable
  | attached _ _ _ taken _ ih | apart _ _ _ taken _ ih => exact ih (takeValue_askable taken askable)
  | plain _ _ taken _ ih =>
    apply ih
    rw [takePlain_eq_ok taken]
    exact askable

theorem parse_askable {argv : List Word} {o : Options} (parsed : parse argv = .ok o) :
    Askable o.timeout := by
  obtain ⟨cs, -, collected⟩ := parse_eq_ok parsed
  obtain ⟨-, front, rest, o₁, -, takes, ⟨-, rfl⟩ | ⟨-, rfl⟩⟩ := collect_accepts collected
  · exact takes.askable (.inl rfl)
  · exact takes.askable (.inl rfl)

theorem Askable.unusable_iff {timeout : Value} (h : Askable timeout) :
    Limit.ofSetting timeout = .unusable ↔ timeout = .list [] := by
  rcases h with rfl | rfl | ⟨d, rfl⟩
  · simp [Limit.ofSetting]
  · simp [Limit.ofSetting]
  · have usable := Value.Waitable.usable (v := .double d) trivial
    simp [usable]

end Options

theorem CommandLine.read_askable {argv : List Word} {o : Options} (accepted : read argv = .ok o) :
    Options.Askable o.timeout := by
  unfold read at accepted
  split at accepted
  · exact Options.parse_askable accepted
  · cases parsed : Options.parse (argv.takeWhile (· ≠ separator)) with
    | error stop =>
      rw [parsed] at accepted
      cases accepted
    | ok o' =>
      rw [parsed] at accepted
      cases accepted
      have askable := Options.parse_askable parsed
      exact askable

def Behaviour.InTime (b : Behaviour) (timeout : Value) : Prop :=
  ∃ ms, b.finishAfter = some ms ∧
    match Limit.ofSetting timeout with
    | .unlimited => True
    | .within span => Clock.millis ms ≤ span
    | .expired | .unusable => False

def Completion.TimedOut (c : Completion) : Prop := ∃ f, c.failure = some f ∧ f.isTimeout

theorem Failure.exitStatus_pos (f : Failure) : 0 < f.exitStatus := by
  unfold exitStatus
  split
  · decide
  · split <;> omega

theorem exitStatus_eq_zero_iff (failure : Option Failure) :
    exitStatus failure = 0 ↔ failure = none := by
  cases failure with
  | none => exact ⟨fun _ => rfl, fun _ => rfl⟩
  | some f =>
    have positive := f.exitStatus_pos
    constructor
    · intro zero
      exact absurd zero (Int.ne_of_gt positive)
    · intro none
      cases none

namespace Launch

section
variable {l : Launch} {timeout : Value} {child : Child} {now bound t : Instant} {c : Completion}

theorem drainedFate_timesOut (h : l.drainedFate timeout child now bound = .call t c) :
    c.TimedOut := by
  cases h
  exact ⟨_, rfl, rfl⟩

theorem killedFate_timesOut (h : l.killedFate timeout child now = .call t c) : c.TimedOut := by
  unfold killedFate at h
  split at h
  · cases h
  · exact drainedFate_timesOut h

theorem expiredFate_timesOut (h : l.expiredFate timeout child now = .call t c) : c.TimedOut := by
  unfold expiredFate at h
  dsimp only at h
  split at h
  · exact drainedFate_timesOut h
  · unfold terminatedFate at h
    dsimp only at h
    split at h
    · exact drainedFate_timesOut h
    · unfold struckFate at h
      dsimp only at h
      split at h
      · exact drainedFate_timesOut h
      · exact killedFate_timesOut h

theorem watchedFate_late {deadline : Instant} (later : now ≤ deadline)
    (late : ∀ f, child.finish = some f → deadline < f) :
    l.watchedFate timeout child now (some deadline) = l.expiredFate timeout child deadline := by
  have first : child.finishOr deadline = deadline := by
    unfold Child.finishOr
    split
    · rfl
    · rename_i f finish
      exact Nat.min_eq_right (Nat.le_of_lt (late f finish))
  have unfinished : child.finishedBy deadline = false := by
    cases finish : child.finish with
    | none => simp [Child.finishedBy, finish]
    | some f => simp [Child.finishedBy, finish, late f finish]
  simp only [watchedFate, child.sooner_bound, first, Nat.max_eq_right later, unfinished]
  rfl

/-- A child that finishes in time is reported as it is, and any other as a timeout. -/
theorem freshFate_tells {b : Behaviour} {pid : Nat}
    (h : l.freshFate timeout (Child.start pid now b) now = .call t c) :
    b.InTime timeout ∧ b.Reported l.command now (t, c) ∨ ¬ b.InTime timeout ∧ c.TimedOut := by
  have finish := Child.finish_start pid now b
  unfold freshFate at h
  unfold Behaviour.InTime
  cases limit : Limit.ofSetting timeout with
  | unlimited =>
    cases finishAfter : b.finishAfter with
    | none =>
      rw [finishAfter, Option.map_none] at finish
      simp only [limit, watchedFate, finish, sooner] at h
      cases h
    | some ms =>
      rw [finishAfter, Option.map_some] at finish
      have unlimited : ∀ d, (none : Option Instant) = some d → now + Clock.millis ms ≤ d := by
        intro d is
        cases is
      simp only [limit, l.watchedFate_in_time timeout finish (Nat.le_add_right _ _) unlimited,
        Fate.call.injEq] at h
      rw [← h.1, ← h.2]
      exact .inl ⟨⟨ms, rfl, trivial⟩, (l.punctual_reported finish).alone⟩
  | within span =>
    simp only [limit] at h
    by_cases inTime : ∃ ms, b.finishAfter = some ms ∧ Clock.millis ms ≤ span
    · obtain ⟨ms, finishAfter, early⟩ := inTime
      rw [finishAfter, Option.map_some] at finish
      have punctual : ∀ d, some (now + span) = some d → now + Clock.millis ms ≤ d := by
        intro d is
        cases is
        exact Nat.add_le_add_left early now
      rw [l.watchedFate_in_time timeout finish (Nat.le_add_right _ _) punctual,
        Fate.call.injEq] at h
      rw [← h.1, ← h.2]
      exact .inl ⟨⟨ms, finishAfter, early⟩, (l.punctual_reported finish).alone⟩
    · have late : ∀ f, (Child.start pid now b).finish = some f → now + span < f := by
        intro f is
        rw [finish, Option.map_eq_some_iff] at is
        obtain ⟨ms, finishAfter, rfl⟩ := is
        apply Nat.add_lt_add_left
        apply Nat.lt_of_not_ge
        intro early
        exact inTime ⟨ms, finishAfter, early⟩
      rw [watchedFate_late (Nat.le_add_right _ _) late] at h
      exact .inr ⟨inTime, expiredFate_timesOut h⟩
  | expired =>
    simp only [limit] at h
    refine .inr ⟨?_, expiredFate_timesOut h⟩
    rintro ⟨_, _, never⟩
    exact never
  | unusable =>
    simp only [limit] at h
    cases h

theorem freshFate_call {b : Behaviour} {pid : Nat}
    (h : l.freshFate timeout (Child.start pid now b) now = .call t c) :
    b.InTime timeout ∧ b.Reported l.command now (t, c) ∨
      ¬ b.InTime timeout ∧ c.failure ≠ none := by
  rcases freshFate_tells h with inTime | ⟨late, f, failed, -⟩
  · exact .inl inTime
  · refine .inr ⟨late, ?_⟩
    rw [failed]
    exact fun none => nomatch none

theorem Accounted.mono {p q : Prop} (h : l.Accounted p) (weaker : p → q) : l.Accounted q := by
  rcases h with ⟨untold, isOpen | ⟨ended, dead⟩⟩ | told
  · exact .inl ⟨untold, .inl isOpen⟩
  · exact .inl ⟨untold, .inr ⟨ended, weaker dead⟩⟩
  · exact .inr told

theorem act_manned (l : Launch) (t : Instant) (timeout : Value) :
    (l.act t timeout).child.isSome = l.child.isSome := by
  cases has : l.child with
  | none =>
    cases stage : l.stage with
    | unstarted f =>
      simp only [act, awake_stage, stage, (deliver_child_sent _ t _).1, awake_child, has]
    | _ => simp [act, stage, has, note, noteAll, goTo]
  | some c =>
    obtain ⟨c', has', -⟩ := act_takes has t timeout
    rw [has']
    rfl

end

end Launch

theorem Launch.create_manned {launcher : String} {handler : Option Handler × Recipient}
    {now : Instant} {pid : Nat} {command : List Value} {spawn : Spawn} {l : Launch}
    (created : create launcher handler now pid command spawn = .ok l)
    (manned : l.child.isSome) : ∃ b, spawn = .starts b := by
  cases create_created created with
  | unstarted _ _ => cases manned
  | started _ system => exact ⟨_, system⟩

theorem drain_ended {u v : World} {launcher : String} {i : Nat} {l₀ : Launch}
    (drained : u.drain launcher = some v) (tracked : u.Tracked)
    (there : u.runs[i]? = some (.accepted l₀)) (owner : l₀.launcher = launcher) :
    Reaches (Step.Spares i launcher (u.launcher launcher).timeout) u v ∧
      ∃ l, v.runs[i]? = some (.accepted l) ∧ l.stage = .ended := by
  obtain ⟨m, upTo, idle, onward, -⟩ := drain_reaches drained
  obtain ⟨l₁, there₁, owner₁, -⟩ := upTo.settles rfl there owner
  exact ⟨upTo.trans onward, onward.ended there₁
    (World.ended_of_pending_eq_zero (tracked.reaches upTo) idle there₁ owner₁)⟩

namespace CommandLine

theorem flatMap_stdoutOf_logs {entries : List Entry} (logs : ∀ e ∈ entries, e.isLog) :
    (entries.map Entry.event).flatMap stdoutOf = [] := by
  rw [List.flatMap_eq_nil_iff]
  intro event member
  obtain ⟨e, there, rfl⟩ := List.mem_map.mp member
  have log := logs e there
  unfold Entry.isLog at log
  split at log
  · rename_i is
    rw [is]
    rfl
  · cases log

theorem flatMap_stdoutOf_printing (p : Printout) : (Launch.printing p).flatMap stdoutOf = p.out := by
  have out : (if p.out.isEmpty then [] else [Event.out p.out]).flatMap stdoutOf = p.out := by
    cases is : p.out with
    | nil => rfl
    | cons mark text => simp [stdoutOf]
  have err : (if p.err.isEmpty then [] else [Event.err p.err]).flatMap stdoutOf = [] := by
    split <;> rfl
  rw [Launch.printing, List.flatMap_append, out, err, List.append_nil]

theorem stdout_of_accounted {mayDie : Prop} {l : Launch} (accounted : l.Accounted mayDie)
    (ended : l.stage = .ended) (handler : l.handler = some .prints) :
    (mayDie ∧ l.calls = [] ∧ (l.trace.map Entry.event).flatMap stdoutOf = []) ∨
      ∃ t c, l.calls = [(t, c)] ∧
        (l.trace.map Entry.event).flatMap stdoutOf = Text.ofChars (Utf8.decode c.stdout) := by
  rcases accounted with ⟨untold, isOpen | ⟨-, dead⟩⟩ | ⟨⟨t, c, logs, calls, log, seen⟩, -⟩
  · simp [ended, Stage.isOpen] at isOpen
  · exact .inl ⟨dead, untold.calls, flatMap_stdoutOf_logs untold.logs⟩
  · have owed : l.owed = [] := by simp [Launch.owed, ended]
    have shown : ((Launch.printing c.printout).map (⟨t, ·⟩)).map Entry.event =
        Launch.printing c.printout := by
      rw [List.map_map]
      exact List.map_id _
    rw [owed, List.append_nil, handler] at seen
    refine .inr ⟨t, c, calls, ?_⟩
    rw [seen, List.map_append, List.flatMap_append, flatMap_stdoutOf_logs log, List.nil_append,
      Handler.imprint, shown, flatMap_stdoutOf_printing]
    rfl

structure Finished (s : Setting) (o : Options) (e : Ending) (b : Behaviour) (l₀ l : Launch) :
    Prop where
  system : s.spawn = .starts b
  ending : e = ending s.stamp o.verbose l
  ended : l.stage = .ended
  handler : l.handler = some .prints
  accounted : l.Accounted (Limit.ofSetting o.timeout = .unusable)
  meets : l.Meets o.timeout
    (l₀.freshFate o.timeout (Child.start (world s.site o).nextPid (world s.site o).now b)
      (world s.site o).now)

theorem launch_exits {s : Setting} {o : Options} {e : Ending}
    (ends : CommandLine.launch s o = .exits e) :
    ∃ l₀ v l, (world s.site o).made (target s.spawn o) (some .prints) = .accepted l₀ ∧
      ((world s.site o).launch (target s.spawn o) (some .prints)).world.drain launcherName =
        some v ∧
      v.runs.findSome? Run.launch? = some l ∧ e = CommandLine.ending s.stamp o.verbose l := by
  unfold CommandLine.launch at ends
  simp only [World.launch_outcome] at ends
  cases made : (world s.site o).made (target s.spawn o) (some .prints) with
  | refused name refusal =>
    simp only [made] at ends
    cases ends
  | accepted l₀ =>
    simp only [made] at ends
    split at ends
    · cases ends
    · rename_i l found
      cases ends
      obtain ⟨v, drained, first⟩ := Option.bind_eq_some_iff.mp found
      exact ⟨l₀, v, l, rfl, drained, first, rfl⟩

theorem findSome?_launch? {runs : List Run} {l : Launch} (there : runs[0]? = some (.accepted l)) :
    runs.findSome? Run.launch? = some l := by
  cases runs with
  | nil => cases there
  | cons r rest =>
    cases Option.some.inj there
    rfl

/-- A command line that ends has seen its launch to the end. What every action keeps holds of it
then, since nobody but the launch itself had a part in it. -/
structure Attended (s : Setting) (o : Options) (e : Ending) (l₀ : Launch) (v : World) (l : Launch) :
    Prop where
  made : (world s.site o).made (target s.spawn o) (some .prints) = .accepted l₀
  drained : ((world s.site o).launch (target s.spawn o) (some .prints)).world.drain launcherName =
    some v
  there : v.runs[0]? = some (.accepted l)
  ending : e = ending s.stamp o.verbose l
  ended : l.stage = .ended
  keeps : ∀ P : Launch → Prop, P l₀ →
    (∀ l t, P l → l.next = some t → P (l.act t o.timeout)) → P l

theorem launch_attended {s : Setting} {o : Options} {e : Ending}
    (ends : CommandLine.launch s o = .exits e) : ∃ l₀ v l, Attended s o e l₀ v l := by
  obtain ⟨l₀, v, l, made, drained, first, rfl⟩ := launch_exits ends
  obtain ⟨command, -, created⟩ := World.made_accepted made
  have owner : l₀.launcher = launcherName := Launch.create_launcher created
  have there₀ := (world s.site o).launch_made (target s.spawn o) (some .prints)
  rw [made] at there₀
  have timeout : ((((world s.site o).launch (target s.spawn o) (some .prints)).world).launcher
      launcherName).timeout = o.timeout := by
    rw [World.launch_launcher]
    rfl
  have launched : Reaches (fun _ => True) (world s.site o)
      ((world s.site o).launch (target s.spawn o) (some .prints)).world := .of_move (.launch _ _)
  have tracked := (World.tracked_of_new rfl).reaches launched
  obtain ⟨reached, l', there, ended⟩ := drain_ended drained tracked there₀ owner
  rw [timeout] at reached
  cases Option.some.inj (first.symm.trans (findSome?_launch? there))
  refine ⟨l₀, v, l, made, drained, there, rfl, ended, ?_⟩
  intro P start act
  obtain ⟨l', there', -, kept⟩ := reached.keeps_spared timeout there₀ owner start act
  cases Option.some.inj (there.symm.trans there')
  exact kept

section
variable {s : Setting} {o : Options} {e : Ending} {l₀ l : Launch} {v : World}

theorem Attended.accounted (h : Attended s o e l₀ v l) :
    l.Accounted (Limit.ofSetting o.timeout = .unusable) := by
  obtain ⟨command, -, created⟩ := World.made_accepted h.made
  refine h.keeps _ ((Launch.create_accounted created).1.mono False.elim) ?_
  intro l t accounted due
  exact Launch.act_accounted accounted due id

theorem Attended.handler (h : Attended s o e l₀ v l) : l.handler = some .prints := by
  obtain ⟨command, -, created⟩ := World.made_accepted h.made
  refine h.keeps (fun l => l.handler = some .prints) (Launch.create_accounted created).2.1 ?_
  intro l t handled _
  exact (l.act_handler t _).trans handled

theorem Attended.manned (h : Attended s o e l₀ v l) : l.child.isSome = l₀.child.isSome := by
  refine h.keeps (fun l => l.child.isSome = l₀.child.isSome) rfl ?_
  intro l t manned _
  exact (l.act_manned t _).trans manned

theorem Attended.meets (h : Attended s o e l₀ v l) : l.Meets o.timeout (l₀.fate o.timeout) := by
  obtain ⟨command, -, created⟩ := World.made_accepted h.made
  refine h.keeps _ ?_ fun l t meets due => meets.act due
  have current := (Launch.create_clocked created).current
  cases Launch.create_created created <;> exact .waits rfl current rfl rfl

end

theorem launch_finished {s : Setting} {o : Options} {e : Ending}
    (ends : CommandLine.launch s o = .exits e) (started : e.spawned ≠ []) :
    ∃ b l₀ l, Finished s o e b l₀ l := by
  obtain ⟨l₀, v, l, attended⟩ := launch_attended ends
  obtain ⟨command, -, created⟩ := World.made_accepted attended.made
  have manned : l₀.child.isSome := by
    rw [← attended.manned]
    cases none : l.child with
    | some c => rfl
    | none => exact (started (by simp [attended.ending, CommandLine.ending, none])).elim
  obtain ⟨b, system⟩ := Launch.create_manned created manned
  have is : l₀.Started launcherName command b (world s.site o).nextPid (world s.site o).now := by
    have created' := created
    rw [system] at created'
    exact Launch.create_started created' manned
  have meets := attended.meets
  simp only [Launch.fate, is.stage, is.child, is.clock] at meets
  exact ⟨b, l₀, l, system, attended.ending, attended.ended, attended.handler, attended.accounted,
    meets⟩

/-- A command line that starts a child and ends is a success in two cases: the child exits with code
0 and finishes within its timeout, and then all that it wrote to its standard output is printed; or
the timeout is the empty list, whatever the child does, and then nothing is printed. -/
theorem success_reported_iff {s : Setting} {argv : List Word} {e : Ending}
    (ends : run s argv = .exits e) (started : e.spawned ≠ []) :
    ∃ o b, read argv = .ok o ∧ s.spawn = .starts b ∧
      (e.exit.status = 0 ↔
        o.timeout = .list [] ∨ b.exit = some 0 ∧ b.InTime o.timeout) ∧
      (o.timeout = .list [] → e.exit.stdout = []) ∧
      (o.timeout ≠ .list [] → e.exit.status = 0 →
        ∃ bytes, b.Amounts .out bytes ∧ e.exit.stdout = Text.ofChars (Utf8.decode bytes)) := by
  unfold run at ends
  split at ends
  · cases ends
    exact (started rfl).elim
  · rename_i o accepted
    have askable := read_askable accepted
    obtain ⟨b, l₀, l, system, rfl, ended, handler, accounted, meets⟩ :=
      launch_finished ends started
    refine ⟨o, b, accepted, system, ?_⟩
    rcases stdout_of_accounted accounted ended handler with
      ⟨unusable, calls, printed⟩ | ⟨t, c, calls, printed⟩
    · have separator := askable.unusable_iff.mp unusable
      have succeeds : status l = 0 := by simp [status, calls]
      exact ⟨⟨fun _ => .inl separator, fun _ => succeeds⟩, fun _ => printed,
        fun number => (number separator).elim⟩
    · have member : (t, c) ∈ l.calls := by simp [calls]
      have fate := (meets.eq_of_mem member).1
      have number : o.timeout ≠ .list [] := by
        intro separator
        simp [Launch.freshFate, separator, Limit.ofSetting] at fate
      have zero_iff : status l = 0 ↔ c.failure = none := by
        simpa [status, calls] using exitStatus_eq_zero_iff c.failure
      rcases Launch.freshFate_call fate with ⟨inTime, reported⟩ | ⟨late, failed⟩
      · obtain ⟨code, exit, tells⟩ := reported.telling
        refine ⟨(zero_iff.trans tells.clean).trans ⟨?_, ?_⟩, fun is => (number is).elim,
          fun _ _ => ⟨c.stdout, reported.stdout, printed⟩⟩
        · rintro rfl
          exact .inr ⟨exit, inTime⟩
        · rintro (separator | ⟨clean, -⟩)
          · exact (number separator).elim
          · exact Option.some.inj (exit.symm.trans clean)
      · refine ⟨⟨fun zero => (failed (zero_iff.mp zero)).elim, ?_⟩, fun is => (number is).elim,
          fun _ zero => (failed (zero_iff.mp zero)).elim⟩
        rintro (separator | ⟨-, inTime⟩)
        · exact (number separator).elim
        · exact (late inTime).elim

/-- A child that exits with status 3 after it has written to its standard output: with a lone
separator for a timeout that is a success, and nothing is printed. -/
theorem lone_separator_succeeds :
    let b : Behaviour := { exit := some 3, lifetime := 20, writes := [⟨.out, 0, [104, 105], false⟩] }
    let s : Setting := ⟨⟨defaultJava, ⟨.single, [jarName]⟩⟩, .starts b, []⟩
    let argv := [Text.ofString "--timeout=--", Text.ofString "x"]
    ∃ e o, run s argv = .exits e ∧ e.spawned ≠ [] ∧ e.exit.status = 0 ∧ read argv = .ok o ∧
      o.timeout = .list [] ∧ e.exit.stdout = [] := by
  intro b s argv
  have check : (match run s argv with
      | .exits e => e.exit.status = 0 && !e.spawned.isEmpty
      | _ => false) = true := by decide +kernel
  cases ends : run s argv with
  | escapes refusal => simp [ends] at check
  | hangs => simp [ends] at check
  | exits e =>
    simp only [ends, Bool.and_eq_true, decide_eq_true_eq, Bool.not_eq_true',
      List.isEmpty_eq_false_iff] at check
    obtain ⟨success, started⟩ := check
    obtain ⟨o, b', accepted, system, zero_iff, silent, -⟩ := success_reported_iff ends started
    cases Spawn.starts.inj system
    rcases zero_iff.mp success with separator | ⟨clean, -⟩
    · exact ⟨e, o, rfl, started, success, accepted, separator, silent separator⟩
    · cases clean

end CommandLine

end JarLaunch
