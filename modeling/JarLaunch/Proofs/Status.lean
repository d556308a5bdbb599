import JarLaunch.Proofs.Forwarding

/-! The status that a command line ends with, under any timeout that is a number or none at all. A
launch tells of its child what there is to tell at the instant of the call, and its handler prints
it. So the status is the code of a child that exits by itself in time, or of one that was stopped
too late, where such a code is positive. -/
namespace JarLaunch

namespace Launch

structure Candid (timeout : Value) (l : Launch) : Prop where
  silent : l.stage.isOpen → l.calls = []
  unmanned : ∀ f, l.stage = .unstarted f → l.child = none
  told : ∀ call ∈ l.calls, ∀ child, l.child = some child →
    call.2 = l.punctual child call.1 ∨ call.2 = l.overdue timeout child call.1

section
variable {l l' : Launch} {timeout : Value} {t : Instant} {child : Child}

theorem Candid.wait (silent : l'.calls = []) (started : ∀ f, l'.stage ≠ .unstarted f) :
    l'.Candid timeout := by
  refine ⟨fun _ => silent, fun f stage => (started f stage).elim, ?_⟩
  rw [silent]
  intro call member
  cases member

theorem Candid.close (told : ∀ call ∈ l.calls, ∀ child, l.child = some child →
      call.2 = l.punctual child call.1 ∨ call.2 = l.overdue timeout child call.1)
    (closed : l.stage.isOpen = false) : l.Candid timeout := by
  refine ⟨?_, ?_, told⟩
  · intro isOpen
    cases closed.symm.trans isOpen
  · intro f stage
    rw [stage] at closed
    cases closed

theorem deliver_candid {c : Completion} (silent : l.calls = [])
    (truth : ∀ child, l.child = some child →
      c = l.punctual child t ∨ c = l.overdue timeout child t) :
    (l.deliver t c).Candid timeout := by
  obtain ⟨calls, closed⟩ := l.deliver_calls t c
  have frame := l.deliver_frame t c
  have command : (l.deliver t c).command = l.command := congrArg (·.2.1) frame
  have line : (l.deliver t c).line = l.line := congrArg (·.2.2.1) frame
  refine .close ?_ closed
  rw [calls, silent, List.nil_append, (l.deliver_child_sent t c).1]
  intro call member child has
  cases List.mem_singleton.mp member
  unfold punctual overdue
  rw [command, line]
  exact truth child has

theorem conclude_candid {failure : Option Failure} (silent : l.calls = [])
    (has : l.child = some child) (reads : l.reads.Holds child t)
    (truth : failure = Failure.ofExit l.command l.line ((child.returncode t).getD 0) ∨
      failure = some (Failure.ofTimeout l.command l.line timeout (child.returncode t))) :
    (l.conclude t child failure).Candid timeout := by
  have out : l.reads.out.buffer = child.output .out t := reads .out
  have err : l.reads.err.buffer = child.output .err t := reads .err
  unfold conclude
  rw [out, err]
  refine deliver_candid silent ?_
  intro child' has'
  cases Option.some.inj (has.symm.trans has')
  rcases truth with rfl | rfl
  · exact .inl rfl
  · exact .inr rfl

theorem Candid.act (h : l.Candid timeout) (current : l.Current) (due : l.next = some t) :
    (l.act t timeout).Candid timeout := by
  have action : l.Action t timeout (l.act t timeout) := act_action current due
  generalize l.act t timeout = l' at action ⊢
  cases action with
  | tell stage =>
    refine deliver_candid (h.silent (by rw [stage]; rfl)) ?_
    intro child has
    cases (h.unmanned _ stage).symm.trans has
  | watch stage _ _ | die stage _ _ | stop stage _ _ | outlive stage _ _ =>
    exact .wait (h.silent (by rw [stage]; rfl)) fun f is => nomatch is
  | expire _ reason =>
    have isOpen : l.stage.isOpen := by
      rcases reason with ⟨stage, -⟩ | ⟨_, stage, -⟩ <;> rw [stage] <;> rfl
    rw [expire_eq]
    refine .wait (h.silent isOpen) ?_
    intro f
    dsimp only
    split <;> exact fun stage => nomatch stage
  | strike stage _ _ _ =>
    rw [strike_eq]
    refine .wait (h.silent (by rw [stage]; rfl)) ?_
    intro f
    dsimp only
    split <;> exact fun stage => nomatch stage
  | complete stage has _ reads =>
    exact conclude_candid (h.silent (by rw [stage]; rfl)) has reads.holds (.inl rfl)
  | giveUp stage has _ reads =>
    exact conclude_candid (h.silent (by rw [stage]; rfl)) has reads.holds (.inr rfl)
  | giveUpOpen stage has _ reads =>
    exact conclude_candid (h.silent (by rw [stage]; rfl)) has reads.holds.cancel (.inr rfl)
  | wake _ | leave _ => exact .close h.told rfl
  | strand isOpen started _ => exact .wait (h.silent isOpen) started

theorem create_candid {launcher : String} {handler : Option Handler × Recipient} {now : Instant}
    {pid : Nat} {command : List Value} {spawn : Spawn} (timeout : Value)
    (created : create launcher handler now pid command spawn = .ok l) : l.Candid timeout := by
  cases create_created created with
  | unstarted _ _ => exact ⟨fun _ => rfl, fun _ _ => rfl, fun _ member => by cases member⟩
  | started _ _ => exact .wait rfl fun f is => nomatch is

end

theorem create_attempt {l : Launch} {launcher : String} {handler : Option Handler × Recipient}
    {now : Instant} {pid : Nat} {command : List Value} {spawn : Spawn}
    (created : create launcher handler now pid command spawn = .ok l) :
    (∃ fault, (spawn.attempt command).2 = .fails fault ∧ l.calls = [] ∧
      l.stage = .unstarted (fault.failure command (executableText command))) ∨
    ∃ b, (spawn.attempt command).2 = .starts b ∧ l.Started launcher command b pid now := by
  unfold create at created
  dsimp only at created
  split at created <;> rename_i attempt
  · cases created
  · cases created
    exact .inl ⟨_, by rw [attempt], rfl, rfl⟩
  · cases created
    exact .inr ⟨_, by rw [attempt], rfl, rfl, rfl, rfl, rfl, rfl⟩

end Launch

theorem Failure.Tells.exitStatus {command : List Value} {code : Int} {failure : Option Failure}
    (tells : Tells command code failure) :
    JarLaunch.exitStatus failure = if 0 ≤ code then code else 1 := by
  cases failure with
  | none =>
    have zero := tells.clean.mp rfl
    simp [JarLaunch.exitStatus, zero]
  | some f =>
    have nonzero : code ≠ 0 := by
      intro zero
      cases tells.clean.mpr zero
    simp only [JarLaunch.exitStatus, Failure.exitStatus, tells.returncode f rfl]
    split <;> split <;> omega

namespace CommandLine

/-- The status that goes with what became of a command: `l` is its launch in the end, and `t` is the
instant at which it was told. -/
inductive Reflects (s : Setting) (o : Options) (l : Launch) (t : Instant) : Int → Prop where
  | unstarted {fault : SpawnFault} (fails : (s.spawn.attempt (command s.site o)).2 = .fails fault) :
      Reflects s o l t 1
  | exited {b : Behaviour} {code : Int}
      (starts : (s.spawn.attempt (command s.site o)).2 = .starts b) (inTime : b.InTime o.timeout)
      (exit : b.exit = some code) (own : 0 ≤ code) : Reflects s o l t code
  | signalled {b : Behaviour} {code : Int}
      (starts : (s.spawn.attempt (command s.site o)).2 = .starts b) (inTime : b.InTime o.timeout)
      (exit : b.exit = some code) (signal : code < 0) : Reflects s o l t 1
  | stopped {b : Behaviour} {child : Child} {code : Int}
      (starts : (s.spawn.attempt (command s.site o)).2 = .starts b) (late : ¬ b.InTime o.timeout)
      (has : l.child = some child) (returned : child.returncode t = some code)
      (positive : 0 < code) : Reflects s o l t code
  | lost {b : Behaviour} {child : Child}
      (starts : (s.spawn.attempt (command s.site o)).2 = .starts b) (late : ¬ b.InTime o.timeout)
      (has : l.child = some child) (returned : ∀ code, child.returncode t = some code → code ≤ 0) :
      Reflects s o l t 1

section
variable {s : Setting} {o : Options} {l : Launch} {t : Instant} {status : Int}

theorem Reflects.zero_iff (reflects : Reflects s o l t status) :
    status = 0 ↔ ∃ b, (s.spawn.attempt (command s.site o)).2 = .starts b ∧
      b.InTime o.timeout ∧ b.exit = some 0 := by
  cases reflects with
  | unstarted fails => simp [fails]
  | exited starts inTime exit _ => simp [starts, inTime, exit]
  | signalled starts _ exit signal =>
    have nonzero : ∀ code : Int, code < 0 → code ≠ 0 := fun _ => Int.ne_of_lt
    simp [starts, exit, nonzero _ signal]
  | stopped starts late _ _ positive => simp [starts, late, Int.ne_of_gt positive]
  | lost starts late _ _ => simp [starts, late]

theorem reflects_stopped {b : Behaviour} {child : Child} {c : Completion}
    (starts : (s.spawn.attempt (command s.site o)).2 = .starts b) (late : ¬ b.InTime o.timeout)
    (has : l.child = some child) (told : c = l.overdue o.timeout child t) :
    Reflects s o l t (exitStatus c.failure) := by
  have code : (Failure.ofTimeout l.command l.line o.timeout (child.returncode t)).returncode =
      child.returncode t := rfl
  simp only [told, Launch.overdue, exitStatus, Failure.exitStatus, code]
  cases returned : child.returncode t with
  | none => exact .lost starts late has fun code is => by cases returned.symm.trans is
  | some code =>
    dsimp only
    split
    · rename_i low
      refine .lost starts late has fun code' is => ?_
      cases returned.symm.trans is
      exact low
    · rename_i high
      exact .stopped starts late has returned (by omega)

theorem Attended.reflects {e : Ending} {l₀ : Launch} {v : World} {c : Completion}
    (attended : Attended s o e l₀ v l) (calls : l.calls = [(t, c)]) :
    Reflects s o l t (exitStatus c.failure) := by
  obtain ⟨command', is, created⟩ := World.made_accepted attended.made
  cases Except.ok.inj ((commandFor_eq s.site s.spawn o).symm.trans is)
  have member : (t, c) ∈ l.calls := by simp [calls]
  have fate := (attended.meets.eq_of_mem member).1
  rcases Launch.create_attempt created with ⟨fault, fails, -, stage⟩ | ⟨b, starts, is⟩
  · simp only [Launch.fate, stage, Fate.call.injEq] at fate
    rw [← fate.2]
    exact .unstarted fails
  · simp only [Launch.fate, is.stage, is.child, is.clock] at fate
    rcases Launch.freshFate_tells fate with ⟨inTime, reported⟩ | ⟨late, f, failed, timedOut⟩
    · obtain ⟨code, exit, tells⟩ := reported.telling
      rw [tells.exitStatus]
      split
      · rename_i own
        exact .exited starts inTime exit own
      · rename_i signal
        exact .signalled starts inTime exit (by omega)
    · have manned := attended.manned
      rw [is.child] at manned
      obtain ⟨child, has⟩ := Option.isSome_iff_exists.mp manned
      have candid := (attended.keeps (fun l => l.Current ∧ l.Candid o.timeout)
        ⟨(Launch.create_clocked created).current, Launch.create_candid o.timeout created⟩
        fun l t h due => ⟨Launch.act_current h.1 due _, h.2.act h.1 due⟩).2
      rcases candid.told _ member child has with punctual | overdue
      · -- a timeout is not told of a child that finished in time
        have ofExit : c.failure = Failure.ofExit l.command l.line ((child.returncode t).getD 0) :=
          congrArg Completion.failure punctual
        rw [Failure.isTimeout_ofExit (ofExit.symm.trans failed)] at timedOut
        cases timedOut
      · exact reflects_stopped starts late has overdue

end

/-- Under a timeout that is a number, or none, what a command line prints is the output that its
handler was called with, and its status is that of the command. -/
theorem status_reflects_command {s : Setting} {argv : List Word} {o : Options} {e : Ending}
    (accepted : read argv = .ok o)
    (number : o.timeout = .absent ∨ ∃ d, o.timeout = .double d)
    (ends : run s argv = .exits e) :
    ∃ v l t c, (launched s o).drain launcherName = some v ∧ v.runs[0]? = some (.accepted l) ∧
      l.calls = [(t, c)] ∧ e.exit.stdout = Text.ofChars (Utf8.decode c.stdout) ∧
      Reflects s o l t e.exit.status ∧
      (e.exit.status = 0 ↔ ∃ b, (s.spawn.attempt (command s.site o)).2 = .starts b ∧
        b.InTime o.timeout ∧ b.exit = some 0) := by
  rw [run, accepted] at ends
  obtain ⟨l₀, v, l, attended⟩ := launch_attended ends
  have ending := attended.ending
  subst e
  rcases stdout_of_accounted attended.accounted attended.ended attended.handler with
    ⟨unusable, -, -⟩ | ⟨t, c, calls, printed⟩
  · have separator := (read_askable accepted).unusable_iff.mp unusable
    rcases number with absent | ⟨d, double⟩
    · cases separator.symm.trans absent
    · cases separator.symm.trans double
  · have reflects := attended.reflects calls
    have told : status l = exitStatus c.failure := by simp [status, calls]
    rw [← told] at reflects
    exact ⟨v, l, t, c, attended.drained, attended.there, calls, printed, reflects,
      reflects.zero_iff⟩

/-- A child that exits with status 3 when it is asked to stop: that is the status, though the
timeout is what is reported. -/
theorem stopped_child_sets_status :
    let b : Behaviour :=
      { exit := none, onTerminate := .exits 5 3, writes := [⟨.out, 10, [104, 105], false⟩] }
    let s : Setting := ⟨⟨defaultJava, ⟨.single, [jarName]⟩⟩, .starts b, []⟩
    let argv := [Text.ofString "--timeout=1", Text.ofString "x"]
    ∃ e o d v l t c child, run s argv = .exits e ∧ read argv = .ok o ∧ o.timeout = .double d ∧
      (launched s o).drain launcherName = some v ∧ v.runs[0]? = some (.accepted l) ∧
      l.calls = [(t, c)] ∧ e.exit.stdout = Text.ofChars (Utf8.decode c.stdout) ∧
      e.exit.status = 3 ∧ l.child = some child ∧ child.returncode t = some 3 := by
  intro b s argv
  have check : (match run s argv with
      | .exits e => decide (e.exit.status = 3)
      | _ => false) = true := by decide +kernel
  have numeric : (match read argv with
      | .ok o => (match o.timeout with
        | .double _ => true
        | _ => false)
      | .error _ => false) = true := by decide +kernel
  cases ends : run s argv with
  | escapes refusal => simp [ends] at check
  | hangs => simp [ends] at check
  | exits e =>
    simp only [ends, decide_eq_true_eq] at check
    obtain ⟨o, d, accepted, double⟩ : ∃ o d, read argv = .ok o ∧ o.timeout = .double d := by
      cases accepted : read argv with
      | error stop => simp [accepted] at numeric
      | ok o =>
        cases timeout : o.timeout with
        | double d => exact ⟨o, d, rfl, timeout⟩
        | _ => simp [accepted, timeout] at numeric
    obtain ⟨v, l, t, c, drained, there, calls, printed, reflects, -⟩ :=
      status_reflects_command accepted (.inr ⟨d, double⟩) ends
    rw [check] at reflects
    cases reflects with
    | exited starts _ exit _ =>
      cases Spawn.attempt_starts (Prod.ext rfl starts)
      cases exit
    | stopped _ _ has returned _ =>
      exact ⟨e, o, d, v, l, t, c, _, rfl, accepted, double, drained, there, calls, printed, check,
        has, returned⟩

end CommandLine

end JarLaunch
