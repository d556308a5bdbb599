import JarLaunch.Proofs.Signals

/-! The protocol of a launch. What can be seen of a launch, in order, is the beginning of a word:
the log up to its last line, the call of the handler, and the failure of the handler if it fails.
The last line of the log and the call are the work of different actions, yet they agree. -/
namespace JarLaunch

/-- Does a handler record the calls it takes, and do nothing else that is seen? -/
def Handler.isRecorder : Option Handler → Bool
  | none | some .misfits | some .prints => false
  | some _ => true

def Handler.fault : Option Handler → Option HandlerFault
  | some .fails => some .runtime
  | some (.dozesThenFails _) => some .key
  | _ => none

theorem Handler.imprint_events {handler : Option Handler} (recorder : isRecorder handler)
    (recipient : Recipient) (t : Instant) (c : Completion) :
    (imprint recipient t c handler).map Entry.event =
      .call recipient c :: (fault handler).toList.map .raised := by
  cases handler with
  | none => cases recorder
  | some h =>
    cases h with
    | misfits | prints => cases recorder
    | _ => rfl

namespace Launch

def events (l : Launch) : List Event := l.trace.map Entry.event

def started (c : Child) (line : Text) : Event := .log .debug (startedText c.pid line)

/-- What is logged of a child after its start, up to the report that its handler gets. -/
inductive Report (command : List Value) (line : Text) (c : Child) :
    Option Failure → List Event → Prop where
  | clean : Report command line c none [exitedCleanly c]
  | failed {code : Int} {f : Failure} (is : Failure.ofExit command line code = some f) :
      Report command line c (some f) [.log .warning f.message]
  | late {before now : Value} {code : Option Int} {f : Failure}
      (is : f = Failure.ofTimeout command line now code) :
      Report command line c (some f) [stillRunning c before, .log .warning f.message]
  | held {before now : Value} {code : Option Int} {f : Failure}
      (is : f = Failure.ofTimeout command line now code) :
      Report command line c (some f)
        [stillRunning c before, pipesOpen c, .log .warning f.message]

/-- The whole log of a launch, and what its handler is called with. -/
inductive Story (command : List Value) (line : Text) :
    Option Child → List Event → Completion → Prop where
  | unstarted (fault : SpawnFault) :
      Story command line none [.log .warning (notStartedText command fault)]
        ⟨some (fault.failure command (executableText command)), [], []⟩
  | launched {child : Child} {logs : List Event} {c : Completion}
      (report : Report command line child c.failure logs) :
      Story command line (some child) (started child line :: logs) c

structure Agree (child : Option Child) (logs : List Event) (failure : Option Failure) : Prop where
  clean : (∃ c, exitedCleanly c ∈ logs) ↔ failure = none
  late : (∃ c timeout, stillRunning c timeout ∈ logs) ↔ ∃ f, failure = some f ∧ f.isTimeout
  last : child.isSome → ∀ f, failure = some f → logs.getLast? = some (.log .warning f.message)

section
variable {command : List Value} {line : Text} {child : Child} {failure : Option Failure}
  {logs : List Event}

theorem log_inj {level level' : Level} {text text' : Text}
    (same : Event.log level text = .log level' text') :
    level = level' ∧ text.head? = text'.head? := by
  cases same
  exact ⟨rfl, rfl⟩

@[simp] theorem exitedCleanly_ne_started (c : Child) : exitedCleanly c ≠ started child line := by
  intro same
  have heads := (log_inj same).2
  simp [pidText, startedText, Text.ofString, Text.ofChars] at heads

@[simp] theorem exitedCleanly_ne_warning (c : Child) (text : Text) :
    exitedCleanly c ≠ .log .warning text := by
  intro same
  cases (log_inj same).1

@[simp] theorem exitedCleanly_ne_stillRunning (c : Child) (timeout : Value) :
    exitedCleanly c ≠ stillRunning child timeout := exitedCleanly_ne_warning c _

@[simp] theorem exitedCleanly_ne_pipesOpen (c : Child) : exitedCleanly c ≠ pipesOpen child :=
  exitedCleanly_ne_warning c _

@[simp] theorem stillRunning_ne_started (c : Child) (timeout : Value) :
    stillRunning c timeout ≠ started child line := by
  intro same
  cases (log_inj same).1

@[simp] theorem stillRunning_ne_notStarted (c : Child) (timeout : Value) (fault : SpawnFault) :
    stillRunning c timeout ≠ .log .warning (notStartedText command fault) := by
  intro same
  have heads := (log_inj same).2
  simp [pidText, notStartedText, Text.ofString, Text.ofChars] at heads

theorem stillRunning_ne_failure (c : Child) (timeout : Value) {code : Int} {f : Failure}
    (is : Failure.ofExit command line code = some f) :
    stillRunning c timeout ≠ .log .warning f.message := by
  intro same
  have heads := (log_inj same).2
  unfold Failure.ofExit at is
  split at is
  · cases is
  · split at is <;> cases is <;> simp [pidText, Text.ofString, Text.ofChars] at heads

theorem Agree.of_failure {child : Option Child} {f : Failure}
    (unclean : ∀ c, exitedCleanly c ∉ logs)
    (late : (∃ c timeout, stillRunning c timeout ∈ logs) ↔ f.isTimeout)
    (last : child.isSome → logs.getLast? = some (.log .warning f.message)) :
    Agree child logs (some f) := by
  refine ⟨?_, ?_, ?_⟩
  · constructor
    · rintro ⟨c, member⟩
      exact (unclean c member).elim
    · intro none
      cases none
  · rw [late]
    constructor
    · intro timedOut
      exact ⟨f, rfl, timedOut⟩
    · rintro ⟨_, is, timedOut⟩
      cases is
      exact timedOut
  · intro has _ is
    cases is
    exact last has

theorem Report.agree (h : Report command line child failure logs) :
    Agree (some child) (started child line :: logs) failure := by
  cases h with
  | clean =>
    refine ⟨⟨fun _ => rfl, fun _ => ⟨child, by simp⟩⟩, ?_, fun _ f none => nomatch none⟩
    simp [(exitedCleanly_ne_stillRunning _ _).symm]
  | failed is =>
    apply Agree.of_failure
    · simp
    · simp [stillRunning_ne_failure _ _ is, Failure.isTimeout_ofExit is]
    · simp
  | @late before now code f is =>
    apply Agree.of_failure
    · simp
    · subst is
      exact ⟨fun _ => rfl, fun _ => ⟨child, before, by simp⟩⟩
    · simp
  | @held before now code f is =>
    apply Agree.of_failure
    · simp
    · subst is
      exact ⟨fun _ => rfl, fun _ => ⟨child, before, by simp⟩⟩
    · simp

theorem Story.agree {child : Option Child} {c : Completion} (h : Story command line child logs c) :
    Agree child logs c.failure := by
  cases h with
  | unstarted fault =>
    apply Agree.of_failure
    · simp
    · simp [Failure.isTimeout, SpawnFault.failure]
    · intro has
      cases has
  | launched report => exact report.agree

theorem Report.pid {child' : Child} (h : Report command line child failure logs)
    (same : child'.pid = child.pid) : Report command line child' failure logs := by
  have shown (rest : Text) : pidText child rest = pidText child' rest := by simp [pidText, same]
  cases h with
  | clean =>
    rw [exitedCleanly, shown]
    exact .clean
  | failed is => exact .failed is
  | late is =>
    rw [stillRunning, shown]
    exact .late is
  | held is =>
    rw [stillRunning, shown, pipesOpen, shown]
    exact .held is

end

inductive Recounted (l : Launch) : Prop where
  | told {t : Instant} {c : Completion} {logs : List Event} (calls : l.calls = [(t, c)])
      (story : Story l.command l.line l.child logs c)
      (seen : (l.trace ++ l.owed).map Entry.event =
        logs ++ (Handler.imprint l.recipient t c l.handler).map Entry.event)
  | died {c : Child} (ended : l.stage = .ended) (calls : l.calls = []) (has : l.child = some c)
      (seen : l.events = [started c l.line])

/-- What has been seen of a launch follows from its stage. -/
def Scripted (l : Launch) : Prop :=
  match l.stage with
  | .unstarted f => l.calls = [] ∧ l.child = none ∧
      ∃ fault, f = SpawnFault.failure fault l.command (executableText l.command) ∧
        l.events = [.log .warning (notStartedText l.command fault)]
  | .fresh | .watching _ => l.calls = [] ∧ ∃ c, l.child = some c ∧ l.events = [started c l.line]
  | .terminating _ | .killing | .draining _ => l.calls = [] ∧
      ∃ c timeout, l.child = some c ∧ l.events = [started c l.line, stillRunning c timeout]
  | .dozing _ _ _ | .lingering _ | .asking _ _ | .ended => l.Recounted

section
variable {l : Launch} {t : Instant} {timeout : Value} {child : Child}

theorem Scripted.of_closed (closed : l.stage.isOpen = false) (h : l.Recounted) : l.Scripted := by
  unfold Scripted
  cases stage : l.stage with
  | dozing _ _ _ | lingering _ | asking _ _ | ended => exact h
  | unstarted _ | fresh | watching _ | terminating _ | killing | draining _ =>
    simp [stage, Stage.isOpen] at closed

theorem Scripted.recounted (h : l.Scripted) (closed : l.stage.isOpen = false) : l.Recounted := by
  unfold Scripted at h
  cases stage : l.stage with
  | dozing _ _ _ | lingering _ | asking _ _ | ended => simpa only [stage] using h
  | unstarted _ | fresh | watching _ | terminating _ | killing | draining _ =>
    simp [stage, Stage.isOpen] at closed

theorem deliver_scripted {c : Completion} (calls : l.calls = []) (clock : l.clock = t)
    (story : Story l.command l.line l.child l.events c) : (l.deliver t c).Scripted := by
  obtain ⟨called, closed⟩ := l.deliver_calls t c
  obtain ⟨child, -⟩ := l.deliver_child_sent t c
  have frame := l.deliver_frame t c
  have command : (l.deliver t c).command = l.command := congrArg (·.2.1) frame
  have line : (l.deliver t c).line = l.line := congrArg (·.2.2.1) frame
  have recipient : (l.deliver t c).recipient = l.recipient := congrArg (·.2.2.2.1) frame
  have handler : (l.deliver t c).handler = l.handler := congrArg (·.2.2.2.2.1) frame
  rw [calls, List.nil_append] at called
  refine .of_closed closed (.told called (command ▸ line ▸ child ▸ story) ?_)
  rw [l.deliver_seen t c clock, List.map_append, recipient, handler]
  rfl

theorem note_events (l : Launch) (t : Instant) (e : Event) :
    (l.note t e).events = l.events ++ [e] := by
  simp [events, note]

theorem conclude_scripted {failure : Option Failure} {logs : List Event} (calls : l.calls = [])
    (clock : l.clock = t) (has : l.child = some child)
    (seen : l.events = started child l.line :: logs)
    (report : Report l.command l.line child failure
      (logs ++ [match failure with
        | none => exitedCleanly child
        | some f => .log .warning f.message])) :
    (l.conclude t child failure).Scripted := by
  refine deliver_scripted calls clock ?_
  rw [note_events, seen]
  change Story l.command l.line l.child _ _
  rw [has]
  exact .launched report

theorem expire_scripted (calls : l.calls = []) (seen : l.events = [started child l.line]) :
    (l.expire t child timeout).Scripted := by
  have same : ((child.terminate? t).getD child).pid = child.pid := (child.terminate?_takes t).pid
  have logged : (l.note t (stillRunning child timeout)).events =
      [started ((child.terminate? t).getD child) l.line,
        stillRunning ((child.terminate? t).getD child) timeout] := by
    simp only [note_events, seen, started, stillRunning, pidText, same]
    rfl
  rw [expire_eq]
  by_cases gone : (child.terminate? t).all (·.exitedBy t)
  · simp only [Scripted, gone, if_true]
    exact ⟨calls, _, timeout, rfl, logged⟩
  · simp only [Scripted, gone, Bool.false_eq_true, if_false]
    exact ⟨calls, _, timeout, rfl, logged⟩

theorem strike_scripted (calls : l.calls = []) {before : Value}
    (seen : l.events = [started child l.line, stillRunning child before]) :
    (l.strike t child).Scripted := by
  have same : ((child.kill? t).getD child).pid = child.pid := (child.kill?_takes t).pid
  have logged : l.events = [started ((child.kill? t).getD child) l.line,
      stillRunning ((child.kill? t).getD child) before] := by
    simp only [seen, started, stillRunning, pidText, same]
  rw [strike_eq]
  by_cases exited : ((child.kill? t).getD child).exitedBy t
  · simp only [Scripted, exited, if_true]
    exact ⟨calls, _, before, rfl, logged⟩
  · simp only [Scripted, exited, Bool.false_eq_true, if_false]
    exact ⟨calls, _, before, rfl, logged⟩

theorem complete_scripted (calls : l.calls = []) (clock : l.clock = t) (has : l.child = some child)
    (seen : l.events = [started child l.line]) : (l.complete t child).Scripted := by
  unfold complete
  cases failure : Failure.ofExit l.command l.line ((child.returncode t).getD 0) with
  | none => exact conclude_scripted calls clock has seen .clean
  | some f => exact conclude_scripted calls clock has seen (.failed failure)

theorem Recounted.leave {l' : Launch} (h : l.Recounted) (going : l.stage ≠ .ended)
    (calls : l'.calls = l.calls) (command : l'.command = l.command) (line : l'.line = l.line)
    (child : l'.child = l.child) (recipient : l'.recipient = l.recipient)
    (handler : l'.handler = l.handler)
    (seen : (l'.trace ++ l'.owed).map Entry.event = (l.trace ++ l.owed).map Entry.event) :
    l'.Recounted := by
  cases h with
  | told once story told =>
    refine .told (calls.trans once) (command ▸ line ▸ child ▸ story) ?_
    rw [seen, told, recipient, handler]
  | died ended _ _ _ => exact (going ended).elim

theorem Scripted.act (h : l.Scripted) (current : l.Current) (due : l.next = some t) :
    (l.act t timeout).Scripted := by
  have action : l.Action t timeout (l.act t timeout) := act_action current due
  generalize l.act t timeout = l' at action ⊢
  cases action with
  | tell stage =>
    simp only [Scripted, stage] at h
    obtain ⟨calls, none, fault, rfl, seen⟩ := h
    refine deliver_scripted calls rfl ?_
    change Story l.command l.line l.child l.events _
    rw [none, seen]
    exact .unstarted fault
  | watch stage _ _ =>
    simp only [Scripted, stage] at h
    exact h
  | die stage _ _ =>
    simp only [Scripted, stage] at h
    obtain ⟨calls, c, has, seen⟩ := h
    exact .of_closed rfl (.died rfl calls has seen)
  | expire there reason =>
    have ahead : l.calls = [] ∧ ∃ c, l.child = some c ∧ l.events = [started c l.line] := by
      rcases reason with ⟨stage, -⟩ | ⟨_, stage, -, -⟩ <;> simpa only [Scripted, stage] using h
    obtain ⟨calls, c, has, seen⟩ := ahead
    cases Option.some.inj (has.symm.trans there)
    exact expire_scripted calls seen
  | complete stage there _ =>
    simp only [Scripted, stage] at h
    obtain ⟨calls, c, has, seen⟩ := h
    cases Option.some.inj (has.symm.trans there)
    exact complete_scripted calls rfl has seen
  | stop stage _ _ | outlive stage _ _ =>
    simp only [Scripted, stage] at h
    exact h
  | strike stage there _ _ =>
    simp only [Scripted, stage] at h
    obtain ⟨calls, c, before, has, seen⟩ := h
    cases Option.some.inj (has.symm.trans there)
    exact strike_scripted calls seen
  | giveUp stage there _ =>
    simp only [Scripted, stage] at h
    obtain ⟨calls, c, before, has, seen⟩ := h
    cases Option.some.inj (has.symm.trans there)
    exact conclude_scripted calls rfl has seen (.late rfl)
  | @giveUpOpen c r _ stage there _ =>
    simp only [Scripted, stage] at h
    obtain ⟨calls, c', before, has, seen⟩ := h
    obtain rfl : c' = c := Option.some.inj (has.symm.trans there)
    have held : ((l.having t r).stopReading.note t (pipesOpen c')).events =
        [started c' l.line, stillRunning c' before, pipesOpen c'] :=
      (note_events _ t _).trans (congrArg (· ++ [pipesOpen c']) seen)
    exact conclude_scripted calls rfl has held (.held rfl)
  | @wake r bound c fault stage =>
    have closed : l.stage.isOpen = false := by rw [stage]; rfl
    refine .of_closed rfl ((h.recounted closed).leave (by simp [stage]) rfl rfl rfl rfl rfl rfl ?_)
    simp [owed, stage, note, noteAll, goTo]
  | leave stage =>
    have closed : l.stage.isOpen = false := by
      rcases stage with ⟨_, stage⟩ | ⟨_, _, stage⟩ <;> rw [stage] <;> rfl
    refine .of_closed rfl ((h.recounted closed).leave ?_ rfl rfl rfl rfl rfl rfl ?_)
    · rcases stage with ⟨_, stage⟩ | ⟨_, _, stage⟩ <;> simp [stage]
    · rcases stage with ⟨_, stage⟩ | ⟨_, _, stage⟩ <;> simp [owed, stage, goTo]
  | strand isOpen unstarted none =>
    cases stage : l.stage with
    | unstarted f => exact (unstarted f stage).elim
    | fresh | watching _ =>
      simp only [Scripted, stage] at h
      obtain ⟨-, c, has, -⟩ := h
      cases has.symm.trans none
    | terminating _ | killing | draining _ =>
      simp only [Scripted, stage] at h
      obtain ⟨-, c, -, has, -⟩ := h
      cases has.symm.trans none
    | dozing _ _ _ | lingering _ | asking _ _ | ended => simp [stage, Stage.isOpen] at isOpen

theorem Story.pid {command : List Value} {line : Text} {logs : List Event} {c : Completion}
    {child' : Child} (h : Story command line (some child) logs c) (same : child'.pid = child.pid) :
    Story command line (some child') logs c := by
  cases h with
  | launched report =>
    rw [started, ← same]
    exact .launched (report.pid same)

theorem Scripted.signalled (h : l.Scripted) (has : l.child = some child) {child' : Child}
    (same : child'.pid = child.pid) : ({ l with child := some child' } : Launch).Scripted := by
  have starts : started child l.line = started child' l.line := by simp only [started, same]
  have runs (timeout : Value) : stillRunning child timeout = stillRunning child' timeout := by
    simp only [stillRunning, pidText, same]
  cases stage : l.stage with
  | unstarted f =>
    simp only [Scripted, stage] at h
    cases has.symm.trans h.2.1
  | fresh | watching _ =>
    simp only [Scripted, stage] at h ⊢
    obtain ⟨calls, c, there, seen⟩ := h
    cases Option.some.inj (has.symm.trans there)
    exact ⟨calls, child', rfl, starts ▸ seen⟩
  | terminating _ | killing | draining _ =>
    simp only [Scripted, stage] at h ⊢
    obtain ⟨calls, c, timeout, there, seen⟩ := h
    cases Option.some.inj (has.symm.trans there)
    exact ⟨calls, child', timeout, rfl, starts ▸ runs timeout ▸ seen⟩
  | dozing _ _ _ | lingering _ | asking _ _ | ended =>
    have closed : l.stage.isOpen = false := by rw [stage]; rfl
    refine stage ▸ .of_closed closed ?_
    cases h.recounted closed with
    | told calls story seen => exact .told calls ((has ▸ story).pid same) seen
    | died ended calls there seen =>
      cases Option.some.inj (has.symm.trans there)
      exact .died ended calls rfl (starts ▸ seen)

theorem create_scripted {launcher : String} {handler : Option Handler × Recipient} {pid : Nat}
    {command : List Value} {spawn : Spawn}
    (created : create launcher handler t pid command spawn = .ok l) : l.Scripted := by
  cases create_created created with
  | unstarted _ fault => exact ⟨rfl, rfl, fault, rfl, rfl⟩
  | started _ _ => exact ⟨rfl, _, rfl, rfl⟩

theorem Scripted.passes {l' : Launch} {kind : String → Value → Prop} {signals : Prop} {now : Instant}
    (h : l.Scripted) (passes : l.Passes kind signals now t l') : l'.Scripted := by
  cases passes with
  | wait _ _ => exact h
  | act due _ _ current => exact h.act current due
  | signal has takes _ => exact h.signalled has takes.pid

/-- A word with its call, and the failure of the handler if it fails. -/
def word (l : Launch) (logs : List Event) (c : Completion) : List Event :=
  logs ++ .call l.recipient c :: (Handler.fault l.handler).toList.map .raised

def Delivered (l : Launch) : Prop :=
  l.calls ≠ [] ∧ ∀ bound c fault, l.stage ≠ .dozing bound c fault

/-- What can be seen of a launch is the beginning of a word, and all of it once the call is
delivered. -/
structure Follows (l : Launch) (logs : List Event) (c : Completion) : Prop where
  story : Story l.command l.line l.child logs c
  begins : l.events <+: l.word logs c
  delivered : l.Delivered → l.events = l.word logs c ∧ ∃ t, l.calls = [(t, c)]

theorem Follows.of_open {logs : List Event} {c : Completion}
    (story : Story l.command l.line l.child logs c) (calls : l.calls = [])
    (begins : l.events <+: logs) : l.Follows logs c := by
  refine ⟨story, begins.trans (List.prefix_append _ _), ?_⟩
  intro delivered
  exact (delivered.1 calls).elim

theorem Follows.of_started (calls : l.calls = []) (has : l.child = some child)
    (seen : l.events = [started child l.line]) : ∃ logs c, l.Follows logs c := by
  have story : Story l.command l.line l.child [started child l.line, exitedCleanly child]
      ⟨none, [], []⟩ := by
    rw [has]
    exact .launched .clean
  refine ⟨_, _, .of_open story calls ?_⟩
  rw [seen]
  exact List.prefix_append [_] [_]

theorem owed_eq_nil (awake : ∀ bound c fault, l.stage ≠ .dozing bound c fault) : l.owed = [] := by
  unfold owed
  split
  · rename_i stage
    exact (awake _ _ _ stage).elim
  · rfl

theorem Recounted.follows (h : l.Recounted) (recorder : Handler.isRecorder l.handler) :
    ∃ logs c, l.Follows logs c := by
  cases h with
  | @told t c logs calls story seen =>
    rw [Handler.imprint_events recorder, List.map_append] at seen
    refine ⟨logs, c, story, ⟨_, seen⟩, ?_⟩
    intro delivered
    rw [owed_eq_nil delivered.2, List.map_nil, List.append_nil] at seen
    exact ⟨seen, t, calls⟩
  | died _ calls has seen => exact Follows.of_started calls has seen

theorem Scripted.follows (h : l.Scripted) (recorder : Handler.isRecorder l.handler) :
    ∃ logs c, l.Follows logs c := by
  cases stage : l.stage with
  | unstarted f =>
    simp only [Scripted, stage] at h
    obtain ⟨calls, none, fault, -, seen⟩ := h
    have story : Story l.command l.line l.child l.events
        ⟨some (fault.failure l.command (executableText l.command)), [], []⟩ := by
      rw [none, seen]
      exact .unstarted fault
    exact ⟨_, _, .of_open story calls (List.prefix_refl _)⟩
  | fresh | watching _ =>
    simp only [Scripted, stage] at h
    obtain ⟨calls, c, has, seen⟩ := h
    exact Follows.of_started calls has seen
  | terminating _ | killing | draining _ =>
    simp only [Scripted, stage] at h
    obtain ⟨calls, c, timeout, has, seen⟩ := h
    let f := Failure.ofTimeout l.command l.line timeout none
    have story : Story l.command l.line l.child
        [started c l.line, stillRunning c timeout, .log .warning f.message] ⟨some f, [], []⟩ := by
      rw [has]
      exact .launched (.late rfl)
    refine ⟨_, _, .of_open story calls ?_⟩
    rw [seen]
    exact List.prefix_append [_, _] [_]
  | dozing _ _ _ | lingering _ | asking _ _ | ended =>
    exact (h.recounted (by rw [stage]; rfl)).follows recorder

end

end Launch

/-- Whatever happens to a world: the events of a launch whose handler records its calls follow the
protocol, and the log agrees with what the handler is told. -/
theorem events_follow_protocol {allowed : Step → Prop} {start w : World} {i : Nat} {l : Launch}
    (new : start.runs = []) (reached : Reaches allowed start w)
    (there : w.runs[i]? = some (.accepted l)) (recorder : Handler.isRecorder l.handler) :
    ∃ logs c, l.Follows logs c ∧ Launch.Agree l.child logs c.failure := by
  have free : SetsOnly allowed fun _ _ => True := fun _ _ _ _ _ => trivial
  have none : ∀ (i : Nat) (l : Launch), start.runs[i]? = some (.accepted l) → l.Scripted := by
    intro i l there
    rw [new] at there
    cases there
  have scripted : l.Scripted := reached.every (P := fun _ l => l.Scripted)
    (World.clocked_of_new new) free (fun _ => trivial) none
    (fun _ _ _ _ _ _ _ created => Launch.create_scripted created)
    (fun _ _ _ _ _ _ h passes => h.passes passes) there
  obtain ⟨logs, c, follows⟩ := scripted.follows recorder
  exact ⟨logs, c, follows, follows.story.agree⟩

/-- A child that is stopped while a grandchild holds its pipes, and a handler that fails later. -/
theorem held_pipes_follow_protocol :
    let b : Behaviour := { exit := none, hold := some 9000 }
    ∃ w l logs c, (World.solo { timeout := .flag true }).through
        [.run (World.soloTarget (.starts b)) (some (.dozesThenFails 10)), .sleep 3500] = some w ∧
      w.runs[0]? = some (.accepted l) ∧ Handler.isRecorder l.handler ∧ l.Delivered ∧
      l.events.length = 6 ∧ l.Follows logs c ∧ Launch.Agree l.child logs c.failure := by
  intro b
  have check : ((World.solo { timeout := .flag true }).through
      [.run (World.soloTarget (.starts b)) (some (.dozesThenFails 10)), .sleep 3500]).any
      fun w => w.shows 0 fun l => l.calls.length = 1 && l.stage.isEnded && l.events.length = 6 &&
        Handler.isRecorder l.handler := by decide +kernel
  obtain ⟨w, played, h⟩ := (Option.any_eq_true _ _).mp check
  obtain ⟨l, there, is⟩ := (w.shows_iff 0 _).mp h
  simp only [Bool.and_eq_true, decide_eq_true_eq] at is
  obtain ⟨⟨⟨once, ended⟩, six⟩, recorder⟩ := is
  have reached : Reaches (fun _ => True) (World.solo { timeout := .flag true }) w :=
    through_reaches (fun _ _ => trivial) played
  have delivered : l.Delivered := by
    constructor
    · intro none
      simp [none] at once
    · intro _ _ _ stage
      rw [stage] at ended
      cases ended
  obtain ⟨logs, c, follows, agree⟩ := events_follow_protocol rfl reached there recorder
  exact ⟨w, l, logs, c, played, there, recorder, delivered, six, follows, agree⟩

def Event.isRaised : Event → Bool
  | .raised _ => true
  | _ => false

/-- A handler that gives up leaves its call by an exception, and nothing is logged of it. -/
theorem cancelled_handler_not_logged :
    let b : Behaviour := { exit := some 0, lifetime := 20 }
    ∃ w l, (World.solo {}).through
        [.run (World.soloTarget (.starts b)) (some .cancels), .sleep 100] = some w ∧
      w.runs[0]? = some (.accepted l) ∧ l.stage.isEnded ∧ l.calls.length = 1 ∧
      l.events.length = 3 ∧ l.events.any Event.isRaised = false := by
  intro b
  have check : ((World.solo {}).through
      [.run (World.soloTarget (.starts b)) (some .cancels), .sleep 100]).any
      fun w => w.shows 0 fun l => l.stage.isEnded && l.calls.length = 1 && l.events.length = 3 &&
        !l.events.any Event.isRaised := by decide +kernel
  obtain ⟨w, played, h⟩ := (Option.any_eq_true _ _).mp check
  obtain ⟨l, there, is⟩ := (w.shows_iff 0 _).mp h
  simp only [Bool.and_eq_true, decide_eq_true_eq, Bool.not_eq_true'] at is
  obtain ⟨⟨⟨ended, once⟩, three⟩, quiet⟩ := is
  exact ⟨w, l, played, there, ended, once, three, quiet⟩

end JarLaunch
