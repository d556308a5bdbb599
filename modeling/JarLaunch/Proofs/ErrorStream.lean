import JarLaunch.Proofs.Reassignment
import JarLaunch.Proofs.Verbosity

/-! The error stream of a command line that was not asked to log. Debug records are dropped, but
warnings are written all the same, one bare line each, and every failure has a warning of its own.
So the child's error output and the line that reports the failure are all there is only if there is
no failure; otherwise they come after the warnings. -/
namespace JarLaunch

namespace Completion

def complaint (c : Completion) : Text :=
  match c.failure with
  | none => []
  | some f => Text.ofString "exec error: " ++ f.message ++ Text.ofString "\n"

/-- The child's error output as it was delivered, and the report of a failure after it. -/
def errorText (c : Completion) : Text := Text.ofChars (Utf8.decode c.stderr) ++ c.complaint

theorem errorText_eq (c : Completion) : c.errorText = c.printout.err := by
  unfold errorText complaint Printout.err printout
  cases c.failure <;> rfl

end Completion

namespace Launch

/-- The warnings about a launch that has come to an end, under a timeout that stayed as it was. -/
inductive Warnings (timeout : Value) (l : Launch) : Option Failure → List Text → Prop where
  | clean {child : Child} (has : l.child = some child) : Warnings timeout l none []
  | unstarted (none : l.child = none) (fault : SpawnFault) :
      Warnings timeout l (some (fault.failure l.command (executableText l.command)))
        [notStartedText l.command fault]
  | failed {child : Child} {code : Int} {f : Failure} (has : l.child = some child)
      (is : Failure.ofExit l.command l.line code = some f) :
      Warnings timeout l (some f) [f.message]
  | late {child : Child} {code : Option Int} {f : Failure} (has : l.child = some child)
      (is : f = Failure.ofTimeout l.command l.line timeout code) :
      Warnings timeout l (some f)
        [pidText child (Text.ofString "still running after " ++ timeout.shown ++
          Text.ofString "s, terminating"), f.message]
  | held {child : Child} {code : Option Int} {f : Failure} (has : l.child = some child)
      (is : f = Failure.ofTimeout l.command l.line timeout code) :
      Warnings timeout l (some f)
        [pidText child (Text.ofString "still running after " ++ timeout.shown ++
          Text.ofString "s, terminating"),
          pidText child (Text.ofString "output pipes still open after termination"), f.message]

def bareLines (warnings : List Text) : Text := warnings.flatMap fun text => text ++ [.char '\n']

def Dated (timeout : Value) (l : Launch) (logs : List Event) (f : Failure) : Prop :=
  ∃ child, l.child = some child ∧ logs[1]? = some (stillRunning child timeout) ∧
    f = Failure.ofTimeout l.command l.line timeout f.returncode

section
variable {l : Launch} {timeout : Value} {failure : Option Failure}

theorem Warnings.bareLines_eq_nil {lines : List Text} (h : l.Warnings timeout failure lines) :
    bareLines lines = [] ↔ failure = none := by
  cases h <;> simp [bareLines]

theorem Report.warnings {logs more : List Event} {child : Child} {line₀ : Text}
    (report : Report l.command l.line child failure logs) (has : l.child = some child)
    (dated : ∀ f, failure = some f → f.isTimeout →
      l.Dated timeout (started child line₀ :: logs ++ more) f) (stamp : Text) :
    ∃ lines, l.Warnings timeout failure lines ∧
      logs.flatMap (CommandLine.stderrOf stamp false) = bareLines lines := by
  have named {f : Failure} {rest : List Event} {before : Value}
      (dated : l.Dated timeout (started child line₀ :: stillRunning child before :: rest) f) :
      f = Failure.ofTimeout l.command l.line timeout f.returncode ∧
        stillRunning child before = stillRunning child timeout := by
    obtain ⟨child', has', second, named⟩ := dated
    cases Option.some.inj (has.symm.trans has')
    exact ⟨named, Option.some.inj second⟩
  cases report with
  | clean => exact ⟨_, .clean has, rfl⟩
  | @failed code f is => exact ⟨_, .failed has is, rfl⟩
  | @late before now code f is =>
    obtain ⟨named, same⟩ := named (dated f rfl (is ▸ rfl))
    rw [same]
    exact ⟨_, .late has named, rfl⟩
  | @held before now code f is =>
    obtain ⟨named, same⟩ := named (dated f rfl (is ▸ rfl))
    rw [same]
    exact ⟨_, .held has named, rfl⟩

theorem Story.warnings {logs more : List Event} {c : Completion}
    (story : Story l.command l.line l.child logs c)
    (dated : ∀ f, c.failure = some f → f.isTimeout → l.Dated timeout (logs ++ more) f)
    (stamp : Text) :
    ∃ lines, l.Warnings timeout c.failure lines ∧
      logs.flatMap (CommandLine.stderrOf stamp false) = bareLines lines := by
  cases has : l.child with
  | none =>
    rw [has] at story
    cases story with
    | unstarted fault => exact ⟨_, .unstarted has fault, rfl⟩
  | some child =>
    rw [has] at story
    cases story with
    | launched report => exact report.warnings has dated stamp

theorem flatMap_printing_err (p : Printout) {shown : Event → Text}
    (err : ∀ text, shown (.err text) = text) (out : ∀ text, shown (.out text) = []) :
    (printing p).flatMap shown = p.err := by
  have first : (if p.out.isEmpty then [] else [Event.out p.out]).flatMap shown = [] := by
    split <;> simp [out]
  have second : (if p.err.isEmpty then [] else [Event.err p.err]).flatMap shown = p.err := by
    cases is : p.err with
    | nil => rfl
    | cons mark text => simp [err]
  rw [printing, List.flatMap_append, first, second, List.nil_append]

theorem events_of_prints {t : Instant} {c : Completion} {logs : List Event}
    (ended : l.stage = .ended) (prints : l.handler = some .prints)
    (seen : (l.trace ++ l.owed).map Entry.event =
      logs ++ (Handler.imprint l.recipient t c l.handler).map Entry.event) :
    l.events = logs ++ printing c.printout := by
  have owed : l.owed = [] := by simp [Launch.owed, ended]
  rw [owed, List.append_nil, prints, Handler.imprint, List.map_map] at seen
  exact seen.trans (congrArg (logs ++ ·) (List.map_id _))

end

end Launch

namespace CommandLine

section
variable {s : Setting} {o : Options} {e : Ending} {l₀ l : Launch} {v : World}

theorem Attended.reaches (h : Attended s o e l₀ v l) :
    Reaches (fun _ => False) (world s.site o) v := by
  obtain ⟨m, upTo, -, onward, -⟩ := drain_reaches h.drained
  exact (Reaches.of_move (.launch _ _)).trans (upTo.trans onward)

theorem Attended.launcher (h : Attended s o e l₀ v l) : l.launcher = launcherName := by
  obtain ⟨command, -, created⟩ := World.made_accepted h.made
  refine h.keeps (fun l => l.launcher = launcherName) (Launch.create_launcher created) ?_
  intro l t owner _
  exact (l.act_launcher t _).trans owner

theorem Attended.lastLaunch (h : Attended s o e l₀ v l) : lastLaunch s o = some l :=
  Option.bind_eq_some_iff.mpr ⟨v, h.drained, findSome?_launch? h.there⟩

theorem Attended.dated (h : Attended s o e l₀ v l) {t : Instant} {f : Failure}
    (late : l.ReportsLate t f) : l.Dated o.timeout l.events f := by
  have closed : l.stage.isOpen = false := by rw [h.ended]; rfl
  obtain ⟨-, remembers⟩ := h.reaches.remembers rfl h.there
  obtain ⟨v₁, v₂, v₃, t₁, t₂, l₁, named⟩ := remembers.closed closed t f late
  obtain ⟨l₂, warns, -⟩ := named.warns
  obtain ⟨l₃, bound, reports, -⟩ := named.reports
  obtain ⟨child, has, logged⟩ := named.logged
  have force : (world s.site o).InForce fun name v => name = launcherName → v = o.timeout := by
    rintro name rfl
    rfl
  have stands {w : World} (reached : Reaches (fun _ => False) (world s.site o) w) :
      (w.launcher l.launcher).timeout = o.timeout :=
    reached.inForce (fun _ _ _ ok => ok.elim) force l.launcher h.launcher
  have warned := stands (named.arms.before.trans warns.before)
  have reported := stands (named.arms.before.trans (warns.before.trans reports.before))
  have names := named.names
  rw [reported] at names
  rw [warned] at logged
  refine ⟨child, has, ?_, names⟩
  rw [Launch.events, List.getElem?_map, logged]
  rfl

end

/-- A line that is accepted, does not ask for a log and ends writes to the error stream what its
handler was called with, and before that the warnings about the launch; if its timeout is the empty
list the handler of a child that was started is not called, and nothing is written. So the stream is
what the handler was called with exactly if there was no failure. -/
theorem quiet_stream_has_warnings {s : Setting} {argv : List Word} {o : Options} {e : Ending}
    (accepted : read argv = .ok o) (quiet : o.verbose = false) (ends : run s argv = .exits e) :
    ∃ l, lastLaunch s o = some l ∧
      (o.timeout = .list [] ∧ l.calls = [] ∧ e.exit.stderr = [] ∨
        ∃ t c lines, l.calls = [(t, c)] ∧ l.Warnings o.timeout c.failure lines ∧
          e.exit.stderr = Launch.bareLines lines ++ c.errorText ∧
          (e.exit.stderr = c.errorText ↔ c.failure = none)) := by
  have launches : CommandLine.launch s o = .exits e := by simpa only [run, accepted] using ends
  obtain ⟨l₀, v, l, attended⟩ := launch_attended launches
  refine ⟨l, attended.lastLaunch, ?_⟩
  have closed : l.stage.isOpen = false := by rw [attended.ended]; rfl
  have stream : e.exit.stderr = l.events.flatMap (stderrOf s.stamp false) := by
    rw [attended.ending, ← quiet]
    rfl
  obtain ⟨scripted, -⟩ := attended.reaches.remembers rfl attended.there
  cases scripted.recounted closed with
  | died _ calls _ seen =>
    left
    refine ⟨?_, calls, by rw [stream, seen]; rfl⟩
    rcases attended.accounted with ⟨-, isOpen | ⟨-, unusable⟩⟩ | ⟨⟨t, c, logs, once, -, -⟩, -⟩
    · cases closed.symm.trans isOpen
    · exact (read_askable accepted).unusable_iff.mp unusable
    · cases calls.symm.trans once
  | @told t c logs calls story seen =>
    right
    have whole := Launch.events_of_prints attended.ended attended.handler seen
    have dated : ∀ f, c.failure = some f → f.isTimeout →
        l.Dated o.timeout (logs ++ Launch.printing c.printout) f := by
      intro f failed late
      rw [← whole]
      exact attended.dated (t := t) ⟨c, by simp [calls], failed, late⟩
    obtain ⟨lines, warnings, written⟩ := story.warnings dated s.stamp
    have written : e.exit.stderr = Launch.bareLines lines ++ c.errorText := by
      rw [stream, whole, List.flatMap_append, written, c.errorText_eq]
      exact congrArg _ (Launch.flatMap_printing_err c.printout (fun _ => rfl) fun _ => rfl)
    refine ⟨t, c, lines, calls, warnings, written, ?_⟩
    rw [written, List.append_left_eq_self, warnings.bareLines_eq_nil]

/-- A child that complains and exits with status 4: what it wrote is not the first thing on the
error stream. -/
theorem failing_child_warned :
    let b : Behaviour :=
      { exit := some 4, lifetime := 20, writes := [⟨.err, 0, [98, 97, 100], false⟩] }
    let s : Setting := ⟨⟨defaultJava, ⟨.single, [jarName]⟩⟩, .starts b, []⟩
    let argv := [Text.ofString "x"]
    let o : Options := { args := argv }
    ∃ e l t c lines, run s argv = .exits e ∧ read argv = .ok o ∧ o.verbose = false ∧
      lastLaunch s o = some l ∧ l.calls = [(t, c)] ∧ l.Warnings o.timeout c.failure lines ∧
      e.exit.stderr = Launch.bareLines lines ++ c.errorText ∧ e.exit.stderr ≠ c.errorText := by
  intro b s argv o
  have accepted : read argv = .ok o := rfl
  have check : (match run s argv with
      | .exits _ => true
      | _ => false) = true := by decide +kernel
  have failed : (lastLaunch s o).any (fun l => l.calls.any fun call => call.2.failure.isSome) := by
    decide +kernel
  cases ends : run s argv with
  | escapes refusal => simp [ends] at check
  | hangs => simp [ends] at check
  | exits e =>
    obtain ⟨l, last, written⟩ := quiet_stream_has_warnings accepted rfl ends
    rw [last] at failed
    rcases written with ⟨separator, -, -⟩ | ⟨t, c, lines, calls, warnings, stream, iff⟩
    · cases separator
    · refine ⟨e, l, t, c, lines, rfl, accepted, rfl, last, calls, warnings, stream, ?_⟩
      intro same
      simp [calls, iff.mp same] at failed

end CommandLine

end JarLaunch
