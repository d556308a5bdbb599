import JarLaunch.Proofs.Effort

/-! What is to be reported of a child that finishes in time: when it finishes, everything that was
written to its pipes, and what its return code means. -/
namespace JarLaunch

namespace Behaviour

/-- How long a child takes to finish if it is left alone, in milliseconds. -/
def finishAfter (b : Behaviour) : Option Nat := do
  let _ ← b.exit
  let hold ← b.hold
  return b.lifetime + hold

def keeps (b : Behaviour) (w : Write) : Bool :=
  (w.byGrandchild || w.delay ≤ b.lifetime) && b.hold.all (w.delay ≤ b.lifetime + ·)

/-- The bytes are all that the child and its grandchildren got into a pipe. -/
def Amounts (b : Behaviour) (stream : Stream) (bytes : List UInt8) : Prop :=
  ∃ ws, Chronicle (b.writes.filter fun w => w.stream = stream && b.keeps w) ws ∧
    bytes = ws.flatMap Write.bytes

theorem finishAfter_eq_some {b : Behaviour} {ms : Nat} (h : b.finishAfter = some ms) :
    ∃ code hold, b.exit = some code ∧ b.hold = some hold ∧ ms = b.lifetime + hold := by
  cases exit : b.exit with
  | none => simp [finishAfter, exit] at h
  | some code =>
    cases hold : b.hold with
    | none => simp [finishAfter, exit, hold] at h
    | some n => exact ⟨code, n, rfl, rfl, by simpa [finishAfter, exit, hold] using h.symm⟩

end Behaviour

namespace Child

theorem finish_start (pid : Nat) (now : Instant) (b : Behaviour) :
    (start pid now b).finish = b.finishAfter.map (now + Clock.millis ·) := by
  unfold finish start Behaviour.finishAfter
  cases b.exit <;> cases b.hold <;> simp [Clock.millis_add, Nat.add_assoc]

theorem exit_start (pid : Nat) (now : Instant) {b : Behaviour} {code : Int}
    (exit : b.exit = some code) :
    (start pid now b).exit = some (now + Clock.millis b.lifetime, code) := by
  rw [start, exit, Option.map_some]

theorem keeps_start (pid : Nat) (now : Instant) {b : Behaviour} {ms : Nat}
    (h : b.finishAfter = some ms) (w : Write) : (start pid now b).keeps w = b.keeps w := by
  obtain ⟨code, hold, exit, held, rfl⟩ := Behaviour.finishAfter_eq_some h
  have shown (n : Nat) : (start pid now b).writtenAt w ≤ now + Clock.millis n ↔ w.delay ≤ n :=
    Nat.add_le_add_iff_left.trans Clock.millis_le_millis
  have finish := finish_start pid now b
  rw [h, Option.map_some] at finish
  -- compared as propositions: instants are too large to be compared by evaluation
  rw [Bool.eq_iff_iff, keeps_iff, exit_start pid now exit, finish]
  simp only [Option.some.injEq, forall_eq', shown, Behaviour.keeps, held, Option.all_some,
    Bool.and_eq_true, Bool.or_eq_true, decide_eq_true_eq]

/-- The bytes are all that the child and its grandchildren get into a pipe, as things stand. -/
def Amounts (c : Child) (stream : Stream) (bytes : List UInt8) : Prop :=
  ∃ ws, Chronicle (c.behaviour.writes.filter fun w => w.stream = stream && c.keeps w) ws ∧
    bytes = ws.flatMap Write.bytes

/-- What has been read from a pipe when it closes is all that was written to it. -/
theorem output_finish {c : Child} {f : Instant} (finish : c.finish = some f) (stream : Stream) :
    c.Amounts stream (c.output stream f) := by
  have same (w : Write) : (w.stream = stream && c.writtenAt w ≤ f && c.keeps w) =
      (w.stream = stream && c.keeps w) := by
    cases kept : c.keeps w with
    | false => simp
    | true =>
      have made : c.writtenAt w ≤ f := ((c.keeps_iff w).mp kept).2 f finish
      simp [made]
  have made := c.written_chronicle stream f
  simp only [same] at made
  exact ⟨_, made, rfl⟩

theorem returncode_finish {c : Child} {f : Instant} (finish : c.finish = some f) :
    ∃ e code, c.exit = some (e, code) ∧ c.returncode f = some code := by
  obtain ⟨e, leaves, past⟩ := leaves_le_finish finish
  obtain ⟨⟨e, code⟩, exit, rfl⟩ := Option.map_eq_some_iff.mp leaves
  exact ⟨e, code, exit, by simp [returncode, exit, Option.filter, past]⟩

end Child

namespace Failure

structure Tells (command : List Value) (code : Int) (failure : Option Failure) : Prop where
  clean : failure = none ↔ code = 0
  signalled : (∃ f, failure = some f ∧ f.reason = .signalled (-code)) ↔ code < 0
  exited : (∃ f n, failure = some f ∧ f.reason = .exited n) ↔ 0 < code
  returncode : ∀ f, failure = some f → f.returncode = some code
  argv : ∀ f, failure = some f → f.details.lookup "argv" = some (.list command)

theorem ofExit_tells (command : List Value) (line : Text) (code : Int) :
    Tells command code (ofExit command line code) := by
  rcases Int.lt_trichotomy code 0 with negative | zero | positive
  · have nonzero : code ≠ 0 := by omega
    have notPositive : ¬ 0 < code := by omega
    refine ⟨?_, ?_, ?_, ?_, ?_⟩ <;>
      simp [ofExit, nonzero, negative, notPositive, returncode, commandDetails]
  · subst code
    refine ⟨?_, ?_, ?_, ?_, ?_⟩ <;> simp [ofExit]
  · have nonzero : code ≠ 0 := by omega
    have notNegative : ¬ code < 0 := by omega
    refine ⟨?_, ?_, ?_, ?_, ?_⟩ <;>
      simp [ofExit, nonzero, positive, notNegative, returncode, commandDetails]

end Failure

namespace Launch

theorem watchedFate_in_time (l : Launch) (timeout : Value) {child : Child} {now finish : Instant}
    (finishes : child.finish = some finish) (later : now ≤ finish) {deadline : Option Instant}
    (inTime : ∀ d, deadline = some d → finish ≤ d) :
    l.watchedFate timeout child now deadline = .call finish (l.punctual child finish) := by
  have first : sooner child.finish deadline = some finish := by
    rw [finishes]
    cases deadline with
    | none => rfl
    | some d => exact congrArg some (Nat.min_eq_left (inTime d rfl))
  have done : child.finishedBy finish := Child.finishedBy_of_finish finishes (Nat.le_refl _)
  simp only [watchedFate, first, Nat.max_eq_right later, done, if_true]

end Launch

/-- A call is made when the child finishes, and tells all that was written and how it exited. -/
structure Child.Reported (c : Child) (command : List Value) (call : Instant × Completion) :
    Prop where
  onTime : c.finish = some call.1
  telling : ∃ e code, c.exit = some (e, code) ∧ Failure.Tells command code call.2.failure
  stdout : c.Amounts .out call.2.stdout
  stderr : c.Amounts .err call.2.stderr

theorem Launch.punctual_reported (l : Launch) {c : Child} {f : Instant}
    (finish : c.finish = some f) : c.Reported l.command (f, l.punctual c f) := by
  obtain ⟨e, code, exit, left⟩ := Child.returncode_finish finish
  refine ⟨finish, ⟨e, code, exit, ?_⟩, Child.output_finish finish .out,
    Child.output_finish finish .err⟩
  simp only [punctual, left, Option.getD_some]
  exact Failure.ofExit_tells _ _ _

structure Behaviour.Reported (b : Behaviour) (command : List Value) (start : Instant)
    (call : Instant × Completion) : Prop where
  onTime : b.finishAfter.map (start + Clock.millis ·) = some call.1
  telling : ∃ code, b.exit = some code ∧ Failure.Tells command code call.2.failure
  stdout : b.Amounts .out call.2.stdout
  stderr : b.Amounts .err call.2.stderr

theorem Child.Reported.alone {pid : Nat} {now : Instant} {b : Behaviour} {command : List Value}
    {call : Instant × Completion} (h : (Child.start pid now b).Reported command call) :
    b.Reported command now call := by
  have onTime := h.onTime
  rw [Child.finish_start] at onTime
  obtain ⟨ms, finishAfter, -⟩ := Option.map_eq_some_iff.mp onTime
  have amounts {stream : Stream} {bytes : List UInt8}
      (read : (Child.start pid now b).Amounts stream bytes) : b.Amounts stream bytes := by
    simp only [Child.Amounts, Child.keeps_start pid now finishAfter] at read
    exact read
  obtain ⟨e, code, exit, tells⟩ := h.telling
  obtain ⟨own, exits, same⟩ := Option.map_eq_some_iff.mp exit
  obtain ⟨-, rfl⟩ := Prod.mk.inj same
  exact ⟨onTime, ⟨own, exits, tells⟩, amounts h.stdout, amounts h.stderr⟩

end JarLaunch
