import JarLaunch.Proofs.Protocol

/-! What has been read of a child by the time its handler is called. Up to the call everything that
reaches a pipe is read, whatever the launch is waiting for meanwhile, and nothing is read after it.
A signal that comes later cannot undo a write, so the output is a beginning of all that the child
and its grandchildren will ever have got into the pipe. -/
namespace JarLaunch

namespace Child

/-- Of the writes that reach a pipe, in order, some come up to an instant and the rest come after
it; the bytes are those of the first. -/
structure Cuts (c : Child) (stream : Stream) (t : Instant) (bytes : List UInt8)
    (before after : List Write) : Prop where
  ordered : Chronicle (c.behaviour.writes.filter fun w => w.stream = stream && c.keeps w)
    (before ++ after)
  read : bytes = before.flatMap Write.bytes
  past : ∀ w ∈ before, c.writtenAt w ≤ t
  ahead : ∀ w ∈ after, t < c.writtenAt w

theorem output_cuts (c : Child) (stream : Stream) (t : Instant) :
    ∃ before after, c.Cuts stream t (c.output stream t) before after := by
  let kept (w : Write) : Bool := w.stream = stream && c.keeps w
  let made (w : Write) : Bool := c.writtenAt w ≤ t
  have down (a b : Write) (le : a.delay ≤ b.delay) (past : made b) : made a := by
    have sooner : c.writtenAt a ≤ c.writtenAt b :=
      Nat.add_le_add_left (Clock.millis_le_millis.mpr le) _
    exact decide_eq_true (Nat.le_trans sooner (of_decide_eq_true past))
  have whole := c.behaviour.schedule_chronicle.filter kept
  have before : c.written stream t = (c.behaviour.schedule.filter kept).filter made := by
    rw [written, List.filter_filter]
    apply List.filter_congr
    intro w _
    rw [Bool.and_assoc, Bool.and_left_comm]
  refine ⟨_, (c.behaviour.schedule.filter kept).filter (!made ·), ?_, rfl, ?_, ?_⟩
  · rw [before, filter_append_of_sorted down whole.sorted]
    exact whole
  · intro w member
    rw [before] at member
    exact of_decide_eq_true (List.mem_filter.mp member).2
  · intro w member
    simpa [made] using (List.mem_filter.mp member).2

end Child

namespace Launch

def Reads (now : Instant) (l : Launch) : Prop :=
  ∀ call ∈ l.calls, call.1 ≤ now ∧ ∀ child, l.child = some child →
    call.2.stdout = child.output .out call.1 ∧ call.2.stderr = child.output .err call.1

section
variable {l l' : Launch} {now t : Instant} {child : Child} {timeout : Value}

theorem Reads.of_silent (silent : l.calls = []) : l.Reads now := by
  intro call member
  rw [silent] at member
  cases member

theorem Scripted.silent (h : l.Scripted) (isOpen : l.stage.isOpen) : l.calls = [] := by
  cases stage : l.stage with
  | unstarted _ | fresh | watching _ | terminating _ | killing | draining _ =>
    simp only [Scripted, stage] at h
    exact h.1
  | dozing _ _ _ | lingering _ | asking _ _ | ended => simp [stage, Stage.isOpen] at isOpen

theorem Scripted.manned (h : l.Scripted) (isOpen : l.stage.isOpen)
    (started : ∀ f, l.stage ≠ .unstarted f) : l.child ≠ none := by
  intro none
  cases stage : l.stage with
  | unstarted f => exact started f stage
  | fresh | watching _ =>
    simp only [Scripted, stage] at h
    obtain ⟨-, c, has, -⟩ := h
    cases has.symm.trans none
  | terminating _ | killing | draining _ =>
    simp only [Scripted, stage] at h
    obtain ⟨-, c, -, has, -⟩ := h
    cases has.symm.trans none
  | dozing _ _ _ | lingering _ | asking _ _ | ended => simp [stage, Stage.isOpen] at isOpen

theorem conclude_reads {failure : Option Failure} (silent : l.calls = [])
    (has : l.child = some child) (reads : l.reads.Holds child t) :
    (l.conclude t child failure).Reads t := by
  intro call member
  rw [(conclude_calls reads failure).1, silent, List.nil_append, List.mem_singleton] at member
  subst call
  refine ⟨Nat.le_refl t, ?_⟩
  have kept : (l.conclude t child failure).child = l.child := (deliver_child_sent _ t _).1
  intro child' has'
  cases Option.some.inj (has.symm.trans (kept.symm.trans has'))
  exact ⟨rfl, rfl⟩

theorem Reads.act (h : l.Reads now) (scripted : l.Scripted) (current : l.Current)
    (later : now ≤ t) (due : l.next = some t) : (l.act t timeout).Reads t := by
  have action : l.Action t timeout (l.act t timeout) := act_action current due
  generalize l.act t timeout = l' at action ⊢
  have silent := scripted.silent
  cases action with
  | @tell failure r stage =>
    have childless := scripted
    simp only [Scripted, stage] at childless
    let told := (l.having t r).deliver t ⟨some failure, [], []⟩
    have calls : told.calls = l.calls ++ [(t, _)] := (deliver_calls _ t _).1
    have none : told.child = none := (deliver_child_sent _ t _).1.trans childless.2.1
    intro call member
    rw [calls, childless.1, List.nil_append, List.mem_singleton] at member
    subst call
    refine ⟨Nat.le_refl t, ?_⟩
    intro child has
    cases none.symm.trans has
  | watch stage _ _ | die stage _ _ | stop stage _ _ | outlive stage _ _ =>
    exact .of_silent (silent (by rw [stage]; rfl))
  | expire _ reason =>
    have isOpen : l.stage.isOpen := by
      rcases reason with ⟨stage, -⟩ | ⟨_, stage, -⟩ <;> rw [stage] <;> rfl
    rw [expire_eq]
    exact .of_silent (silent isOpen)
  | strike stage _ _ _ =>
    rw [strike_eq]
    exact .of_silent (silent (by rw [stage]; rfl))
  | complete stage has _ reads =>
    exact conclude_reads (silent (by rw [stage]; rfl)) has reads.holds
  | giveUp stage has _ reads =>
    exact conclude_reads (silent (by rw [stage]; rfl)) has reads.holds
  | @giveUpOpen child r _ stage has _ reads =>
    have held : ((l.having t r).stopReading.note t (pipesOpen child)).reads.Holds child t :=
      reads.holds.cancel
    exact conclude_reads (silent (by rw [stage]; rfl)) has held
  | wake _ | leave _ =>
    intro call member
    exact ⟨Nat.le_trans (h call member).1 later, (h call member).2⟩
  | strand isOpen _ _ => exact .of_silent (silent isOpen)

theorem Reads.passes {kind : String → Value → Prop} {signals : Prop} (h : l.Reads now)
    (scripted : l.Scripted) (passes : l.Passes kind signals now t l') : l'.Reads t := by
  cases passes with
  | wait later _ =>
    intro call member
    exact ⟨Nat.le_trans (h call member).1 later, (h call member).2⟩
  | act due later _ current => exact h.act scripted current later due
  | signal has takes _ =>
    intro call member
    obtain ⟨past, read⟩ := h call member
    refine ⟨past, ?_⟩
    intro child is
    cases Option.some.inj is
    rw [takes.output past, takes.output past]
    exact read _ has

theorem Scripted.child_of_late {c : Completion} {f : Failure} (h : l.Scripted)
    (called : (t, c) ∈ l.calls) (failed : c.failure = some f) (late : f.isTimeout) :
    ∃ child, l.child = some child := by
  have closed : l.stage.isOpen = false := by
    apply Bool.eq_false_iff.mpr
    intro isOpen
    rw [h.silent isOpen] at called
    cases called
  cases h.recounted closed with
  | @told t' c' logs calls story seen =>
    rw [calls, List.mem_singleton] at called
    obtain ⟨-, rfl⟩ := Prod.mk.inj called
    generalize l.child = child at story
    cases story with
    | unstarted fault =>
      cases Option.some.inj failed
      cases late
    | launched _ => exact ⟨_, rfl⟩
  | died _ calls _ _ =>
    rw [calls] at called
    cases called

end

end Launch

/-- Whatever happens to a world, and whatever its launchers' timeouts: a launch that has run out of
time is reported with all that had reached the pipes by then, and nothing else. -/
theorem timed_out_output {allowed : Step → Prop} {start w : World} {i : Nat} {l : Launch}
    {t : Instant} {c : Completion} {f : Failure} (new : start.runs = [])
    (reached : Reaches allowed start w) (there : w.runs[i]? = some (.accepted l))
    (called : (t, c) ∈ l.calls) (failed : c.failure = some f) (late : f.isTimeout) :
    ∃ child, l.child = some child ∧ t ≤ w.now ∧
      (∃ before after, child.Cuts .out t c.stdout before after) ∧
      ∃ before after, child.Cuts .err t c.stderr before after := by
  have free : SetsOnly allowed fun _ _ => True := fun _ _ _ _ _ => trivial
  have none : ∀ (i : Nat) (l : Launch), start.runs[i]? = some (.accepted l) →
      l.Scripted ∧ l.Reads start.now := by
    intro i l there
    rw [new] at there
    cases there
  have made : ∀ launcher handler now pid command spawn l,
      Launch.create launcher handler now pid command spawn = .ok l →
        l.Scripted ∧ l.Reads now := by
    intro _ _ _ _ _ _ _ created
    refine ⟨Launch.create_scripted created, .of_silent ?_⟩
    cases Launch.create_created created <;> rfl
  obtain ⟨scripted, reads⟩ := reached.every (P := fun now l => l.Scripted ∧ l.Reads now)
    (World.clocked_of_new new) free (fun _ => trivial) none made
    (fun _ _ _ _ _ _ h passes => ⟨h.1.passes passes, h.2.passes h.1 passes⟩) there
  obtain ⟨child, has⟩ := scripted.child_of_late called failed late
  obtain ⟨past, read⟩ := reads _ called
  obtain ⟨stdout, stderr⟩ := read child has
  refine ⟨child, has, past, ?_, ?_⟩
  · rw [stdout]
    exact child.output_cuts .out t
  · rw [stderr]
    exact child.output_cuts .err t

/-- A child that is stopped and leaves a grandchild with its pipes. Of its writes, listed out of
order, one comes after the deadline, one from the grandchild after the exit, one too late for the
call, and one of the child's own comes after its exit and is lost. -/
theorem held_pipes_output :
    let b : Behaviour :=
      { exit := none, hold := some 9000, onTerminate := .exits 400 (-15),
        writes := [⟨.out, 3500, [4], true⟩, ⟨.out, 2500, [3], true⟩, ⟨.out, 500, [1], false⟩,
          ⟨.out, 1401, [5], false⟩, ⟨.out, 1200, [2], false⟩] }
    ∃ w l c child, (World.solo { timeout := .flag true }).through
        [.run (World.soloTarget (.starts b)) (some .records), .sleep 3500] = some w ∧
      w.runs[0]? = some (.accepted l) ∧ (Clock.millis 3000, c) ∈ l.calls ∧
      c.failure.any Failure.isTimeout ∧ l.child = some child ∧
      (∃ before after, child.Cuts .out (Clock.millis 3000) c.stdout before after) ∧
      ∃ before after, child.Cuts .err (Clock.millis 3000) c.stderr before after := by
  intro b
  have check : ((World.solo { timeout := .flag true }).through
      [.run (World.soloTarget (.starts b)) (some .records), .sleep 3500]).any
      fun w => w.shows 0 fun l => l.calls.any fun call =>
        call.1 = Clock.millis 3000 && call.2.failure.any Failure.isTimeout := by decide +kernel
  obtain ⟨w, played, h⟩ := (Option.any_eq_true _ _).mp check
  obtain ⟨l, there, is⟩ := (w.shows_iff 0 _).mp h
  obtain ⟨⟨t, c⟩, called, is⟩ := List.any_eq_true.mp is
  simp only [Bool.and_eq_true, decide_eq_true_eq] at is
  obtain ⟨instant, late⟩ := is
  rw [instant] at called
  obtain ⟨f, failed, isTimeout⟩ := (Option.any_eq_true _ _).mp late
  have reached : Reaches (fun _ => True) (World.solo { timeout := .flag true }) w :=
    through_reaches (fun _ _ => trivial) played
  obtain ⟨child, has, -, stdout, stderr⟩ :=
    timed_out_output rfl reached there called failed isTimeout
  exact ⟨w, l, c, child, played, there, called, late, has, stdout, stderr⟩

end JarLaunch
