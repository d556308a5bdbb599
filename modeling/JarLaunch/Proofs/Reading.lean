import JarLaunch.Proofs.Course
import JarLaunch.Proofs.Pipes

/-! What has been read. Chunk by chunk a pump takes everything out of its pipe, so at the instant of
each action the buffers hold what has gone through the pipes by then, whatever the launch was
waiting for meanwhile. The two pumps and the wait for the process have all ended when the child is
finished, and not before. -/
namespace JarLaunch

namespace Pump

/-- A pump that has taken so many bytes out of its pipe and left none in it. -/
def after (bytes : List UInt8) (shut : Bool) : Pump :=
  { pipe := [], shut := shut, buffer := bytes, ended := shut }

theorem reads_of_fixed {p : Pump} (fixed : p.read = p) (turns : Nat) : reads turns p = p := by
  induction turns with
  | zero => rfl
  | succ turns ih => rw [reads, fixed, ih]

theorem read_after (bytes : List UInt8) (shut : Bool) :
    (after bytes shut).read = after bytes shut := by
  cases shut <;> rfl

theorem read_empty {p : Pump} (running : p.ended = false) (empty : p.pipe = []) :
    p.read = after p.buffer p.shut := by
  simp [read, running, empty, after]

/-- So many turns, and one more to see the end, take that many chunks out of a pipe. -/
theorem reads_eq {turns : Nat} {p : Pump} (running : p.ended = false)
    (enough : p.pipe.length ≤ turns * chunk) :
    reads (turns + 1) p = after (p.buffer ++ p.pipe) p.shut := by
  induction turns generalizing p with
  | zero =>
    have empty : p.pipe = [] := by simpa using enough
    rw [reads, reads, read_empty running empty, empty, List.append_nil]
  | succ turns ih =>
    by_cases empty : p.pipe = []
    · rw [reads, read_empty running empty, reads_of_fixed (read_after _ _), empty, List.append_nil]
    · let q : Pump := { p with pipe := p.pipe.drop chunk, buffer := p.buffer ++ p.pipe.take chunk }
      have taken : p.read = q := by simp [read, running, empty, q]
      have rest : q.pipe.length ≤ turns * chunk := by
        rw [List.length_drop]
        rw [Nat.succ_mul] at enough
        omega
      have whole : q.buffer ++ q.pipe = p.buffer ++ p.pipe := by
        rw [List.append_assoc, List.take_append_drop]
      rw [reads, taken, ih (p := q) running rest, whole]

theorem drain_eq {p : Pump} (running : p.ended = false) :
    p.drain = after (p.buffer ++ p.pipe) p.shut := by
  have enough : p.pipe.length ≤ (p.pipe.length / chunk + 1) * chunk := by
    unfold chunk
    omega
  exact reads_eq running enough

theorem receive_after (bytes more : List UInt8) :
    (after bytes false).receive more = after (bytes ++ more) false := drain_eq rfl

theorem close_after (bytes : List UInt8) (shut : Bool) :
    (after bytes shut).close = after bytes true := by
  cases shut with
  | false =>
    have shut : (after bytes false).close = after (bytes ++ []) true := drain_eq rfl
    rwa [List.append_nil] at shut
  | true => exact reads_of_fixed rfl _

end Pump

namespace Reading

/-- The latest of the three waits is the one for the end of the child. -/
@[simp] theorem doneAt_eq (r : Reading) : r.doneAt = Child.finish := by
  funext c
  unfold doneAt Child.closing later
  cases c.finish <;> simp

theorem receive_pump (r : Reading) (w : Write) (s : Stream) :
    (r.receive w).pump s = if w.stream = s then (r.pump s).receive w.bytes else r.pump s := by
  unfold receive
  cases stream : w.stream <;> cases s <;> rfl

theorem foldl_receive_pump {r : Reading} {s : Stream} {bytes : List UInt8}
    (pump : r.pump s = .after bytes false) (ws : List Write) :
    (ws.foldl receive r).pump s =
      .after (bytes ++ (ws.filter (·.stream = s)).flatMap Write.bytes) false := by
  induction ws generalizing r bytes with
  | nil => rw [List.foldl_nil, pump, List.filter_nil, List.flatMap_nil, List.append_nil]
  | cons w ws ih =>
    have one := r.receive_pump w s
    rw [List.foldl_cons]
    by_cases here : w.stream = s
    · rw [if_pos here, pump, Pump.receive_after] at one
      rw [ih one, List.filter_cons_of_pos (by simpa using here), List.flatMap_cons,
        List.append_assoc]
    · rw [if_neg here, pump] at one
      rw [ih one, List.filter_cons_of_neg (by simpa using here)]

theorem close_pump (r : Reading) (s : Stream) : r.close.pump s = (r.pump s).close := by
  cases s <;> rfl

/-- The reading stands where it must at an instant: all that has gone through the pipes is in the
buffers, and each of the three has ended if the child is finished. -/
structure UpToDate (r : Reading) (c : Child) (t : Instant) : Prop where
  upTo : r.upTo = some t
  pumps : ∀ s, r.pump s = .after (c.output s t) (c.finishedBy t)
  reaped : c.finishedBy t → r.reaped

/-- The reading stood where it had to at an instant, as far as can be told when the child may have
taken a signal since. -/
structure Keeps (r : Reading) (c : Child) (t : Instant) : Prop where
  upTo : r.upTo = some t
  pumps : ∃ shut : Bool, (shut → c.finishedBy t) ∧ ∀ s, r.pump s = .after (c.output s t) shut

section
variable {r : Reading} {c c' : Child} {t now : Instant}

theorem UpToDate.keeps (h : r.UpToDate c t) : r.Keeps c t :=
  ⟨h.upTo, c.finishedBy t, id, h.pumps⟩

theorem UpToDate.isDone_eq (h : r.UpToDate c t) : r.isDone = c.finishedBy t := by
  have out : r.out.ended = c.finishedBy t := congrArg Pump.ended (h.pumps .out)
  have err : r.err.ended = c.finishedBy t := congrArg Pump.ended (h.pumps .err)
  rw [isDone, out, err]
  cases finished : c.finishedBy t with
  | false => rfl
  | true => exact h.reaped finished

def Holds (r : Reading) (c : Child) (t : Instant) : Prop :=
  ∀ s, (r.pump s).buffer = c.output s t

theorem UpToDate.holds (h : r.UpToDate c t) : r.Holds c t :=
  fun s => congrArg Pump.buffer (h.pumps s)

theorem Holds.cancel (h : r.Holds c t) : r.cancel.Holds c t := by
  intro s
  have same : (r.cancel.pump s).buffer = (r.pump s).buffer := by cases s <;> rfl
  rw [same, h s]

theorem follow_upToDate {shut : Bool} (closed : shut → c.finishedBy now)
    (read : ∀ s, ((c.arrivals r.upTo now).foldl receive r).pump s = .after (c.output s now) shut) :
    (r.follow c now).UpToDate c now := by
  unfold follow
  by_cases finished : c.finishedBy now
  · simp only [if_pos finished]
    refine ⟨rfl, fun s => ?_, fun _ => rfl⟩
    rw [finished]
    exact (close_pump _ s).trans (by rw [read s, Pump.close_after])
  · simp only [if_neg finished]
    have still : shut = c.finishedBy now := by
      cases shut with
      | false => exact (Bool.eq_false_iff.mpr finished).symm
      | true => exact (finished (closed rfl)).elim
    exact ⟨rfl, fun s => still ▸ read s, fun h => (finished h).elim⟩

theorem begin_upToDate (c : Child) (now : Instant) : (begin c now).UpToDate c now := by
  have isOpen : false = true → c.finishedBy now := fun h => nomatch h
  refine follow_upToDate isOpen fun s => ?_
  have blank : ({ reaped := c.exitedBy now } : Reading).pump s = .after [] false := by
    cases s <;> rfl
  rw [foldl_receive_pump blank, List.nil_append, Child.output, Child.written_begin]

/-- A reading that stood where it had to goes on to where it must. -/
theorem Keeps.advance (h : r.Keeps c t) (later : t ≤ now) : (r.advance c now).UpToDate c now := by
  obtain ⟨shut, closed, pumps⟩ := h.pumps
  have goes : r.advance c now = r.follow c now := by simp only [Reading.advance, h.upTo]
  have output (s : Stream) : c.output s now = c.output s t ++
      ((c.arrivals (some t) now).filter (·.stream = s)).flatMap Write.bytes := by
    rw [Child.output, c.written_advance s later, List.flatMap_append, Child.output]
  rw [goes]
  refine follow_upToDate (fun h => Child.finishedBy_mono (closed h) later) fun s => ?_
  rw [h.upTo, output s]
  cases shut with
  | false => exact foldl_receive_pump (pumps s) _
  | true =>
    rw [Child.arrivals_of_finished (closed rfl), List.foldl_nil, List.filter_nil, List.flatMap_nil,
      List.append_nil]
    exact pumps s

/-- The reading is done when the last of the three waits ends. -/
theorem Keeps.isDone_advance (h : r.Keeps c t) (later : t ≤ now) :
    (r.advance c now).isDone = (r.doneAt c).any (· ≤ now) := by
  rw [(h.advance later).isDone_eq, doneAt_eq]
  rfl

/-- It makes no difference whether the reading is seen in between. -/
theorem Keeps.advance_advance (h : r.Keeps c t) {s : Instant} (later : t ≤ s) (last : s ≤ now)
    (stream : Stream) :
    ((r.advance c s).advance c now).pump stream = (r.advance c now).pump stream := by
  rw [((h.advance later).keeps.advance last).pumps, (h.advance (Nat.le_trans later last)).pumps]

theorem Keeps.signalled (h : r.Keeps c t) (takes : c.Takes now c') (past : t ≤ now) :
    r.Keeps c' t := by
  obtain ⟨shut, closed, pumps⟩ := h.pumps
  refine ⟨h.upTo, shut, fun is => ?_, fun s => ?_⟩
  · have finished := closed is
    have gone := Child.exitedBy_of_finishedBy (Child.finishedBy_mono finished past)
    rw [takes.eq_of_exited gone]
    exact finished
  · rw [takes.output past]
    exact pumps s

end

end Reading

def Stage.isReading : Stage → Bool
  | .watching _ | .terminating _ | .killing | .draining _ => true
  | _ => false

namespace Launch

/-- While the pipes are read, the reading stood where it had to at the last action. -/
def Current (l : Launch) : Prop :=
  l.stage.isReading → ∀ c, l.child = some c → l.reads.Keeps c l.clock

section
variable {l : Launch} {child : Child} {t : Instant} {timeout : Value}

theorem awake_upToDate (current : l.Current) (stage : l.stage.isReading)
    (has : l.child = some child) (later : l.clock ≤ t) :
    (l.awake t).reads.UpToDate child t := by
  have goes : (l.awake t).reads = l.reads.advance child t := by
    rw [awake, has, Option.map_some, Option.getD_some]
  rw [goes]
  exact (current stage child has).advance later

theorem startReading_upToDate (l : Launch) (child : Child) (t : Instant) :
    (l.startReading t child).reads.UpToDate child t := Reading.begin_upToDate child t

theorem expire_current (reads : l.reads.Keeps child t) (clock : l.clock = t) :
    (l.expire t child timeout).Current := by
  rw [expire_eq]
  intro _ c has
  cases Option.some.inj has
  rw [clock]
  exact reads.signalled (child.terminate?_takes t) (Nat.le_refl t)

theorem strike_current (reads : l.reads.Keeps child t) (clock : l.clock = t) :
    (l.strike t child).Current := by
  rw [strike_eq]
  intro _ c has
  cases Option.some.inj has
  rw [clock]
  exact reads.signalled (child.kill?_takes t) (Nat.le_refl t)

end

end Launch

end JarLaunch
