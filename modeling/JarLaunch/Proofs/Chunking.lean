import JarLaunch.Proofs.Decoding
import JarLaunch.Proofs.ErrorStream

/-! Text in pieces. A child may cut the bytes of a text into writes in any way, inside characters
too, and write to its other stream in between. The pipe puts the pieces together in the order they
were written, and nothing is read as text before the whole stream is there; so what the printing
handler puts out is the text, if no piece was lost. -/
namespace JarLaunch

section
variable {writes ws vs : List Write}

theorem Chronicle.filter_eq (h : Chronicle writes ws) (d : Nat) :
    ws.filter (·.delay = d) = writes.filter (·.delay = d) := by
  have together : (writes.filter (·.delay = d)).Pairwise (·.delay ≤ ·.delay) := by
    apply List.Pairwise.imp_of_mem (R := fun _ _ => True)
    · intro a b first second _
      rw [List.mem_filter, decide_eq_true_eq] at first second
      omega
    · exact List.pairwise_of_forall (fun _ _ => trivial)
  have part := (h.stable _ together List.filter_sublist).filter (·.delay = d)
  rw [List.filter_filter] at part
  simp only [Bool.and_self] at part
  exact (part.eq_of_length (h.perm.filter _).length_eq.symm).symm

theorem eq_of_filters (sorted : ws.Pairwise (·.delay ≤ ·.delay))
    (sorted' : vs.Pairwise (·.delay ≤ ·.delay))
    (same : ∀ d, ws.filter (·.delay = d) = vs.filter (·.delay = d)) : ws = vs := by
  have head {a : Write} {rest others : List Write}
      (same : ∀ d, (a :: rest).filter (·.delay = d) = others.filter (·.delay = d)) :
      a ∈ others := by
    have here : a ∈ (a :: rest).filter (·.delay = a.delay) := by simp
    rw [same a.delay] at here
    exact (List.mem_filter.mp here).1
  induction ws generalizing vs with
  | nil =>
    cases vs with
    | nil => rfl
    | cons b vs => cases head fun d => (same d).symm
  | cons a ws ih =>
    cases vs with
    | nil => cases head same
    | cons b vs =>
      obtain ⟨first, later⟩ := List.pairwise_cons.mp sorted
      obtain ⟨first', later'⟩ := List.pairwise_cons.mp sorted'
      have le : b.delay ≤ a.delay := by
        rcases List.mem_cons.mp (head same) with rfl | behind
        · exact Nat.le_refl _
        · exact first' a behind
      have ge : a.delay ≤ b.delay := by
        rcases List.mem_cons.mp (head fun d => (same d).symm) with rfl | behind
        · exact Nat.le_refl _
        · exact first b behind
      have level : a.delay = b.delay := Nat.le_antisymm ge le
      have heads : a = b := by
        have atOnce := same b.delay
        rw [List.filter_cons_of_pos (by simpa using level),
          List.filter_cons_of_pos (by simp)] at atOnce
        exact (List.cons.inj atOnce).1
      subst b
      congr 1
      apply ih later later'
      intro d
      have both := same d
      by_cases there : a.delay = d
      · rw [List.filter_cons_of_pos (by simpa using there),
          List.filter_cons_of_pos (by simpa using there)] at both
        exact (List.cons.inj both).2
      · rwa [List.filter_cons_of_neg (by simpa using there),
          List.filter_cons_of_neg (by simpa using there)] at both

theorem eq_of_delay_eq {a b : Write} (apart : ws.Pairwise (·.delay < ·.delay)) (first : a ∈ ws)
    (second : b ∈ ws) (level : a.delay = b.delay) : a = b := by
  induction ws with
  | nil => cases first
  | cons w ws ih =>
    obtain ⟨before, later⟩ := List.pairwise_cons.mp apart
    rcases List.mem_cons.mp first with rfl | behind
    · rcases List.mem_cons.mp second with rfl | behind'
      · rfl
      · exact absurd level (Nat.ne_of_lt (before b behind'))
    · rcases List.mem_cons.mp second with rfl | behind'
      · exact absurd level (Nat.ne_of_gt (before a behind))
      · exact ih later behind behind'

/-- There is one order in which writes can have been made. -/
theorem Chronicle.unique (h : Chronicle writes ws) (h' : Chronicle writes vs) : ws = vs := by
  apply eq_of_filters h.sorted h'.sorted
  intro d
  rw [h.filter_eq, h'.filter_eq]

theorem Chronicle.of_lt (same : ws.Perm writes) (apart : ws.Pairwise (·.delay < ·.delay)) :
    Chronicle writes ws := by
  have made := chronicle_insertionSort writes
  have alike : ws = writes.insertionSort Write.NoLater := by
    apply List.Perm.eq_of_pairwise _ (apart.imp Nat.le_of_lt) made.sorted
      (same.trans made.perm.symm)
    intro a b first second le ge
    have level : a.delay = b.delay := Nat.le_antisymm le ge
    have member : b ∈ ws := same.mem_iff.mpr (made.perm.mem_iff.mp second)
    exact eq_of_delay_eq apart first member level
  exact alike ▸ made

end

/-- The bytes of a text, cut into writes to a stream in some way. -/
def Behaviour.Chunks (b : Behaviour) (stream : Stream) (s : List Char) : Prop :=
  ∃ ws, Chronicle (b.writes.filter (·.stream = stream)) ws ∧ ws.flatMap Write.bytes = Utf8.encode s

namespace Child

def KeepsAll (c : Child) (stream : Stream) : Prop :=
  ∀ w ∈ c.behaviour.writes, w.stream = stream → c.keeps w

theorem output_of_chunks {c : Child} {stream : Stream} {t : Instant} {s : List Char}
    (finished : c.finishedBy t) (chunks : c.behaviour.Chunks stream s) (kept : c.KeepsAll stream) :
    c.output stream t = Utf8.encode s := by
  obtain ⟨ws, ordered, whole⟩ := chunks
  obtain ⟨f, finish, past⟩ := (Option.any_eq_true _ _).mp finished
  have all : c.behaviour.writes.filter (fun w => w.stream = stream && c.writtenAt w ≤ t &&
      c.keeps w) = c.behaviour.writes.filter (·.stream = stream) := by
    apply List.filter_congr
    intro w member
    by_cases is : w.stream = stream
    · have keeps := kept w member is
      have made : c.writtenAt w ≤ t :=
        Nat.le_trans ((c.keeps_iff w).mp keeps |>.2 f finish) (of_decide_eq_true past)
      simp [is, made, keeps]
    · simp [is]
  have made := c.written_chronicle stream t
  rw [all] at made
  rw [output, made.unique ordered, whole]

end Child

namespace Launch

def Ripe (l : Launch) : Prop :=
  ∀ call ∈ l.calls, ¬ call.2.TimedOut → ∀ child, l.child = some child → child.finishedBy call.1

section
variable {l l' : Launch} {now t : Instant} {child : Child} {timeout : Value}

theorem Ripe.of_silent (silent : l.calls = []) : l.Ripe := by
  intro call member
  rw [silent] at member
  cases member

theorem conclude_ripe {failure : Option Failure} (silent : l.calls = [])
    (has : l.child = some child)
    (finished : (∀ f, failure = some f → ¬ f.isTimeout) → child.finishedBy t) :
    (l.conclude t child failure).Ripe := by
  intro call member inTime child' has'
  rw [(l.conclude_buffers t child failure).1, silent, List.nil_append, List.mem_singleton] at member
  subst call
  have kept : (l.conclude t child failure).child = l.child := (deliver_child_sent _ t _).1
  cases Option.some.inj (has.symm.trans (kept.symm.trans has'))
  exact finished fun f failed late => inTime ⟨f, failed, late⟩

theorem Ripe.act (h : l.Ripe) (scripted : l.Scripted) (current : l.Current)
    (due : l.next = some t) : (l.act t timeout).Ripe := by
  have action : l.Action t timeout (l.act t timeout) := act_action current due
  generalize l.act t timeout = l' at action ⊢
  have silent := scripted.silent
  cases action with
  | @tell failure r stage =>
    have childless := scripted
    simp only [Scripted, stage] at childless
    intro call member _ child has
    have none := (deliver_child_sent (l.having t r) t ⟨some failure, [], []⟩).1
    cases (none.trans childless.2.1).symm.trans has
  | watch stage _ _ | die stage _ _ | stop stage _ _ | outlive stage _ _ =>
    exact .of_silent (silent (by rw [stage]; rfl))
  | expire _ reason =>
    have isOpen : l.stage.isOpen := by
      rcases reason with ⟨stage, -⟩ | ⟨_, stage, -⟩ <;> rw [stage] <;> rfl
    rw [expire_eq]
    exact .of_silent (silent isOpen)
  | strike stage _ _ _ =>
    rw [strike_eq]
    exact .of_silent (silent (by rw [stage]; rfl))
  | complete stage has finished =>
    exact conclude_ripe (silent (by rw [stage]; rfl)) has fun _ => finished
  | giveUp stage has _ =>
    exact conclude_ripe (silent (by rw [stage]; rfl)) has fun inTime => (inTime _ rfl rfl).elim
  | giveUpOpen stage has _ =>
    exact conclude_ripe (silent (by rw [stage]; rfl)) has fun inTime => (inTime _ rfl rfl).elim
  | wake _ | leave _ => exact h
  | strand isOpen _ _ => exact .of_silent (silent isOpen)

theorem Ripe.passes {kind : String → Value → Prop} {signals : Prop} (h : l.Ripe)
    (scripted : l.Scripted) (reads : l.Reads now) (passes : l.Passes kind signals now t l') :
    l'.Ripe := by
  cases passes with
  | wait _ _ => exact h
  | act due _ _ current => exact h.act scripted current due
  | @signal c c' has takes _ =>
    intro call member inTime child is
    cases Option.some.inj is
    have finished := h call member inTime c has
    obtain ⟨f, finish, past⟩ := (Option.any_eq_true _ _).mp finished
    have already : c.finishedBy now :=
      Child.finishedBy_of_finish finish
        (Nat.le_trans (of_decide_eq_true past) (reads call member).1)
    rw [takes.eq_of_exited (Child.exitedBy_of_finishedBy already)]
    exact finished

/-- A launch whose child has finished has something to do at once, until its handler is called. -/
theorem due_of_finished {f : Instant} (isOpen : l.stage.isOpen) (has : l.child = some child)
    (finish : child.finish = some f) (past : f ≤ now) (clock : l.clock ≤ now) :
    ∃ u, l.next = some u ∧ u ≤ now := by
  have soon (bound : Option Instant) : ∃ u, sooner (some f) bound = some u ∧ u ≤ now := by
    cases bound with
    | none => exact ⟨f, rfl, past⟩
    | some b => exact ⟨min f b, rfl, Nat.le_trans (Nat.min_le_left f b) past⟩
  have waits : ∃ u, l.awaited = some u ∧ u ≤ now := by
    cases stage : l.stage with
    | unstarted _ | fresh => exact ⟨l.clock, by simp [awaited, stage], clock⟩
    | watching deadline => simpa [awaited, stage, has, finish] using soon deadline
    | terminating bound | draining bound =>
      simpa [awaited, stage, has, finish] using soon (some bound)
    | killing => exact ⟨f, by simp [awaited, stage, has, finish], past⟩
    | dozing _ _ _ | lingering _ | asking _ _ | ended => simp [stage, Stage.isOpen] at isOpen
  obtain ⟨u, awaited, le⟩ := waits
  exact ⟨max l.clock u, by rw [next, awaited, Option.map_some], Nat.max_le.mpr ⟨clock, le⟩⟩

theorem Story.unshown {command : List Value} {line : Text} {child : Option Child}
    {logs : List Event} {c : Completion} (h : Story command line child logs c)
    {shown : Event → Text} (none : ∀ level text, shown (.log level text) = []) :
    logs.flatMap shown = [] := by
  cases h with
  | unstarted fault => simp [none]
  | @launched child logs c report =>
    generalize c.failure = failure at report
    cases report <;> simp [started, exitedCleanly, stillRunning, pipesOpen, none]

end

end Launch

theorem Reaches.ripe {start w : World} {i : Nat} {l : Launch} (new : start.runs = [])
    (timely : start.InForce fun _ v => v.Waitable) (reached : Reaches Step.KeepsWaitable start w)
    (there : w.runs[i]? = some (.accepted l)) :
    l.Scripted ∧ l.Reads w.now ∧ l.Ripe ∧ l.Owes := by
  have sets : SetsOnly Step.KeepsWaitable fun _ v => v.Waitable :=
    fun _ _ v ok given => ok v given
  refine reached.every (P := fun now l => l.Scripted ∧ l.Reads now ∧ l.Ripe ∧ l.Owes)
    (World.clocked_of_new new) sets timely ?_ ?_ ?_ there
  · intro i l there
    rw [new] at there
    cases there
  · intro _ _ _ _ _ _ l created
    have silent : l.calls = [] := by cases Launch.create_created created <;> rfl
    exact ⟨Launch.create_scripted created, .of_silent silent, .of_silent silent,
      Launch.create_owes created⟩
  · intro now t l l' _ _ h passes
    obtain ⟨scripted, reads, ripe, owes⟩ := h
    exact ⟨scripted.passes passes, reads.passes scripted passes, ripe.passes scripted reads passes,
      owes.passes passes⟩

theorem Launch.Owes.ended_at_rest {w : World} {i : Nat} {l : Launch} {child : Child}
    (owes : l.Owes) (reads : l.Reads w.now) (clocked : l.Clocked w.now) (settled : w.Settled)
    (there : w.runs[i]? = some (.accepted l)) (prints : l.handler = some .prints)
    (has : l.child = some child) (finished : child.finishedBy w.now) : l.stage = .ended := by
  cases owes with
  | call isOpen _ =>
    obtain ⟨f, finish, past⟩ := (Option.any_eq_true _ _).mp finished
    obtain ⟨u, due, soon⟩ :=
      Launch.due_of_finished isOpen has finish (of_decide_eq_true past) clocked.past
    exact (Nat.not_lt.mpr soon (settled.lt_next there due)).elim
  | @time call _ _ calls due =>
    have atOnce : l.doneAt call = call.1 := by
      simp [Launch.doneAt, Handler.duration, prints, Clock.millis]
    have later := settled.lt_next there due
    rw [atOnce] at later
    exact (Nat.not_lt.mpr (reads call (by simp [calls])).1 later).elim
  | nothing ended _ _ => exact ended

/-- In a world at rest whose timeouts are none or numbers that a double can hold, a launch whose
child has finished and whose handler prints has called it once. If that was not for want of time,
the text whose bytes were written to a stream, in any pieces and at any times, is put out as it is,
provided that no piece was lost; on the error stream the report of a failure comes after it. -/
theorem text_survives_chunking {start w : World} {i : Nat} {l : Launch} {child : Child}
    (new : start.runs = []) (timely : start.InForce fun _ v => v.Waitable)
    (reached : Reaches Step.KeepsWaitable start w) (settled : w.Settled)
    (there : w.runs[i]? = some (.accepted l)) (prints : l.handler = some .prints)
    (has : l.child = some child) (finished : child.finishedBy w.now) :
    ∃ t c, l.calls = [(t, c)] ∧
      (¬ c.TimedOut → ∀ s,
        (child.behaviour.Chunks .out s → child.KeepsAll .out →
          l.events.flatMap CommandLine.stdoutOf = Text.ofChars s) ∧
        (child.behaviour.Chunks .err s → child.KeepsAll .err →
          l.events.flatMap CommandLine.errOf = Text.ofChars s ++ c.complaint)) := by
  obtain ⟨scripted, reads, ripe, owes⟩ := reached.ripe new timely there
  have clocked := reached.clocked (World.clocked_of_new new) i l there
  have ended := owes.ended_at_rest reads clocked settled there prints has finished
  cases scripted.recounted (by rw [ended]; rfl) with
  | died _ silent _ _ =>
    obtain ⟨call, calls, -⟩ := owes.of_ended ended
    cases silent.symm.trans calls
  | @told t c logs calls story seen =>
    have member : (t, c) ∈ l.calls := by simp [calls]
    have whole := Launch.events_of_prints ended prints seen
    obtain ⟨stdout, stderr⟩ := (reads _ member).2 child has
    refine ⟨t, c, calls, ?_⟩
    intro inTime s
    have closed := ripe _ member inTime child has
    constructor
    · intro chunks kept
      have read : c.stdout = Utf8.encode s :=
        stdout.trans (child.output_of_chunks closed chunks kept)
      rw [whole, List.flatMap_append, story.unshown fun _ _ => rfl, List.nil_append,
        CommandLine.flatMap_stdoutOf_printing]
      change Text.ofChars (Utf8.decode c.stdout) = _
      rw [read, Utf8.decode_encode]
    · intro chunks kept
      have read : c.stderr = Utf8.encode s :=
        stderr.trans (child.output_of_chunks closed chunks kept)
      rw [whole, List.flatMap_append, story.unshown fun _ _ => rfl, List.nil_append,
        Launch.flatMap_printing_err c.printout (fun _ => rfl) fun _ => rfl, ← c.errorText_eq,
        Completion.errorText, read, Utf8.decode_encode]

theorem Completion.not_timedOut {c : Completion} (inTime : c.failure.all fun f => !f.isTimeout) :
    ¬ c.TimedOut := by
  rintro ⟨f, failed, late⟩
  simp [failed, late] at inTime

def Handler.isPrinter : Option Handler → Bool
  | some .prints => true
  | _ => false

theorem Handler.eq_prints {handler : Option Handler} (is : isPrinter handler) :
    handler = some .prints := by
  unfold isPrinter at is
  split at is
  · rfl
  · cases is

/-- Two texts cut inside their characters, the pieces listed out of order and in turn with each
other; a grandchild writes the last one after the exit. -/
def Behaviour.stutters : Behaviour where
  exit := some 3
  lifetime := 20
  hold := some 15
  writes := [⟨.out, 7, [0xA9, 0xF0, 0x9F], false⟩, ⟨.err, 6, [0xE2], false⟩,
    ⟨.out, 5, [0xC3], false⟩, ⟨.err, 8, [0x82, 0xAC], false⟩, ⟨.out, 30, [0x98, 0x80], true⟩]

theorem stuttered_text_survives :
    let start := World.solo { timeout := .integer 2 }
    ∃ w l t c, (start.launch (World.soloTarget (.starts .stutters)) none).world.sleep 50 = some w ∧
      w.runs[0]? = some (.accepted l) ∧ l.calls = [(t, c)] ∧ ¬ c.TimedOut ∧
      l.events.flatMap CommandLine.stdoutOf = Text.ofChars ['é', '😀'] ∧
      l.events.flatMap CommandLine.errOf = Text.ofChars ['€'] ++ c.complaint := by
  intro start
  have check : ((start.launch (World.soloTarget (.starts .stutters)) none).world.sleep 50).any
      fun w => w.shows 0 fun l => Handler.isPrinter l.handler &&
        l.child.any (fun child => child.behaviour = .stutters && child.finishedBy w.now &&
          child.behaviour.writes.all child.keeps) &&
        l.calls.all fun call => call.2.failure.all fun f => !f.isTimeout := by decide +kernel
  obtain ⟨w, slept, shows⟩ := (Option.any_eq_true _ _).mp check
  obtain ⟨l, there, is⟩ := (w.shows_iff 0 _).mp shows
  simp only [Bool.and_eq_true, Option.any_eq_true, decide_eq_true_eq, List.all_eq_true] at is
  obtain ⟨⟨printer, child, has, ⟨same, finished⟩, kept⟩, inTime⟩ := is
  obtain ⟨reached, -, settled⟩ := sleep_reaches slept
  have timely : start.InForce fun _ v => v.Waitable :=
    World.solo_inForce (.inr (by decide +kernel)) fun _ => trivial
  have launched : Reaches Step.KeepsWaitable start
      (start.launch (World.soloTarget (.starts .stutters)) none).world :=
    .of_move (.launch _ _)
  obtain ⟨t, c, calls, printed⟩ := text_survives_chunking rfl timely (launched.trans reached)
    settled there (Handler.eq_prints printer) has finished
  have punctual : ¬ c.TimedOut := Completion.not_timedOut (inTime (t, c) (by simp [calls]))
  have out : child.behaviour.Chunks .out ['é', '😀'] := by
    rw [same]
    exact ⟨[⟨.out, 5, [0xC3], false⟩, ⟨.out, 7, [0xA9, 0xF0, 0x9F], false⟩,
      ⟨.out, 30, [0x98, 0x80], true⟩], .of_lt (by decide) (by decide), by decide⟩
  have err : child.behaviour.Chunks .err ['€'] := by
    rw [same]
    exact ⟨[⟨.err, 6, [0xE2], false⟩, ⟨.err, 8, [0x82, 0xAC], false⟩],
      .of_lt (by decide) (by decide), by decide⟩
  refine ⟨w, l, t, c, slept, there, calls, punctual, ?_, ?_⟩
  · exact (printed punctual _).1 out fun w member _ => kept w member
  · exact (printed punctual _).2 err fun w member _ => kept w member

/-- The bytes of a text were written to the standard output in pieces by a child that has finished
and was not reported as late, and what was put out is not the text. -/
def Launch.Garbles (now : Instant) (l : Launch) (s : List Char) : Prop :=
  ∃ child, l.handler = some .prints ∧ l.child = some child ∧ child.finishedBy now ∧
    child.behaviour.Chunks .out s ∧ (∀ call ∈ l.calls, ¬ call.2.TimedOut) ∧
    l.events.flatMap CommandLine.stdoutOf ≠ Text.ofChars s

/-- Under a number that no double can hold nothing is put out, and a piece that the child would
write after its exit is lost. -/
theorem chunked_text_garbled :
    let split (delay : Nat) : Behaviour := { lifetime := 20, writes :=
      [⟨.out, 5, [0xC3], false⟩, ⟨.out, delay, [0xA9], false⟩] }
    (∃ w l, ((World.solo { timeout := .integer (10 ^ 400) }).launch
        (World.soloTarget (.starts (split 7))) none).world.sleep 100 = some w ∧
      w.runs[0]? = some (.accepted l) ∧ l.Garbles w.now ['é']) ∧
    ∃ w l, ((World.solo {}).launch
        (World.soloTarget (.starts (split 30))) none).world.sleep 100 = some w ∧
      w.runs[0]? = some (.accepted l) ∧ l.Garbles w.now ['é'] := by
  intro split
  have garbles {start : World} {b : Behaviour} (chunks : b.Chunks .out ['é'])
      (check : ((start.launch (World.soloTarget (.starts b)) none).world.sleep 100).any
        fun w => w.shows 0 fun l => Handler.isPrinter l.handler &&
          l.child.any (fun child => child.behaviour = b && child.finishedBy w.now) &&
          l.calls.all (fun call => call.2.failure.all fun f => !f.isTimeout) &&
          l.events.flatMap CommandLine.stdoutOf != Text.ofChars ['é']) :
      ∃ w l, (start.launch (World.soloTarget (.starts b)) none).world.sleep 100 = some w ∧
        w.runs[0]? = some (.accepted l) ∧ l.Garbles w.now ['é'] := by
    obtain ⟨w, slept, shows⟩ := (Option.any_eq_true _ _).mp check
    obtain ⟨l, there, is⟩ := (w.shows_iff 0 _).mp shows
    simp only [Bool.and_eq_true, Option.any_eq_true, decide_eq_true_eq, List.all_eq_true,
      bne_iff_ne] at is
    obtain ⟨⟨⟨printer, child, has, same, finished⟩, inTime⟩, other⟩ := is
    exact ⟨w, l, slept, there, child, Handler.eq_prints printer, has, finished, same ▸ chunks,
      fun call member => Completion.not_timedOut (inTime call member), other⟩
  constructor
  · exact garbles ⟨_, .of_lt (.refl _) (by decide), by decide⟩ (by decide +kernel)
  · exact garbles ⟨_, .of_lt (.refl _) (by decide), by decide⟩ (by decide +kernel)

end JarLaunch
