import JarLaunch.Proofs.Output

/-! What lies ahead of a launch that has begun to wait, if nobody signals its child. The launcher's
timeout is asked for again when the child is overdue and when the handler is called, but only to be
named: whatever it is by then, the launch acts at the same instants, sends the same signals and has
the same to report. So its prospect follows from the stage and the child alone, and no action
changes it. -/
namespace JarLaunch

/-- A call at an instant, of a child as it will then be, in time or too late; or none ever. -/
inductive Prospect where
  | never
  | call (t : Instant) (child : Child) (late : Bool)

namespace Prospect

section
variable (child : Child) (now : Instant)

def drained (bound : Instant) : Prospect := .call (max now (child.finishOr bound)) child true

def killed : Prospect :=
  match child.finish with
  | none => .never
  | some f => drained child (max now f) (max now f + Launch.grace)

def struck : Prospect :=
  let struck := (child.kill? now).getD child
  if struck.exitedBy now then drained struck now (now + Launch.grace) else killed struck now

def terminated (bound : Instant) : Prospect :=
  let t := max now (child.finishOr bound)
  if child.finishedBy t then drained child t (t + Launch.grace) else struck child t

def expired : Prospect :=
  let asked := (child.terminate? now).getD child
  if (child.terminate? now).all (·.exitedBy now) then drained asked now (now + Launch.grace)
  else terminated asked now (now + Launch.grace)

def watched (deadline : Option Instant) : Prospect :=
  match Launch.sooner child.finish deadline with
  | none => .never
  | some awaited =>
    let t := max now awaited
    if child.finishedBy t then .call t child false else expired child t

def armed : Limit → Prospect
  | .unlimited => watched child now none
  | .within span => watched child now (some (now + span))
  | .expired => expired child now
  | .unusable => .never

end

end Prospect

def Stage.isWaiting : Stage → Bool
  | .watching _ | .terminating _ | .killing | .draining _ => true
  | _ => false

namespace Launch

def prospect (l : Launch) : Prospect :=
  match l.stage, l.child with
  | .watching deadline, some child => .watched child l.clock deadline
  | .terminating bound, some child => .terminated child l.clock bound
  | .killing, some child => .killed child l.clock
  | .draining bound, some child => .drained child l.clock bound
  | _, _ => .never

def report (l : Launch) (timeout : Value) (child : Child) (t : Instant) (late : Bool) :
    Completion :=
  if late then l.overdue timeout child t else l.punctual child t

/-- What a prospect comes to under a timeout that stays as it is. -/
def foresee (l : Launch) (timeout : Value) : Prospect → Fate
  | .never => .never
  | .call t child late => .call t (l.report timeout child t late)

section
variable (l : Launch) (timeout : Value) (child : Child) (now : Instant)

theorem foresee_drained (bound : Instant) :
    l.foresee timeout (.drained child now bound) = l.drainedFate timeout child now bound := rfl

theorem foresee_killed :
    l.foresee timeout (.killed child now) = l.killedFate timeout child now := by
  unfold Prospect.killed killedFate
  cases child.finish <;> rfl

theorem foresee_struck :
    l.foresee timeout (.struck child now) = l.struckFate timeout child now := by
  unfold Prospect.struck struckFate
  dsimp only
  rw [apply_ite (l.foresee timeout), foresee_drained, foresee_killed]

theorem foresee_terminated (bound : Instant) :
    l.foresee timeout (.terminated child now bound) = l.terminatedFate timeout child now bound := by
  unfold Prospect.terminated terminatedFate
  dsimp only
  rw [apply_ite (l.foresee timeout), foresee_drained, foresee_struck]

theorem foresee_expired :
    l.foresee timeout (.expired child now) = l.expiredFate timeout child now := by
  unfold Prospect.expired expiredFate
  dsimp only
  rw [apply_ite (l.foresee timeout), foresee_drained, foresee_terminated]

theorem foresee_watched (deadline : Option Instant) :
    l.foresee timeout (.watched child now deadline) =
      l.watchedFate timeout child now deadline := by
  unfold Prospect.watched watchedFate
  cases sooner child.finish deadline with
  | none => rfl
  | some a =>
    dsimp only
    rw [apply_ite (l.foresee timeout), foresee_expired]
    rfl

end

theorem fate_eq_foresee {l : Launch} (waiting : l.stage.isWaiting) (timeout : Value) :
    l.fate timeout = l.foresee timeout l.prospect := by
  cases stage : l.stage with
  | watching _ | terminating _ | killing | draining _ =>
    cases has : l.child with
    | none => simp only [fate, prospect, stage, has, foresee]
    | some child =>
      simp only [fate, prospect, stage, has, foresee_watched, foresee_terminated, foresee_killed,
        foresee_drained]
  | unstarted _ | fresh | dozing _ _ _ | lingering _ | asking _ _ | ended =>
    simp [stage, Stage.isWaiting] at waiting

/-- A launch has called its handler, as it was to, and has logged whether pipes were open. -/
structure Answers (t : Instant) (child : Child) (late : Bool) (l : Launch) : Prop where
  closed : l.stage.isOpen = false
  has : l.child = some child
  calls : ∃ timeout, l.calls = [(t, l.report timeout child t late)]
  pipes : pipesOpen child ∈ l.events ↔ late ∧ ¬ child.finishedBy t

inductive Heads (p : Prospect) (l : Launch) : Prop where
  | waits (waiting : l.stage.isWaiting) (same : l.prospect = p)
  | called {t : Instant} {child : Child} {late : Bool} (was : p = .call t child late)
      (answers : l.Answers t child late)
  | died (was : p = .never) (ended : l.stage = .ended) (calls : l.calls = [])

section
variable {l : Launch} {child : Child} {t : Instant} {timeout : Value} {p : Prospect}

@[simp] theorem pipesOpen_ne_started (line : Text) : pipesOpen child ≠ started child line := by
  intro same
  cases (log_inj same).1

@[simp] theorem pipesOpen_ne_stillRunning (timeout : Value) :
    pipesOpen child ≠ stillRunning child timeout := by
  intro same
  simp [pipesOpen, stillRunning, pidText, Text.ofString, Text.ofChars] at same

theorem pipesOpen_ne_message {f : Failure}
    (command : f.message.head? = some (.char 'C')) : pipesOpen child ≠ .log .warning f.message := by
  intro same
  have heads := (log_inj same).2
  rw [command] at heads
  simp [pidText, Text.ofString, Text.ofChars] at heads

theorem ofExit_head {command : List Value} {line : Text} {code : Int} {f : Failure}
    (is : Failure.ofExit command line code = some f) : f.message.head? = some (.char 'C') := by
  unfold Failure.ofExit at is
  split at is
  · cases is
  · split at is <;> cases is <;> simp [Text.ofString, Text.ofChars]

theorem pipesOpen_not_printed (child : Child) (p : Printout) : pipesOpen child ∉ printing p := by
  unfold printing
  split <;> split <;> simp [pipesOpen]

theorem pipesOpen_mem_deliver (c : Completion) :
    pipesOpen child ∈ (l.deliver t c).events ↔ pipesOpen child ∈ l.events := by
  have unprinted := pipesOpen_not_printed child c.printout
  rw [pipesOpen] at unprinted ⊢
  unfold deliver
  split <;> simp [events, note, noteAll, goTo, unprinted]

theorem conclude_answers (timeout : Value) {failure : Option Failure} {late : Bool}
    (calls : l.calls = []) (has : l.child = some child) (reads : l.reads.Holds child t)
    (is : (l.report timeout child t late).failure = failure)
    (message : ∀ f, failure = some f → f.message.head? = some (.char 'C'))
    (pipes : pipesOpen child ∈ l.events ↔ late ∧ ¬ child.finishedBy t) :
    (l.conclude t child failure).Answers t child late := by
  obtain ⟨called, closed⟩ := conclude_calls reads failure
  obtain ⟨child', -⟩ : (l.conclude t child failure).child = l.child ∧ _ :=
    deliver_child_sent _ t _
  have frame : (l.conclude t child failure).frame = l.frame := deliver_frame _ t _
  have command : (l.conclude t child failure).command = l.command := congrArg (·.2.1) frame
  have line : (l.conclude t child failure).line = l.line := congrArg (·.2.2.1) frame
  refine ⟨closed, child'.trans has, ⟨timeout, ?_⟩, ?_⟩
  · rw [called, calls, List.nil_append, report, overdue, punctual, command, line, ← is]
    cases late <;> rfl
  · unfold conclude
    rw [pipesOpen_mem_deliver, note_events, List.mem_append, pipes]
    refine or_iff_left ?_
    rw [List.mem_singleton]
    cases failure with
    | none => exact (exitedCleanly_ne_pipesOpen child).symm
    | some f => exact pipesOpen_ne_message (message f rfl)

theorem expire_heads (timeout : Value) (child : Child) (clock : l.clock = t) :
    (l.expire t child timeout).Heads (.expired child t) := by
  rw [expire_eq]
  by_cases gone : (child.terminate? t).all (·.exitedBy t)
  · refine .waits (by simp only [gone, if_true, Stage.isWaiting]) ?_
    simp [prospect, Prospect.expired, gone, clock]
  · refine .waits (by simp [gone, Stage.isWaiting]) ?_
    simp [prospect, Prospect.expired, gone, clock]

theorem strike_heads (child : Child) (clock : l.clock = t) :
    (l.strike t child).Heads (.struck child t) := by
  rw [strike_eq]
  by_cases gone : ((child.kill? t).getD child).exitedBy t
  · refine .waits (by simp only [gone, if_true, Stage.isWaiting]) ?_
    simp [prospect, Prospect.struck, gone, clock]
  · refine .waits (by simp [gone, Stage.isWaiting]) ?_
    simp [prospect, Prospect.struck, gone, clock]

theorem watching_heads {deadline : Option Instant} (stage : l.stage = .watching deadline)
    (scripted : l.Scripted) (current : l.Current) (due : l.next = some t) :
    (l.act t timeout).Heads l.prospect := by
  simp only [Scripted, stage] at scripted
  obtain ⟨calls, child, has, seen⟩ := scripted
  obtain ⟨a, soon, now⟩ : ∃ a, sooner child.finish deadline = some a ∧ max l.clock a = t := by
    simpa [next, awaited, stage, has] using due
  have ahead : l.prospect =
      if child.finishedBy t then .call t child false else .expired child t := by
    simp only [prospect, stage, has, Prospect.watched, soon, now]
  have reads := awake_upToDate current (by rw [stage]; rfl) has (clock_le_next due)
  rw [act_eq_actWith (by rw [stage]; rfl) (by simp [stage]) has,
    actWith_watching (l := l.awake t) stage, ahead, reads.isDone_eq]
  split
  · have shut : pipesOpen child ∈ l.events ↔ false ∧ ¬ child.finishedBy t := by simp [seen]
    exact .called rfl
      (conclude_answers timeout calls has reads.holds rfl (fun _ => ofExit_head) shut)
  · exact expire_heads timeout child rfl

theorem terminating_heads {bound : Instant} (stage : l.stage = .terminating bound)
    (scripted : l.Scripted) (due : l.next = some t) : (l.act t timeout).Heads l.prospect := by
  simp only [Scripted, stage] at scripted
  obtain ⟨-, child, -, has, -⟩ := scripted
  have now : max l.clock (child.finishOr bound) = t := by
    simpa [next, awaited, stage, has, child.sooner_bound] using due
  have ahead : l.prospect = if child.finishedBy t then .drained child t (t + grace)
      else .struck child t := by
    simp only [prospect, stage, has, Prospect.terminated, now]
  rw [act_eq_actWith (by rw [stage]; rfl) (by simp [stage]) has,
    actWith_terminating (l := l.awake t) stage, ahead]
  split
  · exact .waits rfl (by simp only [prospect, goTo, awake_child, awake_clock, has])
  · exact strike_heads child rfl

theorem killing_heads (stage : l.stage = .killing) (scripted : l.Scripted)
    (due : l.next = some t) : (l.act t timeout).Heads l.prospect := by
  simp only [Scripted, stage] at scripted
  obtain ⟨-, child, -, has, -⟩ := scripted
  obtain ⟨f, finish, now⟩ : ∃ f, child.finish = some f ∧ max l.clock f = t := by
    simpa [next, awaited, stage, has] using due
  have ahead : l.prospect = .drained child t (t + grace) := by
    simp only [prospect, stage, has, Prospect.killed, finish, now]
  rw [act_eq_actWith (by rw [stage]; rfl) (by simp [stage]) has,
    actWith_killing (l := l.awake t) stage, ahead]
  exact .waits rfl (by simp only [prospect, goTo, awake_child, awake_clock, has])

theorem draining_heads {bound : Instant} (stage : l.stage = .draining bound)
    (scripted : l.Scripted) (current : l.Current) (due : l.next = some t) :
    (l.act t timeout).Heads l.prospect := by
  simp only [Scripted, stage] at scripted
  obtain ⟨calls, child, before, has, seen⟩ := scripted
  have now : max l.clock (child.finishOr bound) = t := by
    simpa [next, awaited, stage, has, child.sooner_bound] using due
  have ahead : l.prospect = .call t child true := by
    simp only [prospect, stage, has, Prospect.drained, now]
  have command (f : Failure)
      (is : some (Failure.ofTimeout l.command l.line timeout (child.returncode t)) = some f) :
      f.message.head? = some (.char 'C') := by
    cases Option.some.inj is
    simp [Failure.ofTimeout, Text.ofString, Text.ofChars]
  have reads := awake_upToDate current (by rw [stage]; rfl) has (clock_le_next due)
  rw [act_eq_actWith (by rw [stage]; rfl) (by simp [stage]) has,
    actWith_draining (l := l.awake t) stage, ahead, reads.isDone_eq]
  split
  · rename_i finished
    have shut : pipesOpen child ∈ l.events ↔ true ∧ ¬ child.finishedBy t := by
      simp [seen, finished]
    exact .called rfl (conclude_answers timeout calls has reads.holds rfl command shut)
  · rename_i unfinished
    have held : pipesOpen child ∈ (l.note t (pipesOpen child)).events ↔
        true ∧ ¬ child.finishedBy t := by
      simp [note_events, unfinished]
    exact .called rfl (conclude_answers timeout calls has reads.holds.cancel rfl command held)

theorem Answers.act {late : Bool} {s : Instant} (h : l.Answers s child late) (current : l.Current)
    (due : l.next = some t) : (l.act t timeout).Answers s child late := by
  obtain ⟨closed, has, ⟨named, calls⟩, pipes⟩ := h
  have action : l.Action t timeout (l.act t timeout) := act_action current due
  generalize l.act t timeout = l' at action ⊢
  cases action with
  | tell stage | watch stage _ _ | die stage _ _ | complete stage _ _ | stop stage _ _
  | strike stage _ _ _ | outlive stage _ _ | giveUp stage _ _ | giveUpOpen stage _ _ =>
    rw [stage] at closed
    cases closed
  | expire _ reason =>
    rcases reason with ⟨stage, -⟩ | ⟨_, stage, -⟩ <;> rw [stage] at closed <;> cases closed
  | @wake _ _ c fault stage =>
    refine ⟨rfl, has, ⟨named, calls⟩, ?_⟩
    rw [← pipes]
    simp [events, note, noteAll, goTo, pipesOpen]
  | leave _ => exact ⟨rfl, has, ⟨named, calls⟩, pipes⟩
  | strand isOpen _ _ =>
    rw [closed] at isOpen
    cases isOpen

/-- Whatever the timeout is by now, a launch goes on the way it was going. -/
theorem Heads.act (h : l.Heads p) (scripted : l.Scripted) (current : l.Current)
    (due : l.next = some t) : (l.act t timeout).Heads p := by
  cases h with
  | waits waiting same =>
    rw [← same]
    cases stage : l.stage with
    | watching deadline => exact watching_heads stage scripted current due
    | terminating bound => exact terminating_heads stage scripted due
    | killing => exact killing_heads stage scripted due
    | draining bound => exact draining_heads stage scripted current due
    | unstarted _ | fresh | dozing _ _ _ | lingering _ | asking _ _ | ended =>
      simp [stage, Stage.isWaiting] at waiting
  | called was answers => exact .called was (answers.act current due)
  | died _ ended _ => simp [next, awaited, ended] at due

theorem embark_heads (stage : l.stage = .fresh) (scripted : l.Scripted)
    (has : l.child = some child) :
    (l.act t timeout).Heads (.armed child t (Limit.ofSetting timeout)) := by
  simp only [Scripted, stage] at scripted
  rw [act_eq_actWith (by rw [stage]; rfl) (by simp [stage]) has,
    actWith_fresh (l := l.awake t) stage]
  unfold embark
  split <;> rename_i limit <;> rw [limit]
  · exact .waits rfl (by simp only [prospect, goTo, startReading, awake_child, awake_clock, has,
      Prospect.armed])
  · exact .waits rfl (by simp only [prospect, goTo, startReading, awake_child, awake_clock, has,
      Prospect.armed])
  · exact expire_heads timeout child rfl
  · exact .died rfl rfl scripted.1

theorem isOpen_of_isWaiting (waiting : l.stage.isWaiting) : l.stage.isOpen := by
  cases stage : l.stage <;> simp_all [Stage.isWaiting, Stage.isOpen]

theorem Heads.answered (h : l.Heads p) (scripted : l.Scripted) :
    l.calls = [] ∨ ∃ t child late, p = .call t child late ∧ l.Answers t child late := by
  cases h with
  | waits waiting _ => exact .inl (scripted.silent (isOpen_of_isWaiting waiting))
  | called was answers => exact .inr ⟨_, _, _, was, answers⟩
  | died _ _ calls => exact .inl calls

theorem Heads.answers {late : Bool} {s now : Instant} (h : l.Heads (.call s child late))
    (current : l.Current) (idle : ∀ t, l.next = some t → now < t) (past : s ≤ now) :
    l.Answers s child late := by
  cases h with
  | waits waiting same =>
    have fate : l.fate .absent = .call s (l.report .absent child s late) := by
      rw [fate_eq_foresee waiting, same]
      rfl
    obtain ⟨t, due, le⟩ := next_le_fate (isOpen_of_isWaiting waiting) current fate
    exact (Nat.not_lt_of_le (Nat.le_trans le past) (idle t due)).elim
  | called was answers =>
    cases was
    exact answers
  | died was _ _ => cases was

end

end Launch

def Step.Unsignalled (number : Nat) : Step → Prop
  | .signal i _ => i ≠ number
  | _ => True

section
variable {start u v w : World} {i : Nat} {l : Launch}

theorem Reaches.heads {p : Prospect} (reached : Reaches (Step.Unsignalled i) u w)
    (there : u.runs[i]? = some (.accepted l)) (scripted : l.Scripted) (current : l.Current)
    (heads : l.Heads p) :
    ∃ l', w.runs[i]? = some (.accepted l') ∧ l'.Scripted ∧ l'.Current ∧ l'.Heads p := by
  have free : SetsOnly (Step.Unsignalled i) fun _ _ => True := fun _ _ _ _ _ => trivial
  refine reached.keeps free (fun _ => trivial) there ⟨scripted, current, heads⟩ ?_ ?_
  · intro l t timeout ⟨scripted, current, heads⟩ due _
    exact ⟨scripted.act current due, Launch.act_current current due timeout,
      heads.act scripted current due⟩
  · intro l order c' ok h
    exact (ok rfl).elim

def Launch.Newborn (l : Launch) : Prop :=
  l.stage = .fresh → ∃ pid b, l.child = some (Child.start pid l.clock b)

theorem Launch.Newborn.act {t : Instant} {timeout : Value} (h : l.Newborn) (current : l.Current)
    (due : l.next = some t) : (l.act t timeout).Newborn := by
  have action : l.Action t timeout (l.act t timeout) := act_action current due
  generalize l.act t timeout = l' at action ⊢
  intro fresh
  have isOpen : l'.stage.isOpen := by rw [fresh]; rfl
  cases action with
  | tell _ => exact (Bool.false_ne_true ((deliver_calls _ _ _).2.symm.trans isOpen)).elim
  | complete _ _ _ | giveUp _ _ _ | giveUpOpen _ _ _ =>
    exact (Bool.false_ne_true ((conclude_buffers _ _ _ _).2.symm.trans isOpen)).elim
  | watch _ _ _ | die _ _ _ | stop _ _ _ | outlive _ _ _ | wake _ | leave _ => cases fresh
  | expire _ _ =>
    rw [expire_eq] at fresh
    dsimp only at fresh
    split at fresh <;> cases fresh
  | strike _ _ _ _ =>
    rw [strike_eq] at fresh
    dsimp only at fresh
    split at fresh <;> cases fresh
  | strand _ _ none =>
    obtain ⟨pid, b, has⟩ := h fresh
    cases none.symm.trans has

theorem Reaches.newborn (reached : Reaches (Step.Unsignalled i) start w) (new : start.runs = [])
    (there : w.runs[i]? = some (.accepted l)) : l.Scripted ∧ l.Newborn := by
  induction reached generalizing l with
  | refl =>
    rw [new] at there
    cases there
  | tail before move ih =>
    rcases move.origin there with ⟨l₀, was⟩ | ⟨target, handler, made, -, -⟩
    · obtain ⟨scripted, newborn⟩ := ih was
      have current := (Reaches.clocked before (World.clocked_of_new new) i l₀ was).current
      obtain ⟨l', there', touch⟩ := move.touch was
      cases Option.some.inj (there.symm.trans there')
      cases touch with
      | spare => exact ⟨scripted, newborn⟩
      | act due => exact ⟨scripted.act current due, newborn.act current due⟩
      | signal ok _ _ => exact (ok rfl).elim
    · obtain ⟨_, -, created⟩ := World.made_accepted made
      refine ⟨Launch.create_scripted created, ?_⟩
      cases Launch.create_created created with
      | unstarted _ _ =>
        intro fresh
        cases fresh
      | started _ _ => exact fun _ => ⟨_, _, rfl⟩

/-- A launch that begins to wait goes the way of the prospect it has at that moment, whatever
becomes of the timeouts, if nobody signals its child. -/
theorem Embarks.heads {v' : World} {l₀ : Launch} (new : start.runs = [])
    (before : Reaches (Step.Unsignalled i) start v) (embarks : Embarks v v' i l₀)
    (after : Reaches (Step.Unsignalled i) v' w) :
    ∃ pid b l, l₀.child = some (Child.start pid v.now b) ∧ w.runs[i]? = some (.accepted l) ∧
      l.Scripted ∧ l.Current ∧ l.Heads (.armed (Child.start pid v.now b) v.now
        (Limit.ofSetting (v.launcher l₀.launcher).timeout)) := by
  obtain ⟨scripted, newborn⟩ := before.newborn new embarks.there
  obtain ⟨pid, b, has⟩ := newborn embarks.fresh
  have clocked := before.clocked (World.clocked_of_new new) i l₀ embarks.there
  have due : l₀.next = some l₀.clock := by
    simp [Launch.next, Launch.awaited, embarks.fresh]
  have now : l₀.clock = v.now := Nat.le_antisymm clocked.past (clocked.ahead _ due)
  rw [now] at has due
  obtain ⟨l, there, recited, current, heads⟩ := after.heads embarks.acts
    (scripted.act clocked.current due) (Launch.act_current clocked.current due _)
    (Launch.embark_heads embarks.fresh scripted has)
  exact ⟨pid, b, l, has, there, recited, current, heads⟩

end

end JarLaunch
