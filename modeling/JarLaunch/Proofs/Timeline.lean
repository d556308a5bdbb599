import JarLaunch.Proofs.Timeout

/-! Launches in time. An action is one of a dozen, each with its reason, and it is never taken early
or late: no launch of a world has anything to do in the past. So whatever is kept by actions, by
waiting and by signals to the child holds of every launch, wherever the world may go. -/
namespace JarLaunch

namespace Launch

def having (l : Launch) (t : Instant) (r : Reading) : Launch := { l with clock := t, reads := r }

section
variable (l : Launch) (t : Instant) (r : Reading)

@[simp] theorem having_launcher : (l.having t r).launcher = l.launcher := rfl
@[simp] theorem having_command : (l.having t r).command = l.command := rfl
@[simp] theorem having_line : (l.having t r).line = l.line := rfl
@[simp] theorem having_recipient : (l.having t r).recipient = l.recipient := rfl
@[simp] theorem having_handler : (l.having t r).handler = l.handler := rfl
@[simp] theorem having_child : (l.having t r).child = l.child := rfl
@[simp] theorem having_reads : (l.having t r).reads = r := rfl
@[simp] theorem having_stage : (l.having t r).stage = l.stage := rfl
@[simp] theorem having_clock : (l.having t r).clock = t := rfl
@[simp] theorem having_trace : (l.having t r).trace = l.trace := rfl
@[simp] theorem having_calls : (l.having t r).calls = l.calls := rfl
@[simp] theorem having_sent : (l.having t r).sent = l.sent := rfl

end

/-- What a launch may do at an instant, and why. -/
inductive Action (t : Instant) (timeout : Value) (l : Launch) : Launch → Prop where
  | tell {failure : Failure} {r : Reading} (stage : l.stage = .unstarted failure) :
      Action t timeout l ((l.having t r).deliver t ⟨some failure, [], []⟩)
  | watch {child : Child} {r : Reading} {deadline : Option Instant} (stage : l.stage = .fresh)
      (has : l.child = some child)
      (limit : Limit.ofSetting timeout = .unlimited ∧ deadline = none ∨
        ∃ span, Limit.ofSetting timeout = .within span ∧ deadline = some (t + span))
      (reads : r.UpToDate child t) :
      Action t timeout l ((l.having t r).goTo (.watching deadline))
  | die {child : Child} {r : Reading} (stage : l.stage = .fresh) (has : l.child = some child)
      (limit : Limit.ofSetting timeout = .unusable) :
      Action t timeout l ((l.having t r).goTo .ended)
  | expire {child : Child} {r : Reading} (has : l.child = some child)
      (reason : l.stage = .fresh ∧ Limit.ofSetting timeout = .expired ∨
        ∃ deadline, l.stage = .watching (some deadline) ∧ deadline ≤ t ∧ ¬ child.finishedBy t)
      (reads : r.UpToDate child t) :
      Action t timeout l ((l.having t r).expire t child timeout)
  | complete {child : Child} {r : Reading} {deadline : Option Instant}
      (stage : l.stage = .watching deadline) (has : l.child = some child)
      (finished : child.finishedBy t) (reads : r.UpToDate child t) :
      Action t timeout l ((l.having t r).complete t child)
  | stop {child : Child} {r : Reading} {bound : Instant} (stage : l.stage = .terminating bound)
      (has : l.child = some child) (finished : child.finishedBy t) (reads : r.UpToDate child t) :
      Action t timeout l ((l.having t r).goTo (.draining (t + grace)))
  | strike {child : Child} {r : Reading} {bound : Instant} (stage : l.stage = .terminating bound)
      (has : l.child = some child) (late : bound ≤ t) (unfinished : ¬ child.finishedBy t)
      (reads : r.UpToDate child t) :
      Action t timeout l ((l.having t r).strike t child)
  | outlive {child : Child} {r : Reading} (stage : l.stage = .killing) (has : l.child = some child)
      (finished : child.finishedBy t) (reads : r.UpToDate child t) :
      Action t timeout l ((l.having t r).goTo (.draining (t + grace)))
  | giveUp {child : Child} {r : Reading} {bound : Instant} (stage : l.stage = .draining bound)
      (has : l.child = some child) (finished : child.finishedBy t) (reads : r.UpToDate child t) :
      Action t timeout l ((l.having t r).giveUp t child timeout)
  | giveUpOpen {child : Child} {r : Reading} {bound : Instant} (stage : l.stage = .draining bound)
      (has : l.child = some child) (unfinished : ¬ child.finishedBy t)
      (reads : r.UpToDate child t) :
      Action t timeout l
        (((l.having t r).stopReading.note t (pipesOpen child)).giveUp t child timeout)
  | wake {r : Reading} {bound : Instant} {c : Completion} {fault : Option HandlerFault}
      (stage : l.stage = .dozing bound c fault) :
      Action t timeout l
        ((((l.having t r).note t (.call l.recipient c)).noteAll t
          (fault.toList.map .raised)).goTo .ended)
  | leave {r : Reading} (stage : (∃ bound, l.stage = .lingering bound) ∨
        ∃ target handler, l.stage = .asking target handler) :
      Action t timeout l ((l.having t r).goTo .ended)
  | strand {r : Reading} (isOpen : l.stage.isOpen) (started : ∀ f, l.stage ≠ .unstarted f)
      (has : l.child = none) : Action t timeout l (l.having t r)

section
variable {l : Launch} {t : Instant} {timeout : Value} {child : Child}

theorem actWith_fresh (stage : l.stage = .fresh) :
    l.actWith t timeout child = (l.startReading t child).embark t child timeout := by
  simp only [actWith, stage]

theorem actWith_watching {deadline : Option Instant} (stage : l.stage = .watching deadline) :
    l.actWith t timeout child =
      if l.reads.isDone then l.complete t child else l.expire t child timeout := by
  simp only [actWith, stage]

theorem actWith_terminating {bound : Instant} (stage : l.stage = .terminating bound) :
    l.actWith t timeout child =
      if child.finishedBy t then l.goTo (.draining (t + grace)) else l.strike t child := by
  simp only [actWith, stage]

theorem actWith_killing (stage : l.stage = .killing) :
    l.actWith t timeout child = l.goTo (.draining (t + grace)) := by
  simp only [actWith, stage]

theorem actWith_draining {bound : Instant} (stage : l.stage = .draining bound) :
    l.actWith t timeout child =
      if l.reads.isDone then l.giveUp t child timeout
      else (l.stopReading.note t (pipesOpen child)).giveUp t child timeout := by
  simp only [actWith, stage]

theorem embark_action (stage : l.stage = .fresh) (has : l.child = some child) :
    l.Action t timeout ((l.awake t).actWith t timeout child) := by
  rw [actWith_fresh (l := l.awake t) stage]
  have reads := (l.awake t).startReading_upToDate child t
  unfold embark
  split <;> rename_i limit
  · exact .watch stage has (.inl ⟨limit, rfl⟩) reads
  · exact .watch stage has (.inr ⟨_, limit, rfl⟩) reads
  · exact .expire has (.inl ⟨stage, limit⟩) reads
  · exact .die stage has limit

theorem finished_or_late {bound : Instant} (due : max l.clock (child.finishOr bound) = t)
    (unfinished : ¬ child.finishedBy t) : bound ≤ t := by
  have le : child.finishOr bound ≤ t := due ▸ Nat.le_max_right _ _
  cases finish : child.finish with
  | none => simpa only [Child.finishOr, finish] using le
  | some f =>
    simp only [Child.finishOr, finish] at le
    rcases Nat.le_total f bound with first | first
    · rw [Nat.min_eq_left first] at le
      exact (unfinished (Child.finishedBy_of_finish finish le)).elim
    · rwa [Nat.min_eq_right first] at le

theorem watch_action {deadline : Option Instant} (stage : l.stage = .watching deadline)
    (has : l.child = some child) (current : l.Current) (due : l.next = some t) :
    l.Action t timeout ((l.awake t).actWith t timeout child) := by
  have reads := awake_upToDate current (by rw [stage]; rfl) has (clock_le_next due)
  rw [actWith_watching (l := l.awake t) stage, reads.isDone_eq]
  split
  · rename_i finished
    exact .complete stage has finished reads
  · rename_i unfinished
    cases deadline with
    | none =>
      obtain ⟨f, finish, now⟩ : ∃ f, child.finish = some f ∧ max l.clock f = t := by
        cases finish : child.finish <;> simp [next, awaited, stage, has, finish, sooner] at due ⊢
        exact due
      exact (unfinished (Child.finishedBy_of_finish finish (now ▸ Nat.le_max_right _ _))).elim
    | some d =>
      have now : max l.clock (child.finishOr d) = t := by
        simpa [next, awaited, stage, has, child.sooner_bound] using due
      exact .expire has (.inr ⟨d, stage, finished_or_late now unfinished, unfinished⟩) reads

theorem terminate_action {bound : Instant} (stage : l.stage = .terminating bound)
    (has : l.child = some child) (current : l.Current) (due : l.next = some t) :
    l.Action t timeout ((l.awake t).actWith t timeout child) := by
  have now : max l.clock (child.finishOr bound) = t := by
    simpa [next, awaited, stage, has, child.sooner_bound] using due
  have reads := awake_upToDate current (by rw [stage]; rfl) has (clock_le_next due)
  rw [actWith_terminating (l := l.awake t) stage]
  split
  · rename_i finished
    exact .stop stage has finished reads
  · rename_i unfinished
    exact .strike stage has (finished_or_late now unfinished) unfinished reads

theorem kill_action (stage : l.stage = .killing) (has : l.child = some child)
    (current : l.Current) (due : l.next = some t) :
    l.Action t timeout ((l.awake t).actWith t timeout child) := by
  obtain ⟨f, finish, now⟩ : ∃ f, child.finish = some f ∧ max l.clock f = t := by
    simpa [next, awaited, stage, has] using due
  have reads := awake_upToDate current (by rw [stage]; rfl) has (clock_le_next due)
  rw [actWith_killing (l := l.awake t) stage]
  exact .outlive stage has (Child.finishedBy_of_finish finish (now ▸ Nat.le_max_right _ _)) reads

theorem drain_action {bound : Instant} (stage : l.stage = .draining bound)
    (has : l.child = some child) (current : l.Current) (due : l.next = some t) :
    l.Action t timeout ((l.awake t).actWith t timeout child) := by
  have reads := awake_upToDate current (by rw [stage]; rfl) has (clock_le_next due)
  rw [actWith_draining (l := l.awake t) stage, reads.isDone_eq]
  split
  · rename_i finished
    exact .giveUp stage has finished reads
  · rename_i unfinished
    exact .giveUpOpen stage has unfinished reads

theorem waiting_action (isOpen : l.stage.isOpen) (started : ∀ f, l.stage ≠ .unstarted f)
    (has : l.child = some child) (current : l.Current) (due : l.next = some t) :
    l.Action t timeout ((l.awake t).actWith t timeout child) := by
  cases stage : l.stage with
  | unstarted f => exact (started f stage).elim
  | fresh => exact embark_action stage has
  | watching deadline => exact watch_action stage has current due
  | terminating bound => exact terminate_action stage has current due
  | killing => exact kill_action stage has current due
  | draining bound => exact drain_action stage has current due
  | dozing _ _ _ | lingering _ | asking _ _ | ended => simp [stage, Stage.isOpen] at isOpen

/-- All that a launch does when it is due. -/
theorem act_action (current : l.Current) (due : l.next = some t) :
    l.Action t timeout (l.act t timeout) := by
  cases stage : l.stage with
  | unstarted f =>
    have acts : l.act t timeout = (l.awake t).deliver t ⟨some f, [], []⟩ := by simp [act, stage]
    rw [acts]
    exact .tell stage
  | dozing bound c fault =>
    have acts : l.act t timeout =
        (((l.awake t).note t (.call l.recipient c)).noteAll t
          (fault.toList.map .raised)).goTo .ended := by simp [act, stage]
    rw [acts]
    exact .wake stage
  | lingering bound =>
    have acts : l.act t timeout = (l.awake t).goTo .ended := by simp [act, stage]
    rw [acts]
    exact .leave (.inl ⟨bound, stage⟩)
  | asking target handler =>
    have acts : l.act t timeout = (l.awake t).goTo .ended := by simp [act, stage]
    rw [acts]
    exact .leave (.inr ⟨target, handler, stage⟩)
  | ended => simp [next, awaited, stage] at due
  | fresh | watching _ | terminating _ | killing | draining _ =>
    have isOpen : l.stage.isOpen := by rw [stage]; rfl
    have started : ∀ f, l.stage ≠ .unstarted f := by simp [stage]
    cases has : l.child with
    | none =>
      have acts : l.act t timeout = l.awake t := by simp [act, stage, has]
      rw [acts]
      exact .strand isOpen started has
    | some child =>
      rw [act_eq_actWith isOpen started has]
      exact waiting_action isOpen started has current due

end

/-- A launch on time: its last action does not lie ahead, nor its next one in the past, and its
reading has kept up. -/
structure Clocked (now : Instant) (l : Launch) : Prop where
  past : l.clock ≤ now
  ahead : ∀ t, l.next = some t → now ≤ t
  current : l.Current

/-- What a move of the world can be to one of its launches, with the time that it takes. Signals
from outside come only if there may be any. -/
inductive Passes (kind : String → Value → Prop) (signals : Prop) (now : Instant) (l : Launch) :
    Instant → Launch → Prop where
  | wait {t : Instant} (later : now ≤ t) (ahead : ∀ s, l.next = some s → t ≤ s) :
      Passes kind signals now l t l
  | act {t : Instant} {timeout : Value} (due : l.next = some t) (later : now ≤ t)
      (inForce : kind l.launcher timeout) (current : l.Current) :
      Passes kind signals now l t (l.act t timeout)
  | signal {c c' : Child} (has : l.child = some c) (takes : c.Takes now c') (sent : signals) :
      Passes kind signals now l now { l with child := some c' }

theorem sooner_eq {a b : Option Instant} {e : Instant} (h : sooner a b = some e) :
    a = some e ∨ b = some e := by
  cases a with
  | none => exact .inr h
  | some x =>
    cases b with
    | none => exact .inl h
    | some y =>
      cases Option.some.inj h
      rcases Nat.le_total x y with le | le
      · exact .inl (congrArg some (Nat.min_eq_left le).symm)
      · exact .inr (congrArg some (Nat.min_eq_right le).symm)

section
variable {l l' : Launch} {now t : Instant} {c c' : Child} {kind : String → Value → Prop}
  {signals : Prop}

theorem sooner_moved {x x' y : Option Instant} {a : Instant}
    (moves : ∀ f, x' = some f → x = some f ∨ now ≤ f) (h : sooner x' y = some a) :
    now ≤ a ∨ ∃ b, sooner x y = some b ∧ b ≤ a := by
  rcases sooner_eq h with first | second
  · rcases moves a first with same | later
    · obtain ⟨b, hb⟩ := sooner_isSome (b := y) (.inl (Option.isSome_of_eq_some same))
      exact .inr ⟨b, hb, (sooner_le hb).1 a same⟩
    · exact .inl later
  · obtain ⟨b, hb⟩ := sooner_isSome (a := x) (.inr (Option.isSome_of_eq_some second))
    exact .inr ⟨b, hb, (sooner_le hb).2 a second⟩

/-- A signal makes a launch wait for less, but for nothing in the past. -/
theorem awaited_signalled (has : l.child = some c) (takes : c.Takes now c') {a : Instant}
    (h : ({ l with child := some c' } : Launch).awaited = some a) :
    now ≤ a ∨ ∃ b, l.awaited = some b ∧ b ≤ a := by
  have moves : ∀ f, c'.finish = some f → c.finish = some f ∨ now ≤ f := fun _ => takes.finish
  cases stage : l.stage with
  | watching deadline =>
    simp only [awaited, stage, Option.bind_some, Reading.doneAt_eq] at h
    simpa [awaited, stage, has] using sooner_moved moves h
  | terminating bound | draining bound =>
    simp only [awaited, stage, Option.bind_some, Reading.doneAt_eq] at h
    simpa [awaited, stage, has] using sooner_moved moves h
  | killing =>
    simp only [awaited, stage, Option.bind_some] at h
    rcases moves a h with same | later
    · exact .inr ⟨a, by simpa [awaited, stage, has] using same, Nat.le_refl _⟩
    · exact .inl later
  | unstarted _ | fresh | dozing _ _ _ | lingering _ | asking _ _ | ended =>
    simp only [awaited, stage] at h ⊢
    exact .inr ⟨a, h, Nat.le_refl _⟩

theorem act_current (current : l.Current) (due : l.next = some t) (timeout : Value) :
    (l.act t timeout).Current := by
  have closed_current {l' : Launch} (closed : l'.stage.isOpen = false) : l'.Current := by
    intro reading
    cases stage : l'.stage <;> simp [stage, Stage.isOpen, Stage.isReading] at closed reading
  cases isOpen : l.stage.isOpen with
  | false => exact closed_current (act_closed isOpen t timeout).1
  | true =>
    have advances : l.Advances timeout t (l.act t timeout) := act_advances isOpen current due
    cases advances with
    | waits _ current' _ _ => exact current'
    | calls _ _ closed _ => exact closed_current closed
    | dies _ ended _ => exact closed_current (by rw [ended]; rfl)

theorem Clocked.passes (clocked : l.Clocked now) (passes : l.Passes kind signals now t l') :
    l'.Clocked t := by
  cases passes with
  | wait later ahead => exact ⟨Nat.le_trans clocked.past later, ahead, clocked.current⟩
  | @act _ timeout due later _ current =>
    have clock := l.act_clock t timeout
    exact ⟨Nat.le_of_eq clock, fun s due' => clock ▸ clock_le_next due',
      act_current current due timeout⟩
  | signal has takes _ =>
    refine ⟨clocked.past, fun s due => ?_, fun reading c' is => ?_⟩
    · obtain ⟨a, awaits, rfl⟩ := Option.map_eq_some_iff.mp due
      rcases awaited_signalled has takes awaits with later | ⟨b, awaited, le⟩
      · exact Nat.le_trans later (Nat.le_max_right _ _)
      · have ahead := clocked.ahead (max l.clock b) (by rw [next, awaited, Option.map_some])
        exact Nat.le_trans ahead (Nat.max_le.mpr ⟨Nat.le_max_left _ _,
          Nat.le_trans le (Nat.le_max_right _ _)⟩)
    · cases Option.some.inj is
      exact (clocked.current reading _ has).signalled takes clocked.past

inductive Created (launcher : String) (handler : Option Handler × Recipient) (now : Instant)
    (pid : Nat) (command : List Value) (spawn : Spawn) : Launch → Prop where
  | unstarted (line : Text) (fault : SpawnFault) :
      Created launcher handler now pid command spawn
        ⟨launcher, command, line, handler.2, handler.1, none, {},
          .unstarted (fault.failure command (executableText command)), now,
          [⟨now, .log .warning (notStartedText command fault)⟩], [], []⟩
  | started (line : Text) {b : Behaviour} (system : spawn = .starts b) :
      Created launcher handler now pid command spawn
        ⟨launcher, command, line, handler.2, handler.1, some (Child.start pid now b), {}, .fresh,
          now, [⟨now, .log .debug (startedText pid line)⟩], [], []⟩

theorem create_created {launcher : String} {handler : Option Handler × Recipient} {pid : Nat}
    {command : List Value} {spawn : Spawn}
    (created : create launcher handler now pid command spawn = .ok l) :
    Created launcher handler now pid command spawn l := by
  unfold create at created
  dsimp only at created
  split at created
  · cases created
  · cases created
    exact .unstarted _ _
  · rename_i attempt
    cases created
    exact .started _ (Spawn.attempt_starts attempt)

theorem create_clocked {launcher : String} {handler : Option Handler × Recipient} {pid : Nat}
    {command : List Value} {spawn : Spawn}
    (created : create launcher handler now pid command spawn = .ok l) : l.Clocked now := by
  have clock : l.clock = now := by cases create_created created <;> rfl
  have early : l.stage.isReading = false := by cases create_created created <;> rfl
  refine ⟨Nat.le_of_eq clock, fun t due => clock ▸ clock_le_next due, fun reading => ?_⟩
  cases early.symm.trans reading

end

end Launch

def World.Clocked (w : World) : Prop :=
  ∀ (i : Nat) (l : Launch), w.runs[i]? = some (.accepted l) → l.Clocked w.now

section
variable {allowed : Step → Prop} {kind : String → Value → Prop} {u v w : World} {i : Nat}
  {l : Launch}

theorem World.Clocked.le_next (clocked : w.Clocked) {t : Instant} {j : Nat}
    (first : w.next = some (t, j)) : w.now ≤ t := by
  obtain ⟨l, there, due⟩ := World.next_eq_some first
  exact (clocked j l there).ahead t due

theorem Move.passes (move : Move allowed v w) (inForce : v.InForce kind)
    (there : v.runs[i]? = some (.accepted l)) (clocked : l.Clocked v.now) :
    ∃ l', w.runs[i]? = some (.accepted l') ∧
      l.Passes kind (∃ order, allowed (.signal i order)) v.now w.now l' := by
  have bound : i < v.runs.length := (List.getElem?_eq_some_iff.mp there).1
  have stay : l.Passes kind (∃ order, allowed (.signal i order)) v.now v.now l :=
    .wait (Nat.le_refl _) clocked.ahead
  cases move with
  | @act t j l' first at_j =>
    by_cases same : j = i
    · subst j
      obtain ⟨_, again, due⟩ := World.next_eq_some first
      cases Option.some.inj (at_j.symm.trans there)
      cases Option.some.inj (again.symm.trans there)
      have later : v.now ≤ t := clocked.ahead t due
      have time : (v.acted t i l).now = t := Nat.max_eq_right later
      rw [time]
      exact ⟨_, List.getElem?_set_self bound, .act due later (inForce _) clocked.current⟩
    · refine ⟨l, (List.getElem?_set_ne same).trans there, .wait (Nat.le_max_left _ _) ?_⟩
      exact fun s due => Nat.max_le.mpr ⟨clocked.ahead s due, World.next_le first there due⟩
  | @pass t idle =>
    refine ⟨l, there, .wait (Nat.le_max_left _ _) fun s due => ?_⟩
    refine Nat.max_le.mpr ⟨clocked.ahead s due, ?_⟩
    cases first : v.next with
    | none => cases (World.next_eq_none first there).symm.trans due
    | some c =>
      exact Nat.le_trans (Nat.le_of_lt (idle c.1 c.2 first)) (World.next_le first there due)
  | turn => exact ⟨l, there, stay⟩
  | launch target handler =>
    refine ⟨l, ?_, ?_⟩
    · rw [World.launch_runs, List.getElem?_append_left bound, there]
    · rw [World.launch_now]
      exact stay
  | set _ => exact ⟨l, there, stay⟩
  | setJava _ => exact ⟨l, there, stay⟩
  | @signal number order ok =>
    rcases World.signal_eq v number order with same | ⟨l', c, c', at_n, has, taken, changed⟩
    · rw [same]
      exact ⟨l, there, stay⟩
    · rw [changed]
      by_cases same : number = i
      · subst number
        cases Option.some.inj (at_n.symm.trans there)
        exact ⟨_, List.getElem?_set_self bound,
          .signal has (Child.takes_of_signal taken) ⟨order, ok⟩⟩
      · exact ⟨l, (List.getElem?_set_ne same).trans there, stay⟩

theorem Reaches.clocked (reached : Reaches allowed u w) (clocked : u.Clocked) : w.Clocked := by
  induction reached with
  | refl => exact clocked
  | @tail v w reached move ih =>
    intro i l there
    rcases move.origin there with ⟨l₀, was⟩ | ⟨target, handler, made, now, -⟩
    · have free : v.InForce fun _ _ => True := fun _ => trivial
      obtain ⟨l', there', passes⟩ := move.passes free was (ih i l₀ was)
      cases Option.some.inj (there.symm.trans there')
      exact (ih i l₀ was).passes passes
    · obtain ⟨_, -, created⟩ := World.made_accepted made
      rw [now]
      exact Launch.create_clocked created

theorem World.clocked_of_new (new : u.runs = []) : u.Clocked := by
  intro i l there
  rw [new] at there
  cases there

/-- What holds of a launch now, and is kept while it waits, acts under the timeouts in force and has
its child signalled, holds wherever the world may go. -/
theorem Reaches.follow {P : Instant → Launch → Prop} (reached : Reaches allowed u w)
    (sets : SetsOnly allowed kind) (inForce : u.InForce kind)
    (there : u.runs[i]? = some (.accepted l)) (clocked : l.Clocked u.now) (start : P u.now l)
    (passes : ∀ now t l l', l.Clocked now → P now l →
      l.Passes kind (∃ order, allowed (.signal i order)) now t l' → P t l') :
    ∃ l', w.runs[i]? = some (.accepted l') ∧ l'.Clocked w.now ∧ P w.now l' := by
  induction reached with
  | refl => exact ⟨l, there, clocked, start⟩
  | @tail v w reached move ih =>
    obtain ⟨l₁, there₁, clocked₁, so⟩ := ih
    have inForce' : v.InForce kind := Reaches.inForce reached sets inForce
    obtain ⟨l₂, there₂, passing⟩ := move.passes inForce' there₁ clocked₁
    exact ⟨l₂, there₂, clocked₁.passes passing, passes _ _ _ _ clocked₁ so passing⟩

/-- What holds of the launches there are and of every launch when it is made, and is kept while it
waits, acts under the timeouts in force and has its child signalled, holds wherever the world may
go. -/
theorem Reaches.every {P : Instant → Launch → Prop} (reached : Reaches allowed u w)
    (clocked : u.Clocked) (sets : SetsOnly allowed kind) (inForce : u.InForce kind)
    (start : ∀ (i : Nat) (l : Launch), u.runs[i]? = some (.accepted l) → P u.now l)
    (made : ∀ launcher handler now pid command spawn l,
      Launch.create launcher handler now pid command spawn = .ok l → P now l)
    (passes : ∀ now t l l' signals, l.Clocked now → P now l → l.Passes kind signals now t l' →
      P t l')
    (there : w.runs[i]? = some (.accepted l)) : P w.now l := by
  induction reached generalizing i l with
  | refl => exact start i l there
  | @tail v w reached move ih =>
    rcases move.origin there with ⟨l₀, was⟩ | ⟨target, handler, is, now, -⟩
    · have clocked' : v.Clocked := Reaches.clocked reached clocked
      have inForce' : v.InForce kind := Reaches.inForce reached sets inForce
      obtain ⟨l', there', passing⟩ := move.passes inForce' was (clocked' i l₀ was)
      cases Option.some.inj (there.symm.trans there')
      exact passes _ _ _ _ _ (clocked' i l₀ was) (ih was) passing
    · obtain ⟨_, -, created⟩ := World.made_accepted is
      rw [now]
      exact made _ _ _ _ _ _ _ created

end

end JarLaunch
