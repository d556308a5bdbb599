import JarLaunch.Proofs.Signals

/-! Faithful completion. A child that finishes in time, by itself or because somebody signals it, is
reported at the instant it finishes, with everything that was written to its pipes and with the
meaning of its return code; a child that never finishes is never reported. Up to the deadline the
launch only reads and waits, and a child that has not finished by then is late for good: no signal
brings its end into the past. -/
namespace JarLaunch

namespace Child

/-- The child finishes a millisecond before the deadline at the latest, if there is a deadline. -/
def Timely (limit : Limit) (begun : Instant) (c : Child) : Prop :=
  match limit with
  | .unlimited => True
  | .within span => ∃ f, c.finish = some f ∧ f + Clock.millisecond ≤ begun + span
  | .expired | .unusable => False

def Late (limit : Limit) (begun now : Instant) (c : Child) : Prop :=
  match limit with
  | .unlimited => False
  | .within span => begun + span ≤ now ∧ ∀ f, c.finish = some f → begun + span ≤ f
  | .expired | .unusable => True

/-- A child as it was started, with perhaps another exit since. -/
structure Becomes (c₀ c : Child) : Prop where
  pid : c.pid = c₀.pid
  started : c.started = c₀.started
  behaviour : c.behaviour = c₀.behaviour
  ahead : ∀ f, c.finish = some f → c₀.started ≤ f

section
variable {limit : Limit} {begun now t : Instant} {c₀ c c' : Child}

theorem Late.not_timely (late : c.Late limit begun now) : ¬ c.Timely limit begun := by
  intro timely
  cases limit with
  | unlimited => exact late
  | within span =>
    obtain ⟨f, finish, early⟩ := timely
    have short := Nat.le_trans early (late.2 f finish)
    exact Nat.not_lt_of_le short (Nat.lt_add_of_pos_right Clock.millisecond_pos)
  | expired | unusable => exact timely

theorem Late.wait (late : c.Late limit begun now) (later : now ≤ t) : c.Late limit begun t := by
  cases limit with
  | unlimited => exact late
  | within span => exact ⟨Nat.le_trans late.1 later, late.2⟩
  | expired | unusable => trivial

theorem Late.takes (late : c.Late limit begun now) (takes : c.Takes now c') :
    c'.Late limit begun now := by
  cases limit with
  | unlimited => exact late
  | within span =>
    refine ⟨late.1, fun f finish => ?_⟩
    rcases takes.finish finish with same | ahead
    · exact late.2 f same
    · exact Nat.le_trans late.1 ahead
  | expired | unusable => trivial

theorem late_of_unfinished {deadline : Instant} (armed : limit.deadline begun = some deadline)
    (passed : deadline ≤ now) (unfinished : ¬ c.finishedBy now) : c.Late limit begun now := by
  cases limit with
  | within span =>
    cases armed
    refine ⟨passed, fun f finish => ?_⟩
    exact Nat.le_trans passed (Nat.le_of_lt (lt_of_unfinished unfinished finish))
  | expired => trivial
  | unlimited | unusable => cases armed

theorem start_becomes (pid : Nat) (now : Instant) (b : Behaviour) :
    (start pid now b).Becomes (start pid now b) := by
  refine ⟨rfl, rfl, rfl, fun f finish => ?_⟩
  rw [finish_start] at finish
  obtain ⟨ms, -, rfl⟩ := Option.map_eq_some_iff.mp finish
  exact Nat.le_add_right _ _

theorem Becomes.takes (h : c₀.Becomes c) (takes : c.Takes now c') (later : c₀.started ≤ now) :
    c₀.Becomes c' := by
  have ahead : ∀ f, c'.finish = some f → c₀.started ≤ f := by
    intro f finish
    rcases takes.finish finish with same | ahead
    · exact h.ahead f same
    · exact Nat.le_trans later ahead
  cases takes with
  | unmoved => exact h
  | moved _ _ => exact ⟨h.pid, h.started, h.behaviour, ahead⟩

end

end Child

namespace Launch

structure Tends (launcher : String) (command : List Value) (c₀ c : Child) (l : Launch) : Prop where
  has : l.child = some c
  launcher : l.launcher = launcher
  command : l.command = command
  becomes : c₀.Becomes c

/-- A launch that has yet to begin to wait. If nobody signals the child, it is as it was started. -/
structure Unbegun (alone : Prop) (c₀ c : Child) (now : Instant) (l : Launch) : Prop where
  stage : l.stage = .fresh
  clock : l.clock = c₀.started
  now : now = c₀.started
  calls : l.calls = []
  same : alone → c = c₀

/-- A launch that has waited for its child from the start: it still watches the child, has told of it,
or has found it late. -/
inductive Attends (command : List Value) (limit : Limit) (alone : Prop) (c₀ c : Child)
    (now : Instant) (l : Launch) : Prop where
  | watching (stage : l.stage = .watching (limit.deadline c₀.started))
      (clock : l.clock = c₀.started) (calls : l.calls = []) (same : alone → c = c₀)
  | told {call : Instant × Completion} (closed : l.stage.isOpen = false) (calls : l.calls = [call])
      (reported : c.Reported command call) (gone : c.exitedBy now) (same : alone → c = c₀)
  | late (late : c.Late limit c₀.started now) (same : alone → c₀.Late limit c₀.started now)

section
variable {launcher : String} {command : List Value} {limit : Limit} {alone : Prop} {c₀ c c' : Child}
  {now t : Instant} {l : Launch} {timeout : Value}

theorem Tends.act (h : l.Tends launcher command c₀ c) (later : c₀.started ≤ t) :
    ∃ c', c.Takes t c' ∧ (l.act t timeout).Tends launcher command c₀ c' := by
  obtain ⟨c', has, takes⟩ := l.act_takes h.has t timeout
  exact ⟨c', takes, has, (l.act_launcher t timeout).trans h.launcher,
    (l.act_command t timeout).trans h.command, h.becomes.takes takes later⟩

theorem Tends.signalled (h : l.Tends launcher command c₀ c) (takes : c.Takes now c')
    (later : c₀.started ≤ now) :
    ({ l with child := some c' } : Launch).Tends launcher command c₀ c' :=
  ⟨rfl, h.launcher, h.command, h.becomes.takes takes later⟩

theorem Unbegun.act (h : l.Unbegun alone c₀ c t) (has : l.child = some c) (current : l.Current)
    (due : l.next = some t) (has' : (l.act t timeout).child = some c') (takes : c.Takes t c') :
    (l.act t timeout).Attends command (Limit.ofSetting timeout) alone c₀ c' t := by
  have action : l.Action t timeout (l.act t timeout) := act_action current due
  generalize l.act t timeout = l' at action has' ⊢
  cases action with
  | watch _ there armed _ =>
    cases Option.some.inj (there.symm.trans has')
    cases Option.some.inj (has.symm.trans there)
    refine .watching (congrArg Stage.watching ?_) h.now h.calls h.same
    rcases armed with ⟨unlimited, rfl⟩ | ⟨span, within, rfl⟩
    · rw [unlimited]
      rfl
    · rw [within, h.now]
      rfl
  | die _ _ unusable => exact .late (by rw [unusable]; trivial) fun _ => by rw [unusable]; trivial
  | expire _ reason _ =>
    rcases reason with ⟨-, expired⟩ | ⟨_, watching, -, -⟩
    · exact .late (by rw [expired]; trivial) fun _ => by rw [expired]; trivial
    · cases h.stage.symm.trans watching
  | tell is | complete is _ _ _ | stop is _ _ _ | strike is _ _ _ _ | outlive is _ _ _
  | giveUp is _ _ _ | giveUpOpen is _ _ _ | wake is => cases h.stage.symm.trans is
  | leave is => rcases is with ⟨_, is⟩ | ⟨_, _, is⟩ <;> cases h.stage.symm.trans is
  | strand _ _ none => cases has.symm.trans none

theorem watching_next {deadline : Option Instant} (stage : l.stage = .watching deadline)
    (has : l.child = some c) {f : Instant} (finish : c.finish = some f) (ahead : l.clock ≤ f) :
    ∃ t, l.next = some t ∧ t ≤ f := by
  obtain ⟨a, soon⟩ := sooner_isSome (b := deadline) (.inl (Option.isSome_of_eq_some finish))
  have first : a ≤ f := (sooner_le soon).1 f finish
  refine ⟨max l.clock a, ?_, Nat.max_le.mpr ⟨ahead, first⟩⟩
  simp [next, awaited, stage, has, soon]

/-- What happens to a launch that watches its child is that the child finishes, and is reported, or
that it is late. -/
theorem watching_act (stage : l.stage = .watching (limit.deadline c₀.started))
    (clock : l.clock = c₀.started) (calls : l.calls = []) (same : alone → c = c₀)
    (tends : l.Tends launcher command c₀ c) (current : l.Current) (due : l.next = some t)
    (takes : c.Takes t c') :
    (l.act t timeout).Attends command limit alone c₀ c' t := by
  have action : l.Action t timeout (l.act t timeout) := act_action current due
  generalize l.act t timeout = l' at action ⊢
  cases action with
  | expire there reason _ =>
    cases Option.some.inj (tends.has.symm.trans there)
    rcases reason with ⟨fresh, -⟩ | ⟨deadline, watching, passed, unfinished⟩
    · cases stage.symm.trans fresh
    · have armed : limit.deadline c₀.started = some deadline :=
        Stage.watching.inj (stage.symm.trans watching)
      have late := Child.late_of_unfinished armed passed unfinished
      exact .late (late.takes takes) fun is => same is ▸ late
  | @complete _ r _ _ there finished reads =>
    cases Option.some.inj (tends.has.symm.trans there)
    have gone := Child.exitedBy_of_finishedBy finished
    cases takes.eq_of_exited gone
    obtain ⟨f, finish, past⟩ := (c.finishedBy_iff t).mp finished
    obtain ⟨s, due', early⟩ :=
      watching_next stage tends.has finish (clock ▸ tends.becomes.ahead f finish)
    cases Option.some.inj (due.symm.trans due')
    have now : f = t := Nat.le_antisymm past early
    obtain ⟨called, closed⟩ := conclude_calls (l := l.having t r) reads.holds
      (Failure.ofExit l.command l.line ((c.returncode t).getD 0))
    rw [having_calls, calls, List.nil_append] at called
    exact .told closed called (tends.command ▸ l.punctual_reported (now ▸ finish)) gone same
  | tell is | watch is _ _ _ | die is _ _ | stop is _ _ _ | strike is _ _ _ _ | outlive is _ _ _
  | giveUp is _ _ _ | giveUpOpen is _ _ _ | wake is => cases stage.symm.trans is
  | leave is => rcases is with ⟨_, is⟩ | ⟨_, _, is⟩ <;> cases stage.symm.trans is
  | strand _ _ none => cases tends.has.symm.trans none

theorem Attends.act (h : l.Attends command limit alone c₀ c t)
    (tends : l.Tends launcher command c₀ c) (current : l.Current) (due : l.next = some t)
    (takes : c.Takes t c') :
    (l.act t timeout).Attends command limit alone c₀ c' t := by
  cases h with
  | watching stage clock calls same =>
    exact watching_act stage clock calls same tends current due takes
  | told closed calls reported gone same =>
    cases takes.eq_of_exited gone
    obtain ⟨closed', calls'⟩ := act_closed closed t timeout
    exact .told closed' (calls'.trans calls) reported gone same
  | late late same => exact .late (late.takes takes) same

theorem Attends.wait (h : l.Attends command limit alone c₀ c now) (later : now ≤ t) :
    l.Attends command limit alone c₀ c t := by
  cases h with
  | watching stage clock calls same => exact .watching stage clock calls same
  | told closed calls reported gone same =>
    obtain ⟨e, leaves, past⟩ := (c.exitedBy_iff now).mp gone
    have gone' : c.exitedBy t := (c.exitedBy_iff t).mpr ⟨e, leaves, Nat.le_trans past later⟩
    exact .told closed calls reported gone' same
  | late late same => exact .late (late.wait later) fun is => (same is).wait later

theorem Attends.signalled (h : l.Attends command limit alone c₀ c now) (takes : c.Takes now c')
    (crowd : ¬ alone) :
    ({ l with child := some c' } : Launch).Attends command limit alone c₀ c' now := by
  have free {P : Prop} : alone → P := fun is => (crowd is).elim
  cases h with
  | watching stage clock calls _ => exact .watching stage clock calls free
  | told closed calls reported gone _ =>
    cases takes.eq_of_exited gone
    exact .told closed calls reported gone free
  | late late _ => exact .late (late.takes takes) free

theorem Started.clocked {b : Behaviour} {pid : Nat} (h : l.Started launcher command b pid now) :
    l.Clocked now := by
  refine ⟨Nat.le_of_eq h.clock, fun t due => ?_, h.current⟩
  exact h.clock ▸ clock_le_next due

end

end Launch

/-- What is reported of a child that finishes in time, under a limit that was in force when the
launch began to wait. -/
structure Faithful (w : World) (command : List Value) (limit : Limit) (alone : Prop)
    (c : Child) (l : Launch) : Prop where
  reported : c.Timely limit c.started → ∀ call ∈ l.calls, l.calls = [call] ∧ c.Reported command call
  called : c.Timely limit c.started → w.Settled → c.finishedBy w.now → ∃ call, l.calls = [call]
  /-- Only a signal from outside can keep a child that is timely from going its own way. -/
  undisturbed : alone → (Child.start c.pid c.started c.behaviour).Timely limit c.started →
    c = Child.start c.pid c.started c.behaviour

section
variable {allowed : Step → Prop} {u v w : World} {i : Nat} {l : Launch} {launcher : String}
  {command : List Value} {limit : Limit} {c₀ c : Child}

theorem Move.attends (move : Move allowed v w) (there : v.runs[i]? = some (.accepted l))
    (clocked : l.Clocked v.now) (tends : l.Tends launcher command c₀ c)
    (later : c₀.started ≤ v.now)
    (attends : l.Attends command limit (∀ order, ¬ allowed (.signal i order)) c₀ c v.now) :
    ∃ l' c', w.runs[i]? = some (.accepted l') ∧ l'.Clocked w.now ∧
      l'.Tends launcher command c₀ c' ∧ c₀.started ≤ w.now ∧
      l'.Attends command limit (∀ order, ¬ allowed (.signal i order)) c₀ c' w.now := by
  have free : v.InForce fun _ _ => True := fun _ => trivial
  obtain ⟨l', there', passes⟩ := move.passes free there clocked
  have clocked' := clocked.passes passes
  generalize w.now = t at passes clocked' ⊢
  cases passes with
  | wait ahead _ =>
    exact ⟨l, c, there', clocked', tends, Nat.le_trans later ahead, attends.wait ahead⟩
  | act due ahead _ current =>
    obtain ⟨c', takes, tends'⟩ := tends.act (Nat.le_trans later ahead)
    exact ⟨_, c', there', clocked', tends', Nat.le_trans later ahead,
      (attends.wait ahead).act tends current due takes⟩
  | signal has takes sent =>
    cases Option.some.inj (tends.has.symm.trans has)
    obtain ⟨order, ok⟩ := sent
    exact ⟨_, _, there', clocked', tends.signalled takes later, later,
      attends.signalled takes fun alone => alone order ok⟩

theorem Move.unbegun (move : Move allowed v w) (there : v.runs[i]? = some (.accepted l))
    (clocked : l.Clocked v.now) (tends : l.Tends launcher command c₀ c)
    (unbegun : l.Unbegun (∀ order, ¬ allowed (.signal i order)) c₀ c v.now) :
    ∃ l' c', w.runs[i]? = some (.accepted l') ∧ l'.Clocked w.now ∧
      l'.Tends launcher command c₀ c' ∧ c₀.started ≤ w.now ∧
      (l'.Unbegun (∀ order, ¬ allowed (.signal i order)) c₀ c' w.now ∨
        Embarks v w i l ∧
          l'.Attends command (Limit.ofSetting (v.launcher launcher).timeout)
            (∀ order, ¬ allowed (.signal i order)) c₀ c' w.now) := by
  have inForce : v.InForce fun name timeout => timeout = (v.launcher name).timeout := fun _ => rfl
  have due : l.next = some v.now := by
    simp [Launch.next, Launch.awaited, unbegun.stage, unbegun.clock, unbegun.now]
  have later : c₀.started ≤ v.now := Nat.le_of_eq unbegun.now.symm
  obtain ⟨l', there', passes⟩ := move.passes inForce there clocked
  have clocked' := clocked.passes passes
  generalize w.now = t at passes clocked' ⊢
  cases passes with
  | wait ahead first =>
    have now : t = v.now := Nat.le_antisymm (first v.now due) ahead
    exact ⟨l, c, there', clocked', tends, Nat.le_trans later ahead, .inl (now ▸ unbegun)⟩
  | @act _ timeout due' ahead same current =>
    cases Option.some.inj (due.symm.trans due')
    subst timeout
    obtain ⟨c', takes, tends'⟩ := tends.act later
    refine ⟨_, c', there', clocked', tends', later, .inr ⟨⟨there, unbegun.stage, there'⟩, ?_⟩⟩
    rw [← tends.launcher]
    exact unbegun.act tends.has current due tends'.has takes
  | signal has takes sent =>
    cases Option.some.inj (tends.has.symm.trans has)
    obtain ⟨order, ok⟩ := sent
    exact ⟨_, _, there', clocked', tends.signalled takes later, later,
      .inl ⟨unbegun.stage, unbegun.clock, unbegun.now, unbegun.calls,
        fun alone => (alone order ok).elim⟩⟩

/-- Wherever the world may go, a launch that started a child has yet to begin to wait for it, or
attends to it since the moment at which it began. -/
theorem Reaches.attends (reached : Reaches allowed u w) (there : u.runs[i]? = some (.accepted l))
    (clocked : l.Clocked u.now) (tends : l.Tends launcher command c₀ c)
    (unbegun : l.Unbegun (∀ order, ¬ allowed (.signal i order)) c₀ c u.now) :
    ∃ l' c', w.runs[i]? = some (.accepted l') ∧ l'.Clocked w.now ∧
      l'.Tends launcher command c₀ c' ∧ c₀.started ≤ w.now ∧
      (l'.Unbegun (∀ order, ¬ allowed (.signal i order)) c₀ c' w.now ∨
        ∃ v v' l₀, Reaches allowed u v ∧ Move allowed v v' ∧ Reaches allowed v' w ∧
          Embarks v v' i l₀ ∧ v.now = c₀.started ∧
          l'.Attends command (Limit.ofSetting (v.launcher launcher).timeout)
            (∀ order, ¬ allowed (.signal i order)) c₀ c' w.now) := by
  induction reached with
  | refl => exact ⟨l, c, there, clocked, tends, Nat.le_of_eq unbegun.now.symm, .inl unbegun⟩
  | @tail x w before move ih =>
    obtain ⟨l₁, c₁, there₁, clocked₁, tends₁, later, phase⟩ := ih
    rcases phase with unbegun₁ | ⟨v, v', l₀, before', embark, after, embarks, now, attends⟩
    · obtain ⟨l₂, c₂, there₂, clocked₂, tends₂, later₂, still | ⟨embarks, attends⟩⟩ :=
        move.unbegun there₁ clocked₁ tends₁ unbegun₁
      · exact ⟨l₂, c₂, there₂, clocked₂, tends₂, later₂, .inl still⟩
      · exact ⟨l₂, c₂, there₂, clocked₂, tends₂, later₂,
          .inr ⟨x, w, l₁, before, move, .refl, embarks, unbegun₁.now, attends⟩⟩
    · obtain ⟨l₂, c₂, there₂, clocked₂, tends₂, later₂, attends₂⟩ :=
        move.attends there₁ clocked₁ tends₁ later attends
      exact ⟨l₂, c₂, there₂, clocked₂, tends₂, later₂,
        .inr ⟨v, v', l₀, before', embark, after.trans (.of_move move), embarks, now, attends₂⟩⟩

theorem Launch.Attends.faithful {alone : Prop} {b : Behaviour} {pid : Nat} {begun : Instant}
    (h : l.Attends command limit alone (Child.start pid begun b) c w.now)
    (there : w.runs[i]? = some (.accepted l))
    (tends : l.Tends launcher command (Child.start pid begun b) c) :
    Faithful w command limit alone c l := by
  have becomes := tends.becomes
  have same : Child.start c.pid c.started c.behaviour = Child.start pid begun b := by
    rw [becomes.pid, becomes.started, becomes.behaviour]
    rfl
  have started : c.started = begun := becomes.started
  refine ⟨?_, ?_, ?_⟩
  · intro timely call member
    rw [started] at timely
    cases h with
    | watching _ _ none _ => simp [none] at member
    | told _ calls reported _ _ =>
      rw [calls, List.mem_singleton] at member
      subst call
      exact ⟨calls, reported⟩
    | late late _ => exact (late.not_timely timely).elim
  · intro timely settled finished
    rw [started] at timely
    cases h with
    | watching stage clock _ _ =>
      obtain ⟨f, finish, past⟩ := (c.finishedBy_iff w.now).mp finished
      obtain ⟨t, due, early⟩ :=
        watching_next stage tends.has finish (clock ▸ becomes.ahead f finish)
      exact (Nat.not_lt_of_le (Nat.le_trans early past) (settled.lt_next there due)).elim
    | told _ calls _ _ _ => exact ⟨_, calls⟩
    | late late _ => exact (late.not_timely timely).elim
  · intro undisturbed timely
    rw [same] at timely ⊢
    rw [started] at timely
    cases h with
    | watching _ _ _ is => exact is undisturbed
    | told _ _ _ _ is => exact is undisturbed
    | late _ late => exact ((late undisturbed).not_timely timely).elim

/-- Whatever happens in the world after a launch, signals to the child and new settings included:
the launch begins to wait for its child at the instant of the launch, and if the child finishes in
time for the timeout that is in force then, it is reported when it finishes and at no other time,
and the report is complete. -/
theorem completion_faithful {target : Target} {handler : Option Handler} {b : Behaviour} {pid : Nat}
    (prepared : u.commandFor target = .ok command) (system : target.spawn = .starts b)
    (started : (u.launch target handler).outcome = .ok (some pid))
    (reached : Reaches allowed (u.launch target handler).world w) :
    ∃ l c, w.runs[u.runs.length]? = some (.accepted l) ∧ l.child = some c ∧ c.started = u.now ∧
      c.behaviour = b ∧
      (¬ w.Settled ∧ l.stage = .fresh ∧ l.calls = [] ∨
        ∃ v v' l₀, Reaches allowed (u.launch target handler).world v ∧ Move allowed v v' ∧
          Reaches allowed v' w ∧ Embarks v v' u.runs.length l₀ ∧ v.now = u.now ∧
          Faithful w command (Limit.ofSetting (v.launcher target.launcher).timeout)
            (∀ order, ¬ allowed (.signal u.runs.length order)) c l) ∧
      (w.Reckoned → ∀ n, (w.sleep n).isSome) := by
  obtain ⟨l, there, is⟩ := World.launch_started prepared system started
  have now : (u.launch target handler).world.now = u.now := u.launch_now target handler
  have tends : l.Tends target.launcher command (Child.start u.nextPid u.now b)
      (Child.start u.nextPid u.now b) :=
    ⟨is.child, is.launcher, is.command, Child.start_becomes _ _ _⟩
  obtain ⟨l', c, there', clocked, tends', -, phase⟩ := reached.attends there
    (now ▸ is.clocked) tends ⟨is.stage, is.clock, now, is.calls, fun _ => rfl⟩
  refine ⟨l', c, there', tends'.has, tends'.becomes.started, tends'.becomes.behaviour, ?_,
    fun reckoned n => World.sleep_isSome reckoned n⟩
  rcases phase with unbegun | ⟨v, v', l₀, before, embark, after, embarks, at_once, attends⟩
  · have due : l'.next = some w.now := by
      simp [Launch.next, Launch.awaited, unbegun.stage, unbegun.clock, unbegun.now]
    refine .inl ⟨fun settled => ?_, unbegun.stage, unbegun.calls⟩
    exact Nat.lt_irrefl _ (settled.lt_next there' due)
  · exact .inr ⟨v, v', l₀, before, embark, after, embarks, at_once,
      attends.faithful there' tends'⟩

/-- A child that is killed after 20 ms, with writes out of order, late and lost. -/
def Behaviour.talkative : Behaviour where
  exit := some (-9)
  lifetime := 20
  hold := some 5
  writes := [⟨.out, 12, [104, 105], false⟩, ⟨.out, 3, [111], false⟩, ⟨.err, 14, [33], true⟩,
    ⟨.out, 22, [63], false⟩]

/-- It is reported just as well when somebody asks it to stop after 10 ms. -/
theorem talkative_child_reported :
    let start := World.solo { timeout := .flag true }
    let target := World.soloTarget (.starts .talkative)
    ∃ command w l c call, start.commandFor target = .ok command ∧
      (start.launch target (some .records)).world.through
        [.sleep 10, .signal 0 .terminate, .sleep 30] = some w ∧
      w.runs[0]? = some (.accepted l) ∧ l.child = some c ∧
      c.exit = some (Clock.millis 11, -15) ∧ l.calls = [call] ∧ c.Reported command call := by
  intro start target
  obtain ⟨command, prepared⟩ :=
    World.solo_commandFor (.flag true) (some .prints) (.starts .talkative)
  have started : (start.launch target (some .records)).outcome = .ok (some 1000) := rfl
  have check : ((start.launch target (some .records)).world.through
      [.sleep 10, .signal 0 .terminate, .sleep 30]).any fun w => w.shows 0 fun l =>
        l.calls.length = 1 && l.child.any (·.exit = some (Clock.millis 11, -15)) := by
    decide +kernel
  obtain ⟨w, played, h⟩ := (Option.any_eq_true _ _).mp check
  obtain ⟨l, there, is⟩ := (w.shows_iff 0 _).mp h
  simp only [Bool.and_eq_true, decide_eq_true_eq, Option.any_eq_true] at is
  obtain ⟨one, c, has, exit⟩ := is
  let keepsSettings (s : Step) : Prop := ∀ name change, s ≠ .set name change
  have reached : Reaches keepsSettings (start.launch target (some .records)).world w :=
    through_reaches (by simp [keepsSettings]) played
  obtain ⟨l', c', there', has', begun, behaviour, phase, -⟩ :=
    completion_faithful prepared rfl started reached
  cases Run.accepted.inj (Option.some.inj (there.symm.trans there'))
  cases Option.some.inj (has.symm.trans has')
  rcases phase with ⟨-, -, none⟩ | ⟨v, v', l₀, before, -, -, -, -, faithful⟩
  · simp [none] at one
  · have timeout : (v.launcher target.launcher).timeout = .flag true := by
      have inForce : (start.launch target (some .records)).world.InForce
          fun name value => name = "main" → value = .flag true := by
        rintro name rfl
        rw [World.launch_launcher]
        rfl
      exact before.inForce (fun name change _ ok => (ok name change rfl).elim) inForce "main" rfl
    have finish : c.finish = some (Clock.millis 11 + Clock.millis 5) := by
      rw [Child.finish, exit, behaviour]
      rfl
    have timely : c.Timely (Limit.ofSetting (v.launcher target.launcher).timeout) c.started := by
      rw [timeout, begun]
      exact ⟨_, finish, by decide +kernel⟩
    obtain ⟨call, calls⟩ := List.length_eq_one_iff.mp one
    have reported := (faithful.reported timely call (by simp [calls])).2
    exact ⟨command, w, l, c, call, prepared, played, there, has, exit, calls, reported⟩

/-- Under a number that no double can hold a child that finishes long before the deadline is never
reported. -/
theorem huge_timeout_never_reports :
    let timeout : Value := .integer (10 ^ 400)
    let b : Behaviour := { exit := some 3, lifetime := 20 }
    timeout.isNumber ∧ b.finishAfter = some 20 ∧ Clock.millis (20 + 1) ≤ 10 ^ 400 * Clock.second ∧
      ∃ w l, (World.solo { timeout := timeout }).through
          [.sleep 10, .run (World.soloTarget (.starts b)) (some .records), .sleep 100] = some w ∧
        w.runs[0]? = some (.accepted l) ∧ l.calls = [] ∧ l.next = none := by
  intro timeout b
  have check : ((World.solo { timeout := timeout }).through
      [.sleep 10, .run (World.soloTarget (.starts b)) (some .records), .sleep 100]).any
      fun w => w.shows 0 fun l => l.calls.isEmpty && l.next.isNone := by decide +kernel
  obtain ⟨w, played, h⟩ := (Option.any_eq_true _ _).mp check
  obtain ⟨l, there, is⟩ := (w.shows_iff 0 _).mp h
  simp only [Bool.and_eq_true, List.isEmpty_iff, Option.isNone_iff_eq_none] at is
  exact ⟨rfl, rfl, by decide +kernel, w, l, played, there, is⟩

end

end JarLaunch
