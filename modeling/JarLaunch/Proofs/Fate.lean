import JarLaunch.Proofs.Delivery
import JarLaunch.Proofs.Reading

/-! The fate of a launch: what becomes of it under a timeout that stays as it is, if nobody signals
its child. The fate is read off the stage and the child, one stage leading to the next, and no
action of the launch changes it; so it is settled when the launch is made, whatever else goes on in
the world. -/
namespace JarLaunch

inductive Fate where
  | never
  | dies
  | call (instant : Instant) (completion : Completion)

namespace Child

def finishOr (c : Child) (bound : Instant) : Instant :=
  match c.finish with
  | none => bound
  | some f => min f bound

theorem sooner_bound (c : Child) (bound : Instant) :
    Launch.sooner c.finish (some bound) = some (c.finishOr bound) := by
  unfold finishOr
  cases c.finish <;> rfl

end Child

namespace Launch

def punctual (l : Launch) (child : Child) (t : Instant) : Completion :=
  ⟨Failure.ofExit l.command l.line ((child.returncode t).getD 0), child.output .out t,
    child.output .err t⟩

def overdue (l : Launch) (timeout : Value) (child : Child) (t : Instant) : Completion :=
  ⟨some (Failure.ofTimeout l.command l.line timeout (child.returncode t)), child.output .out t,
    child.output .err t⟩

section
variable (l : Launch) (timeout : Value)

def drainedFate (child : Child) (now bound : Instant) : Fate :=
  .call (max now (child.finishOr bound)) (l.overdue timeout child (max now (child.finishOr bound)))

def killedFate (child : Child) (now : Instant) : Fate :=
  match child.finish with
  | none => .never
  | some f => l.drainedFate timeout child (max now f) (max now f + grace)

def struckFate (child : Child) (now : Instant) : Fate :=
  let struck := (child.kill? now).getD child
  if struck.exitedBy now then l.drainedFate timeout struck now (now + grace)
  else l.killedFate timeout struck now

def terminatedFate (child : Child) (now bound : Instant) : Fate :=
  let t := max now (child.finishOr bound)
  if child.finishedBy t then l.drainedFate timeout child t (t + grace)
  else l.struckFate timeout child t

def expiredFate (child : Child) (now : Instant) : Fate :=
  let asked := (child.terminate? now).getD child
  if (child.terminate? now).all (·.exitedBy now) then l.drainedFate timeout asked now (now + grace)
  else l.terminatedFate timeout asked now (now + grace)

def watchedFate (child : Child) (now : Instant) (deadline : Option Instant) : Fate :=
  match sooner child.finish deadline with
  | none => .never
  | some awaited =>
    let t := max now awaited
    if child.finishedBy t then .call t (l.punctual child t) else l.expiredFate timeout child t

def freshFate (child : Child) (now : Instant) : Fate :=
  match Limit.ofSetting timeout with
  | .unlimited => l.watchedFate timeout child now none
  | .within span => l.watchedFate timeout child now (some (now + span))
  | .expired => l.expiredFate timeout child now
  | .unusable => .dies

/-- What becomes of a launch whose handler has not been called. -/
def fate : Fate :=
  match l.stage, l.child with
  | .unstarted failure, _ => .call l.clock ⟨some failure, [], []⟩
  | .fresh, some child => l.freshFate timeout child l.clock
  | .watching deadline, some child => l.watchedFate timeout child l.clock deadline
  | .terminating bound, some child => l.terminatedFate timeout child l.clock bound
  | .killing, some child => l.killedFate timeout child l.clock
  | .draining bound, some child => l.drainedFate timeout child l.clock bound
  | _, _ => .never

/-- What an action does for the fate: it leaves it alone, or fulfils it. -/
inductive Advances (t : Instant) (l' : Launch) : Prop where
  | waits (isOpen : l'.stage.isOpen) (current : l'.Current) (calls : l'.calls = l.calls)
      (same : l'.fate timeout = l.fate timeout)
  | calls (c : Completion) (was : l.fate timeout = .call t c) (closed : l'.stage.isOpen = false)
      (calls : l'.calls = l.calls ++ [(t, c)])
  | dies (was : l.fate timeout = .dies) (ended : l'.stage = .ended) (calls : l'.calls = l.calls)

end

section
variable {l : Launch} {timeout : Value} {child : Child} {t : Instant}

theorem clock_le_next (due : l.next = some t) : l.clock ≤ t := by
  obtain ⟨a, -, rfl⟩ := Option.map_eq_some_iff.mp due
  exact Nat.le_max_left _ _

theorem act_eq_actWith (isOpen : l.stage.isOpen) (started : ∀ f, l.stage ≠ .unstarted f)
    (has : l.child = some child) :
    l.act t timeout = (l.awake t).actWith t timeout child := by
  cases stage : l.stage with
  | unstarted f => exact (started f stage).elim
  | fresh | watching _ | terminating _ | killing | draining _ => simp [act, stage, has]
  | dozing _ _ _ | lingering _ | asking _ _ | ended => simp [stage, Stage.isOpen] at isOpen

theorem conclude_buffers (l : Launch) (t : Instant) (child : Child) (failure : Option Failure) :
    (l.conclude t child failure).calls =
        l.calls ++ [(t, ⟨failure, l.reads.out.buffer, l.reads.err.buffer⟩)] ∧
      (l.conclude t child failure).stage.isOpen = false := deliver_calls _ _ _

theorem conclude_calls (reads : l.reads.Holds child t) (failure : Option Failure) :
    (l.conclude t child failure).calls =
        l.calls ++ [(t, ⟨failure, child.output .out t, child.output .err t⟩)] ∧
      (l.conclude t child failure).stage.isOpen = false := by
  rw [← reads .out, ← reads .err]
  exact l.conclude_buffers t child failure

theorem expire_fate (clock : l.clock = t) :
    (l.expire t child timeout).fate timeout = l.expiredFate timeout child t := by
  rw [expire_eq]
  by_cases gone : (child.terminate? t).all (·.exitedBy t)
  · simp [fate, expiredFate, gone, clock, drainedFate, overdue]
  · simp [fate, expiredFate, gone, clock, terminatedFate, struckFate, killedFate, drainedFate,
      overdue]

theorem strike_fate (clock : l.clock = t) :
    (l.strike t child).fate timeout = l.struckFate timeout child t := by
  rw [strike_eq]
  by_cases gone : ((child.kill? t).getD child).exitedBy t
  · simp [fate, struckFate, gone, clock, drainedFate, overdue]
  · simp [fate, struckFate, gone, clock, killedFate, drainedFate, overdue]

theorem expire_open : (l.expire t child timeout).stage.isOpen ∧
    (l.expire t child timeout).calls = l.calls := by
  rw [expire_eq]
  dsimp only
  split <;> exact ⟨rfl, rfl⟩

theorem strike_open : (l.strike t child).stage.isOpen ∧ (l.strike t child).calls = l.calls := by
  rw [strike_eq]
  dsimp only
  split <;> exact ⟨rfl, rfl⟩

theorem embark_advances (stage : l.stage = .fresh) (has : l.child = some child)
    (due : l.next = some t) :
    l.Advances timeout t ((l.awake t).actWith t timeout child) := by
  have now : l.clock = t := by simpa [next, awaited, stage] using due
  have was : l.fate timeout = l.freshFate timeout child t := by simp only [fate, stage, has, now]
  have reads := ((l.awake t).startReading_upToDate child t).keeps
  have current (c : Child) (same : l.child = some c) :
      ((l.awake t).startReading t child).reads.Keeps c t := by
    cases Option.some.inj (has.symm.trans same)
    exact reads
  simp only [actWith, awake_stage, stage]
  unfold embark
  split <;> rename_i limit
  · refine .waits rfl (fun _ => current) rfl ?_
    rw [was]
    simp only [freshFate, limit, fate, goTo, startReading, awake_child, has]
    rfl
  · refine .waits rfl (fun _ => current) rfl ?_
    rw [was]
    simp only [freshFate, limit, fate, goTo, startReading, awake_child, has]
    rfl
  · refine .waits expire_open.1 (expire_current reads rfl) expire_open.2 ?_
    have clock : ((l.awake t).startReading t child).clock = t := rfl
    rw [expire_fate clock, was]
    simp only [freshFate, limit]
    rfl
  · exact .dies (by simp only [was, freshFate, limit]) rfl rfl

theorem watch_advances {deadline : Option Instant} (stage : l.stage = .watching deadline)
    (has : l.child = some child) (current : l.Current) (due : l.next = some t) :
    l.Advances timeout t ((l.awake t).actWith t timeout child) := by
  obtain ⟨awaited, soon, now⟩ : ∃ a, sooner child.finish deadline = some a ∧ max l.clock a = t := by
    simpa [next, awaited, stage, has] using due
  have was : l.fate timeout =
      if child.finishedBy t then .call t (l.punctual child t)
      else l.expiredFate timeout child t := by
    simp only [fate, stage, has, watchedFate, soon, now]
  have reads := awake_upToDate current (by rw [stage]; rfl) has (clock_le_next due)
  simp only [actWith, awake_stage, stage, reads.isDone_eq]
  split <;> rename_i finished
  · obtain ⟨calls, closed⟩ := conclude_calls reads.holds
      (Failure.ofExit l.command l.line ((child.returncode t).getD 0))
    exact .calls _ (by rw [was, if_pos finished]; rfl) closed calls
  · refine .waits expire_open.1 (expire_current reads.keeps rfl) expire_open.2 ?_
    rw [expire_fate (awake_clock l t), was, if_neg finished]
    rfl

theorem current_of_awake {l' : Launch} (reads : (l.awake t).reads.UpToDate child t)
    (has : l.child = some child) (same : l'.reads = (l.awake t).reads) (child' : l'.child = l.child)
    (clock : l'.clock = t) : l'.Current := by
  intro _ c is
  cases Option.some.inj (has.symm.trans (child'.symm.trans is))
  rw [same, clock]
  exact reads.keeps

theorem terminate_advances {bound : Instant} (stage : l.stage = .terminating bound)
    (has : l.child = some child) (current : l.Current) (due : l.next = some t) :
    l.Advances timeout t ((l.awake t).actWith t timeout child) := by
  have now : max l.clock (child.finishOr bound) = t := by
    simpa [next, awaited, stage, has, child.sooner_bound] using due
  have was : l.fate timeout =
      if child.finishedBy t then l.drainedFate timeout child t (t + grace)
      else l.struckFate timeout child t := by
    simp only [fate, stage, has, terminatedFate, now]
  have reads := awake_upToDate current (by rw [stage]; rfl) has (clock_le_next due)
  simp only [actWith, awake_stage, stage]
  split <;> rename_i finished
  · refine .waits rfl (current_of_awake reads has rfl rfl rfl) rfl ?_
    rw [was, if_pos finished]
    simp only [fate, goTo, awake_child, has]
    rfl
  · refine .waits strike_open.1 (strike_current reads.keeps rfl) strike_open.2 ?_
    rw [strike_fate (awake_clock l t), was, if_neg finished]
    rfl

theorem kill_advances (stage : l.stage = .killing) (has : l.child = some child)
    (current : l.Current) (due : l.next = some t) :
    l.Advances timeout t ((l.awake t).actWith t timeout child) := by
  obtain ⟨f, finish, now⟩ : ∃ f, child.finish = some f ∧ max l.clock f = t := by
    simpa [next, awaited, stage, has] using due
  have reads := awake_upToDate current (by rw [stage]; rfl) has (clock_le_next due)
  simp only [actWith, awake_stage, stage]
  refine .waits rfl (current_of_awake reads has rfl rfl rfl) rfl ?_
  simp only [fate, goTo, awake_child, stage, has, killedFate, finish, now]
  rfl

theorem drain_advances {bound : Instant} (stage : l.stage = .draining bound)
    (has : l.child = some child) (current : l.Current) (due : l.next = some t) :
    l.Advances timeout t ((l.awake t).actWith t timeout child) := by
  have now : max l.clock (child.finishOr bound) = t := by
    simpa [next, awaited, stage, has, child.sooner_bound] using due
  have was : l.fate timeout = .call t (l.overdue timeout child t) := by
    simp only [fate, stage, has, drainedFate, now]
  have reads := awake_upToDate current (by rw [stage]; rfl) has (clock_le_next due)
  let failure := some (Failure.ofTimeout l.command l.line timeout (child.returncode t))
  simp only [actWith, awake_stage, stage]
  split
  · obtain ⟨calls, closed⟩ := conclude_calls reads.holds failure
    exact .calls _ was closed calls
  · obtain ⟨calls, closed⟩ := conclude_calls
      (l := (l.awake t).stopReading.note t (pipesOpen child)) reads.holds.cancel failure
    exact .calls _ was closed calls

theorem childless_advances (isOpen : l.stage.isOpen) (started : ∀ f, l.stage ≠ .unstarted f)
    (has : l.child = none) : l.Advances timeout t (l.act t timeout) := by
  have acts : l.act t timeout = l.awake t := by
    cases stage : l.stage with
    | unstarted f => exact (started f stage).elim
    | fresh | watching _ | terminating _ | killing | draining _ => simp [act, stage, has]
    | dozing _ _ _ | lingering _ | asking _ _ | ended => simp [stage, Stage.isOpen] at isOpen
  have never (l' : Launch) (stage' : l'.stage = l.stage) (has' : l'.child = l.child) :
      l'.fate timeout = .never := by
    cases stage : l.stage with
    | unstarted f => exact (started f stage).elim
    | _ => simp [fate, stage', stage, has', has]
  have current : (l.awake t).Current := fun _ c has' => by cases has.symm.trans has'
  rw [acts]
  exact .waits isOpen current rfl ((never (l.awake t) rfl rfl).trans (never l rfl rfl).symm)

/-- An action of a launch whose handler has not been called goes the way of its fate. -/
theorem act_advances (isOpen : l.stage.isOpen) (current : l.Current) (due : l.next = some t) :
    l.Advances timeout t (l.act t timeout) := by
  by_cases unstarted : ∃ f, l.stage = .unstarted f
  · obtain ⟨failure, stage⟩ := unstarted
    have now : l.clock = t := by simpa [next, awaited, stage] using due
    obtain ⟨calls, closed⟩ := deliver_calls (l.awake t) t ⟨some failure, [], []⟩
    have acts : l.act t timeout = (l.awake t).deliver t ⟨some failure, [], []⟩ := by
      simp [act, stage]
    rw [acts]
    exact .calls _ (by simp [fate, stage, now]) closed calls
  · have started : ∀ f, l.stage ≠ .unstarted f := fun f stage => unstarted ⟨f, stage⟩
    cases has : l.child with
    | none => exact childless_advances isOpen started has
    | some child =>
      rw [act_eq_actWith isOpen started has]
      cases stage : l.stage with
      | unstarted f => exact (started f stage).elim
      | fresh => exact embark_advances stage has due
      | watching deadline => exact watch_advances stage has current due
      | terminating bound => exact terminate_advances stage has current due
      | killing => exact kill_advances stage has current due
      | draining bound => exact drain_advances stage has current due
      | dozing _ _ _ | lingering _ | asking _ _ | ended => simp [stage, Stage.isOpen] at isOpen

theorem drainedFate_not_before {now bound s : Instant} {c : Completion}
    (h : l.drainedFate timeout child now bound = .call s c) : now ≤ s := by
  cases h
  exact Nat.le_max_left _ _

theorem killedFate_not_before {now s : Instant} {c : Completion}
    (h : l.killedFate timeout child now = .call s c) : now ≤ s := by
  unfold killedFate at h
  split at h
  · cases h
  · exact Nat.le_trans (Nat.le_max_left _ _) (drainedFate_not_before h)

theorem struckFate_not_before {now s : Instant} {c : Completion}
    (h : l.struckFate timeout child now = .call s c) : now ≤ s := by
  unfold struckFate at h
  dsimp only at h
  split at h
  · exact drainedFate_not_before h
  · exact killedFate_not_before h

theorem terminatedFate_not_before {now bound s : Instant} {c : Completion}
    (h : l.terminatedFate timeout child now bound = .call s c) : now ≤ s := by
  unfold terminatedFate at h
  dsimp only at h
  split at h
  · exact Nat.le_trans (Nat.le_max_left _ _) (drainedFate_not_before h)
  · exact Nat.le_trans (Nat.le_max_left _ _) (struckFate_not_before h)

theorem expiredFate_not_before {now s : Instant} {c : Completion}
    (h : l.expiredFate timeout child now = .call s c) : now ≤ s := by
  unfold expiredFate at h
  dsimp only at h
  split at h
  · exact drainedFate_not_before h
  · exact terminatedFate_not_before h

theorem watchedFate_not_before {now s : Instant} {deadline : Option Instant} {c : Completion}
    (h : l.watchedFate timeout child now deadline = .call s c) : now ≤ s := by
  unfold watchedFate at h
  split at h
  · cases h
  · dsimp only at h
    split at h
    · cases h
      exact Nat.le_max_left _ _
    · exact Nat.le_trans (Nat.le_max_left _ _) (expiredFate_not_before h)

theorem fate_not_before {s : Instant} {c : Completion} (h : l.fate timeout = .call s c) :
    l.clock ≤ s := by
  unfold fate at h
  split at h
  · cases h
    exact Nat.le_refl _
  · unfold freshFate at h
    split at h
    · exact watchedFate_not_before h
    · exact watchedFate_not_before h
    · exact expiredFate_not_before h
    · cases h
  · exact watchedFate_not_before h
  · exact terminatedFate_not_before h
  · exact killedFate_not_before h
  · exact drainedFate_not_before h
  · cases h

theorem next_isSome_of_fate (h : l.fate timeout ≠ .never) :
    ∃ t, l.next = some t := by
  unfold fate at h
  split at h
  · rename_i stage
    exact ⟨l.clock, by simp [next, awaited, stage]⟩
  · rename_i stage has
    exact ⟨l.clock, by simp [next, awaited, stage]⟩
  · rename_i deadline child stage has
    cases soon : sooner child.finish deadline with
    | none => simp [watchedFate, soon] at h
    | some a => exact ⟨max l.clock a, by simp [next, awaited, stage, has, soon]⟩
  · rename_i bound child stage has
    exact ⟨max l.clock (child.finishOr bound),
      by simp [next, awaited, stage, has, child.sooner_bound]⟩
  · rename_i child stage has
    cases finish : child.finish with
    | none => simp [killedFate, finish] at h
    | some f => exact ⟨max l.clock f, by simp [next, awaited, stage, has, finish]⟩
  · rename_i bound child stage has
    exact ⟨max l.clock (child.finishOr bound),
      by simp [next, awaited, stage, has, child.sooner_bound]⟩
  · exact (h rfl).elim

theorem next_le_fate (isOpen : l.stage.isOpen) (current : l.Current) {s : Instant} {c : Completion}
    (h : l.fate timeout = .call s c) : ∃ t, l.next = some t ∧ t ≤ s := by
  obtain ⟨t, due⟩ := next_isSome_of_fate (by rw [h]; exact fun e => nomatch e)
  refine ⟨t, due, ?_⟩
  cases act_advances isOpen current due with
  | waits _ _ _ same =>
    have bound := fate_not_before (same.trans h)
    rwa [act_clock] at bound
  | calls _ was _ _ =>
    cases was.symm.trans h
    exact Nat.le_refl _
  | dies was _ _ => cases was.symm.trans h

end

/-- A launch that goes the way of a fate: it is still to be fulfilled, or has been. -/
inductive Meets (timeout : Value) (fate : Fate) (l : Launch) : Prop where
  | waits (isOpen : l.stage.isOpen) (current : l.Current) (calls : l.calls = [])
      (same : l.fate timeout = fate)
  | called (t : Instant) (c : Completion) (was : fate = .call t c)
      (closed : l.stage.isOpen = false) (calls : l.calls = [(t, c)])
  | died (was : fate = .dies) (ended : l.stage = .ended) (calls : l.calls = [])

theorem act_closed {l : Launch} (closed : l.stage.isOpen = false) (t : Instant) (timeout : Value) :
    (l.act t timeout).stage.isOpen = false ∧ (l.act t timeout).calls = l.calls := by
  cases stage : l.stage with
  | unstarted _ | fresh | watching _ | terminating _ | killing | draining _ =>
    simp [stage, Stage.isOpen] at closed
  | dozing _ _ _ => exact ⟨by simp [act, stage, goTo, Stage.isOpen],
      by simp [act, stage, goTo, note, noteAll]⟩
  | lingering _ | asking _ _ => exact ⟨by simp [act, stage, goTo, Stage.isOpen],
      by simp [act, stage, goTo]⟩
  | ended => cases has : l.child <;> simp [act, actWith, stage, has, Stage.isOpen]

theorem Meets.act {timeout : Value} {fate : Fate} {l : Launch} (h : l.Meets timeout fate)
    {t : Instant} (due : l.next = some t) : (l.act t timeout).Meets timeout fate := by
  cases h with
  | waits isOpen current none same =>
    cases act_advances isOpen current due with
    | waits isOpen' current' calls same' =>
      exact .waits isOpen' current' (calls.trans none) (same'.trans same)
    | calls c was closed calls =>
      rw [none, List.nil_append] at calls
      exact .called t c (same.symm.trans was) closed calls
    | dies was ended calls => exact .died (same.symm.trans was) ended (calls.trans none)
  | called s c was closed calls =>
    obtain ⟨closed', calls'⟩ := act_closed closed t timeout
    exact .called s c was closed' (calls'.trans calls)
  | died _ ended _ => simp [next, awaited, ended] at due

theorem Meets.calls_of_lt {timeout : Value} {s : Instant} {c : Completion} {l : Launch}
    (h : l.Meets timeout (.call s c)) {now : Instant} (idle : ∀ t, l.next = some t → now < t)
    (past : s ≤ now) : l.calls = [(s, c)] := by
  cases h with
  | waits isOpen current _ same =>
    obtain ⟨t, due, le⟩ := next_le_fate isOpen current same
    exact (Nat.not_lt_of_le (Nat.le_trans le past) (idle t due)).elim
  | called t c' was _ calls =>
    cases was
    exact calls
  | died was _ _ => cases was

theorem Meets.eq_of_mem {timeout : Value} {fate : Fate} {l : Launch} (h : l.Meets timeout fate)
    {t : Instant} {c : Completion} (member : (t, c) ∈ l.calls) :
    fate = .call t c ∧ l.calls = [(t, c)] := by
  cases h with
  | waits _ _ calls _ =>
    rw [calls] at member
    cases member
  | called s d was _ calls =>
    rw [calls, List.mem_singleton] at member
    cases member
    exact ⟨was, calls⟩
  | died _ _ calls =>
    rw [calls] at member
    cases member

end Launch

/-- A launch that is left alone goes the way of its fate, whatever else happens. -/
theorem Reaches.meets {u w : World} {i : Nat} {launcher : String} {timeout : Value} {fate : Fate}
    (reached : Reaches (Step.Spares i launcher timeout) u w)
    (inForce : (u.launcher launcher).timeout = timeout) {l : Launch}
    (there : u.runs[i]? = some (.accepted l)) (owner : l.launcher = launcher)
    (meets : l.Meets timeout fate) :
    ∃ l', w.runs[i]? = some (.accepted l') ∧ l'.launcher = launcher ∧
      l'.Meets timeout fate :=
  reached.keeps_spared inForce there owner meets fun _ _ h due => h.act due

theorem Spawn.checkWords_error {command : List Value} {spawn : Spawn}
    (h : checkWords command = .error spawn) (b : Behaviour) : spawn ≠ .starts b := by
  induction command with
  | nil => cases h
  | cons v vs ih =>
    unfold checkWords at h
    split at h
    · cases h
      exact fun e => nomatch e
    · split at h
      · cases h
        exact fun e => nomatch e
      · cases rest : checkWords vs with
        | error fault =>
          rw [rest] at h
          cases h
          exact ih rest
        | ok ts =>
          rw [rest] at h
          cases h

theorem Spawn.attempt_starts {system : Spawn} {command : List Value} {line : Text} {b : Behaviour}
    (h : system.attempt command = (line, .starts b)) : system = .starts b := by
  unfold attempt at h
  split at h
  · rename_i fault refused
    cases h
    exact (checkWords_error refused b rfl).elim
  · cases h
    rfl

structure Launch.Started (launcher : String) (command : List Value) (b : Behaviour) (pid : Nat)
    (now : Instant) (l : Launch) : Prop where
  launcher : l.launcher = launcher
  command : l.command = command
  child : l.child = some (Child.start pid now b)
  stage : l.stage = .fresh
  clock : l.clock = now
  calls : l.calls = []

theorem Launch.create_started {launcher : String} {handler : Option Handler × Recipient}
    {now : Instant} {pid : Nat} {command : List Value} {b : Behaviour} {l : Launch}
    (created : create launcher handler now pid command (.starts b) = .ok l)
    (manned : l.child.isSome) : l.Started launcher command b pid now := by
  unfold create at created
  dsimp only at created
  split at created
  · cases created
  · cases created
    cases manned
  · rename_i line b' attempt
    cases Spawn.attempt_starts attempt
    cases created
    exact ⟨rfl, rfl, rfl, rfl, rfl, rfl⟩

theorem Launch.Started.current {launcher : String} {command : List Value} {b : Behaviour}
    {pid : Nat} {now : Instant} {l : Launch} (h : l.Started launcher command b pid now) :
    l.Current := by
  intro reading
  rw [h.stage] at reading
  cases reading

theorem World.launch_started {u : World} {target : Target} {handler : Option Handler}
    {command : List Value} {b : Behaviour} {pid : Nat}
    (prepared : u.commandFor target = .ok command) (system : target.spawn = .starts b)
    (started : (u.launch target handler).outcome = .ok (some pid)) :
    ∃ l, (u.launch target handler).world.runs[u.runs.length]? = some (.accepted l) ∧
      l.Started target.launcher command b u.nextPid u.now := by
  rw [launch_outcome] at started
  cases made : u.made target handler with
  | refused name refusal => simp [made] at started
  | accepted l =>
    obtain ⟨command', prepared', created⟩ := made_accepted made
    cases prepared.symm.trans prepared'
    rw [system] at created
    have manned : l.child.isSome := by
      simp only [made, Except.ok.injEq, Option.map_eq_some_iff] at started
      obtain ⟨c, has, -⟩ := started
      rw [has]
      rfl
    exact ⟨l, made ▸ u.launch_made target handler, Launch.create_started created manned⟩

theorem Launch.Started.meets {u w : World} {i pid : Nat} {launcher : String}
    {command : List Value} {b : Behaviour} {now : Instant} {l : Launch}
    (started : l.Started launcher command b pid now)
    (there : u.runs[i]? = some (.accepted l))
    (reached : Reaches (Step.Spares i launcher (u.launcher launcher).timeout) u w) :
    ∃ l', w.runs[i]? = some (.accepted l') ∧
      l'.Meets (u.launcher launcher).timeout
        (l.freshFate (u.launcher launcher).timeout (Child.start pid now b) now) := by
  have meets : l.Meets (u.launcher launcher).timeout (l.fate (u.launcher launcher).timeout) :=
    .waits (by rw [started.stage]; rfl) started.current started.calls rfl
  obtain ⟨l', there', -, meets'⟩ := reached.meets rfl there started.launcher meets
  refine ⟨l', there', ?_⟩
  simpa only [fate, started.stage, started.child, started.clock] using meets'

end JarLaunch
