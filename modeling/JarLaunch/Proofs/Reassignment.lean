import JarLaunch.Proofs.Expiry
import JarLaunch.Proofs.Pending

/-! Timeouts that are reassigned while launches are under way. A launch that runs out of time asks
for its launcher's timeout three times: when it begins to wait, when the deadline passes and when it
calls its handler. Each time it is given the one that stands at that moment. The first decides when
the deadline is, and with it all that the launch does; the second is named in the warning and the
third in the report, and after a reassignment they are not the one that elapsed. -/
namespace JarLaunch

namespace Launch

structure Extends (l l' : Launch) : Prop where
  launcher : l'.launcher = l.launcher
  command : l'.command = l.command
  line : l'.line = l.line
  child : l'.child.map Child.pid = l.child.map Child.pid
  trace : l.trace <+: l'.trace

section
variable {l : Launch} {t : Instant} {timeout : Value}

theorem deliver_trace {entries : List Entry} (grown : entries <+: l.trace) (c : Completion) :
    entries <+: (l.deliver t c).trace := by
  refine grown.trans ?_
  unfold deliver
  split <;> simp [note, noteAll, goTo]

theorem conclude_trace {entries : List Entry} (grown : entries <+: l.trace) (child : Child)
    (failure : Option Failure) : entries <+: (l.conclude t child failure).trace :=
  deliver_trace (grown.trans (List.prefix_append _ _)) _

theorem act_extends (current : l.Current) (due : l.next = some t) :
    l.Extends (l.act t timeout) := by
  have frame := l.act_frame t timeout
  refine ⟨congrArg (·.1) frame, congrArg (·.2.1) frame, congrArg (·.2.2.1) frame, ?_, ?_⟩
  · cases has : l.child with
    | none =>
      have unmanned := l.act_manned t timeout
      rw [has, Option.isSome_none, Option.isSome_eq_false_iff, Option.isNone_iff_eq_none] at unmanned
      rw [unmanned]
    | some c =>
      obtain ⟨c', has', takes⟩ := act_takes has t timeout
      rw [has', Option.map_some, Option.map_some, takes.pid]
  · have action : l.Action t timeout (l.act t timeout) := act_action current due
    generalize l.act t timeout = l' at action
    cases action with
    | tell _ =>
      apply deliver_trace
      exact List.prefix_refl _
    | complete _ _ _ | giveUp _ _ _ =>
      apply conclude_trace
      exact List.prefix_refl _
    | giveUpOpen _ _ _ =>
      apply conclude_trace
      exact List.prefix_append _ _
    | expire _ _ =>
      rw [expire_eq]
      exact List.prefix_append _ _
    | @strike child r _ _ _ _ _ =>
      have kept : ((l.having t r).strike t child).trace = l.trace := by
        rw [strike_eq]
        rfl
      exact ⟨[], (List.append_nil _).trans kept.symm⟩
    | wake _ => simp [note, noteAll, goTo]
    | watch _ _ _ | die _ _ _ | stop _ _ _ | outlive _ _ _ | leave _ | strand _ _ _ =>
      exact List.prefix_refl _

def ReportsLate (l : Launch) (t : Instant) (f : Failure) : Prop :=
  ∃ c, (t, c) ∈ l.calls ∧ c.failure = some f ∧ f.isTimeout

end

end Launch

/-- On the way from `u` to `w` a launch acts at an instant, in the world `v`. -/
structure ActsAt (allowed : Step → Prop) (u w : World) (i : Nat) (v : World) (t : Instant)
    (l : Launch) : Prop where
  before : Reaches allowed u v
  there : v.runs[i]? = some (.accepted l)
  due : l.next = some t
  after : ∃ v', Move allowed v v' ∧
    v'.runs[i]? = some (.accepted (l.act t (v.launcher l.launcher).timeout)) ∧ Reaches allowed v' w

/-- A launch was armed in the world `v₁` with the timeout that stood there. The deadline that this
gave has passed, in the world `v₂`, and the warning names the timeout that stood there. -/
structure Warned (allowed : Step → Prop) (start w : World) (i : Nat) (l : Launch)
    (v₁ v₂ : World) (t₁ t₂ : Instant) (l₁ : Launch) : Prop where
  arms : ActsAt allowed start w i v₁ t₁ l₁
  fresh : l₁.stage = .fresh
  deadline : (Limit.ofSetting (v₁.launcher l.launcher).timeout).deadline t₁ = some t₂
  warns : ∃ l₂, ActsAt allowed v₁ w i v₂ t₂ l₂ ∧
    (l₂.stage = .watching (some t₂) ∨ l₂.stage = .fresh ∧ v₂ = v₁)
  logged : ∃ child, l.child = some child ∧
    l.trace[1]? = some ⟨t₂, Launch.stillRunning child (v₂.launcher l.launcher).timeout⟩

/-- A timeout was reported in the world `v₃`, and the report names the timeout that stood there. -/
structure Named (allowed : Step → Prop) (start w : World) (i : Nat) (l : Launch) (t : Instant)
    (f : Failure) (v₁ v₂ v₃ : World) (t₁ t₂ : Instant) (l₁ : Launch) : Prop
    extends Warned allowed start w i l v₁ v₂ t₁ t₂ l₁ where
  reports : ∃ l₃ bound, ActsAt allowed v₂ w i v₃ t l₃ ∧ l₃.stage = .draining bound
  names : f = Failure.ofTimeout l.command l.line (v₃.launcher l.launcher).timeout f.returncode

def Remembers (allowed : Step → Prop) (start w : World) (i : Nat) (l : Launch) : Prop :=
  match l.stage with
  | .unstarted _ | .fresh => True
  | .watching deadline => ∃ v₁ l₁, ActsAt allowed start w i v₁ l.clock l₁ ∧ l₁.stage = .fresh ∧
      deadline = (Limit.ofSetting (v₁.launcher l.launcher).timeout).deadline l.clock
  | .terminating _ | .killing | .draining _ =>
    ∃ v₁ v₂ t₁ t₂ l₁, Warned allowed start w i l v₁ v₂ t₁ t₂ l₁
  | .dozing _ _ _ | .lingering _ | .asking _ _ | .ended => ∀ t f, l.ReportsLate t f →
    ∃ v₁ v₂ v₃ t₁ t₂ l₁, Named allowed start w i l t f v₁ v₂ v₃ t₁ t₂ l₁

section
variable {allowed : Step → Prop} {start u v w v₁ v₂ v₃ : World} {i : Nat} {l l' l₁ : Launch}
  {t t₁ t₂ : Instant} {f : Failure}

theorem ActsAt.onward (h : ActsAt allowed u v i v₁ t l) (onward : Reaches allowed v w) :
    ActsAt allowed u w i v₁ t l := by
  obtain ⟨v', move, acts, after⟩ := h.after
  exact ⟨h.before, h.there, h.due, v', move, acts, after.trans onward⟩

theorem ActsAt.reaches (h : ActsAt allowed u w i v t l) : Reaches allowed v w := by
  obtain ⟨v', move, -, after⟩ := h.after
  exact (Reaches.of_move move).trans after

theorem Warned.onward (h : Warned allowed start v i l v₁ v₂ t₁ t₂ l₁)
    (onward : Reaches allowed v w) (later : l.Extends l') :
    Warned allowed start w i l' v₁ v₂ t₁ t₂ l₁ := by
  obtain ⟨l₂, warns, stage⟩ := h.warns
  obtain ⟨child, has, logged⟩ := h.logged
  refine ⟨h.arms.onward onward, h.fresh, later.launcher ▸ h.deadline,
    ⟨l₂, warns.onward onward, stage⟩, ?_⟩
  have pid := later.child
  rw [has, Option.map_some, Option.map_eq_some_iff] at pid
  obtain ⟨child', has', same⟩ := pid
  refine ⟨child', has', ?_⟩
  obtain ⟨more, grown⟩ := later.trace
  have inside := (List.getElem?_eq_some_iff.mp logged).1
  rw [← grown, List.getElem?_append_left inside, logged, later.launcher]
  simp only [Launch.stillRunning, Launch.pidText, same]

theorem Named.onward (h : Named allowed start v i l t f v₁ v₂ v₃ t₁ t₂ l₁)
    (onward : Reaches allowed v w) (later : l.Extends l') :
    Named allowed start w i l' t f v₁ v₂ v₃ t₁ t₂ l₁ := by
  obtain ⟨l₃, bound, reports, stage⟩ := h.reports
  refine ⟨h.toWarned.onward onward later, ⟨l₃, bound, reports.onward onward, stage⟩, ?_⟩
  rw [later.command, later.line, later.launcher]
  exact h.names

theorem Remembers.of_closed (closed : l.stage.isOpen = false)
    (h : ∀ t f, l.ReportsLate t f →
      ∃ v₁ v₂ v₃ t₁ t₂ l₁, Named allowed start w i l t f v₁ v₂ v₃ t₁ t₂ l₁) :
    Remembers allowed start w i l := by
  unfold Remembers
  cases stage : l.stage with
  | dozing _ _ _ | lingering _ | asking _ _ | ended => exact h
  | unstarted _ | fresh | watching _ | terminating _ | killing | draining _ =>
    simp [stage, Stage.isOpen] at closed

theorem Remembers.onward (h : Remembers allowed start v i l) (onward : Reaches allowed v w)
    (later : l.Extends l') (stage : l'.stage = l.stage) (calls : l'.calls = l.calls)
    (clock : l'.clock = l.clock) : Remembers allowed start w i l' := by
  unfold Remembers at h ⊢
  rw [stage]
  cases was : l.stage with
  | unstarted _ | fresh => trivial
  | watching deadline =>
    rw [was] at h
    obtain ⟨v₁, l₁, arms, fresh, armed⟩ := h
    rw [clock, later.launcher]
    exact ⟨v₁, l₁, arms.onward onward, fresh, armed⟩
  | terminating _ | killing | draining _ =>
    rw [was] at h
    obtain ⟨v₁, v₂, t₁, t₂, l₁, warned⟩ := h
    exact ⟨v₁, v₂, t₁, t₂, l₁, warned.onward onward later⟩
  | dozing _ _ _ | lingering _ | asking _ _ | ended =>
    rw [was] at h
    intro t f late
    rw [Launch.ReportsLate, calls] at late
    obtain ⟨v₁, v₂, v₃, t₁, t₂, l₁, named⟩ := h t f late
    exact ⟨v₁, v₂, v₃, t₁, t₂, l₁, named.onward onward later⟩

theorem Remembers.closed (h : Remembers allowed start w i l) (closed : l.stage.isOpen = false) :
    ∀ t f, l.ReportsLate t f →
      ∃ v₁ v₂ v₃ t₁ t₂ l₁, Named allowed start w i l t f v₁ v₂ v₃ t₁ t₂ l₁ := by
  unfold Remembers at h
  cases stage : l.stage with
  | dozing _ _ _ | lingering _ | asking _ _ | ended => simpa only [stage] using h
  | unstarted _ | fresh | watching _ | terminating _ | killing | draining _ =>
    simp [stage, Stage.isOpen] at closed

theorem eq_deadline {child : Child} {deadline : Instant}
    (stage : l.stage = .watching (some deadline)) (has : l.child = some child)
    (due : l.next = some t) (unfinished : ¬ child.finishedBy t) (ahead : l.clock ≤ deadline) :
    t = deadline := by
  have now : max l.clock (child.finishOr deadline) = t := by
    simpa [Launch.next, Launch.awaited, stage, has, child.sooner_bound] using due
  rcases Launch.finishOr_cases child deadline with ⟨f, finish, -, same⟩ | ⟨-, same⟩
  · have past : f ≤ t := now ▸ same ▸ Nat.le_max_right _ _
    exact (unfinished (Child.finishedBy_of_finish finish past)).elim
  · rw [← now, same, Nat.max_eq_right ahead]

theorem Limit.le_deadline {limit : Limit} {begun d : Instant}
    (armed : limit.deadline begun = some d) : begun ≤ d := by
  cases limit with
  | unlimited | unusable => cases armed
  | expired => exact Nat.le_of_eq (Option.some.inj armed)
  | within span => exact Option.some.inj armed ▸ Nat.le_add_right _ _

theorem Limit.span_le {span : Span} {begun d : Instant}
    (armed : (Limit.within span).deadline begun = some d) : span ≤ d :=
  Option.some.inj armed ▸ Nat.le_add_left _ _

theorem expire_logged {child : Child} (seen : l.events = [Launch.started child l.line])
    (t : Instant) (timeout : Value) :
    ∃ child', (l.expire t child timeout).child = some child' ∧
      (l.expire t child timeout).trace[1]? = some ⟨t, Launch.stillRunning child' timeout⟩ := by
  have length : l.trace.length = 1 := by simpa [Launch.events] using congrArg List.length seen
  have same := (child.terminate?_takes t).pid
  refine ⟨(child.terminate? t).getD child, by rw [Launch.expire_eq], ?_⟩
  have last : (l.trace ++ [⟨t, Launch.stillRunning child timeout⟩])[l.trace.length]? =
      some ⟨t, Launch.stillRunning child timeout⟩ := List.getElem?_concat_length
  rw [length] at last
  rw [Launch.expire_eq]
  simp only [Launch.stillRunning, Launch.pidText, same]
  exact last

theorem Remembers.of_warned (h : ∃ v₁ v₂ t₁ t₂ l₁, Warned allowed start w i l v₁ v₂ t₁ t₂ l₁)
    (stopping : (∃ bound, l.stage = .terminating bound) ∨ l.stage = .killing ∨
      ∃ bound, l.stage = .draining bound) : Remembers allowed start w i l := by
  unfold Remembers
  rcases stopping with ⟨_, stage⟩ | stage | ⟨_, stage⟩ <;> rw [stage] <;> exact h

theorem Remembers.of_call {c : Completion} (closed : l.stage.isOpen = false)
    (calls : l.calls = [(t, c)])
    (h : ∀ f, c.failure = some f → f.isTimeout →
      ∃ v₁ v₂ v₃ t₁ t₂ l₁, Named allowed start w i l t f v₁ v₂ v₃ t₁ t₂ l₁) :
    Remembers allowed start w i l := by
  refine .of_closed closed ?_
  rintro s f ⟨d, called, failed, late⟩
  rw [calls, List.mem_singleton] at called
  cases called
  exact h f failed late

/-- The deadline passes: it was armed with the timeout of the world in which the launch began to
wait, and is logged with that of the world in which it passes. -/
theorem Remembers.expires {child : Child} {r : Reading} (h : Remembers allowed start v i l)
    (scripted : l.Scripted) (here : ∀ u, Reaches allowed u v → ActsAt allowed u w i v t l)
    (reached : Reaches allowed start v) (move : Move allowed v w) (due : l.next = some t)
    (has : l.child = some child)
    (reason : l.stage = .fresh ∧ Limit.ofSetting (v.launcher l.launcher).timeout = .expired ∨
      ∃ deadline, l.stage = .watching (some deadline) ∧ deadline ≤ t ∧ ¬ child.finishedBy t) :
    ∃ v₁ v₂ t₁ t₂ l₁, Warned allowed start w i
      ((l.having t r).expire t child (v.launcher l.launcher).timeout) v₁ v₂ t₁ t₂ l₁ := by
  have launcher : ((l.having t r).expire t child
      (v.launcher l.launcher).timeout).launcher = l.launcher := by
    rw [Launch.expire_eq]
    rfl
  have seen : l.events = [Launch.started child l.line] := by
    unfold Launch.Scripted at scripted
    rcases reason with ⟨stage, -⟩ | ⟨_, stage, -⟩ <;> rw [stage] at scripted <;>
      obtain ⟨-, c, there, seen⟩ := scripted <;> cases Option.some.inj (has.symm.trans there) <;>
      exact seen
  obtain ⟨child', has', logged⟩ := expire_logged (l := l.having t r) seen t
    (v.launcher l.launcher).timeout
  rcases reason with ⟨stage, limit⟩ | ⟨deadline, stage, -, unfinished⟩
  · refine ⟨v, v, t, t, l, here start reached, stage, ?_, ⟨l, here v .refl, .inr ⟨stage, rfl⟩⟩,
      child', has', ?_⟩
    · rw [launcher, limit]
      rfl
    · rw [launcher]
      exact logged
  · simp only [Remembers, stage] at h
    obtain ⟨v₁, l₁, arms, fresh, armed⟩ := h
    have now := eq_deadline stage has due unfinished (Limit.le_deadline armed.symm)
    refine ⟨v₁, v, l.clock, t, l₁, arms.onward (.of_move move), fresh, ?_,
      ⟨l, here v₁ arms.reaches, .inl (now ▸ stage)⟩, child', has', ?_⟩
    · rw [launcher, ← armed, now]
    · rw [launcher]
      exact logged

theorem Warned.reported {bound : Instant} {code : Option Int}
    (h : Warned allowed start v i l v₁ v₂ t₁ t₂ l₁) (later : l.Extends l')
    (here : ∀ u, Reaches allowed u v → ActsAt allowed u w i v t l) (move : Move allowed v w)
    (stage : l.stage = .draining bound)
    (is : f = Failure.ofTimeout l.command l.line (v.launcher l.launcher).timeout code) :
    Named allowed start w i l' t f v₁ v₂ v t₁ t₂ l₁ := by
  obtain ⟨l₂, warns, -⟩ := h.warns
  refine ⟨h.onward (.of_move move) later, ⟨l, bound, here v₂ warns.reaches, stage⟩, ?_⟩
  rw [later.command, later.line, later.launcher, is]
  rfl

theorem Remembers.stays (h : Remembers allowed start v i l) (onward : Reaches allowed v w)
    (later : l.Extends l')
    (stopping : (∃ bound, l.stage = .terminating bound) ∨ l.stage = .killing)
    (stopping' : l'.stage = .killing ∨ ∃ bound, l'.stage = .draining bound) :
    Remembers allowed start w i l' := by
  have was : ∃ v₁ v₂ t₁ t₂ l₁, Warned allowed start v i l v₁ v₂ t₁ t₂ l₁ := by
    unfold Remembers at h
    rcases stopping with ⟨_, stage⟩ | stage <;> rw [stage] at h <;> exact h
  obtain ⟨v₁, v₂, t₁, t₂, l₁, warned⟩ := was
  exact .of_warned ⟨v₁, v₂, t₁, t₂, l₁, warned.onward onward later⟩ (.inr stopping')

theorem Remembers.rests (h : Remembers allowed start v i l) (onward : Reaches allowed v w)
    (later : l.Extends l') (closed : l.stage.isOpen = false) (closed' : l'.stage.isOpen = false)
    (calls : l'.calls = l.calls) : Remembers allowed start w i l' := by
  refine .of_closed closed' ?_
  intro s f late
  rw [Launch.ReportsLate, calls] at late
  obtain ⟨v₁, v₂, v₃, t₁, t₂, l₁, named⟩ := h.closed closed s f late
  exact ⟨v₁, v₂, v₃, t₁, t₂, l₁, named.onward onward later⟩

theorem Remembers.reports {bound : Instant} {code : Option Int} {c : Completion}
    (h : Remembers allowed start v i l) (later : l.Extends l')
    (here : ∀ u, Reaches allowed u v → ActsAt allowed u w i v t l) (move : Move allowed v w)
    (stage : l.stage = .draining bound) (closed : l'.stage.isOpen = false)
    (calls : l'.calls = [(t, c)])
    (is : c.failure =
      some (Failure.ofTimeout l.command l.line (v.launcher l.launcher).timeout code)) :
    Remembers allowed start w i l' := by
  simp only [Remembers, stage] at h
  obtain ⟨v₁, v₂, t₁, t₂, l₁, warned⟩ := h
  refine .of_call closed calls ?_
  intro f failed _
  exact ⟨v₁, v₂, v, t₁, t₂, l₁,
    warned.reported later here move stage (Option.some.inj (failed.symm.trans is))⟩

theorem Remembers.act (h : Remembers allowed start v i l) (scripted : l.Scripted)
    (here : ∀ u, Reaches allowed u v → ActsAt allowed u w i v t l)
    (reached : Reaches allowed start v) (move : Move allowed v w) (current : l.Current)
    (due : l.next = some t) :
    Remembers allowed start w i (l.act t (v.launcher l.launcher).timeout) := by
  have later : l.Extends (l.act t (v.launcher l.launcher).timeout) :=
    Launch.act_extends current due
  have onward : Reaches allowed v w := .of_move move
  have action : l.Action t (v.launcher l.launcher).timeout
    (l.act t (v.launcher l.launcher).timeout) := Launch.act_action current due
  generalize l.act t (v.launcher l.launcher).timeout = l' at action later ⊢
  have silent := scripted.silent
  cases action with
  | @tell failure r stage =>
    simp only [Launch.Scripted, stage] at scripted
    obtain ⟨calls, -, fault, rfl, -⟩ := scripted
    obtain ⟨called, closed⟩ := Launch.deliver_calls (l.having t r) t
      ⟨some (fault.failure l.command (Launch.executableText l.command)), [], []⟩
    refine .of_call closed (called.trans (congrArg (· ++ _) calls)) ?_
    intro f failed late
    cases Option.some.inj failed
    cases late
  | watch stage has limit =>
    refine ⟨v, l, here start reached, stage, ?_⟩
    rcases limit with ⟨unlimited, rfl⟩ | ⟨span, within, rfl⟩
    · exact congrArg (Limit.deadline t) unlimited.symm
    · exact congrArg (Limit.deadline t) within.symm
  | die stage has _ =>
    refine .of_closed rfl ?_
    rintro s f ⟨c, called, -⟩
    have none : l.calls = [] := silent (by rw [stage]; rfl)
    cases none ▸ called
  | expire has reason =>
    refine .of_warned (h.expires scripted here reached move due has reason) ?_
    rw [Launch.expire_eq]
    dsimp only
    split
    · exact .inr (.inr ⟨_, rfl⟩)
    · exact .inl ⟨_, rfl⟩
  | @complete child r _ stage has finished =>
    obtain ⟨called, closed⟩ := Launch.conclude_buffers (l.having t r) t child
      (Failure.ofExit l.command l.line ((child.returncode t).getD 0))
    refine .of_call closed (called.trans (congrArg (· ++ _) (silent (by rw [stage]; rfl)))) ?_
    intro f failed late
    rw [Failure.isTimeout_ofExit failed] at late
    cases late
  | stop stage _ _ => exact h.stays onward later (.inl ⟨_, stage⟩) (.inr ⟨_, rfl⟩)
  | outlive stage _ _ => exact h.stays onward later (.inr stage) (.inr ⟨_, rfl⟩)
  | strike stage _ _ _ =>
    refine h.stays onward later (.inl ⟨_, stage⟩) ?_
    rw [Launch.strike_eq]
    dsimp only
    split
    · exact .inr ⟨_, rfl⟩
    · exact .inl rfl
  | @giveUp child r _ stage has _ =>
    obtain ⟨called, closed⟩ := Launch.conclude_buffers (l.having t r) t child
      (some (Failure.ofTimeout l.command l.line (v.launcher l.launcher).timeout
        (child.returncode t)))
    have calls : l.calls = [] := silent (by rw [stage]; rfl)
    exact h.reports later here move stage closed (called.trans (congrArg (· ++ _) calls)) rfl
  | @giveUpOpen child r _ stage has _ =>
    obtain ⟨called, closed⟩ := Launch.conclude_buffers
      ((l.having t r).stopReading.note t (Launch.pipesOpen child)) t child
      (some (Failure.ofTimeout l.command l.line (v.launcher l.launcher).timeout
        (child.returncode t)))
    have calls : l.calls = [] := silent (by rw [stage]; rfl)
    exact h.reports later here move stage closed (called.trans (congrArg (· ++ _) calls)) rfl
  | wake stage => exact h.rests onward later (by rw [stage]; rfl) rfl rfl
  | leave stage =>
    have closed : l.stage.isOpen = false := by
      rcases stage with ⟨_, stage⟩ | ⟨_, _, stage⟩ <;> rw [stage] <;> rfl
    exact h.rests onward later closed rfl rfl
  | strand isOpen unstarted none => exact (scripted.manned isOpen unstarted none).elim

theorem Reaches.remembers (reached : Reaches allowed start w) (new : start.runs = [])
    (there : w.runs[i]? = some (.accepted l)) : l.Scripted ∧ Remembers allowed start w i l := by
  induction reached generalizing l with
  | refl =>
    rw [new] at there
    cases there
  | @tail v w reached move ih =>
    rcases move.origin there with ⟨l₀, was⟩ | ⟨target, handler, made, -, -⟩
    · obtain ⟨scripted, remembers⟩ := ih was
      have current := (Reaches.clocked reached (World.clocked_of_new new) i l₀ was).current
      obtain ⟨l', there', touch⟩ := move.touch was
      cases Option.some.inj (there.symm.trans there')
      cases touch with
      | spare =>
        exact ⟨scripted, remembers.onward (.of_move move) ⟨rfl, rfl, rfl, rfl, List.prefix_refl _⟩
          rfl rfl rfl⟩
      | act due =>
        have here (u : World) (before : Reaches allowed u v) : ActsAt allowed u w i v _ l₀ :=
          ⟨before, was, due, w, move, there', .refl⟩
        exact ⟨scripted.act current due, remembers.act scripted here reached move current due⟩
      | @signal order c c' _ has taken =>
        have takes := Child.takes_of_signal taken
        have pid : (some c').map Child.pid = l₀.child.map Child.pid := by
          rw [has, Option.map_some, Option.map_some, takes.pid]
        exact ⟨scripted.signalled has takes.pid, remembers.onward (.of_move move)
          ⟨rfl, rfl, rfl, pid, List.prefix_refl _⟩ rfl rfl rfl⟩
    · obtain ⟨_, -, created⟩ := World.made_accepted made
      refine ⟨Launch.create_scripted created, ?_⟩
      cases Launch.create_created created <;> trivial

theorem Move.mono {more : Step → Prop} (wider : ∀ s, allowed s → more s)
    (move : Move allowed v w) : Move more v w := by
  cases move with
  | act first there => exact .act first there
  | pass idle => exact .pass idle
  | turn => exact .turn
  | launch target handler => exact .launch target handler
  | set ok => exact .set (wider _ ok)
  | setJava java => exact .setJava java
  | signal ok => exact .signal (wider _ ok)

theorem Reaches.mono {more : Step → Prop} (wider : ∀ s, allowed s → more s)
    (reached : Reaches allowed v w) : Reaches more v w :=
  Relation.ReflTransGen.mono (fun _ _ => Move.mono wider) _ _ reached

theorem Handler.log_not_imprinted (recipient : Recipient) (t : Instant) (c : Completion)
    (handler : Option Handler) (level : Level) (text : Text) :
    Event.log level text ∉ (imprint recipient t c handler).map Entry.event := by
  cases handler with
  | none => simp [imprint]
  | some h =>
    cases h with
    | prints =>
      simp only [imprint, List.map_map, Function.comp_def, List.map_id']
      unfold Launch.printing
      split <;> split <;> simp
    | _ => simp [imprint]

theorem Launch.ReportsLate.closed (late : l.ReportsLate t f) (scripted : l.Scripted) :
    l.stage.isOpen = false := by
  obtain ⟨c, called, -⟩ := late
  refine eq_false_of_ne_true fun isOpen => ?_
  rw [scripted.silent isOpen] at called
  cases called

theorem Launch.stillRunning_ne_late {command : List Value} {line : Text} {child : Child}
    {timeout now : Value} {code : Option Int} :
    stillRunning child timeout ≠
      .log .warning (Failure.ofTimeout command line now code).message := by
  intro same
  have heads := (log_inj same).2
  simp [pidText, Failure.ofTimeout, Text.ofString, Text.ofChars] at heads

theorem Launch.Report.late_first {command : List Value} {line : Text} {child : Child}
    {logs : List Event} (h : Report command line child (some f) logs) (late : f.isTimeout) :
    ∃ before rest, logs = stillRunning child before :: rest ∧
      ∀ timeout, stillRunning child timeout ∉ rest := by
  cases h with
  | failed is =>
    rw [Failure.isTimeout_ofExit is] at late
    cases late
  | @late before now code _ is =>
    subst is
    refine ⟨before, _, rfl, fun timeout => ?_⟩
    rw [List.mem_singleton]
    exact stillRunning_ne_late
  | @held before now code _ is =>
    subst is
    refine ⟨before, _, rfl, fun timeout => ?_⟩
    rw [List.mem_cons, List.mem_singleton]
    exact not_or.mpr ⟨(pipesOpen_ne_stillRunning timeout).symm, stillRunning_ne_late⟩

/-- The log of a launch that ran out of time has one warning about its deadline. -/
theorem Launch.Scripted.sole_warning {child : Child} {timeout : Value} {e : Entry}
    (scripted : l.Scripted) (late : l.ReportsLate t f) (has : l.child = some child)
    (logged : l.trace[1]? = some e) (member : stillRunning child timeout ∈ l.events) :
    e.event = stillRunning child timeout := by
  have closed := late.closed scripted
  obtain ⟨d, called, failed, isTimeout⟩ := late
  cases scripted.recounted closed with
  | died _ calls _ _ =>
    rw [calls] at called
    cases called
  | @told s d' logs calls story seen =>
    rw [calls, List.mem_singleton] at called
    cases called
    rw [has] at story
    cases story with
    | @launched child logs _ report =>
      rw [failed] at report
      obtain ⟨before, rest, rfl, sole⟩ := report.late_first isTimeout
      have inside := (List.getElem?_eq_some_iff.mp logged).1
      have second : ((l.trace ++ l.owed).map Entry.event)[1]? = some e.event := by
        rw [List.getElem?_map, List.getElem?_append_left inside, logged, Option.map_some]
      have whole : stillRunning child timeout ∈ (l.trace ++ l.owed).map Entry.event := by
        rw [List.map_append]
        exact List.mem_append_left _ member
      rw [seen] at second whole
      rcases List.mem_append.mp whole with among | imprinted
      · simp only [List.mem_cons, stillRunning_ne_started, sole, or_false, false_or] at among
        rw [among]
        exact (Option.some.inj second).symm
      · exact (Handler.log_not_imprinted _ _ _ _ _ _ imprinted).elim

/-- A launch whose child nobody signals does, and tells of its child, what the timeout that it was
armed with makes it. -/
theorem Warned.foreseen (h : Warned allowed start w i l v₁ v₂ t₁ t₂ l₁) (new : start.runs = [])
    (there : w.runs[i]? = some (.accepted l)) (late : l.ReportsLate t f)
    (unsignalled : ∀ s, allowed s → s.Unsignalled i) :
    ∃ c₀ child, l₁.child = some c₀ ∧
      Prospect.armed c₀ t₁ (Limit.ofSetting (v₁.launcher l.launcher).timeout) =
        .call t child true ∧ l.Answers t child true := by
  obtain ⟨v', move, acts, after⟩ := h.arms.after
  have owner : l.launcher = l₁.launcher := h.arms.reaches.owner h.arms.there there
  have clocked := h.arms.before.clocked (World.clocked_of_new new) i l₁ h.arms.there
  have next : l₁.next = some l₁.clock := by
    simp [Launch.next, Launch.awaited, h.fresh]
  have clock : l₁.clock = t₁ := Option.some.inj (next.symm.trans h.arms.due)
  obtain rfl : t₁ = v₁.now :=
    Nat.le_antisymm (clock ▸ clocked.past) (clocked.ahead _ h.arms.due)
  obtain ⟨pid, b, l', has, there', scripted, -, heads⟩ := Embarks.heads new
    (h.arms.before.mono unsignalled) ⟨h.arms.there, h.fresh, acts⟩ (after.mono unsignalled)
  cases Option.some.inj (there.symm.trans there')
  obtain ⟨c, called, failed, isTimeout⟩ := late
  rcases heads.answered scripted with none | ⟨s, child, late, was, answers⟩
  · rw [none] at called
    cases called
  · obtain rfl : late = true := by
      refine eq_true_of_ne_false fun onTime => ?_
      exact (answers.timedOut_iff called).2 onTime ⟨f, failed, isTimeout⟩
    obtain ⟨timeout, calls⟩ := answers.calls
    rw [calls, List.mem_singleton] at called
    cases called
    rw [owner]
    exact ⟨_, child, has, was, answers⟩

theorem Named.same (h : Named allowed start w i l t f v₁ v₂ v₃ t₁ t₂ l₁)
    (untouched : ∀ change, allowed (.set l.launcher change) → change.timeout = none) :
    (v₂.launcher l.launcher).timeout = (v₁.launcher l.launcher).timeout ∧
      (v₃.launcher l.launcher).timeout = (v₁.launcher l.launcher).timeout := by
  have sets : SetsOnly allowed fun name value =>
      name = l.launcher → value = (v₁.launcher l.launcher).timeout := by
    intro name change value ok given same
    rw [same] at ok
    cases given.symm.trans (untouched change ok)
  obtain ⟨l₂, warns, -⟩ := h.warns
  obtain ⟨l₃, _, reports, -⟩ := h.reports
  have second := warns.before.inForce sets fun _ same => by rw [same]
  exact ⟨second _ rfl, reports.before.inForce sets second _ rfl⟩

end

/-- A launch that reports a timeout was armed with one, warned of a second and reports a third, each
the one that stood at its moment. The first decides when the deadline is and, if nobody signals the
child, when the report comes and what it tells of the child. The others are equal to it if nobody
sets the launcher's timeout. -/
theorem timeout_named_as_it_stands {allowed : Step → Prop} {start w : World} {i : Nat} {l : Launch}
    {t : Instant} {c : Completion} {f : Failure} (new : start.runs = [])
    (reached : Reaches allowed start w) (there : w.runs[i]? = some (.accepted l))
    (called : (t, c) ∈ l.calls) (failed : c.failure = some f) (late : f.isTimeout) :
    ∃ v₁ v₂ v₃ t₁ t₂ l₁, Named allowed start w i l t f v₁ v₂ v₃ t₁ t₂ l₁ ∧
      (∀ child timeout, l.child = some child → Launch.stillRunning child timeout ∈ l.events →
        Launch.stillRunning child timeout =
          Launch.stillRunning child (v₂.launcher l.launcher).timeout) ∧
      ((∀ s, allowed s → s.Unsignalled i) → ∃ c₀ child, l₁.child = some c₀ ∧
        Prospect.armed c₀ t₁ (Limit.ofSetting (v₁.launcher l.launcher).timeout) =
          .call t child true ∧ l.Answers t child true) ∧
      ((∀ change, allowed (.set l.launcher change) → change.timeout = none) →
        (v₂.launcher l.launcher).timeout = (v₁.launcher l.launcher).timeout ∧
          (v₃.launcher l.launcher).timeout = (v₁.launcher l.launcher).timeout) := by
  obtain ⟨scripted, remembers⟩ := reached.remembers new there
  have reports : l.ReportsLate t f := ⟨c, called, failed, late⟩
  obtain ⟨v₁, v₂, v₃, t₁, t₂, l₁, named⟩ := remembers.closed (reports.closed scripted) t f reports
  refine ⟨v₁, v₂, v₃, t₁, t₂, l₁, named, ?_, named.foreseen new there reports, named.same⟩
  intro child timeout has member
  obtain ⟨child', has', logged⟩ := named.logged
  cases Option.some.inj (has.symm.trans has')
  exact (scripted.sole_warning reports has logged member).symm

def Failure.timeout? (f : Failure) : Option Value :=
  match f.reason with
  | .timedOut timeout _ => some timeout
  | _ => none

def Value.isInteger (n : Int) : Value → Bool
  | .integer m => m = n
  | _ => false

theorem Value.eq_integer {v : Value} {n : Int} (h : v.isInteger n) : v = .integer n := by
  cases v with
  | integer m => exact congrArg Value.integer (of_decide_eq_true h)
  | _ => cases h

/-- A launch whose deadline passes after one second, though its report says seven. -/
theorem reassigned_timeout_misnamed :
    let b : Behaviour := { exit := none, onTerminate := .exits 800 3 }
    let start := World.solo { timeout := .integer 1 }
    ∃ w l c f v₁ v₂ v₃ t₁ l₁, start.through
        [.run (World.soloTarget (.starts b)) (some .records), .sleep 500,
          .set "main" { timeout := some (.integer 5) }, .sleep 1000,
          .set "main" { timeout := some (.integer 7) }, .sleep 2000] = some w ∧
      w.runs[0]? = some (.accepted l) ∧ (Clock.millis 1800, c) ∈ l.calls ∧
      c.failure = some f ∧ f.isTimeout ∧
      Named (Step.Unsignalled 0) start w 0 l (Clock.millis 1800) f v₁ v₂ v₃ t₁ (Clock.millis 1000)
        l₁ ∧
      (∃ c₀ child, l₁.child = some c₀ ∧
        Prospect.armed c₀ t₁ (Limit.ofSetting (v₁.launcher l.launcher).timeout) =
          .call (Clock.millis 1800) child true ∧ l.Answers (Clock.millis 1800) child true) ∧
      (v₃.launcher l.launcher).timeout = .integer 7 ∧
      (v₁.launcher l.launcher).timeout ≠ (v₃.launcher l.launcher).timeout := by
  intro b start
  have check : (start.through
      [.run (World.soloTarget (.starts b)) (some .records), .sleep 500,
        .set "main" { timeout := some (.integer 5) }, .sleep 1000,
        .set "main" { timeout := some (.integer 7) }, .sleep 2000]).any
      fun w => w.shows 0 fun l => l.trace[1]?.any (·.instant = Clock.millis 1000) &&
        l.calls.any fun call => call.1 = Clock.millis 1800 &&
          call.2.failure.any fun f => f.isTimeout && f.timeout?.any (Value.isInteger 7) := by
    decide +kernel
  obtain ⟨w, played, h⟩ := (Option.any_eq_true _ _).mp check
  obtain ⟨l, there, is⟩ := (w.shows_iff 0 _).mp h
  obtain ⟨second, is⟩ := Bool.and_eq_true_iff.mp is
  obtain ⟨⟨t, c⟩, called, is⟩ := List.any_eq_true.mp is
  obtain ⟨instant, is⟩ := Bool.and_eq_true_iff.mp is
  obtain ⟨f, failed, is⟩ := (Option.any_eq_true _ _).mp is
  obtain ⟨late, seven⟩ := Bool.and_eq_true_iff.mp is
  have moment : t = Clock.millis 1800 := of_decide_eq_true instant
  rw [moment] at called
  have reached : Reaches (Step.Unsignalled 0) start w :=
    through_reaches (by simp [Step.Unsignalled]) played
  obtain ⟨v₁, v₂, v₃, t₁, t₂, l₁, named, -, foreseen, -⟩ :=
    timeout_named_as_it_stands rfl reached there called failed late
  obtain ⟨child, -, logged⟩ := named.logged
  obtain ⟨e, entry, then_⟩ := (Option.any_eq_true _ _).mp second
  cases Option.some.inj (logged.symm.trans entry)
  have passes : t₂ = Clock.millis 1000 := of_decide_eq_true then_
  rw [passes] at named
  have told : f.timeout? = some (v₃.launcher l.launcher).timeout := by
    rw [named.names]
    rfl
  rw [told] at seven
  have reported : (v₃.launcher l.launcher).timeout = .integer 7 := Value.eq_integer seven
  refine ⟨w, l, c, f, v₁, v₂, v₃, t₁, l₁, played, there, called, failed, late, named,
    foreseen fun _ ok => ok, reported, ?_⟩
  intro same
  have limit : Limit.ofSetting (.integer 7) = .within (Clock.millis 7000) := by decide +kernel
  have deadline := named.deadline
  rw [same, reported, limit] at deadline
  have early : ¬ Clock.millis 7000 ≤ Clock.millis 1000 := by decide +kernel
  exact early (Limit.span_le deadline)

end JarLaunch
