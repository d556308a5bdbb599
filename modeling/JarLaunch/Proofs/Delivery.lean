import JarLaunch.Proofs.Course
import Mathlib.Algebra.Group.Int.Defs
import Mathlib.Algebra.GroupWithZero.Nat

/-! Exactly-once delivery. Until the handler of a launch is called there is nothing but log lines to
be seen of the launch; from the call on, what is seen after the log lines is what that handler does
with that call. The account is kept by every action and does not depend on who else is at work. -/
namespace JarLaunch

def Entry.isLog (e : Entry) : Bool :=
  match e.event with
  | .log _ _ => true
  | _ => false

/-- The handler has not been called yet. -/
def Stage.isOpen : Stage → Bool
  | .unstarted _ | .fresh | .watching _ | .terminating _ | .killing | .draining _ => true
  | .dozing _ _ _ | .lingering _ | .asking _ _ | .ended => false

/-- All that will be seen of a handler that is called at an instant. -/
def Handler.imprint (recipient : Recipient) (t : Instant) (c : Completion) :
    Option Handler → List Entry
  | none | some .misfits => [⟨t, .raised .type⟩]
  | some .records | some .cancels | some .returns | some .hollow | some (.lingers _)
  | some (.launches _ _) => [⟨t, .call recipient c⟩]
  | some .fails => [⟨t, .call recipient c⟩, ⟨t, .raised .runtime⟩]
  | some (.dozes delay) => [⟨t + Clock.millis delay, .call recipient c⟩]
  | some (.dozesThenFails delay) =>
    [⟨t + Clock.millis delay, .call recipient c⟩, ⟨t + Clock.millis delay, .raised .key⟩]
  | some .prints => (Launch.printing c.printout).map (⟨t, ·⟩)

namespace Launch

def owed (l : Launch) : List Entry :=
  match l.stage with
  | .dozing bound c fault =>
    (Event.call l.recipient c :: fault.toList.map .raised).map (⟨max l.clock bound, ·⟩)
  | _ => []

structure Untold (l : Launch) : Prop where
  calls : l.calls = []
  logs : ∀ e ∈ l.trace, e.isLog

def Told (l : Launch) : Prop :=
  ∃ t c logs, l.calls = [(t, c)] ∧ (∀ e ∈ logs, e.isLog) ∧
    l.trace ++ l.owed = logs ++ Handler.imprint l.recipient t c l.handler

/-- Only a launch that may die ends untold. -/
def Accounted (mayDie : Prop) (l : Launch) : Prop :=
  (l.Untold ∧ (l.stage.isOpen ∨ l.stage = .ended ∧ mayDie)) ∨ (l.Told ∧ l.stage.isOpen = false)

theorem Untold.note {l : Launch} (h : l.Untold) (now : Instant) (level : Level) (text : Text) :
    (l.note now (.log level text)).Untold := by
  refine ⟨h.calls, ?_⟩
  intro e he
  rcases List.mem_append.mp he with he | he
  · exact h.logs e he
  · rw [List.mem_singleton.mp he]
    rfl

theorem deliver_calls (l : Launch) (now : Instant) (c : Completion) :
    (l.deliver now c).calls = l.calls ++ [(now, c)] ∧
      (l.deliver now c).stage.isOpen = false := by
  unfold deliver
  split <;> exact ⟨rfl, rfl⟩

theorem deliver_seen (l : Launch) (now : Instant) (c : Completion) (clock : l.clock = now) :
    (l.deliver now c).trace ++ (l.deliver now c).owed =
      l.trace ++ Handler.imprint l.recipient now c l.handler := by
  have later (delay : Nat) : max l.clock (now + Clock.millis delay) = now + Clock.millis delay := by
    rw [clock]
    exact Nat.max_eq_right (Nat.le_add_right _ _)
  unfold deliver
  split <;> rename_i handled <;>
    simp [note, noteAll, goTo, owed, Handler.imprint, handled, later]

theorem deliver_told {l : Launch} (h : l.Untold) {now : Instant} (clock : l.clock = now)
    (c : Completion) : (l.deliver now c).Told ∧ (l.deliver now c).stage.isOpen = false := by
  obtain ⟨calls, closed⟩ := l.deliver_calls now c
  have frame := deliver_frame l now c
  have handler : (l.deliver now c).handler = l.handler := congrArg (·.2.2.2.2.1) frame
  have recipient : (l.deliver now c).recipient = l.recipient := congrArg (·.2.2.2.1) frame
  rw [h.calls, List.nil_append] at calls
  refine ⟨⟨now, c, l.trace, calls, h.logs, ?_⟩, closed⟩
  rw [handler, recipient]
  exact l.deliver_seen now c clock

theorem conclude_told {l : Launch} (h : l.Untold) {now : Instant} (clock : l.clock = now)
    (child : Child) (failure : Option Failure) :
    (l.conclude now child failure).Told ∧ (l.conclude now child failure).stage.isOpen = false := by
  unfold conclude
  cases failure with
  | none => exact deliver_told (h.note now _ _) clock _
  | some f => exact deliver_told (h.note now _ _) clock _

theorem expire_untold {l : Launch} (h : l.Untold) (now : Instant) (child : Child)
    (timeout : Value) :
    (l.expire now child timeout).Untold ∧ (l.expire now child timeout).stage.isOpen := by
  rw [expire_eq]
  refine ⟨⟨h.calls, (h.note now _ _).logs⟩, ?_⟩
  dsimp only
  split <;> rfl

theorem strike_untold {l : Launch} (h : l.Untold) (now : Instant) (child : Child) :
    (l.strike now child).Untold ∧ (l.strike now child).stage.isOpen := by
  rw [strike_eq]
  refine ⟨⟨h.calls, h.logs⟩, ?_⟩
  dsimp only
  split <;> rfl

theorem embark_accounted {mayDie : Prop} {l : Launch} (h : l.Untold) (now : Instant)
    (child : Child) (timeout : Value) (dies : Limit.ofSetting timeout = .unusable → mayDie) :
    (l.embark now child timeout).Accounted mayDie := by
  unfold embark
  split
  · exact .inl ⟨⟨h.calls, h.logs⟩, .inl rfl⟩
  · exact .inl ⟨⟨h.calls, h.logs⟩, .inl rfl⟩
  · exact .inl ⟨(expire_untold h now child timeout).1, .inl (expire_untold h now child timeout).2⟩
  · rename_i unusable
    exact .inl ⟨⟨h.calls, h.logs⟩, .inr ⟨rfl, dies unusable⟩⟩

theorem actWith_accounted {mayDie : Prop} {l : Launch} (h : l.Untold) (isOpen : l.stage.isOpen)
    {now : Instant} (clock : l.clock = now) (timeout : Value)
    (dies : Limit.ofSetting timeout = .unusable → mayDie) (child : Child) :
    (l.actWith now timeout child).Accounted mayDie := by
  unfold actWith
  split
  · have reading : (l.startReading now child).Untold := ⟨h.calls, h.logs⟩
    exact embark_accounted reading now child timeout dies
  · split
    · exact .inr (conclude_told h clock child _)
    · exact .inl ⟨(expire_untold h now child timeout).1, .inl (expire_untold h now child timeout).2⟩
  · split
    · exact .inl ⟨⟨h.calls, h.logs⟩, .inl rfl⟩
    · exact .inl ⟨(strike_untold h now child).1, .inl (strike_untold h now child).2⟩
  · exact .inl ⟨⟨h.calls, h.logs⟩, .inl rfl⟩
  · split
    · exact .inr (conclude_told h clock child _)
    · have stopped : l.stopReading.Untold := ⟨h.calls, h.logs⟩
      exact .inr (conclude_told (stopped.note now _ _) clock child _)
  · exact .inl ⟨h, .inl isOpen⟩

theorem act_told {l : Launch} (h : l.Told) (closed : l.stage.isOpen = false) {t : Instant}
    (due : l.next = some t) (timeout : Value) :
    (l.act t timeout).Told ∧ (l.act t timeout).stage.isOpen = false := by
  obtain ⟨s, c, logs, calls, log, seen⟩ := h
  cases stage : l.stage with
  | unstarted _ | fresh | watching _ | terminating _ | killing | draining _ =>
    rw [stage] at closed
    cases closed
  | dozing bound completion fault =>
    have awake : max l.clock bound = t := by simpa [next, awaited, stage] using due
    simp only [owed, stage, awake] at seen
    refine ⟨⟨s, c, logs, ?_, log, ?_⟩, ?_⟩
    · simpa [act, stage, note, noteAll, goTo] using calls
    · simpa [act, stage, note, noteAll, goTo, owed] using seen
    · simp [act, stage, goTo, Stage.isOpen]
  | lingering _ | asking _ _ =>
    simp only [owed, stage] at seen
    refine ⟨⟨s, c, logs, ?_, log, ?_⟩, ?_⟩
    · simpa [act, stage, goTo] using calls
    · simpa [act, stage, goTo, owed] using seen
    · simp [act, stage, goTo, Stage.isOpen]
  | ended => simp [next, awaited, stage] at due

theorem act_accounted {mayDie : Prop} {l : Launch} (h : l.Accounted mayDie) {t : Instant}
    (due : l.next = some t) {timeout : Value}
    (dies : Limit.ofSetting timeout = .unusable → mayDie) :
    (l.act t timeout).Accounted mayDie := by
  rcases h with ⟨untold, isOpen | ⟨ended, -⟩⟩ | ⟨told, closed⟩
  · have here : (l.awake t).Untold := ⟨untold.calls, untold.logs⟩
    unfold act
    dsimp only
    split
    · exact .inr (deliver_told here rfl _)
    · rename_i stage
      rw [awake_stage] at stage
      simp [stage, Stage.isOpen] at isOpen
    · rename_i stage
      rw [awake_stage] at stage
      simp [stage, Stage.isOpen] at isOpen
    · rename_i stage
      rw [awake_stage] at stage
      simp [stage, Stage.isOpen] at isOpen
    · exact actWith_accounted here isOpen rfl timeout dies _
    · exact .inl ⟨here, .inl isOpen⟩
  · simp [next, awaited, ended] at due
  · exact .inr (act_told told closed due timeout)

theorem Accounted.signalled {mayDie : Prop} {l : Launch} (h : l.Accounted mayDie) (c : Child) :
    ({ l with child := some c } : Launch).Accounted mayDie := by
  rcases h with ⟨untold, stage⟩ | told
  · exact .inl ⟨⟨untold.calls, untold.logs⟩, stage⟩
  · exact .inr told

theorem create_accounted {launcher : String} {handler : Option Handler × Recipient}
    {now : Instant} {pid : Nat} {command : List Value} {spawn : Spawn} {l : Launch}
    (created : create launcher handler now pid command spawn = .ok l) :
    l.Accounted False ∧ l.handler = handler.1 ∧ l.recipient = handler.2 := by
  unfold create at created
  dsimp only at created
  split at created
  · cases created
  · cases created
    exact ⟨.inl ⟨⟨rfl, by simp [Entry.isLog]⟩, .inl rfl⟩, rfl, rfl⟩
  · cases created
    exact ⟨.inl ⟨⟨rfl, by simp [Entry.isLog]⟩, .inl rfl⟩, rfl, rfl⟩

end Launch

def Run.calls (r : Run) : List (Instant × Completion) := (r.launch?.map Launch.calls).getD []

def Value.isNumber : Value → Bool
  | .flag _ | .integer _ | .double _ => true
  | _ => false

/-- May a timeout be so? Nothing, or a number that is not above all that a double can hold. -/
def Value.Waitable : Value → Prop
  | .absent | .flag _ | .double _ => True
  | .integer n => n ≤ 0 ∨ Double.nearest n.toNat 1 < Double.limit
  | _ => False

theorem Value.Waitable.usable {v : Value} (h : v.Waitable) : Limit.ofSetting v ≠ .unusable := by
  cases v with
  | absent => simp [Limit.ofSetting]
  | flag b => cases b <;> simp [Limit.ofSetting]
  | integer n =>
    rcases h with low | small
    · simp [Limit.ofSetting, low]
    · by_cases low : n ≤ 0 <;> simp [Limit.ofSetting, low, small]
  | double d =>
    cases d with
    | nan => simp [Limit.ofSetting]
    | infinite negative => cases negative <;> simp [Limit.ofSetting]
    | finite negative quanta =>
      by_cases low : negative ∨ quanta = 0 <;> simp [Limit.ofSetting, low]
  | text _ | path _ | bytes _ | list _ => cases h

def Step.KeepsWaitable : Step → Prop
  | .set _ change => ∀ v, change.timeout = some v → v.Waitable
  | _ => True

theorem Launcher.handlerFor_eq (launcher : Launcher) (name : String) (given : Option Handler) :
    launcher.handlerFor name given =
      (Handler.choose given launcher.callback,
        if given.any Handler.counts then .run else .launcher name) := by
  cases given with
  | none => rfl
  | some h => by_cases counts : h.counts <;> simp [handlerFor, Handler.choose, counts]

/-- The handler of a launch is called once at most, and once exactly when the launch has ended;
what is seen of the launch beside its log is the doing of that handler. -/
structure Launch.OnceBy (recipient : Recipient) (handler : Option Handler) (l : Launch) :
    Prop where
  atMostOnce : l.calls.length ≤ 1
  onceEnded : l.stage.isEnded → l.calls.length = 1
  quietBefore : l.calls = [] → ∀ e ∈ l.trace, e.isLog
  answered : ∀ t c, (t, c) ∈ l.calls → ∃ logs, (∀ e ∈ logs, e.isLog) ∧
    l.trace <+: logs ++ Handler.imprint recipient t c handler ∧
    (l.stage.isEnded → l.trace = logs ++ Handler.imprint recipient t c handler)

theorem Launch.Accounted.onceBy {l : Launch} (h : l.Accounted False) :
    l.OnceBy l.recipient l.handler := by
  rcases h with ⟨untold, isOpen | ⟨-, dies⟩⟩ | ⟨⟨t, c, logs, calls, log, seen⟩, closed⟩
  · refine ⟨by simp [untold.calls], ?_, fun _ => untold.logs, by simp [untold.calls]⟩
    intro ended
    cases stage : l.stage <;> simp [stage, Stage.isOpen, Stage.isEnded] at isOpen ended
  · exact dies.elim
  · refine ⟨by simp [calls], by simp [calls], by simp [calls], ?_⟩
    intro t' c' member
    rw [calls, List.mem_singleton] at member
    cases member
    refine ⟨logs, log, ⟨l.owed, seen⟩, ?_⟩
    intro ended
    have nothing : l.owed = [] := by
      cases stage : l.stage <;> simp [stage, Stage.isEnded, owed] at ended ⊢
    rw [← seen, nothing, List.append_nil]

/-- Whatever launches, waits, settings and signals come before and after: a launch that is refused
never calls anyone, and any other calls the handler it was given, or else the one its launcher had
when it was made, once by the time it ends and never twice. -/
theorem handler_called_exactly_once {start u w : World} {target : Target}
    {handler : Option Handler} (timely : start.InForce fun _ v => v.Waitable)
    (before : Reaches Step.KeepsWaitable start u)
    (after : Reaches Step.KeepsWaitable (u.launch target handler).world w) :
    match (u.launch target handler).outcome with
    | .error _ => ∃ r, w.runs[u.runs.length]? = some r ∧ r.calls = [] ∧ r.trace = []
    | .ok _ => ∃ l, w.runs[u.runs.length]? = some (.accepted l) ∧
        l.OnceBy (if handler.any Handler.counts then .run else .launcher target.launcher)
          (Handler.choose handler (u.launcher target.launcher).callback) := by
  have sets : SetsOnly Step.KeepsWaitable fun _ v => v.Waitable :=
    fun _ _ v ok given => ok v given
  have inForce : (u.launch target handler).world.InForce fun _ v => v.Waitable := by
    intro name
    rw [World.launch_launcher]
    exact before.inForce sets timely name
  have there := u.launch_made target handler
  rw [World.launch_outcome]
  cases made : u.made target handler with
  | refused name refusal =>
    rw [made] at there
    exact ⟨_, after.refused there, rfl, rfl⟩
  | accepted l =>
    rw [made] at there
    obtain ⟨command, -, created⟩ := World.made_accepted made
    obtain ⟨accounted, handled, received⟩ := Launch.create_accounted created
    rw [World.handlerFor, Launcher.handlerFor_eq] at handled received
    obtain ⟨l', there', accounted', handled', received'⟩ :=
      after.keeps (P := fun l' => l'.Accounted False ∧ l'.handler = l.handler ∧
        l'.recipient = l.recipient) sets inForce there ⟨accounted, rfl, rfl⟩
        (fun l₁ t timeout h due waitable =>
          ⟨Launch.act_accounted h.1 due fun unusable => waitable.usable unusable,
            (l₁.act_handler t timeout).trans h.2.1, (l₁.act_recipient t timeout).trans h.2.2⟩)
        (fun _ _ c _ h => ⟨h.1.signalled c, h.2⟩)
    refine ⟨l', there', ?_⟩
    have once := accounted'.onceBy
    rw [handled', received', handled, received] at once
    exact once

/-- A handler that was replaced after the launch is called all the same, and fails. -/
theorem replaced_handler_called_once :
    let start := World.solo { timeout := .integer 2, callback := some .fails }
    let steps := [.set "main" { callback := some (some .records) }, .sleep 5]
    ∃ w l, ((start.launch (World.soloTarget (.starts {})) none).world.through steps) = some w ∧
      w.runs[0]? = some (.accepted l) ∧ l.stage.isEnded ∧
      l.OnceBy (.launcher "main") (some .fails) := by
  intro start steps
  have check : ((start.launch (World.soloTarget (.starts {})) none).world.through steps).any
      fun w => w.shows 0 fun l => l.stage.isEnded := by decide +kernel
  obtain ⟨w, played, h⟩ := (Option.any_eq_true _ _).mp check
  obtain ⟨l, there, ended⟩ := (w.shows_iff 0 _).mp h
  have timely : start.InForce fun _ v => v.Waitable := by
    intro name
    by_cases main : name = "main"
    · subst name
      exact .inr (by decide +kernel)
    · have other : (name == "main") = false := by simpa using main
      simp [World.launcher, start, World.solo, World.create, List.lookup_cons, other,
        Value.Waitable]
  have allowed : ∀ s ∈ steps, s.KeepsWaitable := by simp [steps, Step.KeepsWaitable]
  obtain ⟨l', there', once⟩ := handler_called_exactly_once timely .refl
    (through_reaches allowed played)
  cases Option.some.inj (there.symm.trans there')
  exact ⟨w, l, played, there, ended, once⟩

/-- A number that no double can hold is a timeout under which a launch ends without a call. -/
theorem huge_timeout_ends_uncalled :
    let timeout : Value := .integer (10 ^ 400)
    timeout.isNumber ∧ ∃ w l,
      (World.solo { timeout := timeout }).through
        [.run (World.soloTarget (.starts {})) (some .records), .sleep 5] = some w ∧
      w.runs[0]? = some (.accepted l) ∧ l.stage.isEnded ∧ l.calls.length = 0 := by
  intro timeout
  have check : ((World.solo { timeout := timeout }).through
      [.run (World.soloTarget (.starts {})) (some .records), .sleep 5]).any
      fun w => w.shows 0 fun l => l.stage.isEnded && l.calls.length = 0 := by decide +kernel
  obtain ⟨w, played, h⟩ := (Option.any_eq_true _ _).mp check
  obtain ⟨l, there, is⟩ := (w.shows_iff 0 _).mp h
  simp only [Bool.and_eq_true, decide_eq_true_eq] at is
  exact ⟨rfl, w, l, played, there, is⟩

end JarLaunch
