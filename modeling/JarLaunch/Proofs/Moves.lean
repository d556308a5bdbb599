import JarLaunch.Proofs.Agenda
import Mathlib.Logic.Relation

/-! What can happen to a world, one thing at a time. Every step of a scenario is a sequence of such
moves, also a step that waits, and so is every state inside a wait. A move touches a launch in one
of two ways at most: the launch acts when its time has come, or its child takes a signal. -/
namespace JarLaunch

theorem lookup_assign {α : Type} (key name : String) (value : α) (xs : List (String × α)) :
    (assign key value xs).lookup name = if name = key then some value else xs.lookup name := by
  induction xs with
  | nil =>
    by_cases h : name = key
    · simp only [assign, h, List.lookup_cons, beq_self_eq_true, if_true]
    · have hb : (name == key) = false := by simpa using h
      simp only [assign, List.lookup_cons, List.lookup_nil, hb, if_neg h]
  | cons x xs ih =>
    obtain ⟨k, v⟩ := x
    by_cases hk : k = key
    · subst k
      by_cases h : name = key
      · simp only [assign, h, List.lookup_cons, beq_self_eq_true, if_true]
      · have hb : (name == key) = false := by simpa using h
        simp only [assign, List.lookup_cons, hb, if_neg h, if_true]
    · rw [assign, if_neg hk, List.lookup_cons, List.lookup_cons, ih]
      by_cases h : name = key
      · subst name
        have hb : (key == k) = false := by simpa using Ne.symm hk
        simp only [hb, if_true]
      · simp only [if_neg h]

namespace World

theorem launcher_configure (w : World) (key name : String) (change : Launcher → Launcher) :
    (w.configure key change).launcher name =
      if name = key then change (w.launcher key) else w.launcher name := by
  by_cases h : name = key <;> simp [launcher, configure, lookup_assign, h]

theorem keepArguments_eq (w : World) (source : Source) (args : Arguments) :
    ∃ lists, w.keepArguments source args = { w with lists := lists } := by
  cases source with
  | own _ => exact ⟨w.lists, rfl⟩
  | shared name => cases args <;> exact ⟨_, rfl⟩

def commandFor (w : World) (target : Target) : Except Refusal (List Value) :=
  ((w.launcher target.launcher).prepare w.java w.jar (w.arguments target.source)).command

def handlerFor (w : World) (target : Target) (handler : Option Handler) :
    Option Handler × Recipient :=
  (w.launcher target.launcher).handlerFor target.launcher handler

def made (w : World) (target : Target) (handler : Option Handler) : Run :=
  match (w.commandFor target).bind fun command =>
      Launch.create target.launcher (w.handlerFor target handler) w.now w.nextPid command
        target.spawn with
  | .error refusal => .refused target.launcher refusal
  | .ok l => .accepted l

theorem made_accepted {w : World} {target : Target} {handler : Option Handler} {l : Launch}
    (made : w.made target handler = .accepted l) :
    ∃ command, w.commandFor target = .ok command ∧
      Launch.create target.launcher (w.handlerFor target handler) w.now w.nextPid command
        target.spawn = .ok l := by
  unfold World.made at made
  cases prepared : w.commandFor target with
  | error refusal => simp [prepared, Except.bind] at made
  | ok command =>
    refine ⟨command, rfl, ?_⟩
    simp only [prepared, Except.bind] at made
    split at made
    · cases made
    · rename_i created
      cases made
      exact created

def enlisted (w : World) (target : Target) (handler : Option Handler) : List Nat :=
  match w.made target handler with
  | .refused _ _ => w.tasks
  | .accepted _ => w.tasks ++ [w.runs.length]

theorem launch_world (w : World) (target : Target) (handler : Option Handler) :
    ∃ lists, (w.launch target handler).world =
      { w with
        lists := lists
        runs := w.runs ++ [w.made target handler]
        tasks := w.enlisted target handler } := by
  obtain ⟨lists, kept⟩ := w.keepArguments_eq target.source
    ((w.launcher target.launcher).prepare w.java w.jar (w.arguments target.source)).args
  refine ⟨lists, ?_⟩
  simp only [launch, enlisted, made, commandFor, handlerFor]
  cases ((w.launcher target.launcher).prepare w.java w.jar (w.arguments target.source)).command.bind
      fun command => Launch.create target.launcher
        ((w.launcher target.launcher).handlerFor target.launcher handler) w.now w.nextPid command
        target.spawn with
  | error refusal => simp only [kept]
  | ok l => simp only [kept]

theorem launch_outcome (w : World) (target : Target) (handler : Option Handler) :
    (w.launch target handler).outcome =
      match w.made target handler with
      | .refused _ refusal => .error refusal
      | .accepted l => .ok (l.child.map Child.pid) := by
  simp only [launch, made, commandFor, handlerFor]
  cases ((w.launcher target.launcher).prepare w.java w.jar (w.arguments target.source)).command.bind
      fun command => Launch.create target.launcher
        ((w.launcher target.launcher).handlerFor target.launcher handler) w.now w.nextPid command
        target.spawn with
  | error refusal => rfl
  | ok l => rfl

theorem launch_runs (w : World) (target : Target) (handler : Option Handler) :
    (w.launch target handler).world.runs = w.runs ++ [w.made target handler] := by
  obtain ⟨lists, h⟩ := w.launch_world target handler
  rw [h]

theorem launch_tasks (w : World) (target : Target) (handler : Option Handler) :
    (w.launch target handler).world.tasks = w.enlisted target handler := by
  obtain ⟨lists, h⟩ := w.launch_world target handler
  rw [h]

theorem launch_made (w : World) (target : Target) (handler : Option Handler) :
    (w.launch target handler).world.runs[w.runs.length]? = some (w.made target handler) := by
  rw [launch_runs, List.getElem?_concat_length]

theorem launch_now (w : World) (target : Target) (handler : Option Handler) :
    (w.launch target handler).world.now = w.now := by
  obtain ⟨lists, h⟩ := w.launch_world target handler
  rw [h]

theorem launch_launcher (w : World) (target : Target) (handler : Option Handler) (name : String) :
    (w.launch target handler).world.launcher name = w.launcher name := by
  obtain ⟨lists, h⟩ := w.launch_world target handler
  rw [h]
  rfl

/-- One launch has acted; what its handler asks for is yet to be launched. -/
def acted (w : World) (now : Instant) (number : Nat) (l : Launch) : World :=
  { w with
    now := max w.now now
    tasks := w.tasksAt now
    runs := w.runs.set number (.accepted (l.act now (w.launcher l.launcher).timeout)) }

theorem acted_launcher (w : World) (now : Instant) (number : Nat) (l : Launch) (name : String) :
    (w.acted now number l).launcher name = w.launcher name := rfl

theorem step_eq {w : World} {number : Nat} {l : Launch} (now : Instant)
    (there : w.runs[number]? = some (.accepted l)) :
    w.step now number =
      match l.stage with
      | .asking target handler => ((w.acted now number l).launch target handler).world
      | _ => w.acted now number l := by
  simp only [step, there]
  cases l.stage <;> rfl

theorem signal_eq (w : World) (number : Nat) (order : Order) :
    (w.signal number order).1 = w ∨
      ∃ l c c', w.runs[number]? = some (.accepted l) ∧ l.child = some c ∧
        (c.terminate? w.now = some c' ∨ c.kill? w.now = some c') ∧
        (w.signal number order).1 =
          { w with runs := w.runs.set number (.accepted { l with child := some c' }) } := by
  cases there : w.runs[number]? with
  | none => simp [signal, there]
  | some r =>
    cases r with
    | refused _ _ => simp [signal, there]
    | accepted l =>
      cases has : l.child with
      | none => simp [signal, there, has]
      | some c =>
        cases order with
        | terminate => cases taken : c.terminate? w.now <;> simp [signal, there, has, taken]
        | kill => cases taken : c.kill? w.now <;> simp [signal, there, has, taken]

/-- Play steps and keep the world they lead to; nothing comes back if one never ends. -/
def through (w : World) : List Step → Option World
  | [] => some w
  | s :: steps => (w.perform s).bind fun later => later.1.through steps

theorem through_append (w : World) (first second : List Step) :
    w.through (first ++ second) = (w.through first).bind fun v => v.through second := by
  induction first generalizing w with
  | nil => rfl
  | cons s steps ih =>
    simp only [List.cons_append, through]
    cases w.perform s with
    | none => rfl
    | some later => exact ih later.1

/-- The reports of a play are those of the worlds that it goes through, one for each step. -/
theorem play_eq_some_iff {w : World} {steps : List Step} {reports : List Report} :
    w.play steps = some reports ↔ reports.length = steps.length ∧ ∀ i s, steps[i]? = some s →
      ∃ u v answer, w.through (steps.take i) = some u ∧ u.perform s = some (v, answer) ∧
        reports[i]? = some (v.report u answer) := by
  induction steps generalizing w reports with
  | nil => simp [play, eq_comm]
  | cons s steps ih =>
    constructor
    · intro played
      simp only [play, Option.bind_eq_bind, Option.bind_eq_some_iff, Prod.exists,
        Option.pure_def, Option.some.injEq] at played
      obtain ⟨later, answer, performed, rest, onward, rfl⟩ := played
      obtain ⟨length, each⟩ := ih.mp onward
      refine ⟨by rw [List.length_cons, List.length_cons, length], fun i s' given => ?_⟩
      cases i with
      | zero =>
        cases Option.some.inj given
        exact ⟨w, later, answer, rfl, performed, rfl⟩
      | succ i =>
        obtain ⟨u, v, answer', passed, performed', reported⟩ := each i s' given
        refine ⟨u, v, answer', ?_, performed', reported⟩
        rw [List.take_succ_cons, through, performed, Option.bind_some, passed]
    · rintro ⟨length, each⟩
      obtain ⟨u, later, answer, here, performed, reported⟩ := each 0 s rfl
      cases Option.some.inj here
      cases reports with
      | nil => cases length
      | cons report reports =>
        cases Option.some.inj reported
        have onward : later.play steps = some reports := by
          refine ih.mpr ⟨Nat.succ.inj length, fun i s' given => ?_⟩
          obtain ⟨u, v, answer', passed, rest⟩ := each (i + 1) s' given
          rw [List.take_succ_cons, through, performed, Option.bind_some] at passed
          exact ⟨u, v, answer', passed, rest⟩
        simp only [play, performed, onward, Option.bind_eq_bind, Option.bind_some, Option.pure_def]

def solo (launcher : Launcher) : World :=
  create (.text defaultJava) ⟨.single, [jarName]⟩ [("main", launcher)] []

def soloTarget (spawn : Spawn) : Target := ⟨"main", .own (.list []), spawn⟩

theorem solo_commandFor (timeout : Value) (callback : Option Handler) (spawn : Spawn) :
    ∃ command, (solo { timeout := timeout, callback := callback }).commandFor (soloTarget spawn) =
      .ok command := ⟨_, rfl⟩

def shows (w : World) (number : Nat) (p : Launch → Bool) : Bool :=
  (w.runs[number]?.bind Run.launch?).any p

theorem shows_iff (w : World) (number : Nat) (p : Launch → Bool) :
    w.shows number p ↔ ∃ l, w.runs[number]? = some (.accepted l) ∧ p l := by
  simp only [shows, Option.any_eq_true, Option.bind_eq_some_iff]
  constructor
  · rintro ⟨l, ⟨r, there, is⟩, h⟩
    cases r with
    | refused _ _ => cases is
    | accepted l' =>
      cases Option.some.inj is
      exact ⟨l, there, h⟩
  · rintro ⟨l, there, h⟩
    exact ⟨l, ⟨_, there, rfl⟩, h⟩

end World

open World

/-- What can happen to a world. Steps that set a launcher or send a signal happen only if they are
allowed; launches may be made at any time, since handlers make them too. -/
inductive Move (allowed : Step → Prop) (w : World) : World → Prop where
  | act {t : Instant} {i : Nat} {l : Launch} (first : w.next = some (t, i))
      (there : w.runs[i]? = some (.accepted l)) : Move allowed w (w.acted t i l)
  | pass {t : Instant} (idle : ∀ u i, w.next = some (u, i) → t < u) :
      Move allowed w { w with now := max w.now t, tasks := w.undone }
  | turn : Move allowed w { w with tasks := w.undone }
  | launch (target : Target) (handler : Option Handler) :
      Move allowed w (w.launch target handler).world
  | set {name : String} {change : Change} (ok : allowed (.set name change)) :
      Move allowed w (w.configure name change.apply)
  | setJava (java : Value) : Move allowed w { w with java := java }
  | signal {number : Nat} {order : Order} (ok : allowed (.signal number order)) :
      Move allowed w (w.signal number order).1

def Reaches (allowed : Step → Prop) : World → World → Prop := Relation.ReflTransGen (Move allowed)

section
variable {allowed : Step → Prop} {u v w : World}

theorem Reaches.refl : Reaches allowed w w := Relation.ReflTransGen.refl

theorem Reaches.trans (first : Reaches allowed u v) (second : Reaches allowed v w) :
    Reaches allowed u w := Relation.ReflTransGen.trans first second

theorem Reaches.of_move (move : Move allowed v w) : Reaches allowed v w :=
  Relation.ReflTransGen.single move

theorem step_reaches {t : Instant} {i : Nat} (first : w.next = some (t, i)) :
    Reaches allowed w (w.step t i) := by
  obtain ⟨l, there, -⟩ := next_eq_some first
  have act : Reaches allowed w (w.acted t i l) := .of_move (.act first there)
  rw [step_eq t there]
  split
  · exact act.trans (.of_move (.launch _ _))
  · exact act

theorem step_now (w : World) (t : Instant) (i : Nat) :
    (w.step t i).now = w.now ∨ (w.step t i).now = max w.now t := by
  unfold step
  split
  · right
    split
    · rw [launch_now]
    · rfl
  · exact .inl rfl

theorem settleWithin_reaches {target : Instant} {fuel : Nat}
    (settled : settleWithin target fuel u = some w) :
    Reaches allowed u w ∧ w.now = max u.now target ∧
      ∀ t i, w.next = some (t, i) → target < t := by
  induction fuel generalizing u with
  | zero => cases settled
  | succ fuel ih =>
    unfold settleWithin at settled
    split at settled
    · rename_i t i first
      split at settled
      · rename_i due
        obtain ⟨reached, now, idle⟩ := ih settled
        refine ⟨(step_reaches first).trans reached, ?_, idle⟩
        rcases step_now u t i with h | h <;> rw [now, h]
        rw [Nat.max_assoc, Nat.max_eq_right due]
      · rename_i later
        cases Option.some.inj settled
        have idle : ∀ v j, u.next = some (v, j) → target < v := by
          intro v j h
          cases Option.some.inj (first.symm.trans h)
          exact Nat.lt_of_not_ge later
        exact ⟨.of_move (.pass idle), rfl, idle⟩
    · rename_i nothing
      cases Option.some.inj settled
      have idle : ∀ v j, u.next = some (v, j) → target < v := by
        intro v j h
        cases nothing.symm.trans h
      exact ⟨.of_move (.pass idle), rfl, idle⟩

theorem sleep_reaches {ms : Nat} (slept : u.sleep ms = some w) :
    Reaches allowed u w ∧ w.now = u.now + Clock.millis ms ∧ w.Settled := by
  obtain ⟨reached, now, idle⟩ := settleWithin_reaches slept
  rw [Nat.max_eq_right (Nat.le_add_right _ _)] at now
  exact ⟨reached, now, fun t i first => now ▸ idle t i first⟩

theorem sleep_now {ms : Nat} (slept : u.sleep ms = some w) : w.now = u.now + Clock.millis ms :=
  (@sleep_reaches (fun _ => True) u w ms slept).2.1

theorem gatherWithin_reaches {numbers : List Nat} {fuel : Nat}
    (gathered : gatherWithin numbers fuel u = some w) : Reaches allowed u w := by
  induction fuel generalizing u with
  | zero => cases gathered
  | succ fuel ih =>
    unfold gatherWithin at gathered
    split at gathered
    · cases Option.some.inj gathered
      exact .refl
    · split at gathered
      · rename_i t i first
        exact (step_reaches first).trans (ih gathered)
      · cases gathered

theorem told_keeps {P : World → Prop}
    (step : ∀ w t i, P w → w.next = some (t, i) → t ≤ w.now → P (w.step t i))
    (h : P { w with tasks := w.undone }) : P w.told := by
  unfold told
  generalize 2 * w.runs.length = fuel
  generalize w.runs.length = bound
  generalize ({ w with tasks := w.undone } : World) = v at h ⊢
  induction fuel generalizing v with
  | zero => exact h
  | succ fuel ih =>
    unfold tellWithin
    split
    · rename_i t i first
      split
      · rename_i prompt
        have soon : t ≤ v.now := by simp_all [isPrompt]
        exact ih _ (step v t i h first soon)
      · exact h
    · exact h

theorem told_reaches (w : World) : Reaches allowed w w.told :=
  told_keeps (P := fun v => Reaches allowed w v)
    (fun _ _ _ reached first _ => reached.trans (step_reaches first)) (.of_move .turn)

theorem drainWithin_reaches {launcher : String} {rounds : Nat}
    (drained : drainWithin launcher rounds u = some w) :
    Reaches allowed u w ∧ w.pending launcher = 0 := by
  induction rounds generalizing u with
  | zero => cases drained
  | succ rounds ih =>
    unfold drainWithin at drained
    split at drained
    · rename_i none
      cases Option.some.inj drained
      exact ⟨.refl, none⟩
    · obtain ⟨v, gathered, rest⟩ := Option.bind_eq_some_iff.mp drained
      obtain ⟨reached, none⟩ := ih rest
      have turned : Reaches allowed v v.told.told := (told_reaches v).trans (told_reaches v.told)
      exact ⟨(gatherWithin_reaches gathered).trans (turned.trans reached), none⟩

theorem drain_reaches {launcher : String} (drained : u.drain launcher = some w) :
    ∃ v, Reaches allowed u v ∧ v.pending launcher = 0 ∧ Reaches allowed v w ∧ w.Settled := by
  obtain ⟨v, returned, settled⟩ := Option.bind_eq_some_iff.mp drained
  obtain ⟨before, none⟩ := drainWithin_reaches returned
  obtain ⟨after, now, idle⟩ := settleWithin_reaches settled
  rw [Nat.max_self] at now
  exact ⟨v, before, none, after, fun t i first => now ▸ idle t i first⟩

theorem perform_reaches {s : Step} {answer : Answer} (ok : allowed s)
    (performed : u.perform s = some (w, answer)) : Reaches allowed u w := by
  cases s with
  | run target handler =>
    cases Option.some.inj performed
    exact .of_move (.launch target handler)
  | sleep ms =>
    obtain ⟨v, slept, h⟩ := Option.map_eq_some_iff.mp performed
    cases h
    exact (sleep_reaches slept).1
  | drain launcher =>
    obtain ⟨v, drained, h⟩ := Option.map_eq_some_iff.mp performed
    cases h
    obtain ⟨_, before, -, after, -⟩ := drain_reaches drained
    exact before.trans after
  | set name change =>
    cases Option.some.inj performed
    exact .of_move (.set ok)
  | setJava java =>
    cases Option.some.inj performed
    exact .of_move (.setJava java)
  | signal number order =>
    have move : Move allowed u (u.signal number order).1 := .signal ok
    simp only [perform] at performed
    split at performed <;> rename_i h <;> cases Option.some.inj performed <;> rw [h] at move <;>
      exact .of_move move

theorem through_reaches {steps : List Step} (ok : ∀ s ∈ steps, allowed s)
    (played : u.through steps = some w) : Reaches allowed u w := by
  induction steps generalizing u with
  | nil => exact Option.some.inj played ▸ .refl
  | cons s steps ih =>
    obtain ⟨⟨v, answer⟩, performed, rest⟩ := Option.bind_eq_some_iff.mp played
    have first : Reaches allowed u v := perform_reaches (ok s List.mem_cons_self) performed
    exact first.trans (ih (fun x hx => ok x (List.mem_cons_of_mem _ hx)) rest)

end

end JarLaunch
