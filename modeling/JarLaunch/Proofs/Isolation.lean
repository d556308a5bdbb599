import JarLaunch.Proofs.Settling

/-! Isolation of launches. Where no handler makes launches and no list is shared, all that a launch
takes from its world is the time at which it is made; the rest of the scenario may be left out, and
the launch goes through the same states at the same instants. -/
namespace JarLaunch

namespace World

theorem launch_lists (w : World) (target : Target) (handler : Option Handler) :
    (w.launch target handler).world.lists =
      (w.keepArguments target.source ((w.launcher target.launcher).prepare w.java w.jar
        (w.arguments target.source)).args).lists := by
  unfold launch
  dsimp only
  split <;> rfl

theorem launch_arguments (w : World) {target : Target} (handler : Option Handler) {source : Source}
    (apart : ∀ name, target.source = .shared name → source ≠ .shared name) :
    (w.launch target handler).world.arguments source = w.arguments source := by
  have lists := w.launch_lists target handler
  cases source with
  | own args => rfl
  | shared name =>
    simp only [arguments, lists]
    cases own : target.source with
    | own _ => rfl
    | shared key =>
      have other : name ≠ key := fun same => apart key own (same ▸ rfl)
      unfold keepArguments
      split
      · rename_i used _
        cases used
        rw [lookup_assign, if_neg other]
      · rfl

end World

/-- What a scenario around a launch may consist of: waits, and launches that share no list with it
and whose handlers make no launches. -/
def Step.Apart (start : World) (source : Source) : Step → Prop
  | .run target handler =>
    (∀ name, target.source = .shared name → source ≠ .shared name) ∧
      ∀ h, (start.handlerFor target handler).1 = some h → h.isQuiet
  | .sleep _ => True
  | _ => False

def Step.isRun : Step → Bool
  | .run _ _ => true
  | _ => false

def Step.isSleep : Step → Bool
  | .sleep _ => true
  | _ => false

def Step.span : Step → Span
  | .sleep ms => Clock.millis ms
  | _ => 0

namespace World

structure Reserves (start : World) (source : Source) (w : World) : Prop where
  java : w.java = start.java
  jar : w.jar = start.jar
  launchers : w.launchers = start.launchers
  arguments : w.arguments source = start.arguments source
  quiet : w.Quiet

section
variable {start u w : World} {source : Source}

theorem Reserves.launcher (h : Reserves start source w) (name : String) :
    w.launcher name = start.launcher name := by
  unfold World.launcher
  rw [h.launchers]

theorem Reserves.step (h : Reserves start source w) {t : Instant} {i : Nat}
    (first : w.next = some (t, i)) :
    Reserves start source (w.step t i) ∧ (w.step t i).runs.length = w.runs.length := by
  have quiet := h.quiet.step first
  obtain ⟨l, -, acts⟩ := h.quiet.step_eq first
  rw [acts] at quiet ⊢
  exact ⟨⟨h.java, h.jar, h.launchers, h.arguments, quiet⟩, List.length_set⟩

theorem Reserves.sleep (h : Reserves start source u) {ms : Nat} (slept : u.sleep ms = some w) :
    Reserves start source w ∧ w.runs.length = u.runs.length := by
  refine settleWithin_keeps (P := fun v => Reserves start source v ∧ v.runs.length = u.runs.length)
    (fun v t i kept first => ?_) (fun v t kept => ?_) slept ⟨h, rfl⟩
  · obtain ⟨reserves, length⟩ := kept.1.step first
    exact ⟨reserves, length.trans kept.2⟩
  · obtain ⟨⟨java, jar, launchers, arguments, quiet⟩, length⟩ := kept
    exact ⟨⟨java, jar, launchers, arguments, quiet.reckoned, quiet.handlers⟩, length⟩

theorem Reserves.launch (h : Reserves start source w) {target : Target} {handler : Option Handler}
    (shared : ∀ name, target.source = .shared name → source ≠ .shared name)
    (quiet : ∀ h, (start.handlerFor target handler).1 = some h → h.isQuiet) :
    Reserves start source (w.launch target handler).world := by
  obtain ⟨lists, world⟩ := w.launch_world target handler
  have chosen : w.handlerFor target handler = start.handlerFor target handler := by
    unfold handlerFor
    rw [h.launcher]
  refine ⟨by rw [world, h.java], by rw [world, h.jar], by rw [world, h.launchers],
    (w.launch_arguments handler shared).trans h.arguments, ?_, ?_⟩
  · refine (launch_reckoned h.quiet.reckoned target handler fun k has => ?_).1
    rw [chosen] at has
    exact Handler.selfContained_of_isQuiet (quiet k has)
  · intro l member
    rw [launch_runs, List.mem_append, List.mem_singleton] at member
    rcases member with old | new
    · exact h.quiet.handlers l old
    · obtain ⟨command, -, created⟩ := made_accepted new.symm
      rw [(Launch.create_accounted created).2.1, chosen]
      exact quiet

theorem Reserves.perform (h : Reserves start source w) {s : Step} (apart : s.Apart start source) :
    ∃ v answer, w.perform s = some (v, answer) ∧ Reserves start source v ∧
      v.now = w.now + s.span ∧ v.runs.length = w.runs.length + [s].countP Step.isRun := by
  cases s with
  | run target handler =>
    refine ⟨_, _, rfl, h.launch apart.1 apart.2, w.launch_now target handler, ?_⟩
    simp [launch_runs, Step.isRun]
  | sleep ms =>
    obtain ⟨v, slept⟩ := Option.isSome_iff_exists.mp (sleep_isSome h.quiet.reckoned ms)
    obtain ⟨reserves, length⟩ := h.sleep slept
    exact ⟨v, .quiet, by simp [World.perform, slept], reserves, sleep_now slept, length⟩
  | drain _ => exact apart.elim
  | set _ _ => exact apart.elim
  | setJava _ => exact apart.elim
  | signal _ _ => exact apart.elim

/-- Steps that keep apart come to their end, and reserve what a launch needs. -/
theorem Reserves.through (h : Reserves start source w) {steps : List Step}
    (apart : ∀ s ∈ steps, s.Apart start source) :
    ∃ v, w.through steps = some v ∧ Reserves start source v ∧
      v.now = w.now + (steps.map Step.span).sum ∧
      v.runs.length = w.runs.length + steps.countP Step.isRun := by
  induction steps generalizing w with
  | nil => exact ⟨w, rfl, h, rfl, rfl⟩
  | cons s steps ih =>
    obtain ⟨u, answer, performed, reserves, now, length⟩ := h.perform (apart s List.mem_cons_self)
    obtain ⟨v, rest, reserves', now', length'⟩ :=
      ih reserves fun x hx => apart x (List.mem_cons_of_mem _ hx)
    refine ⟨v, ?_, reserves', ?_, ?_⟩
    · simp only [World.through, performed, Option.bind_some, rest]
    · rw [now', now, List.map_cons, List.sum_cons, Nat.add_assoc]
    · simp only [length', length, List.countP_cons, List.countP_nil]
      omega

end

end World

def Run.anonymous : Run → Run
  | .refused launcher refusal => .refused launcher refusal
  | .accepted l => .accepted l.anonymous

theorem Launch.create_anonymous (launcher : String) (handler : Option Handler × Recipient)
    (now : Instant) (pid pid' : Nat) (command : List Value) (spawn : Spawn) :
    (create launcher handler now pid command spawn).map anonymous =
      (create launcher handler now pid' command spawn).map anonymous := by
  unfold create
  dsimp only
  split <;> rfl

namespace World

theorem Reserves.made {start w w' : World} {target : Target}
    (h : Reserves start target.source w) (h' : Reserves start target.source w')
    (now : w.now = w'.now) (handler : Option Handler) :
    (w.made target handler).anonymous = (w'.made target handler).anonymous := by
  have command : w.commandFor target = w'.commandFor target := by
    simp only [commandFor, h.launcher, h'.launcher, h.java, h'.java, h.jar, h'.jar, h.arguments,
      h'.arguments]
  have chosen : w.handlerFor target handler = w'.handlerFor target handler := by
    simp only [handlerFor, h.launcher, h'.launcher]
  unfold World.made
  rw [command, chosen, now]
  cases w'.commandFor target with
  | error refusal => rfl
  | ok command =>
    have created := Launch.create_anonymous target.launcher (w'.handlerFor target handler) w'.now
      w.nextPid w'.nextPid command target.spawn
    simp only [Except.bind]
    split <;> rename_i one <;> split <;> rename_i other <;>
      simp only [one, other, Except.map, reduceCtorEq, Except.error.injEq,
        Except.ok.injEq] at created
    · rw [created]
    · exact congrArg Run.accepted created

/-- A run of one world and a run of another are the same but for the number of the child: the same
calls, the same doing of the handler, at the same instants. -/
def Agree (w : World) (i : Nat) (w' : World) (j : Nat) : Prop :=
  ∃ r r', w.runs[i]? = some r ∧ w'.runs[j]? = some r' ∧ r.calls = r'.calls ∧
    r.anonymous = r'.anonymous

theorem agree_of_anonymous {w w' : World} {i j : Nat} {r r' : Run} (there : w.runs[i]? = some r)
    (there' : w'.runs[j]? = some r') (same : r.anonymous = r'.anonymous) : Agree w i w' j := by
  have calls (r : Run) : r.anonymous.calls = r.calls := by cases r <;> rfl
  exact ⟨r, r', there, there', by rw [← calls r, same, calls], same⟩

section
variable {start u u' w w' : World} {source : Source} {i j : Nat}

theorem Agree.sleep {ms : Nat} (agree : Agree u i u' j) (now : u.now = u'.now)
    (launchers : u.launchers = u'.launchers) (slept : u.sleep ms = some w)
    (slept' : u'.sleep ms = some w') : Agree w i w' j := by
  obtain ⟨r, r', there, there', -, same⟩ := agree
  cases r with
  | refused name refusal =>
    cases r' with
    | refused name' refusal' =>
      have stays := (@sleep_reaches (fun _ => True) u w ms slept).1.refused there
      have stays' := (@sleep_reaches (fun _ => True) u' w' ms slept').1.refused there'
      exact agree_of_anonymous stays stays' same
    | accepted l' => cases same
  | accepted l =>
    cases r' with
    | refused name' refusal' => cases same
    | accepted l' =>
      have alike : l.anonymous = l'.anonymous := Run.accepted.inj same
      have timeout : (u.launcher l.launcher).timeout = (u'.launcher l'.launcher).timeout := by
        rw [Launch.launcher_alike alike, launcher, launcher, launchers]
      obtain ⟨m, still, settles⟩ := sleep_settles slept there
      obtain ⟨m', still', settles'⟩ := sleep_settles slept' there'
      obtain ⟨m₂, settles₂, alike₂⟩ := settles.alike alike
      rw [timeout, now] at settles₂
      cases settles₂.unique settles'
      exact agree_of_anonymous still still' (congrArg Run.accepted alike₂)

/-- Two worlds in step: each reserves what the start offers, at one instant, and a run of the one
is the run of the other. -/
structure Abreast (start : World) (source : Source) (i : Nat) (w : World) (j : Nat) (w' : World) :
    Prop where
  left : Reserves start source w
  right : Reserves start source w'
  now : w.now = w'.now
  agree : Agree w i w' j
  sole : w'.runs.length = 1

/-- Worlds stay in step when the launches are left out of one of them. -/
theorem Abreast.through (h : Abreast start source i w j w') {steps : List Step}
    (apart : ∀ s ∈ steps, s.Apart start source) :
    ∃ v v', w.through steps = some v ∧ w'.through (steps.filter Step.isSleep) = some v' ∧
      Abreast start source i v j v' := by
  induction steps generalizing w w' with
  | nil => exact ⟨w, w', rfl, rfl, h⟩
  | cons s steps ih =>
    have here := apart s List.mem_cons_self
    have later : ∀ x ∈ steps, x.Apart start source :=
      fun x hx => apart x (List.mem_cons_of_mem _ hx)
    cases s with
    | run target handler =>
      have left := h.left.launch here.1 here.2
      obtain ⟨r, r', there, there', -, same⟩ := h.agree
      have still : (w.launch target handler).world.runs[i]? = some r := by
        rw [launch_runs, List.getElem?_append_left (List.getElem?_eq_some_iff.mp there).1, there]
      exact ih ⟨left, h.right, (w.launch_now target handler).trans h.now,
        agree_of_anonymous still there' same, h.sole⟩ later
    | sleep ms =>
      obtain ⟨u, slept⟩ := Option.isSome_iff_exists.mp (sleep_isSome h.left.quiet.reckoned ms)
      obtain ⟨u', slept'⟩ := Option.isSome_iff_exists.mp (sleep_isSome h.right.quiet.reckoned ms)
      have now : u.now = u'.now := by rw [sleep_now slept, sleep_now slept', h.now]
      have agree := h.agree.sleep h.now (h.left.launchers.trans h.right.launchers.symm) slept slept'
      obtain ⟨v, v', rest, rest', abreast⟩ :=
        ih ⟨(h.left.sleep slept).1, (h.right.sleep slept').1, now, agree,
          (h.right.sleep slept').2.trans h.sole⟩ later
      refine ⟨v, v', ?_, ?_, abreast⟩
      · simp only [World.through, World.perform, slept, Option.map_some, Option.bind_some, rest]
      · rw [List.filter_cons_of_pos rfl]
        simp only [World.through, World.perform, slept', Option.map_some, Option.bind_some, rest']
    | drain _ => exact here.elim
    | set _ _ => exact here.elim
    | setJava _ => exact here.elim
    | signal _ _ => exact here.elim

end

/-- Drains keep runs in agreement, and end alone if they end in company. -/
theorem Abreast.drain {start v v' w : World} {source : Source} {i : Nat}
    (h : Abreast start source i v 0 v') (tracked : v.Tracked) (tracked' : v'.Tracked)
    {launcher : String} (owner : ∀ l, v.runs[i]? = some (.accepted l) → l.launcher = launcher)
    {drains : List String} (among : launcher ∈ drains)
    (drained : v.through (drains.map .drain) = some w) :
    ∃ w', v'.through (drains.map .drain) = some w' ∧ Agree w i w' 0 := by
  obtain ⟨r, r', there, there', -, same⟩ := h.agree
  have drainsOnly (u : World) : ∀ s ∈ drains.map Step.drain, (fun _ => True) s := fun _ _ => trivial
  have only (l : Launch) (member : .accepted l ∈ v'.runs) : r' = .accepted l := by
    obtain ⟨j, at_j⟩ := List.mem_iff_getElem?.mp member
    have first : j = 0 := by
      have := (List.getElem?_eq_some_iff.mp at_j).1
      have := h.sole
      omega
    subst j
    exact Option.some.inj (there'.symm.trans at_j)
  cases r with
  | refused name refusal =>
    cases r' with
    | accepted l' => cases same
    | refused name' refusal' =>
      obtain ⟨w', drained'⟩ :=
        drains_return drains h.right.quiet fun l member => nomatch only l member
      have stays := (through_reaches (drainsOnly v) drained).refused there
      have stays' := (through_reaches (drainsOnly v') drained').refused there'
      exact ⟨w', drained', agree_of_anonymous stays stays' same⟩
  | accepted l =>
    cases r' with
    | refused name' refusal' => cases same
    | accepted l' =>
      have alike : l.anonymous = l'.anonymous := Run.accepted.inj same
      have owner' : l'.launcher = launcher := Launch.launcher_alike alike ▸ owner l there
      have timeout : (v.launcher launcher).timeout = (v'.launcher launcher).timeout := by
        rw [h.left.launcher, h.right.launcher]
      obtain ⟨e, still, halted, settles⟩ := drains_settle among drained tracked there (owner l there)
      obtain ⟨e', settles', alike'⟩ := settles.alike alike
      have halted' : e'.stage = .ended := Launch.stage_alike alike' ▸ halted
      rw [timeout] at settles'
      obtain ⟨w', drained'⟩ := drains_return drains h.right.quiet fun m member => by
        cases only m member
        exact ⟨e', owner' ▸ settles', halted'⟩
      obtain ⟨e₂, still', -, settles₂⟩ := drains_settle among drained' tracked' there' owner'
      cases settles₂.unique settles'
      exact ⟨w', drained', agree_of_anonymous still still' (congrArg Run.accepted alike')⟩

end World

theorem Step.span_filter_isSleep (steps : List Step) :
    ((steps.filter Step.isSleep).map Step.span).sum = (steps.map Step.span).sum := by
  induction steps with
  | nil => rfl
  | cons s steps ih =>
    cases s with
    | sleep ms => rw [List.filter_cons_of_pos rfl, List.map_cons, List.sum_cons, ih, List.map_cons,
        List.sum_cons]
    | _ => simpa [Step.isSleep, Step.span] using ih

theorem Step.countP_filter_isSleep (steps : List Step) :
    (steps.filter Step.isSleep).countP Step.isRun = 0 := by
  rw [List.countP_eq_zero]
  intro s hs
  cases s <;> simp [Step.isSleep, Step.isRun] at hs ⊢

theorem Launch.create_launcher {launcher : String} {handler : Option Handler × Recipient}
    {now : Instant} {pid : Nat} {command : List Value} {spawn : Spawn} {l : Launch}
    (created : create launcher handler now pid command spawn = .ok l) : l.launcher = launcher := by
  unfold create at created
  dsimp only at created
  split at created <;> cases created <;> rfl

theorem Reaches.launch_owner {allowed : Step → Prop} {u w : World} {target : Target}
    {handler : Option Handler} (reached : Reaches allowed (u.launch target handler).world w)
    {l : Launch} (there : w.runs[u.runs.length]? = some (.accepted l)) :
    l.launcher = target.launcher := by
  have made := u.launch_made target handler
  cases made' : u.made target handler with
  | refused name refusal =>
    rw [made'] at made
    cases (reached.refused made).symm.trans there
  | accepted l₀ =>
    rw [made'] at made
    obtain ⟨command, -, created⟩ := World.made_accepted made'
    obtain ⟨l', there', owner⟩ := reached.keeps_always (P := fun l => l.launcher = target.launcher)
      made (Launch.create_launcher created)
      (fun l' t timeout h _ => (l'.act_launcher t timeout).trans h) (fun _ _ h => h)
    cases Option.some.inj (there.symm.trans there')
    exact owner

def Step.around (target : Target) (handler : Option Handler) (before after : List Step) :
    List Step :=
  before ++ .run target handler :: after

namespace World

theorem abreast_alone {start : World} (new : start.runs = []) {target : Target}
    {handler : Option Handler}
    (quiet : ∀ h, (start.handlerFor target handler).1 = some h → h.isQuiet)
    {before after : List Step} (apart : ∀ s ∈ before ++ after, s.Apart start target.source) :
    ∃ v v', start.through (Step.around target handler before after) = some v ∧
      start.through (Step.around target handler (before.filter Step.isSleep)
        (after.filter Step.isSleep)) = some v' ∧
      Abreast start (.own (.list [])) (before.countP Step.isRun) v 0 v' ∧
      ∀ l, v.runs[before.countP Step.isRun]? = some (.accepted l) →
        l.launcher = target.launcher := by
  have nobody : start.Quiet := ⟨by simp [Reckoned, new], by simp [new]⟩
  have fresh : Reserves start target.source start := ⟨rfl, rfl, rfl, rfl, nobody⟩
  obtain ⟨u, played, reserves, now, length⟩ :=
    fresh.through fun s hs => apart s (List.mem_append_left _ hs)
  have sleeps : ∀ s ∈ before.filter Step.isSleep, s.Apart start target.source :=
    fun s hs => apart s (List.mem_append_left _ (List.mem_filter.mp hs).1)
  obtain ⟨u', played', reserves', now', length'⟩ := fresh.through sleeps
  rw [Step.span_filter_isSleep, ← now] at now'
  rw [new, Step.countP_filter_isSleep] at length'
  rw [new, List.length_nil, Nat.zero_add] at length
  -- the launch itself may use up a shared list, so from here on only the settings are compared
  have abreast : Abreast start (.own (.list [])) u.runs.length (u.launch target handler).world
      0 (u'.launch target handler).world := by
    have left : Reserves start (.own (.list [])) u := ⟨reserves.java, reserves.jar,
      reserves.launchers, rfl, reserves.quiet⟩
    have right : Reserves start (.own (.list [])) u' := ⟨reserves'.java, reserves'.jar,
      reserves'.launchers, rfl, reserves'.quiet⟩
    have made' := u'.launch_made target handler
    rw [length'] at made'
    refine ⟨left.launch (fun _ _ h => nomatch h) quiet, right.launch (fun _ _ h => nomatch h) quiet,
      ?_, agree_of_anonymous (u.launch_made target handler) made'
        (reserves.made reserves' now'.symm handler), ?_⟩
    · rw [launch_now, launch_now, now']
    · rw [launch_runs, List.length_append, length']
      rfl
  have apart' : ∀ s ∈ after, s.Apart start (.own (.list [])) := by
    intro s hs
    have h := apart s (List.mem_append_right _ hs)
    cases s with
    | run _ _ => exact ⟨fun _ _ shared => (nomatch shared), h.2⟩
    | sleep _ => trivial
    | drain _ => exact h.elim
    | set _ _ => exact h.elim
    | setJava _ => exact h.elim
    | signal _ _ => exact h.elim
  obtain ⟨v, v', rest, rest', h⟩ := abreast.through apart'
  rw [← length]
  refine ⟨v, v', ?_, ?_, h, fun l there => ?_⟩
  · simp only [Step.around, through_append, played, Option.bind_some, through, perform, rest]
  · simp only [Step.around, through_append, played', Option.bind_some, through, perform, rest']
  · have all : ∀ s ∈ after, (fun _ : Step => True) s := fun _ _ => trivial
    exact (through_reaches all rest).launch_owner there

theorem drained_alone {start w : World} (new : start.runs = []) {target : Target}
    {handler : Option Handler}
    (quiet : ∀ h, (start.handlerFor target handler).1 = some h → h.isQuiet)
    {before after : List Step} (apart : ∀ s ∈ before ++ after, s.Apart start target.source)
    {drains : List String} (among : target.launcher ∈ drains)
    (drained : start.through (Step.around target handler before after ++ drains.map .drain) =
      some w) :
    ∃ w', start.through (Step.around target handler (before.filter Step.isSleep)
        (after.filter Step.isSleep) ++ drains.map .drain) = some w' ∧
      w.Agree (before.countP Step.isRun) w' 0 := by
  obtain ⟨v, v', played, played', abreast, owner⟩ := abreast_alone new quiet apart
  have tracked {steps : List Step} {u : World} (reached : start.through steps = some u) :
      u.Tracked := by
    have all : ∀ s ∈ steps, (fun _ : Step => True) s := fun _ _ => trivial
    exact (tracked_of_new new).reaches (through_reaches all reached)
  rw [through_append, played, Option.bind_some] at drained
  rw [through_append, played', Option.bind_some]
  exact abreast.drain (tracked played) (tracked played') owner among drained

theorem Agree.symm_trans {w w₂ w' : World} {i i₂ j : Nat} (first : Agree w i w' j)
    (second : Agree w₂ i₂ w' j) : Agree w i w₂ i₂ := by
  obtain ⟨r, r', there, there', -, same⟩ := first
  obtain ⟨r₂, r₂', there₂, there₂', -, same₂⟩ := second
  cases Option.some.inj (there'.symm.trans there₂')
  exact agree_of_anonymous there there₂ (same.trans same₂.symm)

end World

/-- A launch in company goes as it goes alone, with the same waits before and after it: at the end
of the waits, where both come to their end and at the same instant, and after drains, where it
comes to its end alone if it does so in company. So one company is as good as another. -/
theorem launches_isolated {start : World} (new : start.runs = []) {target : Target}
    {handler : Option Handler}
    (quiet : ∀ h, (start.handlerFor target handler).1 = some h → h.isQuiet)
    {before after : List Step} (apart : ∀ s ∈ before ++ after, s.Apart start target.source) :
    let company := Step.around target handler before after
    let alone := Step.around target handler (before.filter Step.isSleep)
      (after.filter Step.isSleep)
    (∃ v v', start.through company = some v ∧ start.through alone = some v' ∧ v.now = v'.now ∧
      v.Agree (before.countP Step.isRun) v' 0) ∧
    (∀ (drains : List String) w, target.launcher ∈ drains →
      start.through (company ++ drains.map .drain) = some w →
      ∃ w', start.through (alone ++ drains.map .drain) = some w' ∧
        w.Agree (before.countP Step.isRun) w' 0) ∧
    (∀ before' after' (drains : List String) w w',
      (∀ s ∈ before' ++ after', s.Apart start target.source) →
      before'.filter Step.isSleep = before.filter Step.isSleep →
      after'.filter Step.isSleep = after.filter Step.isSleep → target.launcher ∈ drains →
      start.through (company ++ drains.map .drain) = some w →
      start.through (Step.around target handler before' after' ++ drains.map .drain) = some w' →
      w.Agree (before.countP Step.isRun) w' (before'.countP Step.isRun)) := by
  intro company alone
  refine ⟨?_, fun drains w among drained =>
    World.drained_alone new quiet apart among drained, ?_⟩
  · obtain ⟨v, v', played, played', abreast, -⟩ := World.abreast_alone new quiet apart
    exact ⟨v, v', played, played', abreast.now, abreast.agree⟩
  · intro before' after' drains w w' apart' sameBefore sameAfter among drained drained'
    obtain ⟨x, ends, agree⟩ := World.drained_alone new quiet apart among drained
    obtain ⟨y, ends', agree'⟩ := World.drained_alone new quiet apart' among drained'
    rw [sameBefore, sameAfter] at ends'
    cases Option.some.inj (ends.symm.trans ends')
    exact agree.symm_trans agree'

/-- Two launches of which one fails its handler and the other keeps its handler busy make no
difference to a third. -/
theorem launch_between_others_isolated :
    let start := World.solo { timeout := .flag true }
    let target := World.soloTarget (.starts { exit := some (-15), lifetime := 5, hold := some 2 })
    let failing := Step.run (World.soloTarget (.starts { exit := some 7, lifetime := 4 }))
      (some .fails)
    let busy := Step.run (World.soloTarget (.starts {})) (some (.lingers 50))
    ∃ w w' l,
      start.through (Step.around target (some (.dozes 6)) [failing, .sleep 3] [busy, .sleep 4] ++
        [.drain "main"]) = some w ∧
      start.through (Step.around target (some (.dozes 6)) [.sleep 3] [.sleep 4] ++
        [.drain "main"]) = some w' ∧
      w'.runs[0]? = some (.accepted l) ∧ l.calls.length = 1 ∧ w.Agree 1 w' 0 := by
  intro start target failing busy
  have company : (start.through (Step.around target (some (.dozes 6)) [failing, .sleep 3]
      [busy, .sleep 4] ++ [.drain "main"])).isSome := by decide +kernel
  have alone : (start.through (Step.around target (some (.dozes 6)) [.sleep 3] [.sleep 4] ++
      [.drain "main"])).any fun w => w.shows 0 fun l => l.calls.length = 1 := by decide +kernel
  obtain ⟨w, drained⟩ := Option.isSome_iff_exists.mp company
  obtain ⟨w', drained', h⟩ := (Option.any_eq_true _ _).mp alone
  obtain ⟨l, there, once⟩ := (w'.shows_iff 0 _).mp h
  have apart : ∀ s ∈ [failing, .sleep 3] ++ [busy, .sleep 4], s.Apart start target.source := by
    simp [failing, busy, Step.Apart, World.soloTarget, start, World.handlerFor,
      Launcher.handlerFor, Handler.counts, Handler.isQuiet]
  have quiet : ∀ h, (start.handlerFor target (some (.dozes 6))).1 = some h → h.isQuiet := by
    simp [World.handlerFor, Launcher.handlerFor, Handler.counts, Handler.isQuiet]
  obtain ⟨_, ends, agree⟩ := (launches_isolated rfl quiet apart).2.1 ["main"] w
    (List.mem_singleton.mpr rfl) drained
  cases Option.some.inj (drained'.symm.trans ends)
  exact ⟨w, w', l, drained, drained', there, of_decide_eq_true once, agree⟩

end JarLaunch
