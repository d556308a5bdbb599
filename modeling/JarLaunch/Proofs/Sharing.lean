import JarLaunch.Proofs.Isolation
import JarLaunch.Proofs.Timeline

/-! Launches that share their arguments. Every launch that was asked for took the settings and the
arguments as they stood at that moment, and left its jar at the front of a list that it shared. So
a shared list carries one jar for each launch that got as far as its arguments, the newest first,
while the commands that were made of it stay as they were. -/
namespace JarLaunch

namespace Arguments

/-- What a container holds, if words can be taken from it and the jar put in front of them. -/
def elements : Arguments → Option (List Value)
  | .list vs | .tuple vs | .userList vs | .iterator vs => some vs
  | .text t => some (t.map fun m => .text [m])
  | .bytes bs => some (bs.map fun b => .integer b.toNat)
  | .queue _ | .buffer _ | .nothing | .number _ => none

def isMutableList : Arguments → Bool
  | .list _ | .userList _ => true
  | _ => false

inductive Grown (jar : Text) : Arguments → Arguments → Prop where
  | list (vs : List Value) : Grown jar (.list vs) (.list (.text jarFlag :: .text jar :: vs))
  | userList (vs : List Value) :
      Grown jar (.userList vs) (.userList (.text jarFlag :: .text jar :: vs))
  | fixed {args : Arguments} (immutable : args.isMutableList = false) : Grown jar args args

theorem afterJar_grown (jar : Text) (args : Arguments) : Grown jar args (args.afterJar jar) := by
  cases args with
  | list vs => exact .list vs
  | userList vs => exact .userList vs
  | _ => exact .fixed rfl

theorem withJar_eq_ok_iff {jar : Text} {args : Arguments} {words : List Value} :
    args.withJar jar = .ok words ↔
      ∃ vs, args.elements = some vs ∧ words = .text jarFlag :: .text jar :: vs := by
  cases args with
  | queue _ | buffer _ | nothing | number _ => simp [withJar, elements]
  | _ =>
    constructor
    · intro made
      exact ⟨_, rfl, (Except.ok.inj made).symm⟩
    · rintro ⟨vs, holds, rfl⟩
      cases Option.some.inj holds
      rfl

end Arguments

def Spawn.answer (spawn : Spawn) (pid : Nat) (command : List Value) :
    Except Refusal (Option Nat) :=
  match spawn.attempt command with
  | (_, .refuses refusal) => .error refusal
  | (_, .fails _) => .ok none
  | (_, .starts _) => .ok (some pid)

theorem Launch.create_answer (launcher : String) (handler : Option Handler × Recipient)
    (now : Instant) (pid : Nat) (command : List Value) (spawn : Spawn) :
    (create launcher handler now pid command spawn).map (fun l => l.child.map Child.pid) =
      spawn.answer pid command := by
  unfold create Spawn.answer
  dsimp only
  cases spawn.attempt command with
  | mk line system => cases system <;> rfl

def World.list (w : World) (name : String) : List Value := (w.lists.lookup name).getD []

/-- A launch that was asked for, with the world as it stood then. -/
structure Call where
  world : World
  target : Target
  handler : Option Handler

namespace Call

variable (c : Call)

def launcher : Launcher := c.world.launcher c.target.launcher

def arguments : Arguments := c.world.arguments c.target.source

def launched : World.Launched := c.world.launch c.target c.handler

def executable : Value :=
  match c.launcher.javaPath with
  | .absent => c.world.java
  | path => path

/-- The jar, if the setting is absent, a text or a path. -/
def jar? : Option Path :=
  match c.launcher.jarPath with
  | .absent => some c.world.jar
  | .text t => some (Path.ofText t)
  | .path p => some p
  | _ => none

def Hands (command : List Value) : Prop :=
  ∃ jar vs, c.jar? = some jar ∧ c.arguments.elements = some vs ∧
    command = c.executable :: .text jarFlag :: .text jar.text :: vs

def inserted (name : String) : Option Text :=
  match c.target.source with
  | .shared key => if key = name then c.jar?.map Path.text else none
  | .own _ => none

end Call

namespace Call

variable (c : Call)

theorem executable_eq : c.launcher.executable c.world.java = c.executable := by
  unfold Launcher.executable executable
  cases c.launcher.javaPath <;> rfl

theorem jar_eq_ok_iff {jar : Path} :
    c.launcher.jar c.world.jar = .ok jar ↔ c.jar? = some jar := by
  unfold Launcher.jar jar?
  cases c.launcher.jarPath <;> simp

theorem prepare_eq {jar : Path} (known : c.jar? = some jar) :
    c.launcher.prepare c.world.java c.world.jar c.arguments =
      ⟨(c.arguments.withJar jar.text).map (c.executable :: ·), c.arguments.afterJar jar.text⟩ := by
  rw [← c.jar_eq_ok_iff] at known
  simp only [Launcher.prepare, known, executable_eq]

theorem prepare_unknown (unknown : c.jar? = none) :
    ∃ refusal, c.launcher.prepare c.world.java c.world.jar c.arguments =
      ⟨.error refusal, c.arguments⟩ := by
  cases jar : c.launcher.jar c.world.jar with
  | error refusal => exact ⟨refusal, by simp only [Launcher.prepare, jar]⟩
  | ok p => simp [c.jar_eq_ok_iff.mp jar] at unknown

theorem commandFor_eq_ok_iff {command : List Value} :
    c.world.commandFor c.target = .ok command ↔ c.Hands command := by
  have is : c.world.commandFor c.target =
      (c.launcher.prepare c.world.java c.world.jar c.arguments).command := rfl
  rw [is]
  cases known : c.jar? with
  | none =>
    obtain ⟨refusal, refused⟩ := c.prepare_unknown known
    simp [refused, Hands, known]
  | some jar =>
    rw [c.prepare_eq known]
    constructor
    · intro made
      cases words : c.arguments.withJar jar.text with
      | error refusal => simp [words, Except.map] at made
      | ok ws =>
        obtain ⟨vs, holds, rfl⟩ := Arguments.withJar_eq_ok_iff.mp words
        rw [words] at made
        exact ⟨jar, vs, known, holds, (Except.ok.inj made).symm⟩
    · rintro ⟨jar', vs, known', holds, rfl⟩
      cases Option.some.inj (known.symm.trans known')
      rw [Arguments.withJar_eq_ok_iff.mpr ⟨vs, holds, rfl⟩]
      rfl

theorem launched_args : c.launched.args =
    (c.launcher.prepare c.world.java c.world.jar c.arguments).args := by
  unfold launched World.launch
  dsimp only
  split <;> rfl

theorem launched_grown {jar : Path} (known : c.jar? = some jar) :
    Arguments.Grown jar.text c.arguments c.launched.args := by
  rw [launched_args, c.prepare_eq known]
  exact Arguments.afterJar_grown _ _

theorem launched_outcome {command : List Value} (hands : c.Hands command) :
    c.launched.outcome = c.target.spawn.answer c.world.nextPid command := by
  have made := c.commandFor_eq_ok_iff.mpr hands
  have answer := Launch.create_answer c.target.launcher (c.world.handlerFor c.target c.handler)
    c.world.now c.world.nextPid command c.target.spawn
  unfold launched
  rw [World.launch_outcome]
  unfold World.made
  simp only [made, Except.bind]
  cases created : Launch.create c.target.launcher (c.world.handlerFor c.target c.handler)
      c.world.now c.world.nextPid command c.target.spawn <;> rw [created] at answer <;> exact answer

theorem shared_args {key : String} (source : c.target.source = .shared key) :
    (c.launcher.prepare c.world.java c.world.jar c.arguments).args =
      .list ((c.jar?.map Path.text).toList.flatMap Arguments.jarWords ++ c.world.list key) := by
  have holds : c.arguments = .list (c.world.list key) := by
    rw [arguments, source]
    rfl
  cases known : c.jar? with
  | none =>
    obtain ⟨refusal, refused⟩ := c.prepare_unknown known
    rw [refused, holds]
    rfl
  | some jar =>
    rw [c.prepare_eq known, holds]
    simp [Arguments.afterJar]

theorem launched_list (name : String) : c.launched.world.list name =
    (c.inserted name).toList.flatMap Arguments.jarWords ++ c.world.list name := by
  have lists : c.launched.world.lists = (c.world.keepArguments c.target.source
      (c.launcher.prepare c.world.java c.world.jar c.arguments).args).lists :=
    c.world.launch_lists c.target c.handler
  unfold World.list inserted
  rw [lists]
  cases source : c.target.source with
  | own args => rfl
  | shared key =>
    rw [c.shared_args source]
    simp only [World.keepArguments, lookup_assign]
    by_cases same : name = key
    · subst name
      simp [World.list]
    · have other : key ≠ name := fun is => same is.symm
      simp [same, other]

end Call

/-- The way from one world to another, with the launches that were asked for on it, by steps of a
scenario or by handlers. A move that adds no run asks for none. -/
inductive Journey (u : World) : List Call → World → Prop where
  | here : Journey u [] u
  | onward {calls : List Call} {v w : World} (so : Journey u calls v)
      (move : Move (fun _ => True) v w) (same : w.runs.length = v.runs.length) :
      Journey u calls w
  | call {calls : List Call} {v : World} (so : Journey u calls v) (target : Target)
      (handler : Option Handler) :
      Journey u (calls ++ [⟨v, target, handler⟩]) (v.launch target handler).world

section
variable {allowed : Step → Prop} {u v w : World} {calls : List Call}

theorem Move.launches_or_keeps (move : Move allowed v w) :
    (∃ target handler, w = (v.launch target handler).world) ∨
      w.lists = v.lists ∧ w.runs.length = v.runs.length := by
  cases move with
  | act _ _ => exact .inr ⟨rfl, List.length_set⟩
  | pass _ | turn | set _ | setJava _ => exact .inr ⟨rfl, rfl⟩
  | launch target handler => exact .inl ⟨target, handler, rfl⟩
  | @signal number order _ =>
    right
    rcases World.signal_eq v number order with same | ⟨l, c, c', -, -, -, changed⟩
    · rw [same]
      exact ⟨rfl, rfl⟩
    · rw [changed]
      exact ⟨rfl, List.length_set⟩

/-- Wherever a world may go, it goes there by a journey. -/
theorem Reaches.journey (reached : Reaches (fun _ => True) u w) : ∃ calls, Journey u calls w := by
  induction reached with
  | refl => exact ⟨[], .here⟩
  | tail _ move ih =>
    obtain ⟨calls, so⟩ := ih
    rcases move.launches_or_keeps with ⟨target, handler, rfl⟩ | ⟨-, same⟩
    · exact ⟨_, so.call target handler⟩
    · exact ⟨calls, so.onward move same⟩

theorem Journey.set (so : Journey u calls v) (name : String) (change : Change) :
    Journey u calls (v.configure name change.apply) := so.onward (.set trivial) rfl

theorem Journey.setJava (so : Journey u calls v) (java : Value) :
    Journey u calls { v with java := java } := so.onward (.setJava java) rfl

theorem Journey.trans {more : List Call} (first : Journey u calls v) (second : Journey v more w) :
    Journey u (calls ++ more) w := by
  induction second with
  | here =>
    rw [List.append_nil]
    exact first
  | onward _ move same ih => exact ih.onward move same
  | call _ target handler ih =>
    rw [← List.append_assoc]
    exact ih.call target handler

theorem Journey.runs_length (journey : Journey u calls w) :
    w.runs.length = u.runs.length + calls.length := by
  induction journey with
  | here => rfl
  | onward _ _ same ih => exact same.trans ih
  | call _ target handler ih =>
    rw [World.launch_runs, List.length_append, List.length_append, ih]
    exact Nat.add_assoc _ _ _

/-- The jars in a shared list are those of the calls that shared it, the newest first. -/
theorem Journey.list_eq (journey : Journey u calls w) (name : String) :
    w.list name = (calls.filterMap (Call.inserted · name)).reverse.flatMap Arguments.jarWords ++
      u.list name := by
  induction journey with
  | here => rfl
  | onward _ move same ih =>
    rcases move.launches_or_keeps with ⟨target, handler, rfl⟩ | ⟨lists, -⟩
    · rw [World.launch_runs, List.length_append, List.length_singleton] at same
      omega
    · unfold World.list at ih ⊢
      rw [lists, ih]
  | @call calls v _ target handler ih =>
    have inserts := Call.launched_list ⟨v, target, handler⟩ name
    unfold Call.launched at inserts
    rw [inserts, ih, List.filterMap_append]
    cases jar : Call.inserted ⟨v, target, handler⟩ name <;> simp [jar]

theorem Journey.reaches (journey : Journey u calls w) {k : Nat} {c : Call}
    (asked : calls[k]? = some c) :
    c.world.runs.length = u.runs.length + k ∧ Reaches (fun _ => True) c.launched.world w := by
  induction journey with
  | here => cases asked
  | onward _ move _ ih => exact ⟨(ih asked).1, (ih asked).2.trans (.of_move move)⟩
  | @call calls v so target handler ih =>
    by_cases last : k = calls.length
    · subst k
      rw [List.getElem?_concat_length] at asked
      cases Option.some.inj asked
      exact ⟨so.runs_length, .refl⟩
    · have earlier : k < calls.length := by
        have bound := (List.getElem?_eq_some_iff.mp asked).1
        rw [List.length_append, List.length_singleton] at bound
        omega
      rw [List.getElem?_append_left earlier] at asked
      exact ⟨(ih asked).1, (ih asked).2.trans (.of_move (.launch target handler))⟩

end

theorem Failure.ofExit_details {command : List Value} {line : Text} {code : Int} {f : Failure}
    (failed : ofExit command line code = some f) : f.details = commandDetails command := by
  unfold ofExit at failed
  split at failed
  · cases failed
  · split at failed <;> cases failed <;> rfl

namespace Launch

structure Names (command : List Value) (l : Launch) : Prop where
  made : l.command = command
  ahead : ∀ f, l.stage = .unstarted f → f.details = Failure.commandDetails command
  told : ∀ call ∈ l.calls, ∀ f, call.2.failure = some f →
    f.details = Failure.commandDetails command

section
variable {l l' : Launch} {command : List Value} {t : Instant}

theorem Names.onward (h : l.Names command) (same : l'.command = l.command)
    (calls : l'.calls = l.calls) (started : ∀ f, l'.stage ≠ .unstarted f) : l'.Names command := by
  refine ⟨same.trans h.made, ?_, ?_⟩
  · intro f stage
    exact (started f stage).elim
  · rw [calls]
    exact h.told

theorem Names.deliver (h : l.Names command) {c : Completion}
    (names : ∀ f, c.failure = some f → f.details = Failure.commandDetails command) :
    (l.deliver t c).Names command := by
  obtain ⟨calls, closed⟩ := l.deliver_calls t c
  refine ⟨?_, ?_, ?_⟩
  · exact (congrArg (·.2.1) (l.deliver_frame t c)).trans h.made
  · intro f stage
    rw [stage] at closed
    cases closed
  · rw [calls]
    intro call member f failed
    rcases List.mem_append.mp member with earlier | now
    · exact h.told call earlier f failed
    · cases List.mem_singleton.mp now
      exact names f failed

theorem Names.note (h : l.Names command) (event : Event) : (l.note t event).Names command :=
  ⟨h.made, h.ahead, h.told⟩

theorem Names.conclude (h : l.Names command) (child : Child) {failure : Option Failure}
    (names : ∀ f, failure = some f → f.details = Failure.commandDetails command) :
    (l.conclude t child failure).Names command := (h.note _).deliver names

theorem Names.giveUp (h : l.Names command) (child : Child) (timeout : Value) :
    (l.giveUp t child timeout).Names command := by
  apply h.conclude child
  intro f failed
  cases failed
  exact congrArg Failure.commandDetails h.made

theorem Names.act (h : l.Names command) (timeout : Value) (current : l.Current)
    (due : l.next = some t) : (l.act t timeout).Names command := by
  have here (r : Reading) : (l.having t r).Names command := ⟨h.made, h.ahead, h.told⟩
  have action : l.Action t timeout (l.act t timeout) := act_action current due
  generalize l.act t timeout = l' at action ⊢
  cases action with
  | @tell _ r stage =>
    apply (here r).deliver
    intro f failed
    cases failed
    exact h.ahead _ stage
  | @complete _ r _ _ _ _ =>
    apply (here r).conclude
    intro f failed
    rw [Failure.ofExit_details failed]
    exact congrArg Failure.commandDetails h.made
  | @giveUp _ r _ _ _ _ => exact (here r).giveUp _ _
  | @giveUpOpen _ r _ _ _ _ =>
    have stopped : (l.having t r).stopReading.Names command := here _
    exact (stopped.note _).giveUp _ _
  | @expire _ r _ _ =>
    rw [expire_eq]
    refine (here r).onward rfl rfl ?_
    intro f
    dsimp only
    split <;> exact fun stage => nomatch stage
  | @strike _ r _ _ _ _ _ =>
    rw [strike_eq]
    refine (here r).onward rfl rfl ?_
    intro f
    dsimp only
    split <;> exact fun stage => nomatch stage
  | watch _ _ _ | die _ _ _ | stop _ _ _ | outlive _ _ _ | wake _ | leave _ =>
    exact h.onward rfl rfl fun f stage => nomatch stage
  | strand _ _ _ => exact here _

theorem Names.passes {kind : String → Value → Prop} {signals : Prop} {now : Instant}
    (h : l.Names command) (passes : l.Passes kind signals now t l') : l'.Names command := by
  cases passes with
  | wait _ _ => exact h
  | @act _ timeout due _ _ current => exact h.act timeout current due
  | signal _ _ _ => exact ⟨h.made, h.ahead, h.told⟩

theorem create_names {launcher : String} {handler : Option Handler × Recipient} {now : Instant}
    {pid : Nat} {spawn : Spawn}
    (created : create launcher handler now pid command spawn = .ok l) : l.Names command := by
  cases create_created created with
  | unstarted _ fault =>
    refine ⟨rfl, ?_, ?_⟩
    · intro f stage
      cases stage
      rfl
    · intro call member
      cases member
  | started _ _ =>
    refine ⟨rfl, ?_, ?_⟩
    · intro f stage
      cases stage
    · intro call member
      cases member

end

end Launch

/-- What has become of a call whose run has a number, in a later world: the system was asked for the
command that the call hands over, the container is as it should be, and whatever is told of the
launch names that command. -/
structure Call.Kept (c : Call) (i : Nat) (w : World) : Prop where
  asked : ∀ command, c.Hands command →
    c.launched.outcome = c.target.spawn.answer c.world.nextPid command
  grown : ∀ jar, c.jar? = some jar → Arguments.Grown jar.text c.arguments c.launched.args
  handed : ∀ l, w.runs[i]? = some (.accepted l) → c.Hands l.command
  named : ∀ l, w.runs[i]? = some (.accepted l) → ∀ call ∈ l.calls, ∀ f, call.2.failure = some f →
    f.details.lookup "argv" = some (.list l.command)

theorem Call.kept (c : Call) {w : World} (reached : Reaches (fun _ => True) c.launched.world w) :
    c.Kept c.world.runs.length w := by
  have names : ∀ l, w.runs[c.world.runs.length]? = some (.accepted l) →
      ∃ command, c.Hands command ∧ l.Names command := by
    intro l there
    have there₀ := c.world.launch_made c.target c.handler
    cases made : c.world.made c.target c.handler with
    | refused name refusal =>
      rw [made] at there₀
      cases (reached.refused there₀).symm.trans there
    | accepted l₀ =>
      rw [made] at there₀
      obtain ⟨command, handed, created⟩ := World.made_accepted made
      have clocked : l₀.Clocked c.launched.world.now :=
        (c.world.launch_now c.target c.handler).symm ▸ Launch.create_clocked created
      have free : SetsOnly (fun _ => True) fun _ _ => True := fun _ _ _ _ _ => trivial
      obtain ⟨l', there', -, names⟩ := reached.follow (P := fun _ l => l.Names command) free
        (fun _ => trivial) there₀ clocked (Launch.create_names created)
        fun _ _ _ _ _ h passes => h.passes passes
      cases Option.some.inj (there.symm.trans there')
      exact ⟨command, c.commandFor_eq_ok_iff.mp handed, names⟩
  refine ⟨fun _ => c.launched_outcome, fun _ => c.launched_grown, ?_, ?_⟩
  · intro l there
    obtain ⟨command, hands, names⟩ := names l there
    exact names.made ▸ hands
  · intro l there call member f failed
    obtain ⟨command, hands, names⟩ := names l there
    rw [names.told call member f failed, names.made]
    rfl

/-- Whatever is launched in whatever order, by steps or by handlers, with settings and the default
executable changed at will: every list that launches share carries the jars of the calls that took
it, the newest first, in front of what it held before, and every call is kept. -/
theorem shared_arguments_accumulate {u w : World} {calls : List Call}
    (journey : Journey u calls w) :
    w.runs.length = u.runs.length + calls.length ∧
    (∀ name, w.list name =
      (calls.filterMap (Call.inserted · name)).reverse.flatMap
        (fun jar => [.text jarFlag, .text jar]) ++ u.list name) ∧
    ∀ (k : Nat) (c : Call), calls[k]? = some c → c.Kept (u.runs.length + k) w := by
  refine ⟨journey.runs_length, journey.list_eq, ?_⟩
  intro k c asked
  obtain ⟨number, reached⟩ := journey.reaches asked
  exact number ▸ c.kept reached

/-- Four calls on one list: one whose child fails later, one that cannot be started, one whose jar
is no path and one that the system refuses. Three of them leave their jars in the list. -/
theorem three_jars_accumulate :
    let start := World.create (.text defaultJava) ⟨.single, [jarName]⟩
      [("main", {}), ("other", { jarPath := .text (Text.ofString "lib//b.jar") })]
      [("args", [.text (Text.ofString "x")]), ("rest", [.text (Text.ofString "y")])]
    let first : Target :=
      ⟨"main", .shared "args", .starts { exit := some 3, lifetime := 20 }⟩
    let second : Target := ⟨"other", .shared "args", .fails (.unnumbered [])⟩
    let third : Target := ⟨"main", .shared "args", .starts {}⟩
    let fourth : Target := ⟨"other", .shared "args", .refuses (.runtime [])⟩
    let steps : List Step := [.run first (some .records), .setJava (.text (Text.ofString "jre")),
      .run second none, .set "main" { jarPath := some (.bytes []) }, .run third none,
      .run fourth none]
    let jar := Text.ofString "/yjs.jar"
    let other := Text.ofString "lib/b.jar"
    ∃ w l call f, start.through (steps ++ [.sleep 30]) = some w ∧
      w.list "args" = [.text jarFlag, .text other, .text jarFlag, .text other, .text jarFlag,
        .text jar, .text (Text.ofString "x")] ∧
      w.list "rest" = [.text (Text.ofString "y")] ∧
      w.runs[0]? = some (.accepted l) ∧ call ∈ l.calls ∧ call.2.failure = some f ∧
      f.details.lookup "argv" = some (.list [.text defaultJava, .text jarFlag, .text jar,
        .text (Text.ofString "x")]) := by
  intro start first second third fourth steps jar other
  have check : (start.through (steps ++ [.sleep 30])).any fun w => w.runs.length = 4 &&
      w.shows 0 fun l => l.calls.any fun call => call.2.failure.isSome := by decide +kernel
  obtain ⟨w, played, is⟩ := (Option.any_eq_true _ _).mp check
  rw [Bool.and_eq_true, decide_eq_true_eq] at is
  obtain ⟨four, shows⟩ := is
  obtain ⟨l, there, told⟩ := (w.shows_iff 0 _).mp shows
  obtain ⟨call, member, failed⟩ := List.any_eq_true.mp told
  obtain ⟨f, failure⟩ := Option.isSome_iff_exists.mp failed
  let c₁ : Call := ⟨start, first, some .records⟩
  let c₂ : Call := ⟨{ c₁.launched.world with java := .text (Text.ofString "jre") }, second, none⟩
  let c₃ : Call := ⟨c₂.launched.world.configure "main"
    ({ jarPath := some (.bytes []) } : Change).apply, third, none⟩
  let c₄ : Call := ⟨c₃.launched.world, fourth, none⟩
  have j₁ : Journey start [c₁] c₁.launched.world := Journey.here.call first (some .records)
  have j₂ : Journey start [c₁, c₂] c₂.launched.world := (j₁.setJava _).call second none
  have j₃ : Journey start [c₁, c₂, c₃] c₃.launched.world := (j₂.set "main" _).call third none
  have asked : Journey start [c₁, c₂, c₃, c₄] c₄.launched.world := j₃.call fourth none
  have slept : c₄.launched.world.through [.sleep 30] = some w := by
    simpa only [steps, List.cons_append, List.nil_append, World.through, World.perform,
      Option.bind_some, Call.launched, c₁, c₂, c₃, c₄] using played
  obtain ⟨more, waited⟩ :=
    Reaches.journey (through_reaches (fun _ _ => trivial) slept)
  have journey := asked.trans waited
  obtain rfl : more = [] := by
    have length := journey.runs_length
    rw [four] at length
    cases more with
    | nil => rfl
    | cons c rest => simp [start, World.create] at length
  rw [List.append_nil] at journey
  have args : [c₁, c₂, c₃, c₄].filterMap (Call.inserted · "args") = [jar, other, other] := by
    decide +kernel
  have rest : [c₁, c₂, c₃, c₄].filterMap (Call.inserted · "rest") = [] := by decide +kernel
  obtain ⟨-, lists, kept⟩ := shared_arguments_accumulate journey
  have kept₁ : c₁.Kept 0 w := kept 0 c₁ rfl
  obtain ⟨p, vs, known, holds, command⟩ := kept₁.handed l there
  cases known
  cases holds
  refine ⟨w, l, call, f, played, ?_, ?_, there, member, failure, ?_⟩
  · rw [lists "args", args]
    rfl
  · rw [lists "rest", rest]
    rfl
  · rw [kept₁.named l there call member f failure, command]
    rfl

end JarLaunch
