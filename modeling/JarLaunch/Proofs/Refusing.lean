import JarLaunch.Proofs.Decoding
import JarLaunch.Proofs.Sharing

/-! When a call is refused. A call needs a jar and words to put after it; then the values of its
command are looked at from left to right, and the first that offends decides: no word is refused,
a word that holds a NUL counts as a command that could not be started. Only a command in order
comes before the system. A refused call leaves nothing behind but the jar that it may have put into
a mutable list. -/
namespace JarLaunch

namespace Value

def isWord : Value → Bool
  | .text _ | .path _ | .bytes _ => true
  | _ => false

def holdsNul : Value → Bool
  | .text t => .char '\x00' ∈ t
  | .path p => .char '\x00' ∈ p.text
  | .bytes bs => 0 ∈ bs
  | _ => false

/-- A value that keeps a command from the system. -/
def offends (v : Value) : Bool := !v.isWord || v.holdsNul

theorem word_of_isWord {v : Value} (is : v.isWord) :
    ∃ t, v.word = .ok t ∧ (.char '\x00' ∈ t ↔ v.holdsNul) := by
  cases v with
  | text t => exact ⟨t, rfl, by simp [holdsNul]⟩
  | path p => exact ⟨p.text, rfl, by simp [holdsNul]⟩
  | bytes bs =>
    refine ⟨Utf8.decodeKeeping bs, rfl, ?_⟩
    rw [Utf8.mem_decodeKeeping_nul]
    simp [holdsNul]
  | absent | flag _ | integer _ | double _ | list _ => cases is

theorem word_of_not_isWord {v : Value} (no : v.isWord = false) :
    v.word = .error (.notAWord v.typeName) := by
  cases v with
  | text _ | path _ | bytes _ => cases no
  | absent | flag _ | integer _ | double _ | list _ => rfl

end Value

namespace Spawn

def objection (v : Value) : Spawn :=
  if v.isWord then .fails nulWord else .refuses (.notAWord v.typeName)

section
variable {command : List Value}

theorem checkWords_offended {v : Value} (first : command.find? Value.offends = some v) :
    checkWords command = .error (objection v) := by
  induction command with
  | nil => cases first
  | cons u vs ih =>
    cases is : u.isWord with
    | false =>
      have offends : u.offends = true := by simp [Value.offends, is]
      rw [List.find?_cons_of_pos offends] at first
      cases Option.some.inj first
      simp [checkWords, Value.word_of_not_isWord is, objection, is]
    | true =>
      obtain ⟨t, word, nul⟩ := Value.word_of_isWord is
      cases holds : u.holdsNul with
      | true =>
        have offends : u.offends = true := by simp [Value.offends, holds]
        rw [List.find?_cons_of_pos offends] at first
        cases Option.some.inj first
        simp [checkWords, word, nul.mpr holds, objection, is]
      | false =>
        have passes : ¬ u.offends = true := by simp [Value.offends, is, holds]
        have clean : .char '\x00' ∉ t := by simp [nul, holds]
        rw [List.find?_cons_of_neg passes] at first
        simp [checkWords, word, clean, ih first, Except.map]

theorem checkWords_clean (none : command.find? Value.offends = none) :
    ∃ ts, checkWords command = .ok ts ∧ words command = .ok ts := by
  induction command with
  | nil => exact ⟨[], rfl, rfl⟩
  | cons u vs ih =>
    rw [List.find?_eq_none] at none ih
    have passes := none u List.mem_cons_self
    simp only [Value.offends, Bool.or_eq_true, Bool.not_eq_true', not_or,
      Bool.not_eq_false] at passes
    obtain ⟨t, word, nul⟩ := Value.word_of_isWord passes.1
    have clean : .char '\x00' ∉ t := fun holds => passes.2 (nul.mp holds)
    obtain ⟨ts, checked, shown⟩ := ih fun v member => none v (List.mem_cons_of_mem _ member)
    refine ⟨t :: ts, ?_, ?_⟩
    · simp [checkWords, word, clean, checked, Except.map]
    · unfold words at shown ⊢
      simp [List.mapM_cons, word, shown, bind, Except.bind, pure, Except.pure]

theorem attempt_offended (system : Spawn) {v : Value}
    (first : command.find? Value.offends = some v) :
    system.attempt command = ([], objection v) := by
  rw [attempt, checkWords_offended first]

theorem attempt_clean (system : Spawn) (none : command.find? Value.offends = none) :
    ∃ line, display command = .ok line ∧ system.attempt command = (line, system) := by
  obtain ⟨ts, checked, shown⟩ := checkWords_clean none
  exact ⟨Shell.join ts, by rw [display, shown]; rfl, by rw [attempt, checked]⟩

end

end Spawn

namespace Launch

inductive Queued (now : Instant) (f : Failure) (l : Launch) : Prop where
  | waits (stage : l.stage = .unstarted f) (clock : l.clock = now) (calls : l.calls = [])
  | told (closed : l.stage.isOpen = false) (calls : l.calls = [(now, ⟨some f, [], []⟩)])

section
variable {l : Launch} {now t : Instant} {f : Failure}

theorem Queued.act (h : l.Queued now f) (timeout : Value) (due : l.next = some t) :
    (l.act t timeout).Queued now f := by
  cases h with
  | waits stage clock calls =>
    have prompt : now = t := by simpa [next, awaited, stage, clock] using due
    subst t
    obtain ⟨told, closed⟩ := (l.awake now).deliver_calls now ⟨some f, [], []⟩
    have tells : l.act now timeout = (l.awake now).deliver now ⟨some f, [], []⟩ := by
      simp only [Launch.act, awake_stage, stage]
    rw [tells]
    exact .told closed (by rw [told]; simp [calls])
  | told closed calls =>
    obtain ⟨closed', same⟩ := act_closed closed t timeout
    exact .told closed' (same.trans calls)

theorem Queued.signalled (h : l.Queued now f) (c : Child) :
    ({ l with child := some c } : Launch).Queued now f := by
  cases h with
  | waits stage clock calls => exact .waits stage clock calls
  | told closed calls => exact .told closed calls

end

section
variable {launcher : String} {handler : Option Handler × Recipient} {now : Instant} {pid : Nat}
  {command : List Value} {spawn : Spawn} {line : Text}

theorem create_refuses {refusal : Refusal}
    (attempt : spawn.attempt command = (line, .refuses refusal)) :
    create launcher handler now pid command spawn = .error refusal := by
  simp only [create, attempt]

theorem create_fails {fault : SpawnFault} (attempt : spawn.attempt command = (line, .fails fault)) :
    create launcher handler now pid command spawn =
      .ok ⟨launcher, command, line, handler.2, handler.1, none, {},
        .unstarted (fault.failure command (executableText command)), now,
        [⟨now, .log .warning (notStartedText command fault)⟩], [], []⟩ := by
  simp only [create, attempt]

theorem create_starts {b : Behaviour} (attempt : spawn.attempt command = (line, .starts b)) :
    create launcher handler now pid command spawn =
      .ok ⟨launcher, command, line, handler.2, handler.1, some (Child.start pid now b), {}, .fresh,
        now, [⟨now, .log .debug (startedText pid line)⟩], [], []⟩ := by
  simp only [create, attempt]

end

end Launch

theorem Reaches.now_le {allowed : Step → Prop} {u w : World} (reached : Reaches allowed u w) :
    u.now ≤ w.now := by
  induction reached with
  | refl => exact Nat.le_refl _
  | @tail v w _ move ih =>
    apply Nat.le_trans ih
    cases move with
    | act _ _ => exact Nat.le_max_left _ _
    | pass _ => exact Nat.le_max_left _ _
    | launch target handler => exact Nat.le_of_eq (v.launch_now target handler).symm
    | turn | set _ | setJava _ => exact Nat.le_refl _
    | @signal number order _ =>
      rcases World.signal_eq v number order with same | ⟨_, _, _, -, -, -, changed⟩
      · exact Nat.le_of_eq (congrArg World.now same).symm
      · exact Nat.le_of_eq (congrArg World.now changed).symm

namespace Call

variable (c : Call)

/-- Why a call is refused: there is no jar, or nothing to put it in front of, or the first value of
the command that offends is no word, or the system refuses a command in order. -/
inductive Refused : Prop where
  | jar (unknown : c.jar? = none)
  | container (closed : c.arguments.elements = none)
  | word {command : List Value} {v : Value} (hands : c.Hands command)
      (first : command.find? Value.offends = some v) (noWord : v.isWord = false)
  | system {command : List Value} {refusal : Refusal} (hands : c.Hands command)
      (clean : command.find? Value.offends = none) (refuses : c.target.spawn = .refuses refusal)

def number : Nat := c.world.runs.length

/-- What a refused call leaves behind. Its run never comes to anything; the launches under way, and
so the children and what is pending, are those there were; and the container is as it was, unless
it is a mutable list whose turn had come. -/
structure LeavesNothing : Prop where
  silent : ∀ w, Reaches (fun _ => True) c.launched.world w →
    ∃ r, w.runs[c.number]? = some r ∧ r.launch? = none ∧ r.trace = [] ∧ r.calls = []
  launches : c.launched.world.runs.filterMap Run.launch? = c.world.runs.filterMap Run.launch?
  pending : ∀ name, c.launched.world.pending name = c.world.pending name
  spared : c.jar? = none ∨ c.arguments.elements = none →
    c.launched.args = c.arguments ∧ ∀ name, c.launched.world.list name = c.world.list name
  grown : ∀ jar, c.jar? = some jar → Arguments.Grown jar.text c.arguments c.launched.args

inductive Answered (command : List Value) : Prop where
  /-- It did not start, for a NUL in its first offending value or for the system's own reason; that
  is told at once, to be heard when the world next comes to rest. -/
  | failed (fault : SpawnFault) (f : Failure)
      (why : (∃ v, command.find? Value.offends = some v ∧ v.holdsNul ∧ fault = Spawn.nulWord) ∨
        command.find? Value.offends = none ∧ c.target.spawn = .fails fault)
      (reason : f.reason = .spawn fault.errno (some fault.cause))
      (outcome : c.launched.outcome = .ok none)
      (queued : ∀ w, Reaches (fun _ => True) c.launched.world w →
        ∃ l, w.runs[c.number]? = some (.accepted l) ∧
          l.handler = Handler.choose c.handler c.launcher.callback ∧ l.Queued c.world.now f ∧
          (w.Settled → l.calls = [(c.world.now, ⟨some f, [], []⟩)]))
  /-- It started, and what was logged of it is its line. -/
  | started (behaviour : Behaviour) (line : Text) (l : Launch)
      (clean : command.find? Value.offends = none)
      (system : c.target.spawn = .starts behaviour)
      (displayed : display command = .ok line)
      (outcome : c.launched.outcome = .ok (some c.world.nextPid))
      (there : c.launched.world.runs[c.number]? = some (.accepted l))
      (child : l.child = some (Child.start c.world.nextPid c.world.now behaviour))
      (logged : l.trace =
        [⟨c.world.now, .log .debug (Launch.startedText c.world.nextPid line)⟩])

section
variable {c} {command : List Value}

theorem made_of_hands (hands : c.Hands command) :
    c.world.made c.target c.handler =
      match Launch.create c.target.launcher (c.world.handlerFor c.target c.handler) c.world.now
        c.world.nextPid command c.target.spawn with
      | .error refusal => .refused c.target.launcher refusal
      | .ok l => .accepted l := by
  unfold World.made
  rw [c.commandFor_eq_ok_iff.mpr hands]
  rfl

theorem Refused.made (h : c.Refused) :
    ∃ refusal, c.world.made c.target c.handler = .refused c.target.launcher refusal := by
  have unhanded : (∀ command, ¬ c.Hands command) →
      ∃ refusal, c.world.made c.target c.handler = .refused c.target.launcher refusal := by
    intro no
    cases made : c.world.commandFor c.target with
    | error refusal => exact ⟨refusal, by simp only [World.made, made, Except.bind]⟩
    | ok command => exact (no command (c.commandFor_eq_ok_iff.mp made)).elim
  cases h with
  | jar unknown =>
    apply unhanded
    rintro command ⟨jar, vs, known, -, -⟩
    cases unknown.symm.trans known
  | container closed =>
    apply unhanded
    rintro command ⟨jar, vs, -, holds, -⟩
    cases closed.symm.trans holds
  | @word command v hands first noWord =>
    have attempt := c.target.spawn.attempt_offended first
    simp only [Spawn.objection, noWord] at attempt
    exact ⟨_, by rw [made_of_hands hands, Launch.create_refuses attempt]⟩
  | system hands clean refuses =>
    obtain ⟨line, -, attempt⟩ := c.target.spawn.attempt_clean clean
    rw [refuses] at attempt
    exact ⟨_, by rw [made_of_hands hands, refuses, Launch.create_refuses attempt]⟩

theorem launched_unknown (unknown : c.jar? = none) : c.launched.args = c.arguments := by
  obtain ⟨_, refused⟩ := c.prepare_unknown unknown
  rw [launched_args, refused]

theorem launched_closed (closed : c.arguments.elements = none) :
    c.launched.args = c.arguments := by
  cases known : c.jar? with
  | none => exact launched_unknown known
  | some jar =>
    have grown := c.launched_grown known
    generalize c.launched.args = after, c.arguments = args at grown closed
    cases grown with
    | list _ | userList _ => cases closed
    | fixed _ => rfl

theorem inserted_eq_none (no : c.jar? = none ∨ c.arguments.elements = none) (name : String) :
    c.inserted name = none := by
  unfold Call.inserted
  cases source : c.target.source with
  | own args => rfl
  | shared key =>
    rcases no with unknown | closed
    · simp [unknown]
    · rw [Call.arguments, source] at closed
      cases closed

theorem Refused.leavesNothing (h : c.Refused) : c.LeavesNothing := by
  obtain ⟨refusal, made⟩ := h.made
  have runs : c.launched.world.runs = c.world.runs ++ [.refused c.target.launcher refusal] :=
    made ▸ c.world.launch_runs c.target c.handler
  have there : c.launched.world.runs[c.number]? = some (.refused c.target.launcher refusal) :=
    made ▸ c.world.launch_made c.target c.handler
  refine ⟨?_, ?_, ?_, ?_, fun _ => c.launched_grown⟩
  · intro w reached
    exact ⟨_, reached.refused there, rfl, rfl, rfl⟩
  · rw [runs, List.filterMap_append]
    simp [Run.launch?]
  · intro name
    have tasks : c.launched.world.tasks = c.world.tasks := by
      have kept := c.world.launch_tasks c.target c.handler
      rwa [World.enlisted, made] at kept
    unfold World.pending World.outstanding
    rw [runs, tasks, List.zipIdx_append, List.filter_append]
    simp [Run.isOn, Run.launch?]
  · intro no
    constructor
    · exact no.elim launched_unknown launched_closed
    · intro name
      rw [c.launched_list, inserted_eq_none no]
      rfl

theorem answered_failed (hands : c.Hands command) {fault : SpawnFault} {line : Text}
    (attempt : c.target.spawn.attempt command = (line, .fails fault))
    (why : (∃ v, command.find? Value.offends = some v ∧ v.holdsNul ∧ fault = Spawn.nulWord) ∨
      command.find? Value.offends = none ∧ c.target.spawn = .fails fault) :
    c.Answered command := by
  have made := made_of_hands hands
  rw [Launch.create_fails attempt] at made
  have there := c.world.launch_made c.target c.handler
  refine .failed fault (fault.failure command (Launch.executableText command)) why rfl ?_ ?_
  · rw [launched, World.launch_outcome, made]
    rfl
  · intro w reached
    have chosen := congrArg Prod.fst (c.launcher.handlerFor_eq c.target.launcher c.handler)
    rw [made] at there
    obtain ⟨l, there', handler, queued⟩ := reached.keeps_always (P := fun l =>
        l.handler = Handler.choose c.handler c.launcher.callback ∧ l.Queued c.world.now _)
      there ⟨chosen, .waits rfl rfl rfl⟩
      (fun l t timeout h due => ⟨(l.act_handler t timeout).trans h.1, h.2.act timeout due⟩)
      fun _ child h => ⟨h.1, h.2.signalled child⟩
    refine ⟨l, there', handler, queued, fun settled => ?_⟩
    cases queued with
    | told _ calls => exact calls
    | waits stage clock _ =>
      have due : l.next = some c.world.now := by simp [Launch.next, Launch.awaited, stage, clock]
      have late := settled.lt_next there' due
      have now := reached.now_le
      rw [launched, World.launch_now] at now
      exact (Nat.not_lt.mpr now late).elim

theorem answered_started (hands : c.Hands command) {behaviour : Behaviour}
    (clean : command.find? Value.offends = none) (system : c.target.spawn = .starts behaviour) :
    c.Answered command := by
  obtain ⟨line, displayed, attempt⟩ := c.target.spawn.attempt_clean clean
  have made := made_of_hands hands
  rw [Launch.create_starts (attempt.trans (congrArg (line, ·) system))] at made
  refine .started behaviour line _ clean system displayed ?_
    ((c.world.launch_made c.target c.handler).trans (congrArg some made)) rfl rfl
  rw [launched, World.launch_outcome, made]
  rfl

/-- A call that is not refused has a command, and the command is answered. -/
theorem answered_of_not_refused (no : ¬ c.Refused) :
    ∃ command, c.Hands command ∧ c.Answered command := by
  cases known : c.jar? with
  | none => exact (no (.jar known)).elim
  | some jar =>
    cases holds : c.arguments.elements with
    | none => exact (no (.container holds)).elim
    | some vs =>
      have hands : c.Hands (c.executable :: .text jarFlag :: .text jar.text :: vs) :=
        ⟨jar, vs, known, holds, rfl⟩
      refine ⟨_, hands, ?_⟩
      cases first : (c.executable :: .text jarFlag :: .text jar.text :: vs).find? Value.offends with
      | some v =>
        cases word : v.isWord with
        | false => exact (no (.word hands first word)).elim
        | true =>
          have nul : v.holdsNul := by simpa [Value.offends, word] using List.find?_some first
          have attempt := c.target.spawn.attempt_offended first
          simp only [Spawn.objection, word, if_true] at attempt
          exact answered_failed hands attempt (.inl ⟨v, first, nul, rfl⟩)
      | none =>
        cases system : c.target.spawn with
        | refuses refusal => exact (no (.system hands first system)).elim
        | starts behaviour => exact answered_started hands first system
        | fails fault =>
          obtain ⟨line, -, attempt⟩ := c.target.spawn.attempt_clean first
          exact answered_failed hands (attempt.trans (congrArg (line, ·) system))
            (.inr ⟨first, system⟩)

end

/-- A call is refused exactly for a jar that is no path, a container that has no words or takes
no jar, a first offending value that is no word, or a system that refuses; then it leaves nothing
behind. Any other call is answered. -/
theorem refused_or_answered :
    ((∃ refusal, c.launched.outcome = .error refusal) ↔ c.Refused) ∧
    (c.Refused → c.LeavesNothing) ∧
    (¬ c.Refused → ∃ command, c.Hands command ∧ c.Answered command) := by
  refine ⟨?_, Refused.leavesNothing, answered_of_not_refused⟩
  constructor
  · rintro ⟨refusal, outcome⟩
    refine Classical.byContradiction fun no => ?_
    obtain ⟨command, -, answered⟩ := answered_of_not_refused no
    cases answered with
    | failed _ _ _ _ fails _ => cases outcome.symm.trans fails
    | started _ _ _ _ _ _ starts _ _ _ => cases outcome.symm.trans starts
  · intro refused
    obtain ⟨refusal, made⟩ := refused.made
    exact ⟨refusal, by rw [launched, World.launch_outcome, made]⟩

/-- Of two values that offend, the first decides: bytes with a NUL in front of a number are a
command that could not be started, and a number in front of them is refused. -/
theorem first_offence_decides :
    let start := World.create (.text defaultJava) ⟨.single, [jarName]⟩ [("main", {})]
      [("args", [.bytes [0xE9, 0x00], .integer 3]), ("rest", [.integer 3, .bytes [0xE9, 0x00]])]
    let spoilt : Call := ⟨start, ⟨"main", .shared "args", .starts {}⟩, none⟩
    let wrong : Call := ⟨start, ⟨"main", .shared "rest", .starts {}⟩, none⟩
    (¬ spoilt.Refused ∧ ∃ command, spoilt.Hands command ∧ spoilt.Answered command) ∧
      wrong.Refused ∧ wrong.LeavesNothing := by
  intro start spoilt wrong
  have answer : spoilt.launched.outcome = .ok none := rfl
  have refusal : wrong.launched.outcome = .error (.notAWord "int") := rfl
  obtain ⟨iff, -, answered⟩ := refused_or_answered spoilt
  have granted : ¬ spoilt.Refused := by
    intro refused
    obtain ⟨refusal, is⟩ := iff.mpr refused
    cases answer.symm.trans is
  obtain ⟨iff', leaves, -⟩ := refused_or_answered wrong
  have refused := iff'.mp ⟨_, refusal⟩
  exact ⟨⟨granted, answered granted⟩, refused, leaves refused⟩

end Call

end JarLaunch
