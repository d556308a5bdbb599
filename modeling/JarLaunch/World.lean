import JarLaunch.Launcher

/-! Launchers at work side by side. Time passes only when the world is made to wait; then launches
act one after the other, the earliest first. Launches meet only where a handler asks for a launch
of its own: that launch takes the next number, the settings as they stand and, if it shares its
arguments, the shared list. -/
namespace JarLaunch

/-- A launch that was asked for: refused at once, or under way. -/
inductive Run where
  | refused (launcher : String) (refusal : Refusal)
  | accepted (launch : Launch)

namespace Run

def launch? : Run → Option Launch
  | .refused _ _ => none
  | .accepted l => some l

def trace (r : Run) : List Entry := (r.launch?.map Launch.trace).getD []

def next (r : Run) : Option Instant := r.launch?.bind Launch.next

/-- The stage, as a turn to take among launches that act at one instant: what a handler asks for
comes first, then what did not start, then the others in the order of their stages. -/
def turn (r : Run) : Nat :=
  match r.launch?.map Launch.stage with
  | some (.asking _ _) => 0
  | some (.unstarted _) => 1
  | some stage => 8 - stage.remaining
  | none => 9

def isOn (launcher : String) (r : Run) : Bool := r.launch?.any (·.launcher = launcher)

def returncode (now : Instant) (r : Run) : Option (Option Int) :=
  r.launch?.bind (·.returncode now)

end Run

structure World where
  now : Instant
  /-- The default executable as it stands. -/
  java : Value
  /-- The installed jar. -/
  jar : Path
  launchers : List (String × Launcher)
  /-- The lists that launches share. -/
  lists : List (String × List Value)
  runs : List Run
  /-- The launches, by number, whose tasks their launchers keep. -/
  tasks : List Nat

def assign {α : Type} (key : String) (value : α) : List (String × α) → List (String × α)
  | [] => [(key, value)]
  | (k, v) :: rest => if k = key then (k, value) :: rest else (k, v) :: assign key value rest

namespace World

def create (java : Value) (jar : Path) (launchers : List (String × Launcher))
    (lists : List (String × List Value)) : World :=
  ⟨0, java, jar, launchers, lists, [], []⟩

def launcher (w : World) (name : String) : Launcher := (w.launchers.lookup name).getD {}

def configure (w : World) (name : String) (change : Launcher → Launcher) : World :=
  { w with launchers := assign name (change (w.launcher name)) w.launchers }

def arguments (w : World) : Source → Arguments
  | .own args => args
  | .shared name => .list ((w.lists.lookup name).getD [])

/-- Keep what a launch has made of a shared list. -/
def keepArguments (w : World) : Source → Arguments → World
  | .shared name, .list vs => { w with lists := assign name vs w.lists }
  | _, _ => w

def nextPid (w : World) : Nat :=
  1000 + (w.runs.filterMap fun r => r.launch?.bind Launch.child).length

structure Launched where
  world : World
  args : Arguments
  outcome : Except Refusal (Option Nat)

def launch (w : World) (target : Target) (handler : Option Handler) : Launched :=
  let launcher := w.launcher target.launcher
  let prepared := launcher.prepare w.java w.jar (w.arguments target.source)
  let kept := w.keepArguments target.source prepared.args
  let created := prepared.command.bind fun command =>
    Launch.create target.launcher (launcher.handlerFor target.launcher handler) w.now w.nextPid
      command target.spawn
  match created with
  | .error refusal =>
    ⟨{ kept with runs := kept.runs ++ [.refused target.launcher refusal] }, prepared.args,
      .error refusal⟩
  | .ok l =>
    ⟨{ kept with runs := kept.runs ++ [.accepted l], tasks := kept.tasks ++ [kept.runs.length] },
      prepared.args, .ok (l.child.map Child.pid)⟩

/-- The launches whose tasks a launcher keeps, by their numbers. -/
def outstanding (w : World) (launcher : String) : List Nat :=
  (w.runs.zipIdx.filter fun r => r.1.isOn launcher && w.tasks.contains r.2).map (·.2)

def pending (w : World) (launcher : String) : Nat := (w.outstanding launcher).length

def isDone (w : World) (number : Nat) : Bool :=
  (w.runs[number]?.bind Run.launch?).all fun l => l.stage.isEnded

/-- The tasks that are kept when those that are done have been discarded. -/
def undone (w : World) : List Nat := w.tasks.filter fun number => !w.isDone number

/-- The tasks that are kept at an instant. One that is done is discarded a turn of the loop later,
so before time goes on. -/
def tasksAt (w : World) (now : Instant) : List Nat := if w.now < now then w.undone else w.tasks

def before (a b : Instant × Nat × Nat) : Bool :=
  a.1 < b.1 || (a.1 = b.1 && a.2.1 < b.2.1)

def firstOf (best : Option (Instant × Nat × Nat)) (c : Instant × Nat × Nat) :
    Option (Instant × Nat × Nat) :=
  match best with
  | none => some c
  | some b => if before c b then some c else some b

/-- The next action of any launch: its instant and the number of the launch. Of actions at one
instant the earlier turn comes first, and of one turn the earlier launch. -/
def next (w : World) : Option (Instant × Nat) :=
  let candidates := w.runs.zipIdx.filterMap fun (r, i) => r.next.map fun t => (t, r.turn, i)
  (candidates.foldl firstOf none).map fun c => (c.1, c.2.2)

def step (w : World) (now : Instant) (number : Nat) : World :=
  match w.runs[number]? with
  | some (.accepted l) =>
    let acted := { w with
      now := max w.now now
      tasks := w.tasksAt now
      runs := w.runs.set number (.accepted (l.act now (w.launcher l.launcher).timeout)) }
    match l.stage with
    | .asking target handler => (acted.launch target handler).world
    | _ => acted
  | _ => w

/-- How many actions a launch may take whose handler is left to its launcher, whose own handler
may ask for launches in turn. -/
def renewals : Nat := Nat.pow 2 64

/-- The actions of the launches that a handler asks for. A handler that does not count leaves the
choice to the launcher. -/
def handlerEffort : Handler → Nat
  | .launches _ none => renewals
  | .launches _ (some h) => if h.counts then 8 + handlerEffort h else renewals
  | _ => 0

def runEffort (r : Run) : Nat :=
  match r.launch? with
  | none => 0
  | some l =>
    l.stage.remaining +
      match l.stage with
      | .asking target handler => handlerEffort (.launches target handler)
      | .ended | .dozing _ _ _ | .lingering _ => 0
      | _ => (l.handler.map handlerEffort).getD 0

/-- More actions than lie ahead. -/
def effort (w : World) : Nat := 1 + (w.runs.map runEffort).foldr (· + ·) 0

/-- Let launches act up to an instant, with so many actions at most. -/
def settleWithin (target : Instant) : Nat → World → Option World
  | 0, _ => none
  | fuel + 1, w =>
    match w.next with
    | some (t, i) =>
      if t ≤ target then settleWithin target fuel (w.step t i)
      else some { w with now := max w.now target, tasks := w.undone }
    | none => some { w with now := max w.now target, tasks := w.undone }

def settle (w : World) (target : Instant) : Option World := settleWithin target w.effort w

def sleep (w : World) (ms : Nat) : Option World := w.settle (w.now + Clock.millis ms)

/-- Let launches act until all of a few are done, with so many actions at most. -/
def gatherWithin (numbers : List Nat) : Nat → World → Option World
  | 0, _ => none
  | fuel + 1, w =>
    if numbers.all w.isDone then some w
    else
      match w.next with
      | some (t, i) => gatherWithin numbers fuel (w.step t i)
      | none => none

/-- Does a launch act at once, to tell that it did not start or for a handler that asks? -/
def isPrompt (w : World) (t : Instant) (number : Nat) : Bool :=
  t ≤ w.now && w.runs[number]?.any (·.turn ≤ 1)

/-- Let launches below a number tell that they did not start, with so many actions at most. -/
def tellWithin (bound : Nat) : Nat → World → World
  | 0, w => w
  | fuel + 1, w =>
    match w.next with
    | some (t, i) => if i < bound && w.isPrompt t i then tellWithin bound fuel (w.step t i) else w
    | none => w

/-- The loop turns once: tasks that are done are discarded, what did not start is told, and what the
handlers ask for is launched. -/
def told (w : World) : World :=
  tellWithin w.runs.length (2 * w.runs.length) { w with tasks := w.undone }

/-- Wait for what is outstanding, then look again, in so many rounds at most. The loop turns twice
between the end of a round and the next look. -/
def drainWithin (launcher : String) : Nat → World → Option World
  | 0, _ => none
  | rounds + 1, w =>
    if w.pending launcher = 0 then some w
    else
      (gatherWithin (w.outstanding launcher) w.effort w).bind fun w =>
        drainWithin launcher rounds w.told.told

/-- The moment a drain returns. There may be a round more than there are actions ahead, for tasks
that are done and not yet discarded. -/
def drained (w : World) (launcher : String) : Option World :=
  drainWithin launcher (w.effort + 1) w

/-- Wait until nothing is pending on a launcher, then carry out what is due at that instant.
Nothing comes back if something stays pending for ever. -/
def drain (w : World) (launcher : String) : Option World :=
  (w.drained launcher).bind fun w => w.settle w.now

/-- Send the child of a launch a signal from outside; says whether there was a process. -/
def signal (w : World) (number : Nat) (order : Order) : World × Bool :=
  match w.runs[number]? with
  | some (.accepted l) =>
    let answer := l.child.bind fun c =>
      match order with
      | .terminate => c.terminate? w.now
      | .kill => c.kill? w.now
    match answer with
    | none => (w, false)
    | some child =>
      ({ w with runs := w.runs.set number (.accepted { l with child := some child }) }, true)
  | _ => (w, false)

end World

end JarLaunch
