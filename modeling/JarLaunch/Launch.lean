import JarLaunch.Handler
import JarLaunch.Reading

/-! One launch, from the start of its child to the end of its handler. Between its actions a launch
only reads and waits, so its life is a sequence of stages; each action happens at the instant that
`next` names and moves the launch to a later stage. Launches do not see each other: all an action
takes from outside is the launcher's timeout as it stands. -/
namespace JarLaunch

/-- What a timeout setting means to a launch that begins to wait. -/
inductive Limit where
  /-- Wait as long as it takes. -/
  | unlimited
  /-- Do not wait at all. -/
  | expired
  /-- Wait this long. -/
  | within (span : Span)
  /-- The setting is no span of time. -/
  | unusable
  deriving DecidableEq

/-- Zero and negative spans have run out before they begin. A whole number beyond the range of
doubles is no span of time. A timer set for NaN is taken to run out at once, as it does unless a
timer of something else stands in its way. -/
def Limit.ofSetting : Value → Limit
  | .absent => .unlimited
  | .flag b => if b then .within Clock.second else .expired
  | .integer n =>
    if n ≤ 0 then .expired
    else if Double.nearest n.toNat 1 < Double.limit then .within (n.toNat * Clock.second)
    else .unusable
  | .double .nan => .expired
  | .double (.infinite negative) => if negative then .expired else .unlimited
  | .double (.finite negative quanta) =>
    if negative ∨ quanta = 0 then .expired else .within (quanta * 1000)
  | _ => .unusable

inductive Level where
  | debug
  | warning
  | error
  deriving DecidableEq

def Level.name : Level → String
  | .debug => "DEBUG"
  | .warning => "WARNING"
  | .error => "ERROR"

def handlerRaised : Text := Text.ofString "Completion handler raised"

/-- Whose handler was called: the one given to the launch, or a launcher's. -/
inductive Recipient where
  | run
  | launcher (name : String)
  deriving DecidableEq

inductive Event where
  | log (level : Level) (text : Text)
  /-- A failure of the handler is logged as an error. -/
  | raised (fault : HandlerFault)
  | call (recipient : Recipient) (completion : Completion)
  | out (text : Text)
  | err (text : Text)

structure Entry where
  instant : Instant
  event : Event

inductive Order where
  | terminate
  | kill
  deriving DecidableEq

/-- A signal the launcher sent, and whether there was a process to take it. -/
structure Sent where
  instant : Instant
  order : Order
  taken : Bool
  deriving DecidableEq

inductive Stage where
  /-- The command did not start; the failure is yet to be delivered. -/
  | unstarted (failure : Failure)
  /-- The child runs, and nobody waits for it yet. -/
  | fresh
  /-- Waiting for the child to finish, up to the deadline if there is one. -/
  | watching (deadline : Option Instant)
  /-- The child was asked to stop and has some time to do so. -/
  | terminating (bound : Instant)
  /-- The child was killed. -/
  | killing
  /-- The pipes have some time left to close. -/
  | draining (bound : Instant)
  /-- The handler takes a while before it records its call. -/
  | dozing (bound : Instant) (completion : Completion) (fault : Option HandlerFault)
  /-- The handler has left work that takes a while. -/
  | lingering (bound : Instant)
  /-- The handler asks for a launch of its own. -/
  | asking (target : Target) (handler : Option Handler)
  | ended

/-- How many actions a stage can still lead to, those of further launches apart. -/
def Stage.remaining : Stage → Nat
  | .ended => 0
  | .dozing _ _ _ | .lingering _ | .asking _ _ => 1
  | .unstarted _ | .draining _ => 2
  | .killing => 3
  | .terminating _ => 4
  | .watching _ => 5
  | .fresh => 6

def Stage.isEnded : Stage → Bool
  | .ended => true
  | _ => false

structure Launch where
  launcher : String
  command : List Value
  /-- The command as a line of text. -/
  line : Text
  recipient : Recipient
  /-- The handler chosen when the launch was made; nothing if there is nothing to call. -/
  handler : Option Handler
  child : Option Child
  /-- The reading of the child's pipes. -/
  reads : Reading
  stage : Stage
  /-- The instant of the last action. -/
  clock : Instant
  trace : List Entry
  /-- The calls made to the handler. -/
  calls : List (Instant × Completion)
  /-- The signals sent to the child. -/
  sent : List Sent

namespace Launch

/-- How long a child has to stop before it is killed, and pipes to close after that. -/
def grace : Span := Clock.second

def note (l : Launch) (now : Instant) (event : Event) : Launch :=
  { l with trace := l.trace ++ [⟨now, event⟩] }

def noteAll (l : Launch) (now : Instant) (events : List Event) : Launch :=
  { l with trace := l.trace ++ events.map (⟨now, ·⟩) }

def goTo (l : Launch) (stage : Stage) : Launch := { l with stage := stage }

/-- The texts of the log, with the child's number in front where there is one. -/
def pidText (c : Child) (rest : Text) : Text :=
  Text.ofString "pid " ++ Text.ofNat c.pid ++ Text.ofString " " ++ rest

def stillRunning (c : Child) (timeout : Value) : Event :=
  .log .warning (pidText c
    (Text.ofString "still running after " ++ timeout.shown ++ Text.ofString "s, terminating"))

def pipesOpen (c : Child) : Event :=
  .log .warning (pidText c (Text.ofString "output pipes still open after termination"))

def exitedCleanly (c : Child) : Event :=
  .log .debug (pidText c (Text.ofString "exited cleanly"))

def printing (p : Printout) : List Event :=
  (if p.out.isEmpty then [] else [.out p.out]) ++ (if p.err.isEmpty then [] else [.err p.err])

def deliver (l : Launch) (now : Instant) (c : Completion) : Launch :=
  let called := { l with calls := l.calls ++ [(now, c)] }
  let recorded := called.note now (.call l.recipient c)
  match l.handler with
  | none | some .misfits => (called.note now (.raised .type)).goTo .ended
  | some .records | some .cancels | some .returns | some .hollow => recorded.goTo .ended
  | some .fails => (recorded.note now (.raised .runtime)).goTo .ended
  | some (.lingers delay) => recorded.goTo (.lingering (now + Clock.millis delay))
  | some (.dozes delay) => called.goTo (.dozing (now + Clock.millis delay) c none)
  | some (.dozesThenFails delay) =>
    called.goTo (.dozing (now + Clock.millis delay) c (some .key))
  | some .prints => (called.noteAll now (printing c.printout)).goTo .ended
  | some (.launches target handler) => recorded.goTo (.asking target handler)

/-- Report how the child ended, and call the handler with what was read so far. -/
def conclude (l : Launch) (now : Instant) (child : Child) (failure : Option Failure) : Launch :=
  let report := match failure with
    | none => exitedCleanly child
    | some f => .log .warning f.message
  (l.note now report).deliver now ⟨failure, l.reads.out.buffer, l.reads.err.buffer⟩

def complete (l : Launch) (now : Instant) (child : Child) : Launch :=
  l.conclude now child (Failure.ofExit l.command l.line ((child.returncode now).getD 0))

def giveUp (l : Launch) (now : Instant) (child : Child) (timeout : Value) : Launch :=
  l.conclude now child
    (some (Failure.ofTimeout l.command l.line timeout (child.returncode now)))

def send (l : Launch) (now : Instant) (order : Order) (child : Child) : Launch × Option Child :=
  let answer := match order with
    | .terminate => child.terminate? now
    | .kill => child.kill? now
  ({ l with
      child := some (answer.getD child)
      sent := l.sent ++ [⟨now, order, answer.isSome⟩] }, answer)

/-- The deadline has passed: ask the child to stop. A child that cannot be asked, or has exited
already, is not waited for. The reading goes on. -/
def expire (l : Launch) (now : Instant) (child : Child) (timeout : Value) : Launch :=
  match (l.note now (stillRunning child timeout)).send now .terminate child with
  | (l, none) => l.goTo (.draining (now + grace))
  | (l, some child) =>
    if child.exitedBy now then l.goTo (.draining (now + grace))
    else l.goTo (.terminating (now + grace))

/-- The child did not stop when asked: kill it. Waiting for a child that has exited ends at once,
waiting for one that has not ends when it is finished. -/
def strike (l : Launch) (now : Instant) (child : Child) : Launch :=
  match l.send now .kill child with
  | (l, answer) =>
    if (answer.getD child).exitedBy now then l.goTo (.draining (now + grace))
    else l.goTo .killing

/-- A launch at the instant of an action: its reading has gone on since the last one. -/
def awake (l : Launch) (now : Instant) : Launch :=
  { l with
    clock := now
    reads := (l.child.map fun c => l.reads.advance c now).getD l.reads }

def startReading (l : Launch) (now : Instant) (child : Child) : Launch :=
  { l with reads := .begin child now }

def stopReading (l : Launch) : Launch := { l with reads := l.reads.cancel }

/-- Begin to wait for the child, with the launcher's timeout as it stands. A setting that is no span
of time ends the launch, and nothing is delivered. -/
def embark (l : Launch) (now : Instant) (child : Child) (timeout : Value) : Launch :=
  match Limit.ofSetting timeout with
  | .unlimited => l.goTo (.watching none)
  | .within span => l.goTo (.watching (some (now + span)))
  | .expired => l.expire now child timeout
  | .unusable => l.goTo .ended

/-- The earlier of two instants that may never come. -/
def sooner : Option Instant → Option Instant → Option Instant
  | none, b => b
  | a, none => a
  | some a, some b => some (min a b)

def awaited (l : Launch) : Option Instant :=
  match l.stage with
  | .unstarted _ | .fresh | .asking _ _ => some l.clock
  | .watching deadline => sooner (l.child.bind l.reads.doneAt) deadline
  | .terminating bound => sooner (l.child.bind Child.finish) (some bound)
  | .draining bound => sooner (l.child.bind l.reads.doneAt) (some bound)
  | .killing => l.child.bind Child.finish
  | .dozing bound _ _ | .lingering bound => some bound
  | .ended => none

def next (l : Launch) : Option Instant := l.awaited.map (max l.clock)

def actWith (l : Launch) (now : Instant) (timeout : Value) (child : Child) : Launch :=
  match l.stage with
  | .fresh => (l.startReading now child).embark now child timeout
  | .watching _ => if l.reads.isDone then l.complete now child else l.expire now child timeout
  | .terminating _ =>
    if child.finishedBy now then l.goTo (.draining (now + grace)) else l.strike now child
  | .killing => l.goTo (.draining (now + grace))
  | .draining _ =>
    if l.reads.isDone then l.giveUp now child timeout
    else (l.stopReading.note now (pipesOpen child)).giveUp now child timeout
  | _ => l

/-- What the launch does at an instant. A launch that the handler asks for is made elsewhere; here
its asking is over. -/
def act (l : Launch) (now : Instant) (timeout : Value) : Launch :=
  let l := l.awake now
  match l.stage, l.child with
  | .unstarted failure, _ => l.deliver now ⟨some failure, [], []⟩
  | .dozing _ completion fault, _ =>
    ((l.note now (.call l.recipient completion)).noteAll now
      (fault.toList.map .raised)).goTo .ended
  | .lingering _, _ | .asking _ _, _ => l.goTo .ended
  | _, some child => l.actWith now timeout child
  | _, none => l

/-- The return code of the child: none without a child, and nothing while it runs. -/
def returncode (l : Launch) (now : Instant) : Option (Option Int) :=
  l.child.map fun c => c.returncode now

end Launch

end JarLaunch
