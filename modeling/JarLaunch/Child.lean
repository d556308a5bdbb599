import JarLaunch.Double.Basic

/-! Time, and a child process with its pipes as a timetable. Instants and spans are counted in a
unit so fine that a millisecond and every double number of seconds are whole numbers of it, so
deadlines are exact. A child exits by itself or in answer to a signal, whichever comes first; its
pipes stay open a while longer if a grandchild holds them, and it is finished when they close. What
is written after the exit is lost unless a grandchild writes it, and what is written after the pipes
close is lost in any case. -/
namespace JarLaunch

abbrev Instant := Nat
abbrev Span := Nat

namespace Clock

def millisecond : Span := Nat.pow 2 1074

def second : Span := 1000 * millisecond

def millis (n : Nat) : Span := n * millisecond

def toMillis (t : Instant) : Nat := roundDiv t millisecond

end Clock

inductive Stream where
  | out
  | err
  deriving DecidableEq

structure Write where
  stream : Stream
  /-- When, in milliseconds after the start. -/
  delay : Nat
  bytes : List UInt8
  byGrandchild : Bool
  deriving DecidableEq

/-- What a signal does to a process. -/
inductive Reaction where
  | exits (delay : Nat) (code : Int)
  | ignores
  /-- The signal cannot be sent: there is no such process. -/
  | lost
  deriving DecidableEq

structure Behaviour where
  /-- The return code of the child's own exit, if it ever exits by itself. -/
  exit : Option Int := some 0
  /-- When it exits by itself, in milliseconds after the start. -/
  lifetime : Nat := 0
  writes : List Write := []
  /-- How long the pipes stay open after the exit, in milliseconds; nothing means for ever. -/
  hold : Option Nat := some 0
  onTerminate : Reaction := .exits 1 (-15)
  onKill : Reaction := .exits 1 (-9)
  deriving DecidableEq

def Write.insert (w : Write) : List Write → List Write
  | [] => [w]
  | v :: vs => if w.delay ≤ v.delay then w :: v :: vs else v :: w.insert vs

/-- The writes in the order they are made: by time, and as they are listed where times agree. -/
def Behaviour.schedule (b : Behaviour) : List Write := b.writes.foldr Write.insert []

structure Child where
  pid : Nat
  started : Instant
  behaviour : Behaviour
  /-- The exit that will come first as things stand, and its return code. -/
  exit : Option (Instant × Int)
  deriving DecidableEq

namespace Child

def start (pid : Nat) (now : Instant) (behaviour : Behaviour) : Child :=
  ⟨pid, now, behaviour, behaviour.exit.map fun code =>
    (now + Clock.millis behaviour.lifetime, code)⟩

/-- When the pipes close and the child is finished, if ever. -/
def finish (c : Child) : Option Instant := do
  let (exit, _) ← c.exit
  let hold ← c.behaviour.hold
  return exit + Clock.millis hold

/-- The pipes close together. -/
def closing (c : Child) : Stream → Option Instant
  | .out | .err => c.finish

def exitedBy (c : Child) (now : Instant) : Bool := c.exit.any (·.1 ≤ now)

def finishedBy (c : Child) (now : Instant) : Bool := c.finish.any (· ≤ now)

def returncode (c : Child) (now : Instant) : Option Int :=
  (c.exit.filter (·.1 ≤ now)).map (·.2)

/-- The child with one more exit ahead of it; the first to come wins, and the older of two at one
instant. -/
def exitAt (c : Child) (instant : Instant) (code : Int) : Child :=
  match c.exit with
  | some (earlier, _) => if earlier ≤ instant then c else { c with exit := some (instant, code) }
  | none => { c with exit := some (instant, code) }

/-- Send a signal; nothing comes back if there is no process to take it. An exited child whose
pipes are open still takes signals, to no effect. -/
def signal? (c : Child) (reaction : Reaction) (now : Instant) : Option Child :=
  if reaction = .lost ∨ c.finishedBy now then none
  else if c.exitedBy now then some c
  else
    match reaction with
    | .exits delay code => some (c.exitAt (now + Clock.millis delay) code)
    | _ => some c

def terminate? (c : Child) (now : Instant) : Option Child := c.signal? c.behaviour.onTerminate now

def kill? (c : Child) (now : Instant) : Option Child := c.signal? c.behaviour.onKill now

def writtenAt (c : Child) (w : Write) : Instant := c.started + Clock.millis w.delay

/-- Does a write reach the pipes? One at the instant of the exit still does. -/
def keeps (c : Child) (w : Write) : Bool :=
  (w.byGrandchild || c.exit.all (c.writtenAt w ≤ ·.1)) && c.finish.all (c.writtenAt w ≤ ·)

def arrivals (c : Child) (since : Option Instant) (now : Instant) : List Write :=
  c.behaviour.schedule.filter fun w =>
    since.all (· < c.writtenAt w) && c.writtenAt w ≤ now && c.keeps w

end Child

end JarLaunch
