import JarLaunch.Child

/-! Reading what a child writes. Each pipe has a pump, a loop that takes chunks from it until a read
brings nothing, and keeps them in a buffer. The two pumps and the wait for the process go on side by
side, whatever the launch does meanwhile, and are over when all three have ended or when they are
cancelled. -/
namespace JarLaunch

structure Pump where
  /-- What stands in the pipe. -/
  pipe : List UInt8 := []
  /-- Nothing more will come through the pipe. -/
  shut : Bool := false
  buffer : List UInt8 := []
  /-- The loop has been left. -/
  ended : Bool := false
  deriving DecidableEq

namespace Pump

/-- How much is read at once, at most. -/
def chunk : Nat := 65536

/-- One turn of the loop. An open pipe with nothing in it keeps the loop waiting. -/
def read (p : Pump) : Pump :=
  if p.ended then p
  else if p.pipe.isEmpty then { p with ended := p.shut }
  else { p with pipe := p.pipe.drop chunk, buffer := p.buffer ++ p.pipe.take chunk }

def reads : Nat → Pump → Pump
  | 0, p => p
  | turns + 1, p => reads turns p.read

/-- The loop goes round until it waits or has been left. -/
def drain (p : Pump) : Pump := reads (p.pipe.length / chunk + 2) p

def receive (p : Pump) (bytes : List UInt8) : Pump := drain { p with pipe := p.pipe ++ bytes }

def close (p : Pump) : Pump := drain { p with shut := true }

def cancel (p : Pump) : Pump := { p with ended := true }

end Pump

structure Reading where
  out : Pump := {}
  err : Pump := {}
  /-- The wait for the process has returned. -/
  reaped : Bool := false
  /-- How far the reading has come; nothing before it begins. -/
  upTo : Option Instant := none
  deriving DecidableEq

namespace Reading

def pump (r : Reading) : Stream → Pump
  | .out => r.out
  | .err => r.err

def receive (r : Reading) (w : Write) : Reading :=
  match w.stream with
  | .out => { r with out := r.out.receive w.bytes }
  | .err => { r with err := r.err.receive w.bytes }

/-- The pipes close, and the wait for a process that had not exited when it began returns. -/
def close (r : Reading) : Reading :=
  { r with out := r.out.close, err := r.err.close, reaped := true }

def follow (r : Reading) (c : Child) (now : Instant) : Reading :=
  let read := (c.arrivals r.upTo now).foldl receive r
  { (if c.finishedBy now then read.close else read) with upTo := some now }

/-- The wait for a process that has exited returns at once. -/
def begin (c : Child) (now : Instant) : Reading :=
  follow { reaped := c.exitedBy now } c now

def advance (r : Reading) (c : Child) (now : Instant) : Reading :=
  match r.upTo with
  | none => r
  | some _ => r.follow c now

def isDone (r : Reading) : Bool := r.out.ended && r.err.ended && r.reaped

def cancel (r : Reading) : Reading := { r with out := r.out.cancel, err := r.err.cancel }

def later : Option Instant → Option Instant → Option Instant
  | some a, some b => some (max a b)
  | _, _ => none

/-- When the last of the three ends, as things stand: each pump when its pipe closes, and the wait
for the process when the child is finished unless it has returned. -/
def doneAt (r : Reading) (c : Child) : Option Instant :=
  let pumps := later (c.closing .out) (c.closing .err)
  if r.reaped then pumps else later pumps c.finish

end Reading

end JarLaunch
