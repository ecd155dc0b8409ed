import SortLast.Cluster.Barrier
import SortLast.Cluster.Slots
import SortLast.Proxy

/-!
# Image workers

One worker per participant receives that participant's images, stores each one in the participant's
slot and meets the coordinator at the frame barrier. A worker whose connection fails reports that and
leaves the barrier.

* `Inbox.receive?`: the next image of a connection, unless it has to be waited for.
* `Pool.step`: one step of one worker; `none` if the worker is blocked or has exited.
* `Pool.settle`: every worker runs until it is blocked or has exited.
* `Pool.round`, `Pool.shutdown`: what the coordinator does, while the workers settle.
-/

namespace SortLast

/-- True if the bytes that have arrived hold a whole frame, or announce one that is too large. -/
def Source.holdsFrame (s : Source) : Bool :=
  match s.readExact 4 with
  | (.error _, _) => false
  | (.ok lengthBytes, rest) =>
    let length := Codec.ofLittleEndian lengthBytes
    decide (maxPayload < length ∨ length ≤ rest.size)

/-- The incoming side of a connection. -/
structure Inbox where
  receiver : Receiver
  /-- True if the peer sends nothing more. -/
  ended : Bool := false

namespace Inbox

/-- True if reading does not have to wait. -/
def isReady (b : Inbox) : Bool := b.receiver.closed || b.ended || b.receiver.source.holdsFrame

/-- Read the next image; `none` if it has to be waited for. -/
def receive? (b : Inbox) : Option (Except NetError Image × Inbox) :=
  if b.isReady then
    let (result, receiver) := b.receiver.image
    some (result, { b with receiver })
  else none

/-- More bytes arrive. -/
def deliver (b : Inbox) (bytes : List UInt8) : Inbox :=
  { b with receiver := { b.receiver with
      source := { b.receiver.source with chunks := b.receiver.source.chunks ++ [bytes] } } }

/-- The peer stops sending; a failure tells how. -/
def hangUp (b : Inbox) (failure : Option IoError) : Inbox :=
  { b with
    ended := true
    receiver := { b.receiver with source := { b.receiver.source with failure } } }

/-- The connection is closed on this side. -/
def close (b : Inbox) : Inbox := { b with receiver := { b.receiver with closed := true } }

end Inbox

/-- What a worker does next. -/
inductive WorkerPhase where
  | receiving
  | storing (image : Image)
  | arriving
  | waiting (generation : Nat)
  | failing (e : NetError)
  /-- Look whether the failure matters. -/
  | deciding (e : NetError)
  | announcing (e : NetError)
  | leaving
  | stopping
  | exited
  deriving DecidableEq, Repr

/-- The worker of one participant. -/
structure Worker where
  phase : WorkerPhase := .receiving
  inbox : Inbox
  delivered : Nat := 0
  /-- False once it has noted that it is over. -/
  alive : Bool := true

/-- A number of steps that takes a worker to where it is blocked or has exited: an image takes at
least four bytes and four steps, and the way out at most eight. -/
def Worker.stepBound (w : Worker) : Nat := w.inbox.receiver.source.size + 8

/-- A failure that a worker reports. -/
structure WorkerEvent where
  participant : Nat
  error : NetError
  deriving DecidableEq, Repr

/-- The workers and what they share with the coordinator. -/
structure Pool where
  workers : List Worker
  slots : Slots
  barrier : Barrier
  /-- Failures reported, in the order of their reports. -/
  events : List WorkerEvent := []
  /-- True once failures do not matter any more. -/
  stopping : Bool := false

namespace Pool

/-- Workers for the given inboxes, and a barrier for them and the coordinator. -/
def ofInboxes (inboxes : List Inbox) : Pool where
  workers := inboxes.map fun inbox => { inbox }
  slots := .ofCount inboxes.length
  barrier := { parties := inboxes.length + 1 }

/-- The number of workers. -/
def size (p : Pool) : Nat := p.workers.length

/-- True if a participant's worker has not noted its end. -/
def isAlive (p : Pool) (participant : Nat) : Bool :=
  match p.workers[participant]? with
  | some w => w.alive
  | none => false

/-- The number of workers that have not noted their end. -/
def liveCount (p : Pool) : Nat := (p.workers.filter Worker.alive).length

/-- Replace a worker. -/
def put (p : Pool) (participant : Nat) (w : Worker) : Pool :=
  { p with workers := p.workers.set participant w }

/-- One step of a participant's worker. -/
def stepOf (p : Pool) (participant : Nat) (w : Worker) : Option Pool :=
  match w.phase with
  | .receiving =>
    match w.inbox.receive? with
    | none => none
    | some (.ok image, inbox) => some (p.put participant { w with inbox, phase := .storing image })
    | some (.error e, inbox) => some (p.put participant { w with inbox, phase := .failing e })
  | .storing image =>
    -- images are numbered as they come, not by the cameras that they answer
    let delivered := w.delivered + 1
    some ({ p with slots := p.slots.store participant delivered image }.put participant
      { w with delivered, phase := .arriving })
  | .arriving =>
    let (arrival, barrier) := p.barrier.arrive
    let phase : WorkerPhase := match arrival with
      | .returns (.failed _) => .stopping
      | .returns _ => .receiving
      | .waits generation => .waiting generation
    some ({ p with barrier }.put participant { w with phase })
  | .waiting generation =>
    match p.barrier.poll generation with
    | none => none
    | some (.failed _) => some (p.put participant { w with phase := .stopping })
    | some _ => some (p.put participant { w with phase := .receiving })
  -- the end is noted before it is reported, so a worker may be over while no report of it is there
  | .failing e => some (p.put participant { w with alive := false, phase := .deciding e })
  | .deciding e =>
    some (p.put participant { w with phase := if p.stopping then .leaving else .announcing e })
  | .announcing e =>
    let event : WorkerEvent := ⟨participant, e⟩
    some ({ p with events := p.events ++ [event] }.put participant { w with phase := .leaving })
  | .leaving =>
    some ({ p with barrier := p.barrier.leave }.put participant { w with phase := .exited })
  | .stopping => some (p.put participant { w with alive := false, phase := .exited })
  | .exited => none

/-- One step of a participant's worker; `none` if it is blocked or has exited. -/
def step (p : Pool) (participant : Nat) : Option Pool :=
  match p.workers[participant]? with
  | some w => p.stepOf participant w
  | none => none

/-- A participant's worker makes at most so many steps. -/
def run (participant : Nat) : Nat → Pool → Pool
  | 0, p => p
  | fuel + 1, p =>
    match p.step participant with
    | some q => run participant fuel q
    | none => p

/-- Every worker runs until it is blocked or has exited. -/
def settle (p : Pool) : Pool :=
  p.workers.zipIdx.foldl (fun q (w, participant) => run participant w.stepBound q) p

/-- The coordinator waits at the barrier while the workers settle; what they do not complete then
runs out of time. -/
def round (p : Pool) : WaitResult × Pool :=
  match p.barrier.arrive with
  | (.returns r, barrier) => (r, { p with barrier }.settle)
  | (.waits generation, barrier) =>
    let p := { p with barrier }.settle
    let (r, barrier) := p.barrier.expire generation
    (r, { p with barrier }.settle)

/-- Failures do not matter any more. -/
def requestShutdown (p : Pool) : Pool := { p with stopping := true }

/-- Close a participant's connection on this side. -/
def closeInbox (p : Pool) (participant : Nat) : Pool :=
  { p with workers := p.workers.modify participant fun w => { w with inbox := w.inbox.close } }

/-- Close all connections on this side. -/
def closeInboxes (p : Pool) : Pool :=
  { p with workers := p.workers.map fun w => { w with inbox := w.inbox.close } }

/-- Stop: close the connections, then the barrier, and let the workers exit. -/
def shutdown (p : Pool) : Pool :=
  let p := p.requestShutdown.closeInboxes
  { p with barrier := p.barrier.close }.settle

/-- Take the failures reported so far. -/
def drainEvents (p : Pool) : List WorkerEvent × Pool := (p.events, { p with events := [] })

end Pool

end SortLast
