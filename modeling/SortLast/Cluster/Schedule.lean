import SortLast.Cluster.System

/-!
# Running a cluster

One particular order of moves: workers before the coordinator, the coordinator before the
participants, and time runs out only when nobody else can move. So no participant is dropped that
answers at all.

* `System.next?`: the next move of that order.
* `System.perform`: carry an operation out.
-/

namespace SortLast.System

/-- The participants whose workers can move. -/
def movableWorker? (s : System) : Option Move :=
  ((List.range s.pool.size).find? fun p => (s.pool.step p).isSome).map .worker

/-- What a participant does next: it sends what it has not sent yet, or hangs up. -/
def nextOfPeer (s : System) (participant : Nat) (peer : Peer) : Option Move :=
  match s.pool.workers[participant]?, s.sent[participant]? with
  | some w, some sent =>
    if w.inbox.ended then none
    else
      let a := peer.respond (s.accepted participant)
      if sent.length < a.bytes.length then
        some (.deliver participant (a.bytes.drop sent.length))
      else if a.ended then some (.hangUp participant none)
      else none
  | _, _ => none

/-- The first participant that can do something, and what it does. -/
def nextOfPeers (s : System) (peers : List Peer) : Option Move :=
  peers.zipIdx.findSome? fun (peer, participant) => s.nextOfPeer participant peer

/-- The next move. -/
def next? (s : System) (peers : List Peer) : Option Move :=
  match s.movableWorker? with
  | some m => some m
  | none =>
    match s.advance with
    | some _ => some .coordinator
    | none =>
      match s.nextOfPeers peers with
      | some m => some m
      | none => if s.expire.isSome then some .timeout else none

/-- At most so many moves, until the coordinator has nothing more to do. -/
def runFor (peers : List Peer) : Nat → System → System
  | 0, s => s
  | fuel + 1, s =>
    if s.phase = .idle then s
    else match s.next? peers with
      | none => s
      | some m => match s.move m with
        | none => s
        | some t => runFor peers fuel t

/-- More moves than an operation takes. -/
def moveLimit : Nat := 1000000000000

/-- Carry an operation out. The reply is missing only if a computation had no result. -/
def perform (s : System) (peers : List Peer) (op : Operation) : Option Reply × System :=
  let t := runFor peers moveLimit (s.start op)
  if t.phase = .idle then (t.replies.getLast?, t) else (none, t)

end SortLast.System
