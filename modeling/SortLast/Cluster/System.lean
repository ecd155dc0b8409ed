import SortLast.Cluster.Coordinator

/-!
# The cluster as a system of processes

The coordinator, one image worker per participant, and the participants, which send what they like
when they like. Each process moves on its own; a move is atomic, and every order of moves is a run.

* `System.connect`: a cluster that is set up, if it can be.
* `Phase`: where the coordinator is inside an operation.
* `System.advance`: the coordinator's next move; `none` if it is blocked or has nothing to do.
* `System.expire`: the time of the coordinator's timed wait runs out.
* `System.move`: the moves of all processes and of the participants.
* `System.Step`, `System.Run`: runs in which the participants keep to a given behaviour.
-/

namespace SortLast

/-- Where the coordinator is inside an operation. -/
inductive Phase where
  | idle
  /-- Take reports of failures before a frame. -/
  | reaping (view : View)
  /-- Look which participants from `next` on are live. -/
  | surveying (view : View) (next : Nat) (live : List Nat)
  | sending (view : View) (rest : List Nat)
  | meeting (view : View)
  | awaiting (view : View) (generation : Nat)
  /-- Look whether the worker of participant `next` still works. -/
  | judging (view : View) (next : Nat) (evicted : List Nat)
  /-- Look whether participant `next` has delivered after all. -/
  | checking (view : View) (next : Nat) (evicted : List Nat)
  | evicting (view : View) (rest evicted : List Nat)
  | rejoining (view : View) (evicted : List Nat)
  | reawaiting (view : View) (evicted : List Nat) (generation : Nat)
  /-- Take reports of failures during the frame. -/
  | collecting (view : View) (evicted failed : List Nat)
  | gathering (view : View) (evicted lost rest : List Nat) (g : Gathering)
  | broadcasting (c : Command) (next : Nat) (first : Option ClusterError)
  | exiting (next : Nat) (first : Option ClusterError)
  | closing (next : Nat) (first : Option ClusterError)
  | closingBarrier (first : Option ClusterError)
  | joining (next : Nat) (first : Option ClusterError)
  | crashed (f : Fault)
  deriving DecidableEq, Repr

/-- A cluster at work. -/
structure System where
  coordinator : Coordinator
  pool : Pool
  phase : Phase := .idle
  replies : List Reply := []
  /-- All bytes that each participant has sent. -/
  sent : List (List UInt8)

/-- A move of one of the processes, or of a participant. -/
inductive Move where
  | ask (op : Operation)
  | coordinator
  | timeout
  | worker (participant : Nat)
  | deliver (participant : Nat) (bytes : List UInt8)
  | hangUp (participant : Nat) (failure : Option IoError)

namespace System

/-- A cluster that was set up, before any operation. -/
def ofPlan (config : ClusterConfig) (plan : Plan) (connections : List Connection) :
    Except Fault System := do
  return {
    coordinator := ← Coordinator.ofPlan config plan connections
    pool := .ofInboxes (connections.map Connection.inbox)
    sent := connections.map fun c => c.greeting.bytes }

/-- Set a cluster up and make its coordinator, with the participants that it is connected to. -/
def connect (net : Network) (config : ClusterConfig) (preview : Preview) :
    Except Fault (Except ClusterError (List Peer × System)) :=
  match (Setup.run net config preview).outcome with
  | .error e => .ok (.error e)
  | .ok (plan, connections) => do
    let s ← ofPlan config plan connections
    return .ok (connections.map Connection.peer, s)

/-- The bytes that a participant has accepted. -/
def accepted (s : System) (participant : Nat) : List UInt8 :=
  match s.coordinator.proxies[participant]? with
  | some p => p.sink.accepted
  | none => []

/-- The participants still connected whose workers still work. -/
def liveParticipants (s : System) : List Nat :=
  (List.range s.coordinator.participantCount).filter fun p =>
    s.coordinator.isConnected p && s.pool.isAlive p

/-! ### The coordinator -/

/-- The coordinator goes on to a phase. -/
def goTo (s : System) (phase : Phase) : System := { s with phase }

/-- The coordinator answers. -/
def answer (s : System) (r : Reply) : System :=
  { s with phase := .idle, replies := s.replies ++ [r] }

/-- The outcome of an operation on all participants: the first failure. -/
def outcome : Option ClusterError → Except ClusterError Unit
  | none => .ok ()
  | some e => .error e

/-- The sending end of a participant's connection becomes `p`. Once it is closed, the receiving end
is, too. -/
def putProxy (s : System) (participant : Nat) (p : Proxy) : System :=
  { s with
    coordinator := { s.coordinator with proxies := s.coordinator.proxies.set participant p }
    pool := if p.isConnected then s.pool else s.pool.closeInbox participant }

/-- Close a participant's connection. -/
def closeConnection (s : System) (participant : Nat) : System :=
  match s.coordinator.proxies[participant]? with
  | some p => s.putProxy participant p.close
  | none => s

/-- Take the first of the reports of failures: close that connection, if it is open. -/
def takeReport (s : System) (e : WorkerEvent) (rest : List WorkerEvent) : System :=
  let s := { s with pool := { s.pool with events := rest } }
  if s.coordinator.isConnected e.participant then s.closeConnection e.participant else s

/-- Send a command to a participant. -/
def sendTo (s : System) (participant : Nat) (c : Command) : Except NetError Unit × System :=
  match s.coordinator.proxies[participant]? with
  | some p => ((p.send c).1, s.putProxy participant (p.send c).2)
  | none => (.ok (), s)

/-- Begin an operation. -/
def start (s : System) : Operation → System
  | .render view => s.goTo (.reaping view)
  | .set setting => s.goTo (.broadcasting setting.command 0 none)
  | .resize width height =>
    match ClusterConfig.windowDims width height with
    | .error e => s.answer (.done (.error e))
    | .ok (w, h) =>
      let c := s.coordinator
      match c.framebuffer.resize width height with
      | .error f => s.goTo (.crashed f)
      | .ok framebuffer =>
        { s with
          coordinator := { c with config := { c.config with width, height }, framebuffer }
          phase := .broadcasting (.resize w h) 0 none }
  | .setBackground colour =>
    let c := s.coordinator
    { s with coordinator := { c with config := { c.config with background := colour } } }.answer
      (.done (.ok ()))
  | .shutdown =>
    if s.coordinator.isShutDown then s.answer (.done (.ok ()))
    else
      { s with
        coordinator := { s.coordinator with isShutDown := true }
        pool := s.pool.requestShutdown
        phase := .exiting 0 none }

/-- What follows the end of a wait for images. -/
def afterWait (s : System) (view : View) (evicted : List Nat) : WaitResult → System
  | .leader | .follower => s.goTo (.collecting view evicted [])
  | .failed .closed => s.answer (.frame (.error .noParticipants))
  | .failed .timedOut => s.goTo (.judging view 0 [])

/-- The coordinator arrives at the barrier. -/
def arrive (s : System) (view : View) (evicted : List Nat) (wait : Nat → Phase) : System :=
  let (arrival, barrier) := s.pool.barrier.arrive
  let s := { s with pool := { s.pool with barrier } }
  match arrival with
  | .returns r => s.afterWait view evicted r
  | .waits generation => s.goTo (wait generation)

/-- The coordinator's next move inside an operation. -/
def advance (s : System) : Option System :=
  match s.phase with
  | .idle | .crashed _ => none
  | .reaping view =>
    match s.pool.events with
    | [] => some (s.goTo (.surveying view 0 []))
    | e :: rest => some (s.takeReport e rest)
  | .surveying view next live =>
    if next < s.coordinator.participantCount then
      let isLive := s.coordinator.isConnected next && s.pool.isAlive next
      some (s.goTo (.surveying view (next + 1) (if isLive then live ++ [next] else live)))
    else if live.isEmpty then some (s.answer (.frame (.error .noParticipants)))
    else
      let c := s.coordinator
      some { s with
        coordinator := { c with frameIndex := c.frameIndex + 1 }, phase := .sending view live }
  | .sending view [] => some (s.goTo (.meeting view))
  | .sending view (p :: rest) => some ((s.sendTo p (.ofView view)).2.goTo (.sending view rest))
  | .meeting view => some (s.arrive view [] (.awaiting view))
  | .awaiting view generation => (s.pool.barrier.poll generation).map (s.afterWait view [])
  -- between these looks workers go on, so one that is found to have missed the frame may still deliver
  | .judging view next evicted =>
    if next < s.coordinator.participantCount then
      if s.pool.isAlive next then some (s.goTo (.checking view next evicted))
      else some (s.goTo (.judging view (next + 1) evicted))
    else some (s.goTo (.evicting view evicted evicted))
  | .checking view next evicted =>
    let missed := !s.pool.slots.isFresh next s.coordinator.frameIndex
    some (s.goTo (.judging view (next + 1) (if missed then evicted ++ [next] else evicted)))
  | .evicting view [] evicted => some (s.goTo (.rejoining view evicted))
  | .evicting view (p :: rest) evicted =>
    some ((s.closeConnection p).goTo (.evicting view rest evicted))
  | .rejoining view evicted => some (s.arrive view evicted (.reawaiting view evicted))
  | .reawaiting view evicted generation =>
    (s.pool.barrier.poll generation).map (s.afterWait view evicted)
  | .collecting view evicted failed =>
    match s.pool.events with
    | [] =>
      -- only those dropped from this frame are left out, not those of earlier ones
      let lost := failed.filter fun p => !evicted.contains p
      let c := s.coordinator
      let order := c.partition.ordered view.eye c.compositor.order
      some (s.goTo (.gathering view evicted lost order {}))
    | e :: rest =>
      some ((s.takeReport e rest).goTo (.collecting view evicted (failed ++ [e.participant])))
  | .gathering view evicted lost [] g =>
    match s.coordinator.finish view evicted lost g with
    | .ok (r, coordinator) => some ({ s with coordinator }.answer (.frame r))
    | .error f => some (s.goTo (.crashed f))
  | .gathering view evicted lost (p :: rest) g =>
    let (g, coordinator) := s.coordinator.gather g p (s.pool.slots.fresh p s.coordinator.frameIndex)
    some ({ s with coordinator }.goTo (.gathering view evicted lost rest g))
  | .broadcasting c next first =>
    if next < s.coordinator.participantCount then
      if s.coordinator.isConnected next then
        let (r, s) := s.sendTo next c
        let first := match r with
          | .ok () => first
          | .error e => first.or (some (.socket next e))
        some (s.goTo (.broadcasting c (next + 1) first))
      else some (s.goTo (.broadcasting c (next + 1) first))
    else some (s.answer (.done (outcome first)))
  | .exiting next first =>
    match s.coordinator.proxies[next]? with
    | some p =>
      let (r, p) := p.exit
      let first := match r with
        | .ok () => first
        | .error e => first.or (some (.socket next e))
      some ((s.putProxy next p).goTo (.exiting (next + 1) first))
    | none => some (s.goTo (.closing 0 first))
  | .closing next first =>
    if next < s.pool.size then
      some ({ s with pool := s.pool.closeInbox next }.goTo (.closing (next + 1) first))
    else some (s.goTo (.closingBarrier first))
  | .closingBarrier first =>
    some ({ s with pool := { s.pool with barrier := s.pool.barrier.close } }.goTo (.joining 0 first))
  | .joining next first =>
    match s.pool.workers[next]? with
    | some w => if w.phase = .exited then some (s.goTo (.joining (next + 1) first)) else none
    | none => some (s.answer (.done (outcome first)))

/-- The time of the coordinator's timed wait runs out. -/
def expire (s : System) : Option System :=
  match s.phase with
  | .awaiting view generation =>
    let (r, barrier) := s.pool.barrier.expire generation
    some ({ s with pool := { s.pool with barrier } }.afterWait view [] r)
  | _ => none

/-! ### The participants -/

/-- The incoming side of a participant's connection changes. -/
def modifyInbox (s : System) (participant : Nat) (f : Inbox → Inbox) : System :=
  { s with pool := { s.pool with
      workers := s.pool.workers.modify participant fun w => { w with inbox := f w.inbox } } }

/-- A participant that has not hung up sends bytes. -/
def deliver (s : System) (participant : Nat) (bytes : List UInt8) : Option System :=
  match s.pool.workers[participant]? with
  | some w =>
    if w.inbox.ended then none
    else
      let s := s.modifyInbox participant fun b => b.deliver bytes
      some { s with sent := s.sent.modify participant (· ++ bytes) }
  | none => none

/-- A participant hangs up. -/
def hangUp (s : System) (participant : Nat) (failure : Option IoError) : Option System :=
  match s.pool.workers[participant]? with
  | some w =>
    if w.inbox.ended then none else some (s.modifyInbox participant fun b => b.hangUp failure)
  | none => none

/-! ### Runs -/

/-- The outcome of a move; `none` if it is not possible. -/
def move (s : System) : Move → Option System
  | .ask op => if s.phase = .idle then some (s.start op) else none
  | .coordinator => s.advance
  | .timeout => s.expire
  | .worker participant => (s.pool.step participant).map fun pool => { s with pool }
  | .deliver participant bytes => s.deliver participant bytes
  | .hangUp participant failure => s.hangUp participant failure

/-- How participants behave: which bytes participant `p` may have sent once it has accepted the given
bytes. -/
abbrev Behaviour := (participant : Nat) → (accepted sent : List UInt8) → Prop

/-- Participants that send anything. -/
def anything : Behaviour := fun _ _ _ => True

/-- Participants that serve a session each: what they have sent is a prefix of what a session answers
to the commands accepted. -/
def sessions (peers : Nat → Peer) : Behaviour := fun p accepted sent =>
  sent <+: ((peers p).respond accepted).bytes

/-- One move, after which every participant has kept to a behaviour. -/
inductive Step (b : Behaviour) : System → System → Prop
  | mk {s t : System} (m : Move) : s.move m = some t →
      (∀ p bytes, m = .deliver p bytes → ∀ all, t.sent[p]? = some all → b p (t.accepted p) all) →
      Step b s t

/-- Any number of moves. -/
inductive Run (b : Behaviour) : System → System → Prop
  | refl (s : System) : Run b s s
  | tail {s t u : System} : Run b s t → Step b t u → Run b s u

end System

end SortLast
