import SortLast.Cluster.Config
import SortLast.Cluster.Network
import SortLast.Cluster.Pool
import SortLast.Cluster.Preview
import SortLast.Partition.Bricks

/-!
# Setting a cluster up

The coordinator first plans the distribution of the volume, then connects to the participants in
order, then tells each of them the window, the time step and its bricks, and at last starts a worker
for the images of each. Any failure ends the setup and closes what was opened.

* `Plan.make`: everything that is decided before a connection is made.
* `Connection.open?`: a connection to one participant, with the exchange of versions.
* `Setup.connect`, `Setup.distribute`, `Setup.launch`: the three phases after the plan.
* `Setup.run`: the whole setup, with a record of what was done.
-/

namespace SortLast

/-- What is decided before any connection is made. -/
structure Plan where
  dims : Int32 × Int32
  currentFrame : Int32
  partition : Partition
  grids : List LeafGrid
  frames : UInt32
  depthImages : Bool
  deriving DecidableEq, Repr

namespace Plan

/-- An engine's failure as the cluster's. -/
def checked {α : Type} (r : Except ConfigurationError α) : Except ClusterError α :=
  r.mapError .configuration

/-- The layout of bricks that a configuration asks for. -/
def layout (config : ClusterConfig) : Except ConfigurationError BrickLayout :=
  match config.brickExtent with
  | none => .ok BrickLayout.single
  | some extent => BrickLayout.withMaxExtent extent

/-- The partition that a configuration asks for; all participants weigh the same if it gives no
weights. -/
def partitionOf (config : ClusterConfig) (extent : Box) : Except ConfigurationError Partition :=
  Partition.ofWeights extent (config.weights.getD (config.participants.map fun _ => 1))

/-- A time step as it is sent; the largest one that can be sent stands for all beyond. -/
def sentFrame (frame : UInt32) : Int32 := Int32.ofNat (min frame.toNat ClusterConfig.maxSide)

/-- Plan the distribution of a preview renderer's volume. -/
def make (config : ClusterConfig) (preview : Preview) : Except ClusterError Plan := do
  if !preview.has .distributed then throw .wrongRenderer
  config.validate
  let dims ← ClusterConfig.windowDims config.width config.height
  let volume := preview.volume
  checked volume.validate
  let partition ← checked (partitionOf config volume.extent)
  let layout ← checked (layout config)
  let grids ← checked (layout.cutAll partition)
  return {
    dims
    currentFrame := sentFrame volume.currentFrame
    partition
    grids
    frames := max volume.frames 1
    depthImages := preview.has .depthImages }

/-- Every participant's bricks, time step by time step. -/
def bricks (plan : Plan) : List (List (List Brick)) := plan.grids.map fun g => g.schedule plan.frames

/-- What a participant is told before the first frame, given its bricks. -/
def commands (plan : Plan) (bricks : List (List Brick)) : List Command :=
  [.resize plan.dims.1 plan.dims.2, .currentFrame plan.currentFrame] ++ bricks.map .bricks

end Plan

/-- An open connection to a participant. -/
structure Connection where
  proxy : Proxy
  inbox : Inbox
  peer : Peer
  /-- What it had sent when the connection was opened. -/
  greeting : Answer

namespace Connection

/-- What the stream from a peer holds while one waits for its greeting: if the peer does not hang up,
the wait runs out of time. -/
def greetingSource (a : Answer) : Source :=
  { chunks := [a.bytes], failure := if a.ended then none else some .noAnswer }

/-- Exchange versions with a peer. The first component is the sending end as it is left: open if the
exchange succeeds, else closed. -/
def handshake (participant : Nat) (peer : Peer) : Proxy × Except NetError Connection :=
  let sent := peer.sink.put (.hello protocolVersion)
  let proxy : Proxy :=
    { participant := UInt64.ofNat participant, sink := sent.2, shutDown := some false }
  match sent.1 with
  | .error e => (proxy.close, .error e)
  | .ok () =>
    let greeting := peer.respond proxy.sink.accepted
    match Reading.hello (greetingSource greeting) with
    | (.error e, _) => (proxy.close, .error e)
    | (.ok version, source) =>
      if version ≠ protocolVersion then
        (proxy.close, .error (.versionMismatch protocolVersion version))
      else
        let receiver : Receiver := { participant := UInt64.ofNat participant, source }
        (proxy, .ok { proxy, inbox := { receiver, ended := greeting.ended }, peer, greeting })

/-- Connect to a participant: find it, dial it, exchange versions. The first component is the sending
end, if the participant was reached. -/
def open? (net : Network) (participant : Nat) (address : ParticipantAddress) :
    Option Proxy × Except NetError Connection :=
  match net.resolve address with
  | .error e => (none, .error (.io e))
  | .ok socket =>
    match net.dial participant socket with
    | .error e => (none, .error (.io e))
    | .ok peer =>
      let (proxy, result) := handshake participant peer
      (some proxy, result)

end Connection

/-- A record of a setup. -/
structure Setup where
  /-- The number of participants that were contacted, in the order of their indices. -/
  contacted : Nat := 0
  /-- The sending ends of all connections that were opened, as the setup left them. -/
  opened : List Proxy := []
  /-- The plan and the connections, or why there is no cluster. -/
  outcome : Except ClusterError (Plan × List Connection)

namespace Setup

/-- A setup that fails after it has opened the given connections, all of which are closed. -/
def failed (contacted : Nat) (opened : List Proxy) (e : ClusterError) : Setup :=
  ⟨contacted, opened.map Proxy.close, .error e⟩

/-- Tell the participants from number `next` on what they need to know; `told` are the connections of
the participants before. -/
def distribute (plan : Plan) (next : Nat) (told : List Connection) :
    List Connection → List (List (List Brick)) → Setup
  | c :: rest, bricks :: lists =>
    match c.proxy.sendAll (plan.commands bricks) with
    | (.ok (), proxy) => distribute plan (next + 1) (told ++ [{ c with proxy }]) rest lists
    | (.error e, proxy) =>
      failed (told.length + 1 + rest.length)
        (told.map Connection.proxy ++ proxy :: rest.map Connection.proxy) (.socket next e)
  | rest, _ =>
    let all := told ++ rest
    ⟨all.length, all.map Connection.proxy, .ok (plan, all)⟩

/-- Start the image workers, if everybody was told. -/
def launch (s : Setup) (net : Network) : Setup :=
  match s.outcome with
  | .ok (_, connections) =>
    match net.startWorkers connections.length with
    | .ok () => s
    | .error e => failed s.contacted s.opened (.io e)
  | .error _ => s

/-- Connect to the participants from number `next` on; `opened` are the connections to those before.
Once all are connected, the distribution and the workers follow. -/
def connect (net : Network) (plan : Plan) (next : Nat) (opened : List Connection) :
    List ParticipantAddress → Setup
  | [] => (distribute plan 0 [] opened plan.bricks).launch net
  | address :: rest =>
    match Connection.open? net next address with
    | (_, .ok c) => connect net plan (next + 1) (opened ++ [c]) rest
    | (proxy, .error e) =>
      failed (next + 1) (opened.map Connection.proxy ++ proxy.toList) (.socket next e)

/-- Set a cluster up. -/
def run (net : Network) (config : ClusterConfig) (preview : Preview) : Setup :=
  match Plan.make config preview with
  | .error e => { outcome := .error e }
  | .ok plan => connect net plan 0 [] config.participants

end Setup

end SortLast
