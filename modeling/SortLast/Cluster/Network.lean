import SortLast.Address.Participant
import SortLast.Participant.Session

/-!
# Networks

What a host does for a program: find hosts, open connections to peers, and start workers. A peer is
given by how it takes bytes and by what it has sent once it has received some bytes.

* `Network.resolve`: the internet address of a participant.
* `Network.startWorkers`: the image workers of the first participants.
* `Network.isolated`: a host that reaches nobody.
* `Network.ofPeers`: a host on which the given peers answer, one connection each.
* `Peer.ofRenderer`: a participant that serves a renderer.
-/

namespace SortLast

/-- What a peer has sent. -/
structure Answer where
  bytes : List UInt8
  /-- True if it has hung up after them. -/
  ended : Bool := false
  deriving DecidableEq, Repr

/-- The other end of a connection. -/
structure Peer where
  sink : Sink := .unlimited
  /-- What it has sent once it has received the given bytes. -/
  respond : List UInt8 → Answer

namespace Peer

/-- A participant that serves one session with a renderer. It hangs up when its session is over. -/
def ofRenderer {σ : Type} (r : Renderer σ) (initial : σ) : Peer where
  respond received :=
    let (result, session) := Session.serve r initial (.ofBytes received) .unlimited
    let ended := match result with
      | .ok summary => summary.cleanExit
      | .error _ => true
    ⟨session.sink.accepted, ended⟩

end Peer

/-- A coordinator that connects to a participant's program. -/
structure Visit where
  source : Source
  sink : Sink

/-- A host with its network. -/
structure Network where
  lookup : String → Except IoError IpAddress
  /-- Open connection number `k` to an address. -/
  dial : Nat → SocketAddress → Except IoError Peer
  /-- Listen on an address; the coordinators that connect to it, one after the other. -/
  listen : SocketAddress → Except IoError (List Visit)
  /-- Start the image worker of a participant. -/
  startWorker : Nat → Except IoError Unit := fun _ => .ok ()

namespace Network

/-- The internet address of a participant. -/
def resolve (net : Network) (a : ParticipantAddress) : Except IoError SocketAddress :=
  match a.literal? with
  | some s => .ok s
  | none => (net.lookup a.host).map fun ip => { ip, port := a.port }

/-- Start the image workers of the first `count` participants, one after the other. -/
def startWorkers (net : Network) : (count : Nat) → Except IoError Unit
  | 0 => .ok ()
  | count + 1 => do
    net.startWorkers count
    net.startWorker count

/-- The internet address to listen on: an internet address with a port, or a host with a port. -/
def resolveListen (net : Network) (s : String) : Except IoError SocketAddress :=
  match SocketAddress.parse s with
  | some a => .ok a
  | none =>
    match Text.splitLast ':' s.toList with
    | none => .error .badListenAddress
    | some (host, port) =>
      match Text.parseNat UInt16.size port with
      | .error _ => .error .badListenPort
      | .ok port => net.resolve ⟨String.ofList host, UInt16.ofNat port⟩

/-- Why nobody can be reached from a host without an interface. An address of eight groups fails
already for want of an address to send from. -/
def unreachable (a : SocketAddress) : IoError :=
  match a.ip.kind with
  | .short | .multicast => .networkUnreachable
  | .linkLocal => if a.scope = 0 then .noInterface else .foreignAddress
  | .wildcard | .global => .foreignAddress

/-- Ports from one up to here are kept for the host itself. -/
def lastReservedPort : UInt16 := 1023

/-- Listen on a host without an interface, on which addresses of four bytes are not checked. Nobody
connects. -/
def listenInVain (a : SocketAddress) : Except IoError (List Visit) :=
  if a.ip.kind = .multicast then .error .noInterface
  else if 0 < a.port ∧ a.port ≤ lastReservedPort then .error .reservedPort
  else match a.ip.kind with
    | .short | .wildcard => .ok []
    | .linkLocal => .error (if a.scope = 0 then .noInterface else .foreignAddress)
    | .multicast | .global => .error .foreignAddress

/-- A host without an interface, which knows no name but its own. -/
def isolated : Network where
  lookup name := if name = "localhost" then .ok (.v4 127 0 0 1) else .error .unknownHost
  dial _ a := .error (unreachable a)
  listen := listenInVain

/-- A host on which connection number `k` reaches peer number `k`; nobody listens anywhere else. -/
def ofPeers (peers : List Peer) : Network where
  lookup _ := .ok (.v4 127 0 0 1)
  dial k _ := match peers[k]? with
    | some peer => .ok peer
    | none => .error .connectionRefused
  listen _ := .ok []

end Network

end SortLast
