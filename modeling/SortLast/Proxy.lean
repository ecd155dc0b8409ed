import SortLast.RenderState

/-!
# Connections to participants

The coordinator's two ends of a participant connection: a proxy that sends commands and keeps the
state they establish, and a receiver of images.

* `Proxy.send`: a command counts once it is written; a failed write closes the connection.
* `Proxy.putBricks`, `Proxy.resync`, `Proxy.exit`, `Proxy.close`.
* `Receiver.image`: the next image, attributed to the receiver's own participant;
  `Receiver.imageIn`: the same in a build.
-/

namespace SortLast

/-- The sending end of a connection. -/
structure Proxy where
  participant : UInt64
  sink : Sink
  state : RenderState := .initial
  /-- False from the first failure or close on. -/
  connected : Bool := true
  /-- For a connection that other parties can shut down, whether it has been. -/
  shutDown : Option Bool := none

namespace Proxy

/-- True while commands can be sent. -/
def isConnected (p : Proxy) : Bool := p.connected && p.shutDown != some true

/-- True if other parties can shut the connection down. -/
def closable (p : Proxy) : Bool := p.shutDown.isSome

/-- Close the connection. -/
def close (p : Proxy) : Proxy := { p with connected := false, shutDown := p.shutDown.map fun _ => true }

/-- Send a command and apply it to the state. A failure may leave half a command on the stream, so the
connection is closed. -/
def send (p : Proxy) (c : Command) : Except NetError Unit × Proxy :=
  if !p.isConnected then (.error .closed, p)
  else match p.sink.putCommand c with
    | (.ok (), sink) => (.ok (), { p with sink, state := p.state.apply c })
    | (.error e, sink) => (.error e, { p with sink }.close)

/-- Send commands up to the first failure. -/
def sendAll (p : Proxy) : List Command → Except NetError Unit × Proxy
  | [] => (.ok (), p)
  | c :: cs => match p.send c with
    | (.ok (), q) => q.sendAll cs
    | (.error e, q) => (.error e, q)

/-- Send the bricks of one time step. -/
def putBricks (p : Proxy) (bricks : List Brick) : Except NetError Unit × Proxy := p.send (.bricks bricks)

/-- Send every parameter of the state again. -/
def resync (p : Proxy) : Except NetError Unit × Proxy := p.sendAll p.state.replay

/-- Tell the participant to stop, then close the connection. -/
def exit (p : Proxy) : Except NetError Unit × Proxy :=
  if !p.isConnected then (.ok (), p.close)
  else match p.sink.putCommand .exit with
    | (result, sink) => (result, { p with sink }.close)

end Proxy

/-- The receiving end of a connection. -/
structure Receiver where
  participant : UInt64
  source : Source
  closed : Bool := false

namespace Receiver

/-- What a receiver makes of a read. Whatever the peer claims, the image is this participant's; once the
connection was closed on this side, every failure reads as that. -/
def accept (r : Receiver) : Except NetError Image × Source → Except NetError Image × Receiver
  | (.ok i, source) => (.ok { i with participant := r.participant }, { r with source })
  | (.error e, source) => (.error (if r.closed then .closed else e), { r with source })

/-- Receive an image. -/
def image (r : Receiver) : Except NetError Image × Receiver := r.accept (Reading.image r.source)

/-- Receive an image in a build. -/
def imageIn (b : Build) (r : Receiver) : Except Fault (Except NetError Image × Receiver) :=
  (Reading.imageIn b r.source).map r.accept

end Receiver

end SortLast
