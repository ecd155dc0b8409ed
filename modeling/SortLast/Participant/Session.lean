import SortLast.Participant.Renderer
import SortLast.Proxy

/-!
# Participant sessions

A participant reads commands until the coordinator ends the session or hangs up. It keeps a list of
bricks for every time step and answers each camera update with one image of the current one.

* `BrickStore`: the latest list of bricks for each time step.
* `Session.run`: a session over a stream of commands.
* `Session.serve`: the handshake, then a session.
-/

namespace SortLast

/-- The latest list of bricks for each time step, newest lists first. -/
structure BrickStore where
  /-- Time steps with their lists; the first entry for a time step counts. -/
  entries : List (UInt32 × List Brick) := []
  deriving DecidableEq, Repr

namespace BrickStore

/-- The bricks of a time step. -/
def get (s : BrickStore) (frame : UInt32) : List Brick := (s.entries.lookup frame).getD []

/-- Store a list of bricks: for every time step among them it replaces the list stored before. -/
def put (s : BrickStore) (bricks : List Brick) : BrickStore :=
  let frames := (bricks.map Brick.frame).eraseDups
  ⟨frames.map (fun f => (f, bricks.filter fun b => b.frame == f)) ++ s.entries⟩

/-- The bricks of a time step that may be out of range. -/
def current (s : BrickStore) (frame : Int32) : List Brick :=
  if frame < 0 then [] else s.get (UInt32.ofNat frame.toInt.toNat)

end BrickStore

/-- What a session did. -/
structure Summary where
  framesRendered : Nat := 0
  commands : Nat := 0
  /-- True if the coordinator ended the session, false if it hung up. -/
  cleanExit : Bool := false
  deriving DecidableEq, Repr

/-- Why a session fails. -/
inductive SessionError where
  | net (e : NetError)
  | render (f : Failure)
  | fault (f : Fault)
  deriving DecidableEq, Repr

/-- The wording of a session error. -/
def SessionError.message : SessionError → String
  | net e => "Transport error: " ++ e.message
  | render f => "Render error: " ++ f.message
  | fault _ => "Render fault"

/-- The state of a session whose renderer has states of type `σ`. -/
structure Session (σ : Type) where
  renderer : σ
  state : RenderState := .initial
  bricks : BrickStore := {}
  summary : Summary := {}
  sink : Sink

namespace Session

variable {σ : Type}

/-- Answer a camera update that has been applied. -/
def answer (r : Renderer σ) (s : Session σ) : Except SessionError Unit × Session σ :=
  match r.render s.renderer s.state (s.bricks.current s.state.currentFrame) with
  | (.error (.failure f), t) => (.error (.render f), { s with renderer := t })
  | (.error (.fault f), t) => (.error (.fault f), { s with renderer := t })
  | (.ok image, t) =>
    let frame := s.summary.framesRendered + 1
    let (sent, sink) := s.sink.put (.image (image.withFrame (UInt64.ofNat frame)))
    (sent.mapError .net,
      { s with renderer := t, sink, summary := { s.summary with framesRendered := frame } })

/-- Handle a command other than the end of the session. -/
def handle (r : Renderer σ) (s : Session σ) (c : Command) : Except SessionError Unit × Session σ :=
  match c with
  | .bricks list => (.ok (), { s with bricks := s.bricks.put list })
  | .matrix p m => answer r { s with state := s.state.apply (.matrix p m) }
  | c => (.ok (), { s with state := s.state.apply c })

/-- Handle commands up to the end of the session, a failure, or the end of the stream, which `ending`
describes. A lost connection ends a session without an error. -/
def play (r : Renderer σ) (s : Session σ) (ending : NetError) :
    List Command → Except SessionError Summary × Session σ
  | [] => if ending.isDisconnect then (.ok s.summary, s) else (.error (.net ending), s)
  | c :: cs =>
    let s := { s with summary := { s.summary with commands := s.summary.commands + 1 } }
    if c = .exit then
      let s := { s with summary := { s.summary with cleanExit := true } }
      (.ok s.summary, s)
    else match handle r s c with
      | (.ok (), t) => play r t ending cs
      | (.error e, t) => (.error e, t)

/-- Serve the commands of a stream. -/
def run (r : Renderer σ) (renderer : σ) (source : Source) (sink : Sink) :
    Except SessionError Summary × Session σ :=
  let (commands, ending) := source.commands
  play r { renderer, sink } ending commands

/-- Serve a coordinator: exchange versions, then run a session. A coordinator of another version is
still told this side's. -/
def serve (r : Renderer σ) (renderer : σ) (source : Source) (sink : Sink) :
    Except SessionError Summary × Session σ :=
  match Reading.hello source with
  | (.error e, _) => (.error (.net e), { renderer, sink })
  | (.ok version, source) =>
    match sink.put (.hello protocolVersion) with
    | (.error e, sink) => (.error (.net e), { renderer, sink })
    | (.ok (), sink) =>
      if version ≠ protocolVersion then
        (.error (.net (.versionMismatch protocolVersion version)), { renderer, sink })
      else run r renderer source sink

end Session

end SortLast
