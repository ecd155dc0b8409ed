import SortLast.RenderState

/-!
# Renderers

What turns bricks into an image at a participant. A renderer may keep a state of its own and may
fail.

* `Renderer`: any renderer with states of type `σ`.
* `FlatRenderer`: fills the pixels that its bricks may cover with one translucent colour.
* `Renderer.recording`, `Renderer.failingAfter`: renderers that watch or break another one.
-/

namespace SortLast

/-- Why a renderer gives no image. -/
inductive RenderError where
  | failure (f : Failure)
  | fault (f : Fault)
  deriving DecidableEq, Repr

/-- A renderer: its current state, the parameters and the bricks of the current time step give an
image or an error, and a new state. -/
structure Renderer (σ : Type) where
  render : σ → RenderState → List Brick → Except RenderError Image × σ

/-- One call of a renderer. -/
structure RenderCall where
  state : RenderState
  bricks : List Brick
  deriving DecidableEq, Repr

namespace Renderer

variable {σ : Type}

/-- The renderer that also keeps a log of its calls, the latest first. -/
def recording (r : Renderer σ) : Renderer (σ × List RenderCall) where
  render s state bricks :=
    let (result, t) := r.render s.1 state bricks
    (result, (t, ⟨state, bricks⟩ :: s.2))

/-- The renderer that fails on every call after the first `healthy` ones. -/
def failingAfter (r : Renderer σ) (healthy : Nat) : Renderer (σ × Nat) where
  render s state bricks :=
    let call := s.2 + 1
    if healthy < call then
      (.error (.failure (.data (.reported ("injected failure on frame " ++ toString call)))),
        (s.1, call))
    else
      let (result, t) := r.render s.1 state bricks
      (result, (t, call))

end Renderer

/-- A renderer of one translucent colour. -/
structure FlatRenderer where
  /-- The colour, not premultiplied. -/
  colour : Colour
  /-- Whether images carry the distance from the eye to the middle of the bricks as their depth. -/
  depth : Bool := false
  deriving DecidableEq, Repr

namespace FlatRenderer

/-- A channel in `[0, 1]` as a byte. -/
def channelByte (c : Single) : UInt8 := (c * 255).round.toUInt8

/-- How opaque a participant's transfer function is on average; without one, fully. -/
def opacity (state : RenderState) : Except Fault Single :=
  match state.transferFunction with
  | none => .ok 1
  | some t => if t.points.isEmpty then .ok 1 else t.meanOpacity

/-- The premultiplied pixel that images are filled with. -/
def premultiplied (r : FlatRenderer) (state : RenderState) : Except Fault Pixel := do
  let alpha := (r.colour.w * (← opacity state)).clamp 0 1
  let rgb := r.colour.truncate.clamp Vec3.zero (Vec3.splat 1) * alpha
  return ⟨channelByte rgb.x, channelByte rgb.y, channelByte rgb.z, channelByte alpha⟩

/-- A window side as a number of pixels; a negative one has none. -/
def side (v : Int32) : UInt32 := UInt32.ofNat v.toInt.toNat

/-- The smallest box around some bricks. -/
def boundsOf (first : Brick) (rest : List Brick) : Box :=
  rest.foldl (fun b brick => b.merge brick.bounds) (first.bounds.merge first.bounds)

/-- Render: nothing without bricks or outside the window, else one colour over the pixels that the
bricks may cover. -/
def image (r : FlatRenderer) (state : RenderState) : List Brick → Except Fault Image
  | [] => .ok (.empty 0)
  | first :: rest => do
    let bounds := boundsOf first rest
    match state.view.project bounds (side state.width) (side state.height) with
    | none => return .empty 0
    | some rect =>
      let filled ← Image.filled 0 rect (← r.premultiplied state)
      if r.depth then
        let distance := state.view.eye.distance bounds.center
        return { filled with depth := some (Array.replicate rect.area distance) }
      else return filled

/-- The flat renderer as a renderer without a state. -/
def renderer (r : FlatRenderer) : Renderer Unit where
  render _ state bricks := ((r.image state bricks).mapError .fault, ())

end FlatRenderer

end SortLast
