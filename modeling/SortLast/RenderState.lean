import SortLast.Command

/-!
# Rendering state

The parameters that commands establish. The coordinator keeps one for every participant, and every
participant keeps its own.

* `RenderState.apply`: what a command changes.
* `RenderState.replay`: commands that lead from the initial state to a given one, the view apart.
* `RenderState.sameValue`: equality of two states as far as their values go.
-/

namespace SortLast

/-- Rendering parameters. -/
structure RenderState where
  view : View := .default
  width : Int32 := 0
  height : Int32 := 0
  currentFrame : Int32 := 0
  mipMode : Int32 := 0
  objectDirection : Option Point := none
  viewingDirection : Option Point := none
  position : Option Point := none
  roiEnabled : Bool := false
  roiPosition : Point := Vec3.zero
  roiSize : Point := Vec3.splat 0.5
  boundingBox : Bool := false
  transferFunction : Option TransferFunction := none
  quality : Single := 1
  interpolation : Bool := true
  deriving DecidableEq, Repr

namespace RenderState

/-- The state before any command. -/
def initial : RenderState := {}

/-- The state after a command. -/
def apply (s : RenderState) : Command → RenderState
  | .matrix p m => { s with view := ⟨p, m⟩ }
  | .resize w h => { s with width := w, height := h }
  | .currentFrame v => { s with currentFrame := v }
  | .mipMode v => { s with mipMode := v }
  | .objectDirection v => { s with objectDirection := some v }
  | .viewingDirection v => { s with viewingDirection := some v }
  | .position v => { s with position := some v }
  | .toggleRoi v => { s with roiEnabled := v }
  | .roiPosition v => { s with roiPosition := v }
  | .roiSize v => { s with roiSize := v }
  | .toggleBoundingBox => { s with boundingBox := !s.boundingBox }
  | .transferFunction t => { s with transferFunction := some t }
  | .quality v => { s with quality := v }
  | .interpolation v => { s with interpolation := v }
  | .bricks _ | .exit => s

/-- The state after a list of commands. -/
def applyAll (s : RenderState) (cs : List Command) : RenderState := cs.foldl apply s

/-- Commands that lead from the initial state to this one, its view apart. -/
def replay (s : RenderState) : List Command :=
  [.resize s.width s.height, .currentFrame s.currentFrame, .mipMode s.mipMode] ++
    (s.objectDirection.map Command.objectDirection).toList ++
    (s.viewingDirection.map Command.viewingDirection).toList ++
    (s.position.map Command.position).toList ++
    [.toggleRoi s.roiEnabled, .roiPosition s.roiPosition, .roiSize s.roiSize] ++
    -- this command has no value to send again: a mirror that receives it itself changes by it
    (if s.boundingBox != initial.boundingBox then [.toggleBoundingBox] else []) ++
    (s.transferFunction.map Command.transferFunction).toList ++
    [.quality s.quality, .interpolation s.interpolation]

end RenderState

/-! ### Equality of values

Two zeros are equal as values, and a NaN is equal to nothing. -/

/-- Equality of values, component by component. -/
def Vec3.sameValue (u v : Point) : Bool :=
  u.x.sameValue v.x && u.y.sameValue v.y && u.z.sameValue v.z

/-- Equality of values, component by component. -/
def Vec4.sameValue (u v : Colour) : Bool :=
  u.x.sameValue v.x && u.y.sameValue v.y && u.z.sameValue v.z && u.w.sameValue v.w

/-- Equality of values, column by column. -/
def Matrix.sameValue (a b : Matrix) : Bool :=
  a.x.sameValue b.x && a.y.sameValue b.y && a.z.sameValue b.z && a.w.sameValue b.w

/-- Equality of two optional things that are compared by `same`. -/
def sameOption {α : Type} (same : α → α → Bool) : Option α → Option α → Bool
  | none, none => true
  | some a, some b => same a b
  | _, _ => false

/-- Equality of two lists whose elements are compared by `same`. -/
def sameList {α : Type} (same : α → α → Bool) : List α → List α → Bool
  | [], [] => true
  | a :: as, b :: bs => same a b && sameList same as bs
  | _, _ => false

/-- Equality of values of transfer functions. -/
def TransferFunction.sameValue (s t : TransferFunction) : Bool :=
  sameList (fun p q => p.value.sameValue q.value && p.colour.sameValue q.colour) s.points t.points &&
    s.discrete == t.discrete

/-- Equality of values of two states, views included. -/
def RenderState.sameValue (s t : RenderState) : Bool :=
  s.view.projection.sameValue t.view.projection && s.view.modelview.sameValue t.view.modelview &&
    s.width == t.width && s.height == t.height && s.currentFrame == t.currentFrame &&
    s.mipMode == t.mipMode && sameOption Vec3.sameValue s.objectDirection t.objectDirection &&
    sameOption Vec3.sameValue s.viewingDirection t.viewingDirection &&
    sameOption Vec3.sameValue s.position t.position && s.roiEnabled == t.roiEnabled &&
    s.roiPosition.sameValue t.roiPosition && s.roiSize.sameValue t.roiSize &&
    s.boundingBox == t.boundingBox &&
    sameOption TransferFunction.sameValue s.transferFunction t.transferFunction &&
    s.quality.sameValue t.quality && s.interpolation == t.interpolation

end SortLast
