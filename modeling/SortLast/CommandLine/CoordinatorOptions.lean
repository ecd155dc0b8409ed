import SortLast.Address.Participant
import SortLast.Cluster.Config
import SortLast.CommandLine.Capture
import SortLast.CommandLine.Error

/-!
# Options of the coordinator

The arguments of the program that renders an orbit around a volume. They are read one after the
other as settings, which then act on the defaults; of several settings of one option the last one
counts, participants are collected.

* `CoordinatorSetting.read`: the setting at the front of an argument list.
* `CoordinatorOptions.apply`: what a setting does.
* `CoordinatorOptions.parse`: the options of an argument list.
-/

namespace SortLast

/-- One option with its value. -/
inductive CoordinatorSetting where
  | participant (a : ParticipantAddress)
  | size (width height : UInt32)
  | frames (n : UInt64)
  | dims (d : Vec3 UInt32)
  | timeSteps (n : UInt32)
  | brickSize (edge : Single)
  /-- How long images are waited for, in milliseconds. -/
  | frameTimeout (ms : UInt64)
  | policy (p : PartialFramePolicy)
  | frontToBack
  | weights (ws : List Single)
  | output (pattern : String)
  | capture (selection : String)
  deriving DecidableEq, Repr

namespace CoordinatorSetting

/-- Read two numbers around an x. -/
def readSize (value : String) : Except OptionError CoordinatorSetting :=
  match Text.splitFirst 'x' value.toList with
  | none => .error (.badSize value)
  | some (front, back) => do
    let width ← (Text.parseNat UInt32.size (Text.trim front)).mapError .badSide
    let height ← (Text.parseNat UInt32.size (Text.trim back)).mapError .badSide
    return .size (UInt32.ofNat width) (UInt32.ofNat height)

/-- Read three numbers with an x between them. -/
def readDims (value : String) : Except OptionError CoordinatorSetting := do
  let parts ← ((Text.splitAll 'x' value.toList).mapM fun part =>
    Text.parseNat UInt32.size (Text.trim part)).mapError (.badDims value)
  match parts with
  | [x, y, z] => return .dims ⟨UInt32.ofNat x, UInt32.ofNat y, UInt32.ofNat z⟩
  | _ => throw (.dimsCount value)

/-- Read the name of a policy. -/
def readPolicy (value : String) : Except OptionError CoordinatorSetting :=
  match value with
  | "reuse" => .ok (.policy .reuseLastImage)
  | "skip" => .ok (.policy .skip)
  | "abort" => .ok (.policy .abort)
  | _ => .error (.unknownPolicy value)

/-- The options that take a value, with how the value is read. -/
def valueReader (option : String) : Option (String → Except OptionError CoordinatorSetting) :=
  match option with
  | "-p" | "--participant" =>
    some fun value => (participant <$> ParticipantAddress.parse value).mapError .badParticipant
  | "--size" => some readSize
  | "--frames" => some fun value => return frames (UInt64.ofNat (← countValue option UInt64.size value))
  | "--dims" => some readDims
  | "--time-steps" =>
    some fun value => return timeSteps (UInt32.ofNat (← countValue option UInt32.size value))
  | "--brick-size" =>
    some fun value => return brickSize (← (Single.parse value).mapError (.badScalar option))
  | "--frame-timeout-ms" =>
    some fun value => return frameTimeout (UInt64.ofNat (← countValue option UInt64.size value))
  | "--policy" => some readPolicy
  | "--weights" =>
    some fun value => return weights (← (scalarList value).mapError (.badScalar option))
  | "-o" | "--output" => some fun value => .ok (output value)
  | "-c" | "--capture" => some fun value => .ok (capture value)
  | _ => none

/-- Read the setting that starts with the given argument; the arguments after it are left. -/
def read (option : String) (rest : List String) :
    Except OptionError (CoordinatorSetting × List String) :=
  match valueReader option with
  | some reader => do
    let (value, rest) ← optionValue option rest
    return (← reader value, rest)
  | none => if option = "--front-to-back" then .ok (frontToBack, rest) else .error (.unknownOption option)

/-- A setting leaves no more arguments than there are after its name. -/
theorem read_length {option : String} {rest left : List String} {s : CoordinatorSetting}
    (h : read option rest = .ok (s, left)) : left.length ≤ rest.length := by
  unfold read at h
  split at h
  · rename_i reader _
    cases rest with
    | nil => simp [optionValue, bind, Except.bind] at h
    | cons value rest =>
      simp only [optionValue, bind, Except.bind, pure, Except.pure] at h
      split at h
      · cases h
      · simp only [Except.ok.injEq, Prod.mk.injEq] at h
        rw [← h.2]
        simp
  · split at h
    · simp only [Except.ok.injEq, Prod.mk.injEq] at h
      exact Nat.le_of_eq (congrArg List.length h.2.symm)
    · cases h

/-- Read all settings of an argument list. -/
def readAll : List String → Except OptionError (List CoordinatorSetting)
  | [] => .ok []
  | option :: rest =>
    match h : read option rest with
    | .error e => .error e
    | .ok (s, left) =>
      have := read_length h
      return s :: (← readAll left)
  termination_by args => args.length
  decreasing_by simp only [List.length_cons]; omega

end CoordinatorSetting

/-- The options of the coordinator. -/
structure CoordinatorOptions where
  participants : List ParticipantAddress := []
  width : UInt32 := 640
  height : UInt32 := 480
  frames : UInt64 := 36
  dims : Vec3 UInt32 := .splat 128
  timeSteps : UInt32 := 1
  /-- The edge length of bricks; without one a participant's box is a single brick. -/
  brickSize : Option Single := none
  /-- How long images are waited for, in milliseconds. -/
  frameTimeout : UInt64 := 10000
  policy : PartialFramePolicy := .reuseLastImage
  order : VisitOrder := .backToFront
  weights : Option (List Single) := none
  output : String := ""
  selection : Option String := none
  deriving DecidableEq, Repr

namespace CoordinatorOptions

/-- The options with a setting made. -/
def apply (o : CoordinatorOptions) : CoordinatorSetting → CoordinatorOptions
  | .participant a => { o with participants := o.participants ++ [a] }
  | .size w h => { o with width := w, height := h }
  | .frames n => { o with frames := n }
  | .dims d => { o with dims := d }
  | .timeSteps n => { o with timeSteps := n }
  | .brickSize edge => { o with brickSize := some edge }
  | .frameTimeout ms => { o with frameTimeout := ms }
  | .policy p => { o with policy := p }
  | .frontToBack => { o with order := .frontToBack }
  | .weights ws => { o with weights := some ws }
  | .output pattern => { o with output := pattern }
  | .capture selection => { o with selection := some selection }

/-- The options of an argument list. -/
def parse (args : List String) : Except OptionError CoordinatorOptions := do
  let settings ← CoordinatorSetting.readAll args
  let o := settings.foldl apply {}
  if o.participants.isEmpty then throw .noParticipant else return o

/-- Which frames are written: those of the selection, if there is one, among all frames of the
orbit. -/
def capture (o : CoordinatorOptions) : Capture :=
  { pattern := o.output, frames := o.selection.map fun s => FrameSet.parse o.frames.toNat s }

/-- The largest brick. -/
def brickExtent (o : CoordinatorOptions) : Option Point := o.brickSize.map Vec3.splat

end CoordinatorOptions

end SortLast
