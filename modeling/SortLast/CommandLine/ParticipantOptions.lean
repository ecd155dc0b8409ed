import SortLast.CommandLine.Error
import SortLast.Geometry.Vector
import SortLast.Text.Words

/-!
# Options of a participant

The arguments of the program that serves coordinators as a flat renderer.
-/

namespace SortLast

/-- The options of a participant. -/
structure ParticipantOptions where
  listen : String := "0.0.0.0:31050"
  colour : Colour := Vec4.one
  depth : Bool := false
  /-- The number of sessions to serve; zero for no end. -/
  sessions : UInt64 := 0
  deriving DecidableEq, Repr

namespace ParticipantOptions

/-- Read a colour of three channels, which is opaque, or of four. -/
def parseColour (value : String) : Except OptionError Colour := do
  let channels ← (scalarList value).mapError (.badColour value)
  match channels with
  | [r, g, b] => return ⟨r, g, b, 1⟩
  | [r, g, b, a] => return ⟨r, g, b, a⟩
  | _ => throw (.channelCount value)

/-- Read the options of an argument list onto given ones. -/
def parseFrom (o : ParticipantOptions) : List String → Except OptionError ParticipantOptions
  | [] => .ok o
  | "--depth" :: rest => parseFrom { o with depth := true } rest
  | [option] =>
    if option ∈ ["--listen", "--color", "--sessions"] then .error (.missingValue option)
    else .error (.unknownOption option)
  | "--listen" :: value :: rest => parseFrom { o with listen := value } rest
  | "--color" :: value :: rest => do
    let colour ← parseColour value
    parseFrom { o with colour } rest
  | "--sessions" :: value :: rest => do
    let n ← countValue "--sessions" UInt64.size value
    parseFrom { o with sessions := UInt64.ofNat n } rest
  | option :: _ :: _ => .error (.unknownOption option)

/-- The options of an argument list. -/
def parse (args : List String) : Except OptionError ParticipantOptions := parseFrom {} args

end ParticipantOptions

end SortLast
