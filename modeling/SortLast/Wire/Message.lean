import SortLast.Wire.Codec

/-!
# Messages

The messages that travel between the coordinator and a participant, and their frames on a byte
stream: a four-byte length and the encoded message.

* `Reason`: the tag that announces a command.
* `Message`: everything that can be sent; `Message.codec` writes and reads it.
* `Message.frame`: a message with its length in front.
* `NetError`: why a message cannot be sent or received.
-/

namespace SortLast

/-- What a command is about. -/
inductive Reason where
  /-- Camera matrices, answered with one image. -/
  | matrix
  | resize
  | currentFrame
  | mipMode
  | objectDirection
  | viewingDirection
  | position
  | toggleRoi
  | roiPosition
  | roiSize
  | toggleBoundingBox
  | transferFunction
  | quality
  | interpolation
  | bricks
  | exit
  deriving DecidableEq, Repr, Inhabited

/-- All reasons, in the order of their numbers on the wire. -/
def Reason.all : List Reason :=
  [matrix, resize, currentFrame, mipMode, objectDirection, viewingDirection, position, toggleRoi,
   roiPosition, roiSize, toggleBoundingBox, transferFunction, quality, interpolation, bricks, exit]

/-- A message. -/
inductive Message where
  /-- The protocol version, sent by both sides at first. -/
  | hello (version : UInt8)
  | reason (r : Reason)
  | int32 (v : Int32)
  | float32 (v : Single)
  | bool (v : Bool)
  | vector3 (v : Point)
  | matrix (m : Matrix)
  | winDims (width height : Int32)
  | transferFunction (t : TransferFunction)
  | bricks (bs : List Brick)
  | image (i : Image)
  deriving DecidableEq, Repr

namespace Message

/-- The kinds of messages. -/
inductive Kind where
  | hello
  | reason
  | int32
  | float32
  | bool
  | vector3
  | matrix
  | winDims
  | transferFunction
  | bricks
  | image
  deriving DecidableEq, Repr, Inhabited

/-- The name of a kind. -/
def Kind.name : Kind → String
  | hello => "hello"
  | reason => "reason"
  | int32 => "int32"
  | float32 => "float32"
  | bool => "bool"
  | vector3 => "vector3"
  | matrix => "matrix"
  | winDims => "window dimensions"
  | transferFunction => "transfer function"
  | bricks => "bricks"
  | image => "image"

/-- The kind of a message. -/
def kind : Message → Kind
  | hello _ => .hello
  | reason _ => .reason
  | int32 _ => .int32
  | float32 _ => .float32
  | bool _ => .bool
  | vector3 _ => .vector3
  | matrix _ => .matrix
  | winDims .. => .winDims
  | transferFunction _ => .transferFunction
  | bricks _ => .bricks
  | image _ => .image

/-- The number of kinds. -/
def kindCount : Nat := 11

/-- The number of a message's kind on the wire. -/
def tag : Message → UInt32
  | hello _ => 0
  | reason _ => 1
  | int32 _ => 2
  | float32 _ => 3
  | bool _ => 4
  | vector3 _ => 5
  | matrix _ => 6
  | winDims .. => 7
  | transferFunction _ => 8
  | bricks _ => 9
  | image _ => 10

/-- How tags of commands are written. -/
def reasonCodec : Codec Reason := .enumeration Reason.all

/-- How vectors are written. -/
def pointCodec : Codec Point := .vec3 .single

/-- How window sizes are written. -/
def dimsCodec : Codec (Int32 × Int32) := .pair .i32 .i32

/-- How lists of bricks are written. -/
def bricksCodec : Codec (List Brick) := .list .brick

/-- The bytes of a message without its tag. -/
def encodeBody : Message → List UInt8
  | hello v => Codec.u8.encode v
  | reason r => reasonCodec.encode r
  | int32 v => Codec.i32.encode v
  | float32 v => Codec.single.encode v
  | bool v => Codec.bool.encode v
  | vector3 v => pointCodec.encode v
  | matrix m => Codec.matrix.encode m
  | winDims w h => dimsCodec.encode (w, h)
  | transferFunction t => Codec.transferFunction.encode t
  | bricks bs => bricksCodec.encode bs
  | image i => Codec.image.encode i

/-- The number of bytes of a message without its tag. -/
def bodySize : Message → Nat
  | hello v => Codec.u8.size v
  | reason r => reasonCodec.size r
  | int32 v => Codec.i32.size v
  | float32 v => Codec.single.size v
  | bool v => Codec.bool.size v
  | vector3 v => pointCodec.size v
  | matrix m => Codec.matrix.size m
  | winDims w h => dimsCodec.size (w, h)
  | transferFunction t => Codec.transferFunction.size t
  | bricks bs => bricksCodec.size bs
  | image i => Codec.image.size i

/-- Read the rest of a message after its tag. -/
def decodeBody (tag : UInt32) (bytes : List UInt8) : Decoded Message :=
  let as {α : Type} (c : Codec α) (f : α → Message) : Decoded Message :=
    (c.decode bytes).map fun (a, rest) => (f a, rest)
  match tag.toNat with
  | 0 => as Codec.u8 hello
  | 1 => as reasonCodec reason
  | 2 => as Codec.i32 int32
  | 3 => as Codec.single float32
  | 4 => as Codec.bool bool
  | 5 => as pointCodec vector3
  | 6 => as Codec.matrix matrix
  | 7 => as dimsCodec fun (w, h) => winDims w h
  | 8 => as Codec.transferFunction transferFunction
  | 9 => as bricksCodec bricks
  | 10 => as Codec.image image
  | _ => .error (.badVariant tag kindCount)

/-- How messages are written. -/
def codec : Codec Message where
  size m := 4 + m.bodySize
  encode m := Codec.u32.encode m.tag ++ m.encodeBody
  decode bytes := (Codec.u32.decode bytes).bind fun (tag, rest) => decodeBody tag rest

/-- The encoded message. -/
def payload (m : Message) : List UInt8 := codec.encode m

/-- Read a message; bytes after it are ignored. -/
def ofPayload? (bytes : List UInt8) : Except DecodeError Message :=
  (codec.decode bytes).map Prod.fst

/-- The encoded message with its length in front, as a 32-bit word. -/
def frame (m : Message) : List UInt8 :=
  Codec.u32.encode (UInt32.ofNat (codec.size m)) ++ m.payload

end Message

/-- The protocol version that this library speaks. -/
def protocolVersion : UInt8 := 1

/-- The largest payload of a frame, 64 MiB. -/
def maxPayload : Nat := 64 * 1024 * 1024

/-- Why a message cannot be sent or received. -/
inductive NetError where
  | io (e : IoError)
  | encoding (e : DecodeError)
  /-- The stream has ended, or the connection was closed on this side. -/
  | closed
  /-- The payload is larger than `maxPayload`. -/
  | tooLarge (bytes : Nat)
  | unexpected (expected found : Message.Kind)
  | versionMismatch (ours theirs : UInt8)
  | invalidImage (e : DataError)
  deriving DecidableEq, Repr

namespace NetError

/-- The wording of a transport error. -/
def message : NetError → String
  | .io e => "I/O error: " ++ e.text
  | .encoding e => "Encoding error: " ++ e.message
  | .closed => "Connection closed"
  | .tooLarge bytes => "Message of " ++ toString bytes ++ " bytes exceeds the frame limit"
  | .unexpected expected found => "Expected " ++ expected.name ++ " message, got " ++ found.name
  | .versionMismatch ours theirs =>
    "Protocol version mismatch: local=" ++ toString ours.toNat ++ ", remote=" ++
      toString theirs.toNat
  | .invalidImage e => "Invalid image: " ++ (Failure.data e).message

/-- True if the error means that the connection is gone, and not that a message is bad. -/
def isDisconnect : NetError → Bool
  | .closed => true
  | .io e => e.isDisconnect
  | _ => false

end NetError

end SortLast
