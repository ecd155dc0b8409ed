import SortLast.Address.Ip
import SortLast.Error
import SortLast.Text.Integer
import SortLast.Text.Words

/-!
# Participant addresses

Where a participant is reached: a host, which is a name or an internet address, and a port.

* `ParticipantAddress.parse`: read `host:port`. The host ends at the last colon and may stand in
  brackets.
* `ParticipantAddress.text`: a host with a colon in it is written in brackets.
-/

namespace SortLast

/-- The host and port of a participant. -/
structure ParticipantAddress where
  host : String
  port : UInt16
  deriving DecidableEq, Repr, Inhabited

namespace ParticipantAddress

/-- A text without the brackets around it, if it stands in brackets. -/
def unbracket (cs : List Char) : List Char :=
  match cs with
  | '[' :: inner => if inner.getLast? = some ']' then inner.dropLast else cs
  | _ => cs

/-- Read `host:port`, without the white space around it. The host must not be empty, and the port not
zero. -/
def parse (s : String) : Except ConfigurationError ParticipantAddress :=
  match Text.splitLast ':' (Text.trim s.toList) with
  | none => .error (.badAddress s)
  | some (front, portText) =>
    let host := unbracket front
    match Text.parseNat UInt16.size portText with
    | .error _ => .error (.badAddress s)
    | .ok port =>
      if host.isEmpty || port == 0 then .error (.badAddress s)
      else .ok ⟨String.ofList host, UInt16.ofNat port⟩

/-- The address as a text. -/
def text (a : ParticipantAddress) : String :=
  if a.host.toList.contains ':' then "[" ++ a.host ++ "]:" ++ toString a.port.toNat
  else a.host ++ ":" ++ toString a.port.toNat

/-- The participant address of an internet address with a port. -/
def ofSocket (a : SocketAddress) : ParticipantAddress := ⟨a.ip.text, a.port⟩

/-- The internet address of a host that is written as one. -/
def literal? (a : ParticipantAddress) : Option SocketAddress :=
  (IpAddress.parse a.host).map fun ip => { ip, port := a.port }

end ParticipantAddress

end SortLast
