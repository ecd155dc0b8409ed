import SortLast.CommandLine.Report
import SortLast.Wire.Message

/-!
# Failures of a cluster

Why the coordinator cannot set a cluster up, reach a participant, start a worker or finish a frame.
-/

namespace SortLast

/-- A failure of the coordinator. -/
inductive ClusterError where
  | configuration (cause : ConfigurationError)
  | wrongRenderer
  | socket (participant : Nat) (cause : NetError)
  | frameTimeout (frame : Nat) (missing : List Nat)
  | participantLost (participant : Nat)
  | noParticipants
  | io (cause : IoError)
  deriving DecidableEq, Repr

namespace ClusterError

/-- The wording of a failure. -/
def message : ClusterError → String
  | configuration cause => (Failure.configuration cause).message
  | wrongRenderer => "Renderer does not support distributed rendering"
  | socket participant cause => "Participant " ++ toString participant ++ ": " ++ cause.message
  | frameTimeout frame missing =>
    "Frame " ++ toString frame ++ " timed out waiting for participants [" ++
      ", ".intercalate (missing.map toString) ++ "]"
  | participantLost participant => "Participant " ++ toString participant ++ " was lost"
  | noParticipants => "No participants available"
  | io cause => (Failure.io cause).message

/-- The cluster failure that a failure of the engine amounts to. -/
def ofFailure (f : Failure) : ClusterError := configuration f.asConfiguration

/-- The wordings of what caused a failure of a connection. -/
def netCauses : NetError → List String
  | .io e => [e.text]
  | .encoding e => [e.message]
  | .invalidImage e => [(Failure.data e).message]
  | .closed | .tooLarge _ | .unexpected .. | .versionMismatch .. => []

/-- How a failure is reported. -/
def report (e : ClusterError) : Report :=
  match e with
  | socket _ cause => ⟨e.message, cause.message :: netCauses cause⟩
  | io cause => ⟨e.message, [cause.text]⟩
  | _ => ⟨e.message, []⟩

end ClusterError

end SortLast
