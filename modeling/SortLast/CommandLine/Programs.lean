import SortLast.CommandLine.ParticipantOptions
import SortLast.Orbit

/-!
# The programs

The two programs of a cluster, as functions from their arguments and a network to what they print,
write and return.

* `Program.coordinator`: render an orbit with the given participants.
* `Program.participant`: listen, and serve coordinators as a flat renderer.
-/

namespace SortLast

/-- What a program has done when it ends, or when nothing more can happen to it. -/
structure ProgramEnd where
  /-- The exit code; a program that waits for somebody who never comes has none. -/
  code : Option UInt32
  errors : String := ""
  saved : List SavedFrame := []

namespace Program

/-- True if the arguments ask for help, wherever they do. -/
def asksForHelp (args : List String) : Bool := args.contains "--help" || args.contains "-h"

/-- A text of several lines. -/
def lines (ls : List String) : String := String.join (ls.map (· ++ "\n"))

/-- The end of a program with a report of its failure. -/
def failing (r : Report) (saved : List SavedFrame := []) : ProgramEnd :=
  { code := some 1, errors := "Error: " ++ r.paragraphs ++ "\n", saved }

/-- The help text of the coordinator. -/
def coordinatorHelp : String := lines [
  "volcast-master - distributed volume rendering coordinator",
  "",
  "Usage: volcast-master -p HOST:PORT [-p HOST:PORT ...] [OPTIONS]",
  "",
  "Options:",
  "  -p, --participant HOST:PORT  Participant address (repeatable)",
  "  --size WxH                   Output size (default 640x480)",
  "  --frames N                   Frames in the orbit (default 36)",
  "  --dims XxYxZ                 Volume dimensions (default 128x128x128)",
  "  --time-steps N               Time steps to cycle through (default 1)",
  "  --brick-size F               Brick edge length in object space",
  "  --frame-timeout-ms MS        Wait for participant images (default 10000)",
  "  --policy reuse|skip|abort    Handling of participants that miss a frame",
  "  --front-to-back              Composite front to back",
  "  --weights W0,W1,...          Relative participant workloads",
  "  -o, --output PATTERN         Write frames, \x7b\x7d is the frame number",
  "  -c, --capture FRAMES         Frames to write, e.g. 0,5-10 (default all)",
  "  -h, --help                   Show this help",
  "",
  "Environment:",
  "  RUST_LOG                     Log filter (default info)"]

/-- The help text of a participant. -/
def participantHelp : String := lines [
  "volcast-node - distributed volume rendering participant",
  "",
  "Usage: volcast-node [OPTIONS]",
  "",
  "Options:",
  "  --listen ADDR     Address to listen on (default 0.0.0.0:31050)",
  "  --color R,G,B,A   Brick color (default 1,1,1,1)",
  "  --depth           Attach depth to rendered images",
  "  --sessions N      Exit after N sessions (default 0, serve forever)",
  "  -h, --help        Show this help"]

/-- The coordinator's program. -/
def coordinator (net : Network) (args : List String) : ProgramEnd :=
  if asksForHelp args then { code := some 0, errors := coordinatorHelp }
  else match CoordinatorOptions.parse args with
    | .error e => failing e.report
    | .ok o =>
      let orbit := Orbit.run net o
      match orbit.result with
      | .ok () => { code := some 0, saved := orbit.saved }
      | .error e => failing e.report orbit.saved

/-- A participant's program. A session that fails does not end it. -/
def participant (net : Network) (args : List String) : ProgramEnd :=
  if asksForHelp args then { code := some 0, errors := participantHelp }
  else match ParticipantOptions.parse args with
    | .error e => failing e.report
    | .ok o =>
      match net.resolveListen o.listen >>= net.listen with
      | .error e => failing ((⟨e.text, []⟩ : Report).within ("failed to listen on " ++ o.listen))
      | .ok visits =>
        { code := if o.sessions ≠ 0 ∧ o.sessions.toNat ≤ visits.length then some 0 else none }

end Program

end SortLast
