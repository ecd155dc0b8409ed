import SortLast.CommandLine.Programs

/-!
# Command line

The first argument names the program, the others are its own. The host's network is not used, so the
coordinator reaches nobody and a participant waits for coordinators in vain.
-/

namespace SortLast

/-- Wait for ever. -/
partial def waitForever : IO UInt32 := do
  IO.sleep 1000
  waitForever

/-- Write what a program wrote to the error stream, and give its exit code; a program without one goes
on waiting. -/
def finish (e : ProgramEnd) : IO UInt32 := do
  IO.eprint e.errors
  match e.code with
  | some code => return code
  | none => waitForever

end SortLast

/-- Run one of the two programs. -/
def main : List String → IO UInt32
  | "coordinator" :: args => SortLast.finish (SortLast.Program.coordinator .isolated args)
  | "participant" :: args => SortLast.finish (SortLast.Program.participant .isolated args)
  | _ => do
    IO.eprintln "expected coordinator or participant, and its arguments"
    return 1
