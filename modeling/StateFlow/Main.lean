import StateFlow.CommandLine.Program
import Std.Time.DateTime.Timestamp

/-! # The command line

Reads the files that the command line names and prints the answer. Connections to invokers are not
made: to an execution every one of them is unreachable. -/

namespace StateFlow.CommandLine

/-- What is found under a name on disk. -/
def readFile (name : String) : IO FileContent := do
  try
    return .ofBytes (← IO.FS.readBinFile name)
  catch
    | .noFileOrDirectory .. => return .missing
    | e => return .unreadable (toString e)

/-- Milliseconds since the start of the year 1970. -/
def wallClock : IO Nat := do
  return (← Std.Time.Timestamp.now).toMillisecondsSinceUnixEpoch.toInt.toNat

/-- A random number of 128 bits. -/
def randomNumber : IO Nat := do
  return (← IO.getRandomBytes 16).foldl (fun n byte => 256 * n + byte.toNat) 0

/-- Identifiers made from one moment and a random number, which is the state. -/
def freshIds (now : Nat) (random : Nat) : Uuid × Nat :=
  (.ofMoment now random, random + 1)

/-- Answer a command line, given the files that it names. -/
def respond (arguments : List String) : IO UInt32 := do
  let files ← (filesOf arguments).mapM fun name => return (name, ← readFile name)
  let now ← wallClock
  let random ← randomNumber
  let surroundings : Surroundings Nat :=
    { file := fun name => (files.lookup name).getD .missing,
      network := .unreachable (freshIds now), world := random + 1,
      id := .ofMoment now random, now }
  let output := surroundings.answer arguments
  (← IO.getStdout).putStr output.out
  (← IO.getStderr).putStr output.err
  return output.code.toUInt32

end StateFlow.CommandLine

def main (arguments : List String) : IO UInt32 :=
  StateFlow.CommandLine.respond arguments
