import Reclaim.CommandLine.Reader
import Std.Time.DateTime.Timestamp

/-!
# The program

Reads the command line and the environment, runs the command on the standard
input, and writes its output and its files.  All decisions are made elsewhere.
-/

namespace Reclaim
namespace Program

/-- All bytes of a stream behind those already read. -/
partial def readBytes (input : IO.FS.Stream) (bytes : ByteArray) :
    IO ByteArray := do
  let chunk ← input.read 65536
  if chunk.isEmpty then
    return bytes
  else
    readBytes input (bytes ++ chunk)

/-- The variables of the environment that are set. -/
def environment : IO (List (String × String)) :=
  Settings.variableNames.filterMapM fun name => do
    let value ← IO.getEnv name
    return value.map fun text => (name, text)

/-- The present time to the millisecond. -/
def present : IO Time.Instant := do
  let now ← Std.Time.Timestamp.now
  let millis := now.toMillisecondsSinceUnixEpoch.val
  match Time.Instant.ofMillis? millis with
  | some t => return t
  | none => throw (IO.userError "the clock is out of range")

/-- Reports a fault and gives the exit status. -/
def fail (message : String) (status : UInt32) : IO UInt32 := do
  (← IO.getStderr).putStrLn ("error: " ++ message)
  return status

/-- Ends a run that has failed; without a wording it has panicked. -/
def endRun : Option String → IO UInt32
  | some message => fail message 1
  | none => return 101

/-- Writes the output and the files of a command. -/
def write (w : Written) : IO Unit := do
  for (path, content) in w.files do
    IO.FS.writeBinFile path content.toByteArray
  let output ← IO.getStdout
  output.putStr (Tool.outputText w.output)
  output.flush

/-- Runs a command on the standard input. -/
def runCommand (settings : Settings) (command : Command) : IO UInt32 := do
  let now ← present
  let input ← readBytes (← IO.getStdin) ByteArray.empty
  match command.run Digest.md5 settings now input.toList with
  | .error fault => endRun fault.message
  | .ok written => do
      write written
      return 0

/-- Answers a question about the usage, or reports a fault in it. -/
def answerUsage (fault : CommandLine.UsageFault) : IO UInt32 := do
  if fault.isAnswer then
    IO.println fault.message
    return 0
  else
    fail fault.message 2

/-- Runs the program on the words of its command line. -/
def run (words : List String) : IO UInt32 := do
  match CommandLine.read words with
  | .error fault => answerUsage fault
  | .ok (arguments, command) => do
      let env ← environment
      match Settings.resolve arguments fun name => env.lookup name with
      | .error fault => endRun fault.message
      | .ok settings => runCommand settings command

end Program
end Reclaim

/-- The program. -/
def main (words : List String) : IO UInt32 :=
  Reclaim.Program.run words
