import BlockMachine.CommandLine.Response

namespace BlockMachine.CommandLine

def contentsOf? (path : String) : IO (Option ByteArray) := do
  try
    return some (← IO.FS.readBinFile path)
  catch _ =>
    return none

def perform (arguments : List String) : IO Nat := do
  let request := readArguments (← IO.getEnv limitVariable) arguments
  let contents ← match request with
    | .ok r => r.command.file?.elim (pure none) contentsOf?
    | .error _ => pure none
  let response := respond (fun _ => contents) request
  IO.print response.stdout
  IO.eprint response.stderr
  return response.exitCode

end BlockMachine.CommandLine

def main (arguments : List String) : IO UInt32 := do
  return (← BlockMachine.CommandLine.perform arguments).toUInt32
