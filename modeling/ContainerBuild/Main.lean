import ContainerBuild.CommandLine

/-!
# The program

Questions of a run are answered from the files and the environment of the process. Sockets, other programs
and the table of accounts are out of its reach, so a daemon cannot be connected to from here, no command
starts, and the home directory is the one that the environment names.
-/

namespace ContainerBuild
namespace Program

def faultOf : IO.Error → SystemFault
  | .noFileOrDirectory .. => .notFound
  | .permissionDenied .. => ⟨13⟩
  | .inappropriateType .. => .isADirectory
  | .invalidArgument .. => .invalidArgument
  | .otherError code _ => ⟨code.toNat⟩
  | _ => ⟨5⟩

def fileContent (path : String) : IO FileContent := do
  try
    let content ← IO.FS.readBinFile path
    return .ok content.data.toList
  catch e => return .error (faultOf e)

def pathExists (path : String) : IO Bool := do
  match ← fileContent path with
  | .ok _ => return true
  | .error fault => return fault != .notFound

def freshId : IO String := do
  let mut digits : List Char := []
  for _ in List.range 12 do
    digits := Bytes.hexDigit false (← IO.rand 0 15) :: digits
  return String.ofList digits

def probed : (q : ProbeQuestion) → IO q.Answer
  | .moment => do return ⟨← IO.monoNanosNow⟩
  | .attempt e => pure (ProbeQuestion.failing e SystemFault.notImplemented.text)
  | .pause length => do
    IO.sleep (UInt32.ofNat (length.nanos / 1000000))
    return ProbeQuestion.onTime length

def answer : (q : Inquiry) → IO q.Answer
  | .exchange .. => pure (.unreachable (.system .notImplemented))
  | .pathExists path => pathExists path
  | .command .. => pure (.notStarted .notImplemented)
  | .freshId => freshId
  | .fileContent path => fileContent path
  | .probe q => probed q

end Program
end ContainerBuild

open ContainerBuild in
def main (arguments : List String) : IO UInt32 := do
  let names := ["BUILDRIG_CONFIG", "BUILDRIG_RUNTIME", "BUILDRIG_SOCKET", "BUILDRIG_REGISTRY_AUTH",
    "BUILDRIG_LOG", "BUILDRIG_REQUEST_TIMEOUT_SECS", "XDG_CONFIG_HOME", "HOME",
    BackendRegistry.hostVariable]
  let values ← names.mapM fun name => do
    let value ← IO.getEnv name
    return (name, value)
  let lookup (name : String) : Option String := (values.lookup name).join
  let exit ← (CommandLine.run arguments lookup none).play Program.answer
  (← IO.getStdout).write ⟨exit.out.toArray⟩
  (← IO.getStderr).putStr exit.err
  return UInt32.ofNat exit.code
