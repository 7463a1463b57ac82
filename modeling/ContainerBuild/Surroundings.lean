import ContainerBuild.BuildError
import ContainerBuild.Dialogue
import ContainerBuild.FileTree
import ContainerBuild.Http.Message
import ContainerBuild.Probe

/-!
# Surroundings

What the work with containers asks of the world around it: an exchange with a daemon, the run of a
command, a fresh identifier, an attempt of a probe. A `Session` is a dialogue of such questions that
ends with a result or an error.
-/

namespace ContainerBuild

/-- A directory that is made for a command with some files in it, and removed after it. -/
structure StagedDirectory where
  stem : String
  tree : FileTree
  /-- The place in the tree whose content the directory gets. -/
  root : Place

inductive CommandArgument
  | word (s : String)
  | directory (stem : String)
  | file (stem name : String)
  deriving DecidableEq, Repr

structure Command where
  program : String
  arguments : List CommandArgument
  environment : List (String × String)
  staged : List StagedDirectory

inductive ExitStatus
  | code (n : Nat)
  | signal (n : Nat)
  deriving DecidableEq, Repr

namespace ExitStatus

def isSuccess (s : ExitStatus) : Bool :=
  s == code 0

def signalName : Nat → String
  | 1 => "SIGHUP"
  | 2 => "SIGINT"
  | 3 => "SIGQUIT"
  | 4 => "SIGILL"
  | 5 => "SIGTRAP"
  | 6 => "SIGABRT"
  | 7 => "SIGBUS"
  | 8 => "SIGFPE"
  | 9 => "SIGKILL"
  | 10 => "SIGUSR1"
  | 11 => "SIGSEGV"
  | 12 => "SIGUSR2"
  | 13 => "SIGPIPE"
  | 14 => "SIGALRM"
  | 15 => "SIGTERM"
  | 16 => "SIGSTKFLT"
  | 17 => "SIGCHLD"
  | 18 => "SIGCONT"
  | 19 => "SIGSTOP"
  | 20 => "SIGTSTP"
  | 21 => "SIGTTIN"
  | 22 => "SIGTTOU"
  | 23 => "SIGURG"
  | 24 => "SIGXCPU"
  | 25 => "SIGXFSZ"
  | 26 => "SIGVTALRM"
  | 27 => "SIGPROF"
  | 28 => "SIGWINCH"
  | 29 => "SIGIO"
  | 30 => "SIGPWR"
  | 31 => "SIGSYS"
  | _ => ""

def text : ExitStatus → String
  | code n => "exit status: " ++ toString n
  | signal n =>
    let name := signalName n
    "signal: " ++ toString n ++ (if name.isEmpty then "" else " (" ++ name ++ ")")

end ExitStatus

structure CommandOutput where
  status : ExitStatus
  out : Bytes
  err : Bytes
  deriving DecidableEq, Repr

inductive CommandResult
  | notStarted (fault : SystemFault)
  | timedOut
  | ended (output : CommandOutput)
  deriving DecidableEq, Repr

inductive Inquiry
  /-- A request to the daemon at a socket, whose response must begin within a time. -/
  | exchange (socket : String) (limit : Duration) (request : Http.Request)
  | pathExists (path : String)
  | command (c : Command) (limit : Option Duration)
  | freshId
  | fileContent (path : String)
  | probe (q : ProbeQuestion)

def Inquiry.Answer : Inquiry → Type
  | exchange .. => Http.Reply
  | pathExists _ => Bool
  | command .. => CommandResult
  | freshId => String
  | fileContent _ => FileContent
  | probe q => q.Answer

abbrev Session := ExceptT BuildError (Dialogue Inquiry Inquiry.Answer)

namespace Session

def ask (q : Inquiry) : Session q.Answer :=
  ExceptT.lift (Dialogue.question q)

def exchange (socket : String) (limit : Duration) (request : Http.Request) : Session Http.Reply :=
  ask (.exchange socket limit request)

def pathExists (path : String) : Session Bool :=
  ask (.pathExists path)

def command (c : Command) (limit : Option Duration) : Session CommandResult :=
  ask (.command c limit)

def freshId : Session String :=
  ask .freshId

def fileContent (path : String) : Session FileContent :=
  ask (.fileContent path)

def waitReady (p : ReadinessProbe) : Session Readiness :=
  ExceptT.mk (p.wait.interpret fun q => Dialogue.question (.probe q))

def ofOutcome {α : Type} (r : Outcome α) : Session α :=
  match r with
  | .ok a => pure a
  | .error e => throw e

def mapError {α : Type} (f : BuildError → BuildError) (s : Session α) : Session α :=
  ExceptT.mk (s.run >>= fun r => pure (r.mapError f))

/-- The result as an outcome that the session goes on with. -/
def attempt {α : Type} (s : Session α) : Session (Outcome α) :=
  ExceptT.lift s.run

end Session
end ContainerBuild
