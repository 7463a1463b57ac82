/-!
# Signals

The signals a container can be stopped with. A signal is named with or without `SIG`, in any letter
case, or by its number.
-/

namespace ContainerBuild

inductive Signal
  | term
  | kill
  | hup
  | int
  | usr1
  | usr2
  deriving DecidableEq, Repr

namespace Signal

def name : Signal → String
  | term => "SIGTERM"
  | kill => "SIGKILL"
  | hup => "SIGHUP"
  | int => "SIGINT"
  | usr1 => "SIGUSR1"
  | usr2 => "SIGUSR2"

/-- The capital of a character, as far as it can occur in the name of a signal: beside the ASCII
letters the long s and the dotless i have an ASCII letter as their capital. -/
def capital (c : Char) : Char :=
  if c = 'ſ' then 'S' else if c = 'ı' then 'I' else c.toUpper

def ofCapitals (cs : List Char) : Option Signal :=
  let stem := match cs with
    | 'S' :: 'I' :: 'G' :: rest => rest
    | _ => cs
  match String.ofList stem with
  | "TERM" => some term
  | "15" => some term
  | "KILL" => some kill
  | "9" => some kill
  | "HUP" => some hup
  | "1" => some hup
  | "INT" => some int
  | "2" => some int
  | "USR1" => some usr1
  | "10" => some usr1
  | "USR2" => some usr2
  | "12" => some usr2
  | _ => none

def ofName? (s : String) : Option Signal :=
  ofCapitals (s.toList.map capital)

theorem ofName?_name (s : Signal) : ofName? s.name = some s := by
  cases s <;> decide +kernel

end Signal
end ContainerBuild
