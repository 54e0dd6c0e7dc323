import VethPeer.Command.Resolve

/-! The program as a function of its arguments and of the world that it runs in. -/
namespace VethPeer.Command

/-- What the arguments ask for. -/
inductive Invocation
  | resolve (given : Given)
  | list (given : Given)
  | worker (arguments : Worker.Arguments)

/-- The commands by their names, short ones included. -/
inductive Name
  | resolve
  | list
  | worker
  | help
  deriving DecidableEq, Repr

def Name.ofText? : String → Option Name
  | "resolve" | "r" => some .resolve
  | "show" | "s" => some .list
  | "worker" => some .worker
  | "help" => some .help
  | _ => none

/-- Options in front of a command only explain the program. -/
def options (argument : String) : Halt :=
  match argument.toList with
  | ['-', '-', 'h', 'e', 'l', 'p'] | '-' :: 'h' :: _ => .help
  | ['-', '-', 'v', 'e', 'r', 's', 'i', 'o', 'n'] | '-' :: 'V' :: _ => .version
  | _ => .usage

def parse : List String → Except Halt Invocation
  | [] => .error .usage
  | argument :: rest =>
    match Name.ofText? argument with
    | some .resolve => (Resolve.parse rest).map .resolve
    | some .list => (Show.parse rest).map .list
    | some .worker => (Worker.parse rest).map .worker
    | some .help =>
      match rest with
      | [] => .error .help
      | [name] => .error (if (Name.ofText? name).isSome then .help else .usage)
      | _ => .error .usage
    | none => .error (options argument)

def Invocation.run (w : World) : Invocation → Output
  | .resolve given => Resolve.run w given
  | .list given => Show.run w given
  | .worker arguments => Worker.run w arguments

def run (w : World) (arguments : List String) : Output :=
  match parse arguments with
  | .ok invocation => invocation.run w
  | .error halt => halt.output

end VethPeer.Command
