import VethPeer.Command.Output

/-! Reading the options and the positional argument of a command from its arguments. -/
namespace VethPeer.Command

/-- An option, recorded under its key each time that it is given. -/
structure Spec where
  key : String
  long : Option String := none
  short : Option Char := none
  /-- Which texts it takes as its value; none if it takes no value. -/
  value : Option (String → Bool) := none
  /-- It may be given more than once. -/
  repeats : Bool := false

structure Grammar where
  specs : List Spec
  /-- The key of the positional argument, if the command has one. -/
  positional : Option String := none

/-- What was given, the latest first, with an empty value for options that take none. -/
structure Given where
  items : List (String × String) := []
  deriving DecidableEq, Repr

namespace Given

def has (g : Given) (key : String) : Bool := g.items.any (·.1 = key)

def values (g : Given) (key : String) : List String :=
  (g.items.filter (·.1 = key)).reverse.map (·.2)

def value? (g : Given) (key : String) : Option String := (g.values key).head?

/-- Nothing is given twice unless it may be, and no value that is not taken. -/
def record (g : Given) (s : Spec) (value : String) : Except Halt Given :=
  if !s.repeats && g.has s.key then .error .usage
  else if s.value.any fun ok => !ok value then .error .usage
  else .ok ⟨(s.key, value) :: g.items⟩

end Given

namespace Grammar

/-- Every command explains itself. -/
def isHelp (long : String) : Bool := long = "help"

/-- Options in one argument after a dash. An option that takes a value takes the rest of the
argument; if nothing is left, it is returned as still waiting. -/
def cluster (g : Grammar) (given : Given) : List Char → Except Halt (Given × Option Spec)
  | [] => .ok (given, none)
  | 'h' :: _ => .error .help
  | c :: cs =>
    match g.specs.find? (·.short = some c) with
    | none => .error .usage
    | some s =>
      if s.value.isNone then
        match given.record s "" with
        | .error halt => .error halt
        | .ok given => cluster g given cs
      else match cs with
        | [] => .ok (given, some s)
        | '=' :: value => (given.record s (String.ofList value)).map (·, none)
        | value => (given.record s (String.ofList value)).map (·, none)

/-- An option in one argument after two dashes, its value after an equals sign. -/
def long (g : Grammar) (given : Given) (cs : List Char) : Except Halt (Given × Option Spec) :=
  let name := cs.takeWhile (· ≠ '=')
  let value : Option String :=
    match cs.drop name.length with
    | [] => none
    | _ :: value => some (String.ofList value)
  if isHelp (String.ofList name) then .error (if value.isNone then .help else .usage)
  else match g.specs.find? (·.long = some (String.ofList name)) with
    | none => .error .usage
    | some s =>
      match s.value.isSome, value with
      | true, some value => (given.record s value).map (·, none)
      | true, none => .ok (given, some s)
      | false, some _ => .error .usage
      | false, none => (given.record s "").map (·, none)

def place (g : Grammar) (given : Given) (argument : String) : Except Halt Given :=
  match g.positional with
  | some key => given.record { key } argument
  | none => .error .usage

/-- Reads on. A `waiting` option takes the next argument as its value, unless that reads as an
option itself. -/
def read (g : Grammar) (given : Given) : Option Spec → List String → Except Halt Given
  | none, [] => .ok given
  | some _, [] => .error .usage
  | waiting, argument :: rest =>
    match argument.toList, waiting with
    | ['-', '-'], none =>
      rest.foldlM (fun given argument => g.place given argument) given
    | '-' :: '-' :: cs, none =>
      match g.long given cs with
      | .error halt => .error halt
      | .ok (given, waiting) => read g given waiting rest
    | '-' :: c :: cs, none =>
      match g.cluster given (c :: cs) with
      | .error halt => .error halt
      | .ok (given, waiting) => read g given waiting rest
    | '-' :: _ :: _, some _ => .error .usage
    | _, some s =>
      match given.record s argument with
      | .error halt => .error halt
      | .ok given => read g given none rest
    | _, none =>
      match g.place given argument with
      | .error halt => .error halt
      | .ok given => read g given none rest

def parse (g : Grammar) (arguments : List String) : Except Halt Given := g.read {} none arguments

end Grammar
end VethPeer.Command
