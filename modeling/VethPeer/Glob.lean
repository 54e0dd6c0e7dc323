import VethPeer.Glob.Parser

/-! Globs over names, and sets of globs. -/
namespace VethPeer

/-- A glob with the text that it was read from. -/
structure Glob where
  pattern : String
  tokens : List Glob.Token
  deriving Repr

namespace Glob

/-- The text is no glob. -/
structure Fault where
  pattern : String
  defect : Defect
  deriving DecidableEq, Repr

def Fault.message (f : Fault) : String :=
  s!"error parsing glob '{f.pattern}': {f.defect.message}"

def parse (pattern : String) : Except Fault Glob :=
  match readTokens pattern.toList with
  | .ok tokens => .ok ⟨pattern, tokens⟩
  | .error defect => .error ⟨pattern, defect⟩

/-- Directories alone take in any name. -/
def takesAll (g : Glob) : Bool :=
  match g.tokens with
  | [.leadingDirs] => true
  | _ => false

/-- The glob covers the name from end to end. -/
def isMatch (g : Glob) (name : String) : Bool :=
  let bytes := Utf8.encode name
  g.takesAll || (advanceAll bytes g.tokens (Reach.start bytes)).accepts

def Token.literal? : Token → Option Char
  | .literal c => some c
  | _ => none

/-- A literal ending that starts with the last point and has no slash. -/
def hasExtension (tokens : List Token) : Bool :=
  match (tokens.reverse.dropWhile fun t => t.literal?.any fun c => c ≠ '.' ∧ c ≠ '/') with
  | .literal '.' :: _ => true
  | _ => false

/-- The rest of a glob that directories may precede. -/
def afterDirs : List Token → List Token
  | .leadingDirs :: tokens => tokens
  | tokens => tokens

/-- A run of any bytes may precede literals and nothing else does. -/
def isSuffix (tokens : List Token) : Bool :=
  let ending := match afterDirs tokens with
    | .anyRun :: rest => rest
    | rest => rest
  ending.all (·.literal?.isSome)

/-- A run of any bytes and an extension. -/
def isExtension (tokens : List Token) : Bool :=
  match afterDirs tokens with
  | .anyRun :: .literal '.' :: rest => rest.all fun t => t.literal?.any fun c => c ≠ '.' ∧ c ≠ '/'
  | _ => false

/-- Directories and one literal name. -/
def isBaseName : List Token → Bool
  | .leadingDirs :: name => !name.isEmpty && name.all fun t => t.literal?.any (· ≠ '/')
  | _ => false

/-- A set compares the last component of a name, or its extension, with such a glob. The component
for the parent directory counts as having neither. -/
def comparesLast (g : Glob) : Bool :=
  isBaseName g.tokens || isExtension g.tokens || (hasExtension g.tokens && !isSuffix g.tokens)

/-- What follows the last slash. -/
def lastComponent (name : String) : List Char :=
  (name.toList.reverse.takeWhile (· ≠ '/')).reverse

/-- Some glob of the set covers the name. -/
def anyMatch (globs : List Glob) (name : String) : Bool :=
  globs.any fun g => g.isMatch name && !(g.comparesLast && lastComponent name = ['.', '.'])

end Glob
end VethPeer
