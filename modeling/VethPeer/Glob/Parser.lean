import VethPeer.Glob.Token

/-! Reading a glob from text. -/
namespace VethPeer.Glob

inductive Defect
  | unclosedClass
  | unclosedAlternates
  | unopenedAlternates
  | danglingEscape
  | invalidRange (low high : Char)
  deriving DecidableEq, Repr

def Defect.message : Defect → String
  | .unclosedClass => "unclosed character class; missing ']'"
  | .unclosedAlternates =>
    "unclosed alternate group; missing '\x7d' (maybe escape '\x7b' with '[\x7b]'?)"
  | .unopenedAlternates =>
    "unopened alternate group; missing '\x7b' (maybe escape '\x7d' with '[\x7d]'?)"
  | .danglingEscape => "dangling '\\'"
  | .invalidRange low high => s!"invalid range; '{low}' > '{high}'"

/-- A group that is still open: the branch that it interrupted, last token first, and its own
branches that are complete, last branch first. -/
structure Group where
  outer : List Token
  branches : List (List Token)

/-- A character class that is still open, its last range first. -/
structure ClassState where
  negated : Bool
  ranges : List (Char × Char) := []
  /-- A dash was read that may belong to a range. -/
  dash : Bool := false

/-- What was read so far: the branch being read, last token first, the groups around it, and the
character before. -/
structure State where
  branch : List Token := []
  groups : List Group := []
  previous : Option Char := none

namespace State

def push (st : State) (t : Token) : State := { st with branch := t :: st.branch }

def openGroup (st : State) : State :=
  { st with branch := [], groups := ⟨st.branch, []⟩ :: st.groups }

def closeGroup (st : State) : Except Defect State :=
  match st.groups with
  | [] => .error .unopenedAlternates
  | g :: groups =>
    let alternatives := (st.branch.reverse :: g.branches).reverse
    .ok { st with branch := .branches alternatives :: g.outer, groups }

/-- A comma is itself outside of groups. -/
def comma (st : State) : State :=
  match st.groups with
  | [] => st.push (.literal ',')
  | g :: groups =>
    { st with branch := [], groups := { g with branches := st.branch.reverse :: g.branches } :: groups }

/-- Directories take the place of the slash before them, or merge with directories there. -/
def replaceLast (st : State) (t : Token) : State :=
  match st.branch with
  | .leadingDirs :: _ | .trailingDirs :: _ => st
  | _ :: branch => { st with branch := t :: branch }
  | [] => st

/-- Two stars before `ahead`: the state after them, and whether a slash that follows is part of
them. -/
def doubleStar (st : State) (ahead : Option Char) : State × Bool :=
  let plain := (st.push .anyRun).push .anyRun
  if st.branch.isEmpty then
    match ahead with
    | none => (st.push .leadingDirs, false)
    | some '/' => (st.push .leadingDirs, true)
    | some _ => (plain, false)
  else if st.previous = some '/' ∨
      (!st.groups.isEmpty ∧ (st.previous = some ',' ∨ st.previous = some '\x7b')) then
    match ahead with
    | none => (st.replaceLast .trailingDirs, false)
    | some '/' => (st.replaceLast .innerDirs, true)
    | some c =>
      if !st.groups.isEmpty ∧ (c = ',' ∨ c = '\x7d') then (st.replaceLast .trailingDirs, false)
      else (plain, false)
  else (plain, false)

end State

namespace ClassState

/-- The first character of a class is a member whatever it is; the end of the class otherwise
follows from `]`. -/
def add (k : ClassState) (c : Char) : Except Defect ClassState :=
  match k.ranges with
  | (low, _) :: ranges =>
    if k.dash then
      if c < low then .error (.invalidRange low c)
      else .ok { k with ranges := (low, c) :: ranges, dash := false }
    else if c = '-' then .ok { k with dash := true }
    else .ok { k with ranges := (c, c) :: k.ranges }
  | [] => .ok { k with ranges := [(c, c)] }

/-- A dash at the end is a member. -/
def token (k : ClassState) : Token :=
  .oneOf k.negated (if k.dash then ('-', '-') :: k.ranges else k.ranges).reverse

end ClassState

/-- Reads on, inside of a class if there is one. -/
def scan (st : State) : Option ClassState → List Char → Except Defect State
  | none, [] => if st.groups.isEmpty then .ok st else .error .unclosedAlternates
  | some _, [] => .error .unclosedClass
  | some k, c :: cs =>
    if c = ']' ∧ !k.ranges.isEmpty then
      scan { st.push k.token with previous := some ']' } none cs
    else
      match k.add c with
      | .error defect => .error defect
      | .ok k => scan st (some k) cs
  | none, '[' :: '!' :: cs => scan st (some { negated := true }) cs
  | none, '[' :: '^' :: cs => scan st (some { negated := true }) cs
  | none, '[' :: cs => scan st (some { negated := false }) cs
  | none, ['\\'] => .error .danglingEscape
  | none, '\\' :: c :: cs => scan { st.push (.literal c) with previous := some c } none cs
  | none, '*' :: '*' :: cs =>
    let (st', slash) := st.doubleStar cs.head?
    match slash, cs with
    | true, _ :: cs => scan { st' with previous := some '/' } none cs
    | _, cs => scan { st' with previous := some '*' } none cs
  | none, '*' :: cs => scan { st.push .anyRun with previous := some '*' } none cs
  | none, '?' :: cs => scan { st.push .anyByte with previous := some '?' } none cs
  | none, '\x7b' :: cs => scan { st.openGroup with previous := some '\x7b' } none cs
  | none, '\x7d' :: cs =>
    match st.closeGroup with
    | .error defect => .error defect
    | .ok st => scan { st with previous := some '\x7d' } none cs
  | none, ',' :: cs => scan { st.comma with previous := some ',' } none cs
  | none, c :: cs => scan { st.push (.literal c) with previous := some c } none cs

def readTokens (cs : List Char) : Except Defect (List Token) :=
  (scan {} none cs).map (·.branch.reverse)

end VethPeer.Glob
