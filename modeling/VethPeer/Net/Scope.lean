/-! Address scopes: the numbers that have names. -/
namespace VethPeer.Scope

def name? (n : UInt8) : Option String :=
  if n = 0 then some "global"
  else if n = 200 then some "site"
  else if n = 253 then some "link"
  else if n = 254 then some "host"
  else if n = 255 then some "nowhere"
  else none

/-- Of the characters outside ASCII only the kelvin sign has a lower-case form inside it. -/
def lower (c : Char) : Char := if c = '\u212a' then 'k' else c.toLower

/-- Case does not matter, and the global scope has a second name. -/
def ofName? (s : String) : Option UInt8 :=
  match String.ofList (s.toList.map lower) with
  | "global" | "universe" => some 0
  | "site" => some 200
  | "link" => some 253
  | "host" => some 254
  | "nowhere" => some 255
  | _ => none

def text (n : UInt8) : String := (name? n).getD (toString n)

end VethPeer.Scope
