import VethPeer.Ip

/-! Address families by their numbers, with any family as number zero. -/
namespace VethPeer

inductive Family
  | unspec
  | inet
  | inet6
  | packet
  | other (code : UInt8)
  deriving DecidableEq, Repr

namespace Family

def ofCode (n : UInt8) : Family :=
  if n = 0 then .unspec
  else if n = 2 then .inet
  else if n = 10 then .inet6
  else if n = 17 then .packet
  else .other n

def code : Family → UInt8
  | .unspec => 0
  | .inet => 2
  | .inet6 => 10
  | .packet => 17
  | .other n => n

@[simp] theorem code_ofCode (n : UInt8) : (ofCode n).code = n := by
  unfold ofCode
  split
  · simp_all [code]
  · split
    · simp_all [code]
    · split
      · simp_all [code]
      · split <;> simp_all [code]

def ofIp : Ip → Family
  | .v4 _ => .inet
  | .v6 _ => .inet6

def text : Family → String
  | .unspec => "unspec"
  | .inet => "inet"
  | .inet6 => "inet6"
  | .packet => "link"
  | .other n => s!"family {n}"

end Family
end VethPeer
