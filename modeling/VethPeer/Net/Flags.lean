/-! Flag bits of links and of addresses. -/
namespace VethPeer

namespace LinkFlags

/-- Flags that have a name, in the order in which they are listed. -/
def named : List (UInt32 × String) := [
  (0x8, "LOOPBACK"),
  (0x2, "BROADCAST"),
  (0x10, "POINTOPOINT"),
  (0x1000, "MULTICAST"),
  (0x80, "NOARP"),
  (0x100, "PROMISC"),
  (0x1, "UP"),
  (0x10000, "LOWER_UP")]

def text (flags : UInt32) : String :=
  ",".intercalate <| (named.filter fun (bit, _) => flags &&& bit ≠ 0).map (·.2)

end LinkFlags

namespace AddressFlags

def secondary : UInt32 := 0x1
def deprecated : UInt32 := 0x20
def tentative : UInt32 := 0x40
def permanent : UInt32 := 0x80

end AddressFlags
end VethPeer
