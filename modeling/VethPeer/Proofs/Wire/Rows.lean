import Mathlib
import VethPeer.Proofs.Wire.Attributes
import VethPeer.Wire.AddressEntry
import VethPeer.Wire.LinkEntry

/-! Table rows as a kernel writes them, their attributes in any order, and the entries that they are
decoded to. -/
namespace VethPeer.Wire

variable {b : Bytes}

namespace LinkEntry

def usedKinds : List UInt16 := [nameAttribute, linkAttribute, stateAttribute, infoAttribute]

theorem take_name (e : LinkEntry) (payload : Bytes) :
    take e ⟨nameAttribute, payload⟩ = some { e with name := some (Payload.name payload) } := by
  simp [take]

theorem take_link (e : LinkEntry) (link : Int32) :
    take e ⟨linkAttribute, Bytes.ofNatLE 4 link.toUInt32.toNat⟩ =
      some { e with link := some link } := by
  have hk : linkAttribute ≠ nameAttribute := by decide
  have hn : link.toUInt32.toNat % 4294967296 = link.toUInt32.toNat :=
    Nat.mod_eq_of_lt link.toUInt32.toNat_lt
  have hi : Payload.integer (Bytes.ofNatLE 4 link.toUInt32.toNat) = .ok link := by
    rw [Payload.integer, ← List.append_nil (Bytes.ofNatLE 4 link.toUInt32.toNat),
      Bytes.cut?_append (by simp)]
    simp [Bytes.toNatLE_ofNatLE, hn]
  simp [take, hk, hi, Except.toOption]

theorem take_unused {a : Attribute} (h : a.kind ∉ usedKinds) (e : LinkEntry) :
    take e a = some e := by
  simp only [usedKinds, List.mem_cons, List.not_mem_nil, or_false, not_or] at h
  obtain ⟨hn, hl, hs, hi⟩ := h
  simp [take, hn, hl, hs, hi]

end LinkEntry

/-- An interface. -/
structure LinkRow where
  family : UInt8 := 0
  type : UInt16 := 0
  index : Int32
  flags : UInt32 := 0
  change : UInt32 := 0
  name : Bytes
  /-- What stands behind the name in its attribute. -/
  tail : Bytes := [0]
  link : Option Int32 := none
  extras : List RawAttribute := []

namespace LinkRow

variable {r : LinkRow}

structure WellFormed (r : LinkRow) : Prop where
  noNul : 0 ∉ r.name
  ended : ∀ b ∈ r.tail.head?, b = 0
  unused : ∀ a ∈ r.extras, a.kind ∉ LinkEntry.usedKinds

def header (r : LinkRow) : Bytes :=
  Bytes.ofNatLE 1 r.family.toNat ++ Bytes.ofNatLE 1 0 ++ Bytes.ofNatLE 2 r.type.toNat ++
    Bytes.ofNatLE 4 r.index.toUInt32.toNat ++ Bytes.ofNatLE 4 r.flags.toNat ++
    Bytes.ofNatLE 4 r.change.toNat

def nameAttribute (r : LinkRow) : RawAttribute := ⟨LinkEntry.nameAttribute, r.name ++ r.tail⟩

def linkAttribute (link : Int32) : RawAttribute :=
  ⟨LinkEntry.linkAttribute, Bytes.ofNatLE 4 link.toUInt32.toNat⟩

def attributes (r : LinkRow) : List RawAttribute :=
  r.nameAttribute :: (r.link.map linkAttribute).toList

/-- The bytes are the interface with its attributes in some order. -/
def CarriedBy (b : Bytes) (r : LinkRow) : Prop :=
  ∃ as, as.Perm (r.attributes ++ r.extras) ∧ b = r.header ++ RawAttribute.encodeAll as

def payload (r : LinkRow) : Bytes :=
  r.header ++ RawAttribute.encodeAll (r.attributes ++ r.extras)

theorem carriedBy_payload (r : LinkRow) : r.CarriedBy r.payload := ⟨_, .refl _, rfl⟩

def entry (r : LinkRow) : LinkEntry where
  family := r.family
  type := r.type
  index := r.index
  flags := r.flags
  change := r.change
  name := some (Utf8.decodeLossy r.name)
  link := r.link

@[simp] theorem length_header (r : LinkRow) : r.header.length = LinkEntry.headerSize := by
  simp [header, LinkEntry.headerSize]

theorem ofHeader_header (r : LinkRow) :
    LinkEntry.ofHeader r.header = { r.entry with name := none, link := none } := by
  simp [LinkEntry.ofHeader, entry, header, Bytes.field_append, Bytes.field_ofNatLE,
    Bytes.field_ofNatLE_self]

/-- The name ends at the first zero byte. -/
theorem WellFormed.untilNul_name (h : r.WellFormed) : (r.name ++ r.tail).untilNul = r.name := by
  cases ht : r.tail with
  | nil => rw [List.append_nil, Bytes.untilNul_of_not_mem h.noNul]
  | cons b tail =>
    have hb : b = 0 := h.ended b (by simp [ht])
    rw [hb, Bytes.untilNul_append_zero h.noNul]

theorem WellFormed.take_name (h : r.WellFormed) (e : LinkEntry) :
    LinkEntry.take e r.nameAttribute.toAttribute =
      some { e with name := some (Utf8.decodeLossy r.name) } := by
  have hn := LinkEntry.take_name e (r.name ++ r.tail)
  rw [Payload.name, h.untilNul_name] at hn
  rwa [nameAttribute, RawAttribute.toAttribute_eq (by decide)]

theorem take_link (link : Int32) (e : LinkEntry) :
    LinkEntry.take e (linkAttribute link).toAttribute = some { e with link := some link } := by
  rw [linkAttribute, RawAttribute.toAttribute_eq (by decide)]
  exact LinkEntry.take_link e link

/-- A name and a link go into different fields. -/
theorem WellFormed.take_comm (h : r.WellFormed) : ∀ a ∈ r.attributes, ∀ b ∈ r.attributes, ∀ e,
    (LinkEntry.take e a.toAttribute).bind (LinkEntry.take · b.toAttribute) =
      (LinkEntry.take e b.toAttribute).bind (LinkEntry.take · a.toAttribute) := by
  intro a ha b hb e
  simp only [attributes, List.mem_cons, Option.mem_toList, Option.map_eq_some_iff] at ha hb
  rcases ha with rfl | ⟨l, hl, rfl⟩ <;> rcases hb with rfl | ⟨l', hl', rfl⟩
  · rfl
  · simp [h.take_name, take_link]
  · simp [h.take_name, take_link]
  · rw [Option.some.inj (hl.symm.trans hl')]

theorem WellFormed.takeAll_attributes (h : r.WellFormed) :
    Cursor.takeAll LinkEntry.take (LinkEntry.ofHeader r.header) r.attributes = some r.entry := by
  cases hl : r.link <;>
    simp [attributes, hl, Cursor.takeAll, h.take_name, take_link, ofHeader_header, entry]

/-- Whatever the order of its attributes, an interface that fits a datagram is decoded. -/
theorem WellFormed.decode_carried (h : r.WellFormed) (hp : r.CarriedBy b)
    (fits : b.length < 65536) : LinkEntry.decode b = .ok r.entry := by
  obtain ⟨as, hperm, rfl⟩ := hp
  rw [List.length_append] at fits
  apply Cursor.record_encodeAll r.length_header (by omega)
  rw [Cursor.takeAll_of_perm hperm (fun a ha => LinkEntry.take_unused (h.unused a ha)) h.take_comm,
    h.takeAll_attributes]

end LinkRow
namespace Payload

/-- The bytes of an address in network order. -/
def ofIp : Ip → Bytes
  | .v4 bits => Bytes.ofNatBE 4 bits.toNat
  | .v6 bits => Bytes.ofNatBE 16 bits.toNat

theorem address_ofIp (ip : Ip) : address (Family.ofIp ip).code (ofIp ip) = .ok ip := by
  cases ip with
  | v4 bits =>
    have hn : Bytes.toNatBE (Bytes.ofNatBE 4 bits.toNat) = bits.toNat := by
      rw [Bytes.toNatBE_ofNatBE]
      exact Nat.mod_eq_of_lt bits.isLt
    have hc := Bytes.cut?_append (Bytes.length_ofNatBE 4 bits.toNat) []
    rw [List.append_nil] at hc
    simp [address, Family.ofIp, Family.code, ofIp, hc, Ip.ofBytes4, hn]
  | v6 bits =>
    have hn : Bytes.toNatBE (Bytes.ofNatBE 16 bits.toNat) = bits.toNat := by
      rw [Bytes.toNatBE_ofNatBE]
      exact Nat.mod_eq_of_lt bits.isLt
    have hc := Bytes.cut?_append (Bytes.length_ofNatBE 16 bits.toNat) []
    rw [List.append_nil] at hc
    simp [address, Family.ofIp, Family.code, ofIp, hc, Ip.ofBytes6, hn]

end Payload

namespace AddressEntry

def usedKinds : List UInt16 := [addressAttribute, localAttribute, labelAttribute, flagsAttribute]

variable {e : AddressEntry} {ip : Ip}

theorem hasIp_of_family (h : (Family.ofIp ip).code = e.family) : e.hasIp = true := by
  cases ip <;> simp [hasIp, ← h, Family.ofIp, Family.code]

theorem take_local (h : (Family.ofIp ip).code = e.family) :
    take e ⟨localAttribute, Payload.ofIp ip⟩ = some { e with local? := some ip } := by
  have hk : localAttribute ≠ addressAttribute := by decide
  simp [take, hk, hasIp_of_family h, ← h, Payload.address_ofIp, Except.toOption]

theorem take_address (h : (Family.ofIp ip).code = e.family) :
    take e ⟨addressAttribute, Payload.ofIp ip⟩ = some { e with address := some ip } := by
  simp [take, hasIp_of_family h, ← h, Payload.address_ofIp, Except.toOption]

/-- Taking an address changes neither the family nor the other address. -/
theorem take_comm (e : AddressEntry) (near far : Bytes) :
    (take e ⟨localAttribute, near⟩).bind (take · ⟨addressAttribute, far⟩) =
      (take e ⟨addressAttribute, far⟩).bind (take · ⟨localAttribute, near⟩) := by
  have hk : localAttribute ≠ addressAttribute := by decide
  have ha : addressAttribute ≠ labelAttribute ∧ addressAttribute ≠ flagsAttribute := by decide
  have hl : localAttribute ≠ labelAttribute ∧ localAttribute ≠ flagsAttribute := by decide
  by_cases hi : e.family = 2 ∨ e.family = 10
  · cases hnear : (Payload.address e.family near).toOption <;>
      cases hfar : (Payload.address e.family far).toOption <;>
      simp [take, hasIp, hi, hk, hk.symm, hnear, hfar]
  · simp [take, hasIp, hi, hk, hk.symm, ha, hl]

theorem take_unused {a : Attribute} (h : a.kind ∉ usedKinds) (e : AddressEntry) :
    take e a = some e := by
  simp only [usedKinds, List.mem_cons, List.not_mem_nil, or_false, not_or] at h
  obtain ⟨ha, hl, hn, hf⟩ := h
  simp [take, ha, hl, hn, hf]

end AddressEntry

/-- An address of an interface. -/
structure AddressRow where
  family : UInt8
  length : UInt8 := 0
  flags : UInt8 := 0
  scope : UInt8 := 0
  index : UInt32
  local? : Option Ip := none
  address : Option Ip := none
  extras : List RawAttribute := []

namespace AddressRow

variable {r : AddressRow} {ip : Ip}

structure WellFormed (r : AddressRow) : Prop where
  internet : r.family = Family.inet.code ∨ r.family = Family.inet6.code
  near : ∀ ip ∈ r.local?, (Family.ofIp ip).code = r.family
  far : ∀ ip ∈ r.address, (Family.ofIp ip).code = r.family
  unused : ∀ a ∈ r.extras, a.kind ∉ AddressEntry.usedKinds

def header (r : AddressRow) : Bytes :=
  Bytes.ofNatLE 1 r.family.toNat ++ Bytes.ofNatLE 1 r.length.toNat ++
    Bytes.ofNatLE 1 r.flags.toNat ++ Bytes.ofNatLE 1 r.scope.toNat ++ Bytes.ofNatLE 4 r.index.toNat

def localAttribute (ip : Ip) : RawAttribute := ⟨AddressEntry.localAttribute, Payload.ofIp ip⟩

def addressAttribute (ip : Ip) : RawAttribute := ⟨AddressEntry.addressAttribute, Payload.ofIp ip⟩

def attributes (r : AddressRow) : List RawAttribute :=
  (r.local?.map localAttribute).toList ++ (r.address.map addressAttribute).toList

/-- The bytes are the address with its attributes in some order. -/
def CarriedBy (b : Bytes) (r : AddressRow) : Prop :=
  ∃ as, as.Perm (r.attributes ++ r.extras) ∧ b = r.header ++ RawAttribute.encodeAll as

def payload (r : AddressRow) : Bytes :=
  r.header ++ RawAttribute.encodeAll (r.attributes ++ r.extras)

theorem carriedBy_payload (r : AddressRow) : r.CarriedBy r.payload := ⟨_, .refl _, rfl⟩

/-- What the row says of the interface itself. -/
def primary (r : AddressRow) : Option Ip := r.local?.or r.address

def entry (r : AddressRow) : AddressEntry where
  family := r.family
  length := r.length
  headerFlags := r.flags
  scope := r.scope
  index := r.index
  address := r.address
  local? := r.local?

@[simp] theorem length_header (r : AddressRow) : r.header.length = AddressEntry.headerSize := by
  simp [header, AddressEntry.headerSize]

theorem ofHeader_header (r : AddressRow) :
    AddressEntry.ofHeader r.header = { r.entry with address := none, local? := none } := by
  simp [AddressEntry.ofHeader, entry, header, Bytes.field_append, Bytes.field_ofNatLE,
    Bytes.field_ofNatLE_self]

theorem take_local {e : AddressEntry} (h : (Family.ofIp ip).code = e.family) :
    AddressEntry.take e (localAttribute ip).toAttribute = some { e with local? := some ip } := by
  rw [localAttribute, RawAttribute.toAttribute_eq (by decide)]
  exact AddressEntry.take_local h

theorem take_address {e : AddressEntry} (h : (Family.ofIp ip).code = e.family) :
    AddressEntry.take e (addressAttribute ip).toAttribute = some { e with address := some ip } := by
  rw [addressAttribute, RawAttribute.toAttribute_eq (by decide)]
  exact AddressEntry.take_address h

theorem take_comm (r : AddressRow) : ∀ a ∈ r.attributes, ∀ b ∈ r.attributes, ∀ e,
    (AddressEntry.take e a.toAttribute).bind (AddressEntry.take · b.toAttribute) =
      (AddressEntry.take e b.toAttribute).bind (AddressEntry.take · a.toAttribute) := by
  have hcomm (e : AddressEntry) (near far : Ip) :
      (AddressEntry.take e (localAttribute near).toAttribute).bind
          (AddressEntry.take · (addressAttribute far).toAttribute) =
        (AddressEntry.take e (addressAttribute far).toAttribute).bind
          (AddressEntry.take · (localAttribute near).toAttribute) := by
    rw [localAttribute, addressAttribute, RawAttribute.toAttribute_eq (by decide),
      RawAttribute.toAttribute_eq (by decide)]
    exact AddressEntry.take_comm e _ _
  intro a ha b hb e
  simp only [attributes, List.mem_append, Option.mem_toList, Option.map_eq_some_iff] at ha hb
  rcases ha with ⟨x, hx, rfl⟩ | ⟨x, hx, rfl⟩ <;> rcases hb with ⟨y, hy, rfl⟩ | ⟨y, hy, rfl⟩
  · rw [Option.some.inj (hx.symm.trans hy)]
  · exact hcomm e x y
  · exact (hcomm e y x).symm
  · rw [Option.some.inj (hx.symm.trans hy)]

theorem WellFormed.takeAll_attributes (h : r.WellFormed) :
    Cursor.takeAll AddressEntry.take (AddressEntry.ofHeader r.header) r.attributes =
      some r.entry := by
  rw [ofHeader_header, attributes, Cursor.takeAll_append]
  have hnear : Cursor.takeAll AddressEntry.take { r.entry with address := none, local? := none }
      (r.local?.map localAttribute).toList = some { r.entry with address := none } := by
    cases hl : r.local? with
    | none => simp [Cursor.takeAll, entry, hl]
    | some ip =>
      have ht := take_local (e := { r.entry with address := none, local? := none }) (h.near ip hl)
      simpa [Cursor.takeAll, entry, hl] using ht
  have hfar : Cursor.takeAll AddressEntry.take { r.entry with address := none }
      (r.address.map addressAttribute).toList = some r.entry := by
    cases ha : r.address with
    | none => simp [Cursor.takeAll, entry, ha]
    | some ip =>
      have ht := take_address (e := { r.entry with address := none }) (h.far ip ha)
      simpa [Cursor.takeAll, entry, ha] using ht
  rw [hnear, Option.bind_some, hfar]

/-- Whatever the order of its attributes, an address that fits a datagram is decoded. -/
theorem WellFormed.decode_carried (h : r.WellFormed) (hp : r.CarriedBy b)
    (fits : b.length < 65536) : AddressEntry.decode b = .ok r.entry := by
  obtain ⟨as, hperm, rfl⟩ := hp
  rw [List.length_append] at fits
  apply Cursor.record_encodeAll r.length_header (by omega)
  rw [Cursor.takeAll_of_perm hperm (fun a ha => AddressEntry.take_unused (h.unused a ha))
    r.take_comm, h.takeAll_attributes]

end AddressRow
end VethPeer.Wire
