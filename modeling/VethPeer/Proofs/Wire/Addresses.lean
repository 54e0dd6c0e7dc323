import Mathlib
import VethPeer.Proofs.Wire.Records
import VethPeer.Proofs.Wire.Values

/-! Which byte strings are entries of the address table, what each of them says, where the reading
of the others stops, and the assignment that an entry makes. -/
namespace VethPeer.Wire.AddressEntry

variable {e e' : AddressEntry} {x : Attribute} {xs : List Attribute} {b data payload : Bytes}
  {as : List RawAttribute} {family : UInt8} {kind : UInt16}

open Attribute RawAttribute

/-- The family is one of the two whose entries hold addresses. -/
def Internet (family : UInt8) : Prop := family = Family.inet.code ∨ family = Family.inet6.code

instance (family : UInt8) : Decidable (Internet family) := inferInstanceAs (Decidable (_ ∨ _))

/-- Entries of other families are read for their label and their flags only. -/
def usedBy (family : UInt8) : List UInt16 :=
  if Internet family then usedKinds else [labelAttribute, flagsAttribute]

/-- Addresses and flags are there in full. -/
structure Accepts (family : UInt8) (x : Attribute) : Prop where
  inet : family = Family.inet.code → x.kind = addressAttribute ∨ x.kind = localAttribute →
    4 ≤ x.payload.length
  inet6 : family = Family.inet6.code → x.kind = addressAttribute ∨ x.kind = localAttribute →
    16 ≤ x.payload.length
  flags : x.kind = flagsAttribute → 4 ≤ x.payload.length

/-- The payload of the last attribute of a kind that holds addresses. -/
def lastIp? (family : UInt8) (kind : UInt16) (xs : List Attribute) : Option Bytes :=
  if Internet family then last? kind xs else none

/-- The entry says what the last attribute of each kind says. -/
structure Describes (xs : List Attribute) (e : AddressEntry) : Prop where
  address : Option.Rel (Payload.HoldsIp e.family) (lastIp? e.family addressAttribute xs) e.address
  local? : Option.Rel (Payload.HoldsIp e.family) (lastIp? e.family localAttribute xs) e.local?
  label : e.label = (last? labelAttribute xs).map Payload.name
  flags : Option.Rel Payload.HoldsWord (last? flagsAttribute xs) e.flags

/-- What the assignment says is in the header, and in the last attributes of each kind. -/
structure Assigns (xs : List Attribute) (e : AddressEntry) (assigned : Assignment) : Prop where
  owner : assigned.owner.toInt = (e.index.toNat : ℤ).bmod (2 ^ 32)
  family : assigned.family.code = e.family
  length : assigned.length = e.length
  scope : assigned.scope = e.scope
  label : assigned.label = (last? labelAttribute xs).map Payload.name
  flags : (last? flagsAttribute xs).elim (assigned.flags.toNat = e.headerFlags.toNat)
    (Payload.HoldsWord · assigned.flags)
  address : Option.Rel (Payload.HoldsIp e.family)
    ((lastIp? e.family localAttribute xs).or (lastIp? e.family addressAttribute xs))
    assigned.address
  agrees : ∀ ip ∈ assigned.address, assigned.family = Family.ofIp ip

/-- The entry without what its attributes say. -/
def bare (e : AddressEntry) : AddressEntry :=
  { e with address := none, local? := none, label := none, flags := none }

def header (e : AddressEntry) : Bytes :=
  Bytes.ofNatLE 1 e.family.toNat ++ Bytes.ofNatLE 1 e.length.toNat ++
    Bytes.ofNatLE 1 e.headerFlags.toNat ++ Bytes.ofNatLE 1 e.scope.toNat ++
    Bytes.ofNatLE 4 e.index.toNat

/-- How an attribute changes the entry that takes it. -/
inductive Taken (e : AddressEntry) (x : Attribute) : AddressEntry → Prop
  | address {ip : Ip} (far : x.kind = addressAttribute)
      (holds : Payload.HoldsIp e.family x.payload ip) : Taken e x { e with address := some ip }
  | near {ip : Ip} (near : x.kind = localAttribute)
      (holds : Payload.HoldsIp e.family x.payload ip) : Taken e x { e with local? := some ip }
  | label (labelled : x.kind = labelAttribute) :
      Taken e x { e with label := some (Payload.name x.payload) }
  | flags {word : UInt32} (flagged : x.kind = flagsAttribute)
      (holds : Payload.HoldsWord x.payload word) : Taken e x { e with flags := some word }
  | other (unused : x.kind ∉ usedBy e.family) : Taken e x e

theorem mem_usedBy_iff :
    kind ∈ usedBy family ↔ Internet family ∧ (kind = addressAttribute ∨ kind = localAttribute) ∨
      kind = labelAttribute ∨ kind = flagsAttribute := by
  by_cases hi : Internet family <;> simp [usedBy, usedKinds, hi, or_assoc]

theorem length_header (e : AddressEntry) : e.header.length = headerSize := by
  simp [header, headerSize]

theorem ofHeader_header (e : AddressEntry) : ofHeader e.header = e.bare := by
  simp [ofHeader, header, bare, Bytes.field_append, Bytes.field_ofNatLE, Bytes.field_ofNatLE_self]

/-- Every header of full length is the header of the entry that is read off it. -/
theorem header_ofHeader (h : b.length = headerSize) : (ofHeader b).header = b := by
  rw [headerSize] at h
  simp only [header, ofHeader]
  rw [Bytes.ofNatLE_byte (by omega), Bytes.ofNatLE_byte (by omega), Bytes.ofNatLE_byte (by omega),
    Bytes.ofNatLE_byte (by omega), Bytes.ofNatLE_word (by omega), List.drop_zero, ← List.take_add,
    ← List.take_add, ← List.take_add, ← List.take_add]
  exact List.take_of_length_le (by omega)

theorem ofHeader_bare (b : Bytes) : (ofHeader b).bare = ofHeader b := rfl

theorem header_bare (e : AddressEntry) : e.bare.header = e.header := rfl

theorem hasIp_eq (e : AddressEntry) : e.hasIp = decide (Internet e.family) := rfl

theorem internet_of_holdsIp {ip : Ip} (h : Payload.HoldsIp family payload ip) :
    Internet family := by
  rcases Payload.exists_holdsIp_iff.mp ⟨ip, h⟩ with ⟨hfamily, -⟩ | ⟨hfamily, -⟩
  · exact .inl hfamily
  · exact .inr hfamily

theorem take_of_address (h : x.kind = addressAttribute) (hi : Internet e.family) :
    take e x = (Payload.address e.family x.payload).toOption.map fun ip =>
      { e with address := some ip } := by
  rw [take, hasIp_eq, if_pos ⟨h, decide_eq_true hi⟩]

theorem take_of_local (h : x.kind = localAttribute) (hi : Internet e.family) :
    take e x = (Payload.address e.family x.payload).toOption.map fun ip =>
      { e with local? := some ip } := by
  rw [take, hasIp_eq, if_neg (by rw [h]; exact fun ha => absurd ha.1 (by decide)),
    if_pos ⟨h, decide_eq_true hi⟩]

theorem take_of_label (h : x.kind = labelAttribute) (e : AddressEntry) :
    take e x = some { e with label := some (Payload.name x.payload) } := by
  rw [take, if_neg (by rw [h]; exact fun ha => absurd ha.1 (by decide)),
    if_neg (by rw [h]; exact fun ha => absurd ha.1 (by decide)), if_pos h]

theorem take_of_flags (h : x.kind = flagsAttribute) (e : AddressEntry) :
    take e x =
      (Payload.word x.payload).toOption.map fun flags => { e with flags := some flags } := by
  rw [take, if_neg (by rw [h]; exact fun ha => absurd ha.1 (by decide)),
    if_neg (by rw [h]; exact fun ha => absurd ha.1 (by decide)), if_neg (by rw [h]; decide),
    if_pos h]

theorem take_of_unused (h : x.kind ∉ usedBy e.family) : take e x = some e := by
  simp only [mem_usedBy_iff, not_or, not_and] at h
  obtain ⟨hip, hlabel, hflags⟩ := h
  have hfar : ¬ (x.kind = addressAttribute ∧ e.hasIp) :=
    fun h => (hip (of_decide_eq_true h.2)).1 h.1
  have hnear : ¬ (x.kind = localAttribute ∧ e.hasIp) :=
    fun h => (hip (of_decide_eq_true h.2)).2 h.1
  rw [take, if_neg hfar, if_neg hnear, if_neg hlabel, if_neg hflags]

theorem take_of_taken (h : Taken e x e') : take e x = some e' := by
  cases h with
  | address far holds =>
    rw [take_of_address far (internet_of_holdsIp holds), Payload.address_eq_ok_iff.mpr holds]
    rfl
  | near near holds =>
    rw [take_of_local near (internet_of_holdsIp holds), Payload.address_eq_ok_iff.mpr holds]
    rfl
  | label labelled => exact take_of_label labelled e
  | flags flagged holds =>
    rw [take_of_flags flagged, Payload.word_eq_ok_iff.mpr holds]
    rfl
  | other unused => exact take_of_unused unused

/-- An attribute is of a kind that counts, or it does not count. -/
theorem used_cases (family : UInt8) (x : Attribute) :
    (x.kind = addressAttribute ∧ Internet family) ∨ (x.kind = localAttribute ∧ Internet family) ∨
      x.kind = labelAttribute ∨ x.kind = flagsAttribute ∨ x.kind ∉ usedBy family := by
  rw [mem_usedBy_iff]
  tauto

theorem take_eq_some_iff : take e x = some e' ↔ Taken e x e' := by
  refine ⟨fun h => ?_, take_of_taken⟩
  rcases used_cases e.family x with ⟨hfar, hi⟩ | ⟨hnear, hi⟩ | hlabel | hflags | hunused
  · rw [take_of_address hfar hi] at h
    obtain ⟨ip, hread, rfl⟩ := Option.map_eq_some_iff.mp h
    exact .address hfar (Payload.address_eq_ok_iff.mp (Payload.toOption_eq_some_iff.mp hread))
  · rw [take_of_local hnear hi] at h
    obtain ⟨ip, hread, rfl⟩ := Option.map_eq_some_iff.mp h
    exact .near hnear (Payload.address_eq_ok_iff.mp (Payload.toOption_eq_some_iff.mp hread))
  · rw [take_of_label hlabel] at h
    cases h
    exact .label hlabel
  · rw [take_of_flags hflags] at h
    obtain ⟨word, hread, rfl⟩ := Option.map_eq_some_iff.mp h
    exact .flags hflags (Payload.word_eq_ok_iff.mp (Payload.toOption_eq_some_iff.mp hread))
  · rw [take_of_unused hunused] at h
    cases h
    exact .other hunused

/-- An attribute that has an address of the family has enough bytes for it. -/
theorem length_of_holdsIp {ip : Ip} (h : Payload.HoldsIp family payload ip) :
    (family = Family.inet.code → 4 ≤ payload.length) ∧
      (family = Family.inet6.code → 16 ≤ payload.length) := by
  rcases Payload.exists_holdsIp_iff.mp ⟨ip, h⟩ with ⟨rfl, hlength⟩ | ⟨rfl, hlength⟩
  · exact ⟨fun _ => hlength, fun h => absurd h (by decide)⟩
  · exact ⟨fun h => absurd h (by decide), fun _ => hlength⟩

theorem accepts_of_unused (h : x.kind ∉ usedBy family) : Accepts family x := by
  rw [mem_usedBy_iff] at h
  refine ⟨fun hf hkind => ?_, fun hf hkind => ?_, fun hkind => ?_⟩
  · exact absurd (.inl ⟨.inl hf, hkind⟩) h
  · exact absurd (.inl ⟨.inr hf, hkind⟩) h
  · exact absurd (.inr (.inr hkind)) h

theorem Taken.accepts (h : Taken e x e') : Accepts e.family x := by
  cases h with
  | address far holds =>
    obtain ⟨h₄, h₁₆⟩ := length_of_holdsIp holds
    exact ⟨fun h _ => h₄ h, fun h _ => h₁₆ h, fun h => absurd (far.symm.trans h) (by decide)⟩
  | near near holds =>
    obtain ⟨h₄, h₁₆⟩ := length_of_holdsIp holds
    exact ⟨fun h _ => h₄ h, fun h _ => h₁₆ h, fun h => absurd (near.symm.trans h) (by decide)⟩
  | label labelled =>
    have hother : ¬ (x.kind = addressAttribute ∨ x.kind = localAttribute) := by
      rw [labelled]
      decide
    exact ⟨fun _ h => absurd h hother, fun _ h => absurd h hother,
      fun h => absurd (labelled.symm.trans h) (by decide)⟩
  | flags flagged holds =>
    have hother : ¬ (x.kind = addressAttribute ∨ x.kind = localAttribute) := by
      rw [flagged]
      decide
    exact ⟨fun _ h => absurd h hother, fun _ h => absurd h hother,
      fun _ => (Payload.holdsWord_iff.mp holds).1⟩
  | other unused => exact accepts_of_unused unused

theorem Accepts.exists_holdsIp (h : Accepts family x) (hi : Internet family)
    (hkind : x.kind = addressAttribute ∨ x.kind = localAttribute) :
    ∃ ip, Payload.HoldsIp family x.payload ip := by
  apply Payload.exists_holdsIp_iff.mpr
  rcases hi with hi | hi
  · exact .inl ⟨hi, h.inet hi hkind⟩
  · exact .inr ⟨hi, h.inet6 hi hkind⟩

theorem Accepts.exists_taken (h : Accepts e.family x) : ∃ e', Taken e x e' := by
  rcases used_cases e.family x with ⟨hfar, hi⟩ | ⟨hnear, hi⟩ | hlabel | hflags | hunused
  · obtain ⟨ip, holds⟩ := h.exists_holdsIp hi (.inl hfar)
    exact ⟨_, .address hfar holds⟩
  · obtain ⟨ip, holds⟩ := h.exists_holdsIp hi (.inr hnear)
    exact ⟨_, .near hnear holds⟩
  · exact ⟨_, .label hlabel⟩
  · obtain ⟨word, holds⟩ := Payload.exists_holdsWord_iff.mpr (h.flags hflags)
    exact ⟨_, .flags hflags holds⟩
  · exact ⟨e, .other hunused⟩

theorem Taken.bare_eq (h : Taken e x e') : e'.bare = e.bare := by
  cases h <;> rfl

theorem Taken.family_eq (h : Taken e x e') : e'.family = e.family := by
  cases h <;> rfl

/-- The family, which decides what is accepted, is in the header. -/
theorem judges (family : UInt8) : Judges take (·.family = family) (Accepts family) where
  takes := by
    rintro e x rfl hx
    obtain ⟨e', taken⟩ := hx.exists_taken
    exact ⟨e', take_of_taken taken, taken.family_eq⟩
  refuses := by
    rintro e x rfl hx
    refine Option.eq_none_iff_forall_ne_some.mpr fun e' htake => hx ?_
    exact (take_eq_some_iff.mp htake).accepts

theorem lastIp?_concat (family : UInt8) (kind : UInt16) (xs : List Attribute) (x : Attribute) :
    lastIp? family kind (xs ++ [x]) =
      if Internet family ∧ x.kind = kind then some x.payload else lastIp? family kind xs := by
  by_cases hi : Internet family <;> simp [lastIp?, last?_concat, hi]

theorem describes_bare (e : AddressEntry) : Describes [] e.bare := by
  refine ⟨?_, ?_, rfl, .none⟩ <;>
  · rw [lastIp?, last?_nil, ite_self]
    exact .none

/-- An entry that takes an attribute is described by the attributes with that one as the last. -/
theorem Describes.concat (h : Describes xs e) (taken : Taken e x e') :
    Describes (xs ++ [x]) e' := by
  obtain ⟨address, near, label, flags⟩ := h
  cases taken with
  | address far holds =>
    have hi := internet_of_holdsIp holds
    refine ⟨by rw [lastIp?_concat, if_pos ⟨hi, far⟩]; exact .some holds, ?_, ?_, ?_⟩
    · rwa [lastIp?_concat, if_neg (by rw [far]; exact fun h => absurd h.2 (by decide))]
    · rwa [last?_concat, if_neg (by rw [far]; decide)]
    · rwa [last?_concat, if_neg (by rw [far]; decide)]
  | near far holds =>
    have hi := internet_of_holdsIp holds
    refine ⟨?_, by rw [lastIp?_concat, if_pos ⟨hi, far⟩]; exact .some holds, ?_, ?_⟩
    · rwa [lastIp?_concat, if_neg (by rw [far]; exact fun h => absurd h.2 (by decide))]
    · rwa [last?_concat, if_neg (by rw [far]; decide)]
    · rwa [last?_concat, if_neg (by rw [far]; decide)]
  | label labelled =>
    refine ⟨?_, ?_, by rw [last?_concat, if_pos labelled]; rfl, ?_⟩
    · rwa [lastIp?_concat, if_neg (by rw [labelled]; exact fun h => absurd h.2 (by decide))]
    · rwa [lastIp?_concat, if_neg (by rw [labelled]; exact fun h => absurd h.2 (by decide))]
    · rwa [last?_concat, if_neg (by rw [labelled]; decide)]
  | flags flagged holds =>
    refine ⟨?_, ?_, ?_, by rw [last?_concat, if_pos flagged]; exact .some holds⟩
    · rwa [lastIp?_concat, if_neg (by rw [flagged]; exact fun h => absurd h.2 (by decide))]
    · rwa [lastIp?_concat, if_neg (by rw [flagged]; exact fun h => absurd h.2 (by decide))]
    · rwa [last?_concat, if_neg (by rw [flagged]; decide)]
  | other unused =>
    rw [mem_usedBy_iff] at unused
    refine ⟨?_, ?_, ?_, ?_⟩
    · rwa [lastIp?_concat, if_neg (fun h => unused (.inl ⟨h.1, .inl h.2⟩))]
    · rwa [lastIp?_concat, if_neg (fun h => unused (.inl ⟨h.1, .inr h.2⟩))]
    · rwa [last?_concat, if_neg (fun h => unused (.inr (.inl h)))]
    · rwa [last?_concat, if_neg (fun h => unused (.inr (.inr h)))]

/-- Header and attributes leave no choice for the entry. -/
theorem Describes.unique (h : Describes xs e) (h' : Describes xs e') (hb : e.bare = e'.bare) :
    e = e' := by
  have hfamily : e.family = e'.family := congrArg (·.family) hb
  have hip := Payload.rightUnique_rel (Payload.HoldsIp.rightUnique e'.family)
  obtain ⟨address, near, label, flags⟩ := h
  rw [hfamily] at address near
  have haddress : e.address = e'.address := hip address h'.address
  have hnear : e.local? = e'.local? := hip near h'.local?
  have hlabel : e.label = e'.label := label.trans h'.label.symm
  have hflags : e.flags = e'.flags :=
    Payload.rightUnique_rel Payload.HoldsWord.rightUnique flags h'.flags
  cases e
  cases e'
  simp_all [bare]

theorem describes_of_takeAll (ht : Cursor.takeAll take (ofHeader b) as = some e) :
    Describes (as.map toAttribute) e ∧ e.bare = ofHeader b := by
  apply Cursor.takeAll_induction (fun xs e => Describes xs e ∧ e.bare = ofHeader b)
  · exact ⟨describes_bare (ofHeader b), ofHeader_bare b⟩
  · rintro xs e x e' ⟨described, hbare⟩ htake
    have taken : Taken e x e' := take_eq_some_iff.mp htake
    exact ⟨described.concat taken, taken.bare_eq.trans hbare⟩
  · exact ht

/-- The family that the bytes of an entry begin with. -/
def familyOf (data : Bytes) : UInt8 := .ofNat (data.field 0 1)

theorem family_ofHeader (data : Bytes) :
    (ofHeader (data.take headerSize)).family = familyOf data := by
  rw [familyOf, ofHeader, Bytes.field_take (by decide)]

theorem familyOf_header (e : AddressEntry) (body : Bytes) :
    familyOf (e.header ++ body) = e.family := by
  rw [← family_ofHeader, List.take_left' (length_header e), ofHeader_header]
  rfl

theorem decode_eq_ok_iff :
    decode data = .ok e ↔ ∃ body xs, data = e.header ++ body ∧ Stream body xs ∧
      (∀ x ∈ xs, Accepts e.family x) ∧ Describes xs e := by
  rw [decode, Cursor.record_eq_ok_iff]
  constructor
  · rintro ⟨header, as, tiles, taken⟩
    obtain ⟨described, hbare⟩ := describes_of_takeAll taken
    have hfamily : (ofHeader (data.take headerSize)).family = e.family :=
      congrArg (·.family) hbare.symm
    obtain ⟨accepted, -⟩ := Cursor.accepts_of_takeAll (judges e.family) hfamily taken
    have hheader : e.header = data.take headerSize := by
      rw [← header_bare, hbare, header_ofHeader (List.length_take_of_le header)]
    refine ⟨data.drop headerSize, as.map toAttribute, ?_, ⟨as, tiles, rfl⟩,
      List.forall_mem_map.mpr accepted, described⟩
    rw [hheader, List.take_append_drop]
  · rintro ⟨body, xs, rfl, ⟨as, tiles, rfl⟩, accepted, described⟩
    rw [List.take_left' (length_header e), List.drop_left' (length_header e)]
    have hfamily : (ofHeader e.header).family = e.family := congrArg (·.family) (ofHeader_header e)
    obtain ⟨e', taken, -⟩ :=
      Cursor.takeAll_of_judges (judges e.family) hfamily (List.forall_mem_map.mp accepted)
    obtain ⟨described', hbare⟩ := describes_of_takeAll taken
    rw [ofHeader_header] at hbare
    refine ⟨?_, as, tiles, ?_⟩
    · rw [List.length_append, length_header]
      omega
    · rw [taken, described'.unique described hbare]

theorem index_of_decode (h : decode data = .ok e) : e.index = .ofNat (data.field 4 4) := by
  obtain ⟨body, xs, rfl, -⟩ := decode_eq_ok_iff.mp h
  have hindex : (ofHeader e.header).index = e.index := congrArg (·.index) (ofHeader_header e)
  rw [Bytes.field_append_left (by rw [length_header]; decide), ← hindex, ofHeader]

theorem lastIp?_of_filter {ys : List Attribute}
    (same : ys.filter (·.kind ∈ usedBy family) = xs.filter (·.kind ∈ usedBy family))
    (h : kind = addressAttribute ∨ kind = localAttribute) :
    lastIp? family kind ys = lastIp? family kind xs := by
  by_cases hi : Internet family
  · rw [lastIp?, lastIp?, if_pos hi, if_pos hi, last?_of_filter same]
    exact mem_usedBy_iff.mpr (.inl ⟨hi, h⟩)
  · rw [lastIp?, lastIp?, if_neg hi, if_neg hi]

/-- Attributes of other kinds, and the flags in the types of attributes, play no part. -/
theorem decode_of_filter {data' : Bytes} {ys : List Attribute}
    (hhead : data'.take headerSize = data.take headerSize)
    (stream : Stream (data.drop headerSize) xs) (stream' : Stream (data'.drop headerSize) ys)
    (same : ys.filter (·.kind ∈ usedBy (familyOf data)) =
      xs.filter (·.kind ∈ usedBy (familyOf data)))
    (hdecode : decode data = .ok e) : decode data' = .ok e := by
  obtain ⟨body, zs, rfl, hbody, accepted, described⟩ := decode_eq_ok_iff.mp hdecode
  rw [List.take_left' (length_header e)] at hhead
  rw [List.drop_left' (length_header e)] at stream
  rw [familyOf_header] at same
  obtain rfl := stream.unique hbody
  refine decode_eq_ok_iff.mpr ⟨data'.drop headerSize, ys, ?_, stream',
    forall_mem_of_filter (fun _ => accepts_of_unused) same accepted, ?_⟩
  · rw [← hhead, List.take_append_drop]
  · obtain ⟨address, near, label, flags⟩ := described
    rw [← lastIp?_of_filter same (.inl rfl)] at address
    rw [← lastIp?_of_filter same (.inr rfl)] at near
    rw [← last?_of_filter same (mem_usedBy_iff.mpr (.inr (.inl rfl)))] at label
    rw [← last?_of_filter same (mem_usedBy_iff.mpr (.inr (.inr rfl)))] at flags
    exact ⟨address, near, label, flags⟩

/-- What the entry assigns, said of the attributes that it was read from. -/
theorem Describes.assigns (h : Describes xs e) : Assigns xs e e.assignment where
  owner := BitVec.toInt_eq_toNat_bmod e.index.toBitVec
  family := Family.code_ofCode e.family
  length := rfl
  scope := rfl
  label := h.label
  flags := by
    have flags := h.flags
    simp only [assignment, allFlags]
    generalize last? flagsAttribute xs = extended, e.flags = word at flags ⊢
    cases flags with
    | none => exact UInt8.toNat_toUInt32 e.headerFlags
    | some holds => exact holds
  address := Payload.rel_or h.local? h.address
  agrees := by
    intro ip hip
    have address := Payload.rel_or h.local? h.address
    rw [show e.local?.or e.address = some ip from hip] at address
    obtain ⟨payload, -, holds⟩ := Payload.exists_of_rel address
    exact Payload.ofCode_of_holdsIp holds

/-- The bytes of an address are a header and a stream of attributes with acceptable payloads, where
the family in the header decides whether addresses are looked at, and nothing else is read as an
address. The entry says what the last attribute of each kind says, no other counts, and the
assignment is made of that. Reading anything else fails, and the error names the byte where reading
stops. -/
theorem decode_address_grammar (data : Bytes) :
    ((∃ e, decode data = .ok e) ↔ headerSize ≤ data.length ∧
      ∃ xs, Stream (data.drop headerSize) xs ∧ ∀ x ∈ xs, Accepts (familyOf data) x) ∧
    (∀ e, decode data = .ok e ↔ ∃ body xs, data = e.header ++ body ∧ Stream body xs ∧
      (∀ x ∈ xs, Accepts e.family x) ∧ Describes xs e) ∧
    (∀ e xs, decode data = .ok e → Stream (data.drop headerSize) xs → Assigns xs e e.assignment) ∧
    (∀ (data' : Bytes) (xs ys : List Attribute), data'.take headerSize = data.take headerSize →
      Stream (data.drop headerSize) xs → Stream (data'.drop headerSize) ys →
      ys.filter (·.kind ∈ usedBy (familyOf data)) = xs.filter (·.kind ∈ usedBy (familyOf data)) →
      ∀ e, decode data' = .ok e ↔ decode data = .ok e) ∧
    (∀ fault, decode data = .error fault ↔
      ∃ n, Cursor.Stops headerSize (Accepts (familyOf data)) data n ∧
        fault = .badRecord (.stopped n data.length)) ∧
    ∀ n, Cursor.Stops headerSize (Accepts (familyOf data)) data n → n ≤ data.length ∧
      (Fault.badRecord (.stopped n data.length)).text =
        s!"parse error: invalid record at byte {n} of {data.length}" := by
  refine ⟨?_, ?_, ?_, ?_, ?_, ?_⟩
  · exact Cursor.exists_record_iff (judges _) (family_ofHeader data)
  · intro e
    exact decode_eq_ok_iff
  · intro e xs hdecode stream
    obtain ⟨body, zs, rfl, hbody, -, described⟩ := decode_eq_ok_iff.mp hdecode
    rw [List.drop_left' (length_header e)] at stream
    obtain rfl := stream.unique hbody
    exact described.assigns
  · intro data' xs ys hhead stream stream' same e
    have hfamily : familyOf data' = familyOf data := by
      rw [← family_ofHeader, hhead, family_ofHeader]
    refine ⟨decode_of_filter hhead.symm stream' stream ?_,
      decode_of_filter hhead stream stream' same⟩
    rw [hfamily]
    exact same.symm
  · intro fault
    exact Cursor.record_eq_error_iff (judges _) (family_ofHeader data)
  · intro n hstops
    exact ⟨hstops.le_length, rfl⟩

/-- The near end comes twice and before the far end, and extended flags of zero take the place of
those in the header. In an entry of another family an address of one byte does no harm. -/
theorem decode_address_grammar_overridden :
    (∃ e, decode ([2, 24, 128, 0, 255, 255, 255, 255] ++ [8, 0, 2, 0, 10, 0, 0, 9] ++
        [8, 0, 2, 0, 10, 0, 0, 1] ++ [8, 0, 1, 0, 10, 0, 0, 2] ++ [8, 0, 8, 0, 0, 0, 0, 0]) =
        .ok e ∧
      e.assignment = { owner := -1, family := .inet, length := 24, scope := 0, flags := 0,
                       label := none, address := some (.v4 0x0a000001) }) ∧
    ∃ e, decode ([17, 0, 0, 0, 3, 0, 0, 0] ++ [5, 0, 1, 0, 9]) = .ok e ∧
      e.assignment = { owner := 3, family := .packet, length := 0, scope := 0, flags := 0,
                       label := none, address := none } := by
  refine ⟨⟨{ family := 2, length := 24, headerFlags := 128, scope := 0, index := 4294967295,
             address := some (.v4 0x0a000002), local? := some (.v4 0x0a000001),
             flags := some 0 }, ?_, rfl⟩,
    ⟨{ family := 17, length := 0, headerFlags := 0, scope := 0, index := 3 }, ?_, rfl⟩⟩
  · refine ((decode_address_grammar _).2.1 _).mpr ⟨[8, 0, 2, 0, 10, 0, 0, 9] ++
        [8, 0, 2, 0, 10, 0, 0, 1] ++ [8, 0, 1, 0, 10, 0, 0, 2] ++ [8, 0, 8, 0, 0, 0, 0, 0],
      [⟨2, [10, 0, 0, 9]⟩, ⟨2, [10, 0, 0, 1]⟩, ⟨1, [10, 0, 0, 2]⟩, ⟨8, [0, 0, 0, 0]⟩],
      by decide, ?_, ?_, ?_⟩
    · exact ⟨_, .of_starts (by decide) (.of_starts (by decide) (.of_starts (by decide)
        (.of_starts (by decide) (.nil [])))), by decide⟩
    · intro x hx
      simp only [List.mem_cons, List.not_mem_nil, or_false] at hx
      rcases hx with rfl | rfl | rfl | rfl <;> exact ⟨by decide, by decide, by decide⟩
    · exact ⟨.some ⟨rfl, [], by decide⟩, .some ⟨rfl, [], by decide⟩, rfl, .some ⟨[], by decide⟩⟩
  · refine ((decode_address_grammar _).2.1 _).mpr
      ⟨[5, 0, 1, 0, 9], [⟨1, [9]⟩], by decide, ?_, ?_, ?_⟩
    · exact ⟨_, .of_starts (by decide) (.nil []), by decide⟩
    · intro x hx
      obtain rfl := List.mem_singleton.mp hx
      exact ⟨by decide, by decide, by decide⟩
    · exact ⟨.none, .none, rfl, .none⟩

end VethPeer.Wire.AddressEntry
