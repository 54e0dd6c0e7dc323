import Mathlib
import VethPeer.Proofs.Wire.Records
import VethPeer.Proofs.Wire.Values

/-! Which byte strings are entries of the link table, what each of them says, and where the reading
of the others stops. -/
namespace VethPeer.Wire.LinkEntry

variable {e e' : LinkEntry} {x : Attribute} {xs : List Attribute} {b data payload : Bytes}
  {kind : Option String} {as : List RawAttribute} {spare : UInt8}

open Attribute RawAttribute

/-- The payload is long enough for its kind, and nested attributes are all that is in it. -/
structure Accepts (x : Attribute) : Prop where
  link : x.kind = linkAttribute → 4 ≤ x.payload.length
  state : x.kind = stateAttribute → 1 ≤ x.payload.length
  info : x.kind = infoAttribute → ∃ nested, Stream x.payload nested

def HoldsState (payload : Bytes) (state : OperState) : Prop :=
  ∃ code, Payload.HoldsByte payload code ∧ state = .ofCode code

/-- The nested attributes of a payload name this kind of link last, or none. -/
def HoldsKind (payload : Bytes) (kind : Option String) : Prop :=
  ∃ nested, Stream payload nested ∧ kind = (last? infoKindAttribute nested).map Payload.name

/-- The entry without what its attributes say. -/
def bare (e : LinkEntry) : LinkEntry :=
  { e with name := none, link := none, state := none, kind := none }

/-- The entry says what the last attribute of each kind says. -/
structure Describes (xs : List Attribute) (e : LinkEntry) : Prop where
  name : e.name = (last? nameAttribute xs).map Payload.name
  link : Option.Rel Payload.HoldsInteger (last? linkAttribute xs) e.link
  state : Option.Rel HoldsState (last? stateAttribute xs) e.state
  kind : (last? infoAttribute xs).elim (e.kind = none) (HoldsKind · e.kind)

/-- The header of the entry. Nothing is said by the byte behind the family. -/
def header (e : LinkEntry) (spare : UInt8) : Bytes :=
  Bytes.ofNatLE 1 e.family.toNat ++ Bytes.ofNatLE 1 spare.toNat ++ Bytes.ofNatLE 2 e.type.toNat ++
    Bytes.ofNatLE 4 e.index.toUInt32.toNat ++ Bytes.ofNatLE 4 e.flags.toNat ++
    Bytes.ofNatLE 4 e.change.toNat

/-- How an attribute changes the entry that takes it. -/
inductive Taken (e : LinkEntry) (x : Attribute) : LinkEntry → Prop
  | name (named : x.kind = nameAttribute) :
      Taken e x { e with name := some (Payload.name x.payload) }
  | link {link : Int32} (linked : x.kind = linkAttribute)
      (holds : Payload.HoldsInteger x.payload link) : Taken e x { e with link := some link }
  | state {state : OperState} (stated : x.kind = stateAttribute)
      (holds : HoldsState x.payload state) : Taken e x { e with state := some state }
  | info {kind : Option String} (informed : x.kind = infoAttribute)
      (holds : HoldsKind x.payload kind) : Taken e x { e with kind }
  | other (unused : x.kind ∉ usedKinds) : Taken e x e

theorem length_header (e : LinkEntry) (spare : UInt8) : (e.header spare).length = headerSize := by
  simp [header, headerSize]

theorem ofHeader_header (e : LinkEntry) (spare : UInt8) : ofHeader (e.header spare) = e.bare := by
  simp [ofHeader, header, bare, Bytes.field_append, Bytes.field_ofNatLE, Bytes.field_ofNatLE_self]

/-- Every header of full length is the header of the entry that is read off it. -/
theorem header_ofHeader (h : b.length = headerSize) :
    (ofHeader b).header (.ofNat (b.field 1 1)) = b := by
  rw [headerSize] at h
  simp only [header, ofHeader, UInt32.toUInt32_toInt32]
  rw [Bytes.ofNatLE_byte (by omega), Bytes.ofNatLE_byte (by omega), Bytes.ofNatLE_half (by omega),
    Bytes.ofNatLE_word (by omega), Bytes.ofNatLE_word (by omega), Bytes.ofNatLE_word (by omega),
    List.drop_zero, ← List.take_add, ← List.take_add, ← List.take_add, ← List.take_add,
    ← List.take_add]
  exact List.take_of_length_le (by omega)

theorem infoKind_eq_some_iff : infoKind payload = some kind ↔ HoldsKind payload kind := by
  constructor
  · intro h
    rw [infoKind] at h
    split at h
    · rename_i nested hsplit
      refine ⟨nested, split_eq_stream_iff.mp hsplit, ?_⟩
      rw [last?_eq_find?, Option.map_map]
      exact (Option.some.inj h).symm
    · cases h
  · rintro ⟨nested, stream, rfl⟩
    rw [infoKind, split_eq_stream_iff.mpr stream, last?_eq_find?, Option.map_map]
    rfl

theorem take_of_link (h : x.kind = linkAttribute) (e : LinkEntry) :
    take e x =
      (Payload.integer x.payload).toOption.map fun link => { e with link := some link } := by
  rw [take, if_neg (by rw [h]; decide), if_pos h]

theorem take_of_state (h : x.kind = stateAttribute) (e : LinkEntry) :
    take e x = (Payload.byte x.payload).toOption.map fun code =>
      { e with state := some (.ofCode code) } := by
  rw [take, if_neg (by rw [h]; decide), if_neg (by rw [h]; decide), if_pos h]

theorem take_of_info (h : x.kind = infoAttribute) (e : LinkEntry) :
    take e x = (infoKind x.payload).map fun kind => { e with kind } := by
  rw [take, if_neg (by rw [h]; decide), if_neg (by rw [h]; decide), if_neg (by rw [h]; decide),
    if_pos h]

theorem take_of_taken (h : Taken e x e') : take e x = some e' := by
  cases h with
  | name named => rw [take, if_pos named]
  | link linked holds =>
    rw [take_of_link linked, Payload.integer_eq_ok_iff.mpr holds]
    rfl
  | state stated holds =>
    obtain ⟨code, hcode, rfl⟩ := holds
    rw [take_of_state stated, Payload.byte_eq_ok_iff.mpr hcode]
    rfl
  | info informed holds =>
    rw [take_of_info informed, infoKind_eq_some_iff.mpr holds]
    rfl
  | other unused => exact take_unused unused e

theorem take_eq_some_iff : take e x = some e' ↔ Taken e x e' := by
  refine ⟨fun h => ?_, take_of_taken⟩
  by_cases hname : x.kind = nameAttribute
  · rw [take, if_pos hname] at h
    cases h
    exact .name hname
  by_cases hlink : x.kind = linkAttribute
  · rw [take_of_link hlink] at h
    obtain ⟨link, hread, rfl⟩ := Option.map_eq_some_iff.mp h
    exact .link hlink (Payload.integer_eq_ok_iff.mp (Payload.toOption_eq_some_iff.mp hread))
  by_cases hstate : x.kind = stateAttribute
  · rw [take_of_state hstate] at h
    obtain ⟨code, hread, rfl⟩ := Option.map_eq_some_iff.mp h
    have hcode := Payload.byte_eq_ok_iff.mp (Payload.toOption_eq_some_iff.mp hread)
    exact .state hstate ⟨code, hcode, rfl⟩
  by_cases hinfo : x.kind = infoAttribute
  · rw [take_of_info hinfo] at h
    obtain ⟨kind, hread, rfl⟩ := Option.map_eq_some_iff.mp h
    exact .info hinfo (infoKind_eq_some_iff.mp hread)
  · have hunused : x.kind ∉ usedKinds := by simp [usedKinds, hname, hlink, hstate, hinfo]
    rw [take_unused hunused] at h
    cases h
    exact .other hunused

theorem Taken.accepts (h : Taken e x e') : Accepts x := by
  cases h with
  | name named => constructor <;> intro h <;> exact absurd (named.symm.trans h) (by decide)
  | link linked holds =>
    refine ⟨fun _ => (Payload.holdsWord_iff.mp holds).1, ?_, ?_⟩ <;> intro h <;>
      exact absurd (linked.symm.trans h) (by decide)
  | state stated holds =>
    obtain ⟨code, hcode, -⟩ := holds
    refine ⟨?_, fun _ => Payload.exists_holdsByte_iff.mp ⟨code, hcode⟩, ?_⟩ <;> intro h <;>
      exact absurd (stated.symm.trans h) (by decide)
  | info informed holds =>
    obtain ⟨nested, stream, -⟩ := holds
    refine ⟨?_, ?_, fun _ => ⟨nested, stream⟩⟩ <;> intro h <;>
      exact absurd (informed.symm.trans h) (by decide)
  | other unused => constructor <;> intro h <;> exact absurd (by rw [h]; decide) unused

theorem Accepts.exists_taken (h : Accepts x) (e : LinkEntry) : ∃ e', Taken e x e' := by
  by_cases hused : x.kind ∈ usedKinds
  · simp only [usedKinds, List.mem_cons, List.not_mem_nil, or_false] at hused
    rcases hused with hname | hlink | hstate | hinfo
    · exact ⟨_, .name hname⟩
    · obtain ⟨link, holds⟩ := Payload.exists_holdsInteger_iff.mpr (h.link hlink)
      exact ⟨_, .link hlink holds⟩
    · obtain ⟨code, holds⟩ := Payload.exists_holdsByte_iff.mpr (h.state hstate)
      exact ⟨_, .state hstate ⟨code, holds, rfl⟩⟩
    · obtain ⟨nested, stream⟩ := h.info hinfo
      exact ⟨_, .info hinfo ⟨nested, stream, rfl⟩⟩
  · exact ⟨e, .other hused⟩

theorem describes_bare (e : LinkEntry) : Describes [] e.bare :=
  ⟨rfl, .none, .none, rfl⟩

/-- An entry that takes an attribute is described by the attributes with that one as the last. -/
theorem Describes.concat (h : Describes xs e) (taken : Taken e x e') :
    Describes (xs ++ [x]) e' := by
  obtain ⟨name, link, state, kind⟩ := h
  cases taken with
  | name named =>
    refine ⟨by rw [last?_concat, if_pos named]; rfl, ?_, ?_, ?_⟩ <;>
      rwa [last?_concat, if_neg (by rw [named]; decide)]
  | link linked holds =>
    refine ⟨?_, by rw [last?_concat, if_pos linked]; exact .some holds, ?_, ?_⟩ <;>
      rwa [last?_concat, if_neg (by rw [linked]; decide)]
  | state stated holds =>
    refine ⟨?_, ?_, by rw [last?_concat, if_pos stated]; exact .some holds, ?_⟩ <;>
      rwa [last?_concat, if_neg (by rw [stated]; decide)]
  | info informed holds =>
    refine ⟨?_, ?_, ?_, by rw [last?_concat, if_pos informed]; exact holds⟩ <;>
      rwa [last?_concat, if_neg (by rw [informed]; decide)]
  | other unused =>
    refine ⟨?_, ?_, ?_, ?_⟩ <;>
      rwa [last?_concat, if_neg (fun h => absurd (by rw [h]; decide) unused)]

theorem judges : Judges take (fun _ => True) Accepts where
  takes := by
    intro e x _ hx
    obtain ⟨e', taken⟩ := hx.exists_taken e
    exact ⟨e', take_of_taken taken, trivial⟩
  refuses := by
    intro e x _ hx
    refine Option.eq_none_iff_forall_ne_some.mpr fun e' htake => hx ?_
    exact (take_eq_some_iff.mp htake).accepts

theorem HoldsState.rightUnique : Relator.RightUnique HoldsState := by
  rintro b state other ⟨code, hcode, rfl⟩ ⟨code', hcode', rfl⟩
  rw [Payload.HoldsByte.rightUnique hcode hcode']

theorem HoldsKind.rightUnique : Relator.RightUnique HoldsKind := by
  rintro b kind other ⟨nested, stream, rfl⟩ ⟨nested', stream', rfl⟩
  rw [stream.unique stream']

/-- Header and attributes leave no choice for the entry. -/
theorem Describes.unique (h : Describes xs e) (h' : Describes xs e') (hb : e.bare = e'.bare) :
    e = e' := by
  have hname : e.name = e'.name := h.name.trans h'.name.symm
  have hlink : e.link = e'.link :=
    Payload.rightUnique_rel Payload.HoldsInteger.rightUnique h.link h'.link
  have hstate : e.state = e'.state :=
    Payload.rightUnique_rel HoldsState.rightUnique h.state h'.state
  have hkind : e.kind = e'.kind := by
    have kind := h.kind
    have kind' := h'.kind
    cases hlast : last? infoAttribute xs with
    | none =>
      rw [hlast] at kind kind'
      exact kind.trans kind'.symm
    | some payload =>
      rw [hlast] at kind kind'
      exact HoldsKind.rightUnique kind kind'
  cases e
  cases e'
  simp_all [bare]

theorem ofHeader_bare (b : Bytes) : (ofHeader b).bare = ofHeader b := rfl

theorem header_bare (e : LinkEntry) (spare : UInt8) : e.bare.header spare = e.header spare := rfl

theorem Taken.bare_eq (h : Taken e x e') : e'.bare = e.bare := by
  cases h <;> rfl

theorem describes_of_takeAll (ht : Cursor.takeAll take (ofHeader b) as = some e) :
    Describes (as.map toAttribute) e ∧ e.bare = ofHeader b := by
  apply Cursor.takeAll_induction (fun xs e => Describes xs e ∧ e.bare = ofHeader b)
  · exact ⟨describes_bare (ofHeader b), ofHeader_bare b⟩
  · rintro xs e x e' ⟨described, hbare⟩ htake
    have taken : Taken e x e' := take_eq_some_iff.mp htake
    exact ⟨described.concat taken, taken.bare_eq.trans hbare⟩
  · exact ht

theorem decode_eq_ok_iff :
    decode data = .ok e ↔ ∃ spare body xs, data = e.header spare ++ body ∧ Stream body xs ∧
      (∀ x ∈ xs, Accepts x) ∧ Describes xs e := by
  rw [decode, Cursor.record_eq_ok_iff]
  constructor
  · rintro ⟨header, as, tiles, taken⟩
    obtain ⟨accepted, -⟩ := Cursor.accepts_of_takeAll judges trivial taken
    obtain ⟨described, hbare⟩ := describes_of_takeAll taken
    obtain ⟨spare, hheader⟩ : ∃ spare, e.header spare = data.take headerSize := by
      simp only [← header_bare e, hbare]
      exact ⟨_, header_ofHeader (List.length_take_of_le header)⟩
    refine ⟨spare, data.drop headerSize, as.map toAttribute, ?_, ⟨as, tiles, rfl⟩,
      List.forall_mem_map.mpr accepted, described⟩
    rw [hheader, List.take_append_drop]
  · rintro ⟨spare, body, xs, rfl, ⟨as, tiles, rfl⟩, accepted, described⟩
    have htake : (e.header spare ++ body).take headerSize = e.header spare :=
      List.take_left' (length_header e spare)
    have hdrop : (e.header spare ++ body).drop headerSize = body :=
      List.drop_left' (length_header e spare)
    rw [htake, hdrop]
    obtain ⟨e', taken, -⟩ :=
      Cursor.takeAll_of_judges judges trivial (List.forall_mem_map.mp accepted)
    obtain ⟨described', hbare⟩ := describes_of_takeAll taken
    rw [ofHeader_header] at hbare
    refine ⟨?_, as, tiles, ?_⟩
    · rw [List.length_append, length_header]
      omega
    · rw [taken, described'.unique described hbare]

theorem accepts_of_unused (h : x.kind ∉ usedKinds) : Accepts x :=
  Taken.accepts (e := ofHeader []) (.other h)

/-- Attributes of other kinds, and the flags in the types of attributes, play no part. -/
theorem decode_of_filter {data' : Bytes} {ys : List Attribute}
    (hhead : data'.take headerSize = data.take headerSize)
    (stream : Stream (data.drop headerSize) xs) (stream' : Stream (data'.drop headerSize) ys)
    (same : ys.filter (·.kind ∈ usedKinds) = xs.filter (·.kind ∈ usedKinds))
    (hdecode : decode data = .ok e) : decode data' = .ok e := by
  obtain ⟨spare, body, zs, rfl, hbody, accepted, described⟩ := decode_eq_ok_iff.mp hdecode
  rw [List.take_left' (length_header e spare)] at hhead
  rw [List.drop_left' (length_header e spare)] at stream
  obtain rfl := stream.unique hbody
  refine decode_eq_ok_iff.mpr ⟨spare, data'.drop headerSize, ys, ?_, stream',
    forall_mem_of_filter (fun _ => accepts_of_unused) same accepted, ?_⟩
  · rw [← hhead, List.take_append_drop]
  · obtain ⟨name, link, state, kind⟩ := described
    rw [← last?_of_filter same (by decide)] at name link state kind
    exact ⟨name, link, state, kind⟩

/-- The bytes of a link are a header and a stream of attributes with acceptable payloads, and
nothing else is read as a link. The entry says what the last attribute of each kind says, and no
other counts. Reading anything else fails, and the error names the byte where reading stops. -/
theorem decode_link_grammar (data : Bytes) :
    ((∃ e, decode data = .ok e) ↔ headerSize ≤ data.length ∧
      ∃ xs, Stream (data.drop headerSize) xs ∧ ∀ x ∈ xs, Accepts x) ∧
    (∀ e, decode data = .ok e ↔ ∃ spare body xs, data = e.header spare ++ body ∧ Stream body xs ∧
      (∀ x ∈ xs, Accepts x) ∧ Describes xs e) ∧
    (∀ (data' : Bytes) (xs ys : List Attribute), data'.take headerSize = data.take headerSize →
      Stream (data.drop headerSize) xs → Stream (data'.drop headerSize) ys →
      ys.filter (·.kind ∈ usedKinds) = xs.filter (·.kind ∈ usedKinds) →
      ∀ e, decode data' = .ok e ↔ decode data = .ok e) ∧
    (∀ fault, decode data = .error fault ↔ ∃ n, Cursor.Stops headerSize Accepts data n ∧
      fault = .badRecord (.stopped n data.length)) ∧
    ∀ n, Cursor.Stops headerSize Accepts data n → n ≤ data.length ∧
      (Fault.badRecord (.stopped n data.length)).text =
        s!"parse error: invalid record at byte {n} of {data.length}" := by
  refine ⟨?_, ?_, ?_, ?_, ?_⟩
  · exact Cursor.exists_record_iff judges trivial
  · intro e
    exact decode_eq_ok_iff
  · intro data' xs ys hhead stream stream' same e
    exact ⟨decode_of_filter hhead.symm stream' stream same.symm,
      decode_of_filter hhead stream stream' same⟩
  · intro fault
    exact Cursor.record_eq_error_iff judges trivial
  · intro n hstops
    exact ⟨hstops.le_length, rfl⟩

/-- The link comes first with a flag in its type and a second time behind an attribute of no
interest, two kinds are nested in an attribute, and the name at the end is not padded. A link of
three bytes is an error behind its padding. -/
theorem decode_link_grammar_repeated :
    decode ([0, 0, 1, 0, 7, 0, 0, 0, 0, 0, 0, 0, 0, 0, 0, 0] ++ [8, 0, 5, 128, 3, 0, 0, 0] ++
        [5, 0, 29, 0, 9, 0, 0, 0] ++ [8, 0, 5, 0, 4, 0, 0, 0] ++
        [18, 0, 18, 0, 5, 0, 1, 0, 97, 0, 0, 0, 6, 0, 1, 0, 98, 99, 0, 0] ++
        [6, 0, 3, 0, 118, 101]) =
      .ok { family := 0, type := 1, index := 7, flags := 0, change := 0, link := some 4,
            name := some (Payload.name [118, 101]), kind := some (Payload.name [98, 99]) } ∧
    decode ([0, 0, 1, 0, 7, 0, 0, 0, 0, 0, 0, 0, 0, 0, 0, 0] ++ [7, 0, 5, 0, 1, 2, 3, 0, 1]) =
      .error (.badRecord (.stopped 24 25)) := by
  have hnested : Stream [5, 0, 1, 0, 97, 0, 0, 0, 6, 0, 1, 0, 98, 99] [⟨1, [97]⟩, ⟨1, [98, 99]⟩] :=
    ⟨_, .of_starts (by decide) (.of_starts (by decide) (.nil [])), by decide⟩
  refine ⟨?_, ?_⟩
  · refine ((decode_link_grammar _).2.1 _).mpr ⟨0, [8, 0, 5, 128, 3, 0, 0, 0] ++
        [5, 0, 29, 0, 9, 0, 0, 0] ++ [8, 0, 5, 0, 4, 0, 0, 0] ++
        [18, 0, 18, 0, 5, 0, 1, 0, 97, 0, 0, 0, 6, 0, 1, 0, 98, 99, 0, 0] ++ [6, 0, 3, 0, 118, 101],
      [⟨5, [3, 0, 0, 0]⟩, ⟨29, [9]⟩, ⟨5, [4, 0, 0, 0]⟩,
        ⟨18, [5, 0, 1, 0, 97, 0, 0, 0, 6, 0, 1, 0, 98, 99]⟩, ⟨3, [118, 101]⟩],
      by decide, ?_, ?_, ?_⟩
    · exact ⟨_, .of_starts (by decide) (.of_starts (by decide) (.of_starts (by decide)
        (.of_starts (by decide) (.of_starts (by decide) (.nil []))))), by decide⟩
    · intro x hx
      simp only [List.mem_cons, List.not_mem_nil, or_false] at hx
      rcases hx with rfl | rfl | rfl | rfl | rfl
      · exact ⟨by decide, by decide, fun h => absurd h (by decide)⟩
      · exact ⟨by decide, by decide, fun h => absurd h (by decide)⟩
      · exact ⟨by decide, by decide, fun h => absurd h (by decide)⟩
      · exact ⟨by decide, by decide, fun _ => ⟨_, hnested⟩⟩
      · exact ⟨by decide, by decide, fun h => absurd h (by decide)⟩
    · exact ⟨rfl, .some ⟨[], rfl⟩, .none, _, hnested, rfl⟩
  · refine ((decode_link_grammar _).2.2.2.1 _).mpr ⟨24, ?_, rfl⟩
    have tiles : Tiles (List.drop headerSize
        ([0, 0, 1, 0, 7, 0, 0, 0, 0, 0, 0, 0, 0, 0, 0, 0] ++ [7, 0, 5, 0, 1, 2, 3, 0, 1]))
        ([] ++ [⟨5, [1, 2, 3]⟩]) [1] :=
      .of_starts (by decide) (.nil [1])
    have refuses : ¬ Accepts (toAttribute ⟨5, [1, 2, 3]⟩) :=
      fun h => absurd (h.link (by decide)) (by decide)
    exact .refused (by decide) tiles (List.forall_mem_nil _) refuses

end VethPeer.Wire.LinkEntry
