import Mathlib
import VethPeer.Proofs.Wire.Streams

/-! A record is read off its header and the attributes behind it. The last attribute of a kind
counts, and reading stops at the first that is not accepted. -/
namespace VethPeer.Wire

variable {α : Type} {take : α → Attribute → Option α} {holds : α → Prop}
  {accepts : Attribute → Prop} {start : Bytes → α} {e e' : α} {size n : ℕ} {kind : UInt16}
  {used : List UInt16} {as bs : List RawAttribute} {a : RawAttribute} {x : Attribute}
  {xs ys : List Attribute} {data middle rest : Bytes} {fault : Fault}

open RawAttribute

namespace Attribute

/-- The bytes are these attributes, one after the other. -/
def Stream (data : Bytes) (xs : List Attribute) : Prop :=
  ∃ as, Tiles data as [] ∧ xs = as.map toAttribute

/-- The payload of the last attribute of a kind. -/
def last? (kind : UInt16) (xs : List Attribute) : Option Bytes :=
  ((xs.filter (·.kind = kind)).getLast?).map (·.payload)

@[simp] theorem last?_nil (kind : UInt16) : last? kind [] = none := rfl

theorem last?_concat (kind : UInt16) (xs : List Attribute) (x : Attribute) :
    last? kind (xs ++ [x]) = if x.kind = kind then some x.payload else last? kind xs := by
  by_cases h : x.kind = kind <;> simp [last?, List.filter_append, h]

theorem last?_eq_find? (kind : UInt16) (xs : List Attribute) :
    last? kind xs = (xs.reverse.find? (·.kind = kind)).map (·.payload) := by
  rw [last?, List.getLast?_eq_head?_reverse, ← List.filter_reverse, List.head?_filter]

/-- Attributes of other kinds play no part. -/
theorem last?_filter (h : kind ∈ used) (xs : List Attribute) :
    last? kind (xs.filter (·.kind ∈ used)) = last? kind xs := by
  rw [last?, last?, List.filter_filter]
  congr 2
  apply List.filter_congr
  intro x _
  by_cases hx : x.kind = kind <;> simp [hx, h]

theorem last?_of_filter (same : ys.filter (·.kind ∈ used) = xs.filter (·.kind ∈ used))
    (h : kind ∈ used) : last? kind ys = last? kind xs := by
  rw [← last?_filter h, same, last?_filter h]

/-- What holds of every attribute of another kind need not be looked at there. -/
theorem forall_mem_of_filter (free : ∀ x, x.kind ∉ used → accepts x)
    (same : ys.filter (·.kind ∈ used) = xs.filter (·.kind ∈ used))
    (accepted : ∀ x ∈ xs, accepts x) : ∀ y ∈ ys, accepts y := by
  intro y hy
  by_cases hused : y.kind ∈ used
  · have hmem : y ∈ xs.filter (·.kind ∈ used) := by
      rw [← same]
      exact List.mem_filter.mpr ⟨hy, decide_eq_true hused⟩
    exact accepted y (List.mem_filter.mp hmem).1
  · exact free y hused

theorem split_eq_stream_iff : split data = (xs, none) ↔ Stream data xs := split_eq_none_iff

theorem Stream.unique (h : Stream data xs) (h' : Stream data ys) : xs = ys := by
  have hsplit := split_eq_stream_iff.mpr h
  rw [split_eq_stream_iff.mpr h'] at hsplit
  exact (congrArg Prod.fst hsplit).symm

end Attribute

open Attribute

/-- As long as the record is one that `holds`, it takes just the attributes that are accepted, and
it is such a record afterwards. -/
structure Judges (take : α → Attribute → Option α) (holds : α → Prop) (accepts : Attribute → Prop) :
    Prop where
  takes : ∀ {e x}, holds e → accepts x → ∃ e', take e x = some e' ∧ holds e'
  refuses : ∀ {e x}, holds e → ¬ accepts x → take e x = none

theorem Judges.accepts_of_take (h : Judges take holds accepts) (he : holds e)
    (ht : take e x = some e') : accepts x ∧ holds e' := by
  by_cases hx : accepts x
  · obtain ⟨e₁, ht₁, he₁⟩ := h.takes he hx
    rw [ht] at ht₁
    exact ⟨hx, Option.some.inj ht₁ ▸ he₁⟩
  · rw [h.refuses he hx] at ht
    cases ht

namespace RawAttribute

theorem exists_tiles_append (h : Tiles data (as ++ bs) rest) :
    ∃ middle, Tiles data as middle ∧ Tiles middle bs rest := by
  induction as generalizing data with
  | nil => exact ⟨data, .nil data, h⟩
  | cons a as ih =>
    cases h with
    | cons fits most full tail =>
      obtain ⟨middle, hfirst, hsecond⟩ := ih tail
      exact ⟨middle, .cons fits most full hfirst, hsecond⟩

theorem starts_of_tiles_singleton (h : Tiles data [a] rest) :
    Starts data ∧ a = ofDeclared data ∧ rest = data.drop (Bytes.aligned (declared data)) := by
  cases h with
  | cons fits most full tail =>
    cases tail
    exact starts_iff.mpr ⟨fits, _, rfl, most, full⟩

end RawAttribute

namespace Cursor

theorem takeAll_of_judges (h : Judges take holds accepts) (he : holds e)
    (ha : ∀ a ∈ as, accepts a.toAttribute) : ∃ e', takeAll take e as = some e' ∧ holds e' := by
  induction as generalizing e with
  | nil => exact ⟨e, rfl, he⟩
  | cons a as ih =>
    obtain ⟨e₁, ht, he₁⟩ := h.takes he (ha a List.mem_cons_self)
    rw [takeAll_cons, ht]
    exact ih he₁ fun b hb => ha b (List.mem_cons_of_mem _ hb)

theorem accepts_of_takeAll (h : Judges take holds accepts) (he : holds e)
    (ht : takeAll take e as = some e') : (∀ a ∈ as, accepts a.toAttribute) ∧ holds e' := by
  induction as generalizing e with
  | nil =>
    cases ht
    exact ⟨nofun, he⟩
  | cons a as ih =>
    rw [takeAll_cons, Option.bind_eq_some_iff] at ht
    obtain ⟨e₁, ht₁, ht⟩ := ht
    obtain ⟨ha, he₁⟩ := h.accepts_of_take he ht₁
    obtain ⟨has, he'⟩ := ih he₁ ht
    exact ⟨List.forall_mem_cons.mpr ⟨ha, has⟩, he'⟩

/-- What each attribute keeps true of the attributes taken so far and the record, all of them do. -/
theorem takeAll_induction (describes : List Attribute → α → Prop) (first : describes [] e)
    (next : ∀ {xs e x e'}, describes xs e → take e x = some e' → describes (xs ++ [x]) e')
    (ht : takeAll take e as = some e') : describes (as.map toAttribute) e' := by
  induction as using List.reverseRecOn generalizing e' with
  | nil =>
    cases ht
    exact first
  | append_singleton as a ih =>
    rw [takeAll_append, Option.bind_eq_some_iff] at ht
    obtain ⟨e₁, ht₁, ht⟩ := ht
    have htake : take e₁ a.toAttribute = some e' := by
      simpa [takeAll] using ht
    rw [List.map_append, List.map_singleton]
    exact next (ih ht₁) htake

theorem exists_refused (h : takeAll take e as = none) :
    ∃ before a after e', as = before ++ a :: after ∧ takeAll take e before = some e' ∧
      take e' a.toAttribute = none := by
  induction as generalizing e with
  | nil => cases h
  | cons a as ih =>
    cases ht : take e a.toAttribute with
    | none => exact ⟨[], a, as, e, rfl, rfl, ht⟩
    | some e₁ =>
      rw [takeAll_cons, ht] at h
      obtain ⟨before, b, after, e', rfl, hbefore, hrefused⟩ := ih h
      refine ⟨a :: before, b, after, e', rfl, ?_, hrefused⟩
      rw [takeAll_cons, ht]
      exact hbefore

theorem fill_of_tiles (h : Tiles data as rest) (ht : takeAll take e as = some e') :
    fill take e data = fill take e' rest := by
  induction h generalizing e with
  | nil =>
    cases ht
    rfl
  | @cons a as skipped more rest fits most full _ ih =>
    rw [takeAll_cons, Option.bind_eq_some_iff] at ht
    obtain ⟨e₁, ht₁, ht⟩ := ht
    obtain ⟨hstarts, ha, hmore⟩ := starts_iff.mpr ⟨fits, skipped, rfl, most, full⟩
    have hnext := next_of_starts hstarts
    rw [← ha, ← hmore] at hnext
    rw [fill_of_next hnext ht₁]
    exact ih ht

theorem fill_of_refused (h : Starts data) (ht : take e (ofDeclared data).toAttribute = none) :
    fill take e data =
      .error ⟨.rejected, (data.drop (Bytes.aligned (declared data))).length⟩ := by
  rw [fill_eq h.ne_nil, next_of_starts h]
  simp [Except.bind, ht]

theorem fill_of_breaks (h : Breaks data n) (take : α → Attribute → Option α) (e : α) :
    ∃ reason, fill take e data = .error ⟨reason, data.length - n⟩ := by
  obtain ⟨reason, hn⟩ := next_of_breaks h
  refine ⟨reason, ?_⟩
  rw [fill_eq h.ne_nil, hn]
  rfl

/-- How the reading of attributes into a record goes. -/
inductive Filled (take : α → Attribute → Option α) (e : α) (data : Bytes) : Except Stop α → Prop
  | whole {as : List RawAttribute} {e' : α} (tiles : Tiles data as [])
      (taken : takeAll take e as = some e') : Filled take e data (.ok e')
  | broken {as : List RawAttribute} {rest : Bytes} {e' : α} {n : ℕ} {reason : Reason}
      (tiles : Tiles data as rest) (taken : takeAll take e as = some e') (breaks : Breaks rest n) :
      Filled take e data (.error ⟨reason, rest.length - n⟩)
  | refused {as : List RawAttribute} {a : RawAttribute} {rest : Bytes} {e' : α}
      (tiles : Tiles data (as ++ [a]) rest) (taken : takeAll take e as = some e')
      (refuses : take e' a.toAttribute = none) :
      Filled take e data (.error ⟨.rejected, rest.length⟩)

theorem filled (take : α → Attribute → Option α) (e : α) (data : Bytes) :
    Filled take e data (fill take e data) := by
  obtain ⟨as, rest, htiles, hends⟩ := exists_tiles data
  -- either all attributes are taken, or one of them is the first that is refused
  cases htake : takeAll take e as with
  | some e' =>
    rw [fill_of_tiles htiles htake]
    rcases hends with rfl | ⟨n, hbreaks⟩
    · rw [fill_nil]
      exact .whole htiles htake
    · obtain ⟨reason, hfill⟩ := fill_of_breaks hbreaks take e'
      rw [hfill]
      exact .broken htiles htake hbreaks
  | none =>
    obtain ⟨before, a, after, e', rfl, hbefore, hrefused⟩ := exists_refused htake
    rw [List.append_cons] at htiles
    obtain ⟨more, htiles, -⟩ := exists_tiles_append htiles
    obtain ⟨middle, hfirst, hsecond⟩ := exists_tiles_append htiles
    obtain ⟨hstarts, ha, hmore⟩ := starts_of_tiles_singleton hsecond
    rw [fill_of_tiles hfirst hbefore, fill_of_refused hstarts (ha ▸ hrefused), ← hmore]
    exact .refused htiles hbefore hrefused

/-- A record of `size` header bytes and attributes cannot be read past its first `n` bytes: the
header is not whole; or what follows some accepted attributes is no attribute; or the attribute that
follows them, which is passed over with its padding, is not accepted. -/
inductive Stops (size : ℕ) (accepts : Attribute → Prop) (data : Bytes) : ℕ → Prop
  | short (few : data.length < size) : Stops size accepts data 0
  | broken {as : List RawAttribute} {rest : Bytes} {n : ℕ} (header : size ≤ data.length)
      (tiles : Tiles (data.drop size) as rest) (accepted : ∀ a ∈ as, accepts a.toAttribute)
      (breaks : Breaks rest n) : Stops size accepts data (data.length - rest.length + n)
  | refused {as : List RawAttribute} {a : RawAttribute} {rest : Bytes} (header : size ≤ data.length)
      (tiles : Tiles (data.drop size) (as ++ [a]) rest)
      (accepted : ∀ b ∈ as, accepts b.toAttribute) (refuses : ¬ accepts a.toAttribute) :
      Stops size accepts data (data.length - rest.length)

theorem Stops.le_length (h : Stops size accepts data n) : n ≤ data.length := by
  cases h with
  | short => exact Nat.zero_le _
  | broken header tiles accepted breaks =>
    have hrest := tiles.length_le
    have hn := breaks.le_length
    rw [List.length_drop] at hrest
    omega
  | refused => exact Nat.sub_le _ _

theorem record_of_short (h : data.length < size) (start : Bytes → α)
    (take : α → Attribute → Option α) :
    record size start take data = .error (.badRecord (.stopped 0 data.length)) := by
  rw [record, Bytes.cut?_eq, if_neg (by omega)]

theorem record_of_header (h : size ≤ data.length) (start : Bytes → α)
    (take : α → Attribute → Option α) :
    record size start take data =
      (fill take (start (data.take size)) (data.drop size)).mapError fun stop =>
        .badRecord (.stopped (data.length - stop.left) data.length) := by
  rw [record, Bytes.cut?_eq, if_pos h]

theorem record_eq_ok_iff :
    record size start take data = .ok e ↔ size ≤ data.length ∧
      ∃ as, Tiles (data.drop size) as [] ∧ takeAll take (start (data.take size)) as = some e := by
  constructor
  · intro h
    by_cases header : size ≤ data.length
    · refine ⟨header, ?_⟩
      have hfilled := filled take (start (data.take size)) (data.drop size)
      rw [record_of_header header] at h
      cases hfill : fill take (start (data.take size)) (data.drop size) with
      | error stop =>
        rw [hfill] at h
        cases h
      | ok e' =>
        rw [hfill] at h hfilled
        cases h
        cases hfilled with
        | whole tiles taken => exact ⟨_, tiles, taken⟩
    · rw [record_of_short (by omega)] at h
      cases h
  · rintro ⟨header, as, tiles, taken⟩
    rw [record_of_header header, fill_of_tiles tiles taken, fill_nil]
    rfl

/-- A record is read if its header is whole and a stream of accepted attributes is behind it. -/
theorem exists_record_iff (h : Judges take holds accepts) (he : holds (start (data.take size))) :
    (∃ e, record size start take data = .ok e) ↔ size ≤ data.length ∧
      ∃ xs, Stream (data.drop size) xs ∧ ∀ x ∈ xs, accepts x := by
  constructor
  · rintro ⟨e, hrecord⟩
    obtain ⟨header, as, tiles, taken⟩ := record_eq_ok_iff.mp hrecord
    refine ⟨header, _, ⟨as, tiles, rfl⟩, ?_⟩
    rw [List.forall_mem_map]
    exact (accepts_of_takeAll h he taken).1
  · rintro ⟨header, _, ⟨as, tiles, rfl⟩, accepted⟩
    rw [List.forall_mem_map] at accepted
    obtain ⟨e, taken, -⟩ := takeAll_of_judges h he accepted
    exact ⟨e, record_eq_ok_iff.mpr ⟨header, as, tiles, taken⟩⟩

theorem record_of_stops (h : Judges take holds accepts) (he : holds (start (data.take size)))
    (hstops : Stops size accepts data n) :
    record size start take data = .error (.badRecord (.stopped n data.length)) := by
  cases hstops with
  | short few => exact record_of_short few start take
  | @broken as rest n header tiles accepted breaks =>
    obtain ⟨e', taken, -⟩ := takeAll_of_judges h he accepted
    obtain ⟨reason, hfill⟩ := fill_of_breaks breaks take e'
    have hrest := tiles.length_le
    have hn := breaks.le_length
    rw [List.length_drop] at hrest
    have hstop : data.length - (rest.length - n) = data.length - rest.length + n := by omega
    rw [record_of_header header, fill_of_tiles tiles taken, hfill, ← hstop]
    rfl
  | refused header tiles accepted refuses =>
    obtain ⟨middle, hfirst, hsecond⟩ := exists_tiles_append tiles
    obtain ⟨hstarts, ha, hmore⟩ := starts_of_tiles_singleton hsecond
    obtain ⟨e', taken, he'⟩ := takeAll_of_judges h he accepted
    have hrefused := h.refuses he' refuses
    rw [record_of_header header, fill_of_tiles hfirst taken,
      fill_of_refused hstarts (ha ▸ hrefused), ← hmore]
    rfl

/-- A record that cannot be read fails with the byte where reading stops. -/
theorem record_eq_error_iff (h : Judges take holds accepts) (he : holds (start (data.take size))) :
    record size start take data = .error fault ↔
      ∃ n, Stops size accepts data n ∧ fault = .badRecord (.stopped n data.length) := by
  constructor
  · intro hrecord
    obtain ⟨n, hstops⟩ : ∃ n, Stops size accepts data n := by
      by_cases header : size ≤ data.length
      · have hfilled := filled take (start (data.take size)) (data.drop size)
        rw [record_of_header header] at hrecord
        cases hfill : fill take (start (data.take size)) (data.drop size) with
        | ok e' =>
          rw [hfill] at hrecord
          cases hrecord
        | error stop =>
          rw [hfill] at hfilled
          cases hfilled with
          | broken tiles taken breaks =>
            exact ⟨_, .broken header tiles (accepts_of_takeAll h he taken).1 breaks⟩
          | refused tiles taken refuses =>
            obtain ⟨accepted, he'⟩ := accepts_of_takeAll h he taken
            refine ⟨_, .refused header tiles accepted fun ha => ?_⟩
            obtain ⟨e₁, htake, -⟩ := h.takes he' ha
            rw [refuses] at htake
            cases htake
      · exact ⟨0, .short (by omega)⟩
    rw [record_of_stops h he hstops] at hrecord
    exact ⟨n, hstops, (Except.error.inj hrecord).symm⟩
  · rintro ⟨n, hstops, rfl⟩
    exact record_of_stops h he hstops

end Cursor
end VethPeer.Wire
