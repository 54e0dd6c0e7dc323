import Mathlib
import VethPeer.Bytes.Codec
import VethPeer.Wire.Cursor

/-! Attributes that are written one after the other are taken into a record one by one, and those of
different kinds in any order. -/
namespace VethPeer.Wire

variable {α : Type} {take : α → Attribute → Option α} {e e' : α} {as bs extras : List RawAttribute}

@[simp] theorem AttributeHeader.length_bytes (h : AttributeHeader) : h.bytes.length = size := by
  simp [bytes, size]

namespace RawAttribute

def kind (a : RawAttribute) : UInt16 := a.type &&& kindMask

def toAttribute (a : RawAttribute) : Attribute := ⟨a.kind, a.payload⟩

def encode (a : RawAttribute) : Bytes := Attribute.encode a.type a.payload

def encodeAll (as : List RawAttribute) : Bytes := as.flatMap encode

theorem toAttribute_eq {type : UInt16} (h : type &&& kindMask = type) (payload : Bytes) :
    toAttribute ⟨type, payload⟩ = ⟨type, payload⟩ := by
  simp [toAttribute, kind, h]

theorem length_payload_le (a : RawAttribute) :
    AttributeHeader.size + a.payload.length ≤ a.encode.length := by
  rw [encode, Attribute.encode, Bytes.length_padded]
  refine le_trans (le_of_eq ?_) (Bytes.le_aligned _)
  simp

end RawAttribute

namespace Cursor

theorem half_ofNatLE (n : UInt16) (rest : Bytes) :
    half (Bytes.ofNatLE 2 n.toNat ++ rest) = .ok (n, rest) := by
  have hn : n.toNat % 65536 = n.toNat := Nat.mod_eq_of_lt n.toNat_lt
  simp [half, Bytes.cut?_append (Bytes.length_ofNatLE 2 n.toNat), Bytes.toNatLE_ofNatLE, hn]

/-- The length field of an attribute that is not too long holds its length. -/
theorem next_encode_append {a : RawAttribute}
    (fits : AttributeHeader.size + a.payload.length < 65536) (rest : Bytes) :
    next (a.encode ++ rest) = .ok (a.toAttribute, rest) := by
  have hlength : (UInt16.ofNat (AttributeHeader.size + a.payload.length)).toNat =
      AttributeHeader.size + a.payload.length := UInt16.toNat_ofNat_of_lt' fits
  generalize hn : UInt16.ofNat (AttributeHeader.size + a.payload.length) = n at hlength
  have hraw : (AttributeHeader.bytes ⟨n, a.type⟩ ++ a.payload).length = n.toNat := by
    rw [hlength]
    simp
  have hbytes : a.encode ++ rest = Bytes.ofNatLE 2 n.toNat ++ (Bytes.ofNatLE 2 a.type.toNat ++
      (a.payload ++ (List.replicate (Bytes.aligned n.toNat - n.toNat) 0 ++ rest))) := by
    rw [RawAttribute.encode, Attribute.encode, hn, Bytes.padded, hraw]
    simp [AttributeHeader.bytes]
  have hsize : ¬ n.toNat < AttributeHeader.size := by omega
  have hcut : a.payload.length = n.toNat - AttributeHeader.size := by omega
  rw [hbytes, next, half_ofNatLE]
  simp only [bind, Except.bind, half_ofNatLE, hsize, if_false, Bytes.cut?_append hcut]
  rw [List.drop_append_of_le_length (by simp), List.drop_of_length_le (by simp)]
  rfl

theorem fill_nil : fill take e [] = .ok e := by
  rw [fill]
  rfl

/-- One attribute is read and taken, and then those behind it. -/
theorem fill_eq {data : Bytes} (hn : data ≠ []) (take : α → Attribute → Option α) (e : α) :
    fill take e data = (next data).bind fun (a, rest) =>
      (take e a).elim (.error ⟨.rejected, rest.length⟩) (fill take · rest) := by
  have he : data.isEmpty = false := by simpa using hn
  rw [fill, he, if_neg Bool.false_ne_true]
  split
  · rename_i hnext
    rw [hnext]
    rfl
  · rename_i a rest hnext
    rw [hnext]
    cases htake : take e a <;> simp [Except.bind, htake]

theorem fill_of_next {data rest : Bytes} {a : Attribute} (hn : next data = .ok (a, rest))
    (ht : take e a = some e') : fill take e data = fill take e' rest := by
  have he : data ≠ [] := by
    rintro rfl
    simpa using length_of_next hn
  rw [fill_eq he, hn]
  simp [Except.bind, ht]

/-- The record after every attribute was taken in turn. -/
def takeAll (take : α → Attribute → Option α) (e : α) (as : List RawAttribute) : Option α :=
  as.foldlM (fun e a => take e a.toAttribute) e

theorem takeAll_cons (a : RawAttribute) :
    takeAll take e (a :: as) = (take e a.toAttribute).bind (takeAll take · as) := rfl

theorem takeAll_append : takeAll take e (as ++ bs) = (takeAll take e as).bind (takeAll take · bs) :=
  List.foldlM_append

theorem fill_encodeAll (fits : (RawAttribute.encodeAll as).length < 65536)
    (h : takeAll take e as = some e') : fill take e (RawAttribute.encodeAll as) = .ok e' := by
  induction as generalizing e with
  | nil =>
    cases h
    exact fill_nil
  | cons a as ih =>
    rw [takeAll_cons, Option.bind_eq_some_iff] at h
    obtain ⟨e₁, ht, h⟩ := h
    have hsplit : RawAttribute.encodeAll (a :: as) = a.encode ++ RawAttribute.encodeAll as := rfl
    rw [hsplit, List.length_append] at fits
    have ha := a.length_payload_le
    rw [hsplit, fill_of_next (next_encode_append (by omega) _) ht]
    exact ih (by omega) h

/-- Attributes that the record has no use for change nothing. -/
theorem takeAll_unused (h : ∀ a ∈ as, ∀ e, take e a.toAttribute = some e) :
    takeAll take e as = some e := by
  induction as with
  | nil => rfl
  | cons a as ih =>
    rw [takeAll_cons, h a (by simp), Option.bind_some]
    exact ih fun b hb => h b (by simp [hb])

theorem takeAll_perm (hp : as.Perm bs)
    (comm : ∀ a ∈ bs, ∀ b ∈ bs, ∀ e, (take e a.toAttribute).bind (take · b.toAttribute) =
      (take e b.toAttribute).bind (take · a.toAttribute)) :
    takeAll take e as = takeAll take e bs := by
  rw [takeAll, takeAll, List.foldlM_eq_foldl, List.foldlM_eq_foldl]
  apply hp.foldl_eq'
  intro a ha b hb r
  cases r with
  | none => rfl
  | some e => exact comm a (hp.subset ha) b (hp.subset hb) e

/-- The order of the attributes plays no part if those that the record has a use for commute. -/
theorem takeAll_of_perm (hp : as.Perm (bs ++ extras))
    (unused : ∀ a ∈ extras, ∀ e, take e a.toAttribute = some e)
    (comm : ∀ a ∈ bs, ∀ b ∈ bs, ∀ e, (take e a.toAttribute).bind (take · b.toAttribute) =
      (take e b.toAttribute).bind (take · a.toAttribute)) :
    takeAll take e as = takeAll take e bs := by
  have hall : takeAll take e as = takeAll take e (bs ++ extras) := by
    apply takeAll_perm hp
    intro a ha b hb e
    rw [List.mem_append] at ha hb
    rcases ha with ha | ha
    · rcases hb with hb | hb
      · exact comm a ha b hb e
      · simp only [unused b hb, Option.bind_some, Option.bind_fun_some]
    · simp only [unused a ha, Option.bind_some, Option.bind_fun_some]
  rw [hall, takeAll_append]
  simp only [takeAll_unused unused, Option.bind_fun_some]

/-- A record whose header and attributes are as they were written. -/
theorem record_encodeAll {size : Nat} {start : Bytes → α} {header : Bytes}
    (hh : header.length = size) (fits : (RawAttribute.encodeAll as).length < 65536)
    (h : takeAll take (start header) as = some e') :
    record size start take (header ++ RawAttribute.encodeAll as) = .ok e' := by
  rw [record, Bytes.cut?_append hh]
  simp [fill_encodeAll fits h, Except.mapError]

end Cursor
end VethPeer.Wire
