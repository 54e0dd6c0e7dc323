import VethPeer.Wire.Attribute

/-! Reading the attributes of a record in order, keeping account of where the reading stands. -/
namespace VethPeer.Wire.Cursor

/-- Why reading stopped: the input ended inside a header, or what is there is not acceptable. -/
inductive Reason
  | partialHeader
  | rejected
  deriving DecidableEq, Repr

/-- Reading stopped with `left` bytes not consumed. -/
structure Stop where
  reason : Reason
  left : Nat
  deriving DecidableEq, Repr

def half (data : Bytes) : Except Stop (UInt16 × Bytes) :=
  match Bytes.cut? 2 data with
  | some (head, rest) => .ok (.ofNat (Bytes.toNatLE head), rest)
  | none => .error ⟨.partialHeader, data.length⟩

/-- One attribute with its padding, of which the end of the input may cut some off. -/
def next (data : Bytes) : Except Stop (Attribute × Bytes) := do
  let (length, rest) ← half data
  let (type, rest) ← half rest
  if length.toNat < AttributeHeader.size then
    .error ⟨.rejected, rest.length⟩
  else match Bytes.cut? (length.toNat - AttributeHeader.size) rest with
    | none => .error ⟨.rejected, rest.length⟩
    | some (payload, rest) =>
      .ok (⟨type &&& kindMask, payload⟩, rest.drop (Bytes.aligned length.toNat - length.toNat))

theorem length_of_half {data rest : Bytes} {n : UInt16} (h : half data = .ok (n, rest)) :
    rest.length + 2 = data.length := by
  unfold half at h
  split at h
  · rename_i hc
    simp only [Except.ok.injEq, Prod.mk.injEq] at h
    rw [← h.2]
    exact (Bytes.length_of_cut? hc).2
  · simp at h

theorem length_of_next {data rest : Bytes} {a : Attribute}
    (h : next data = .ok (a, rest)) : rest.length < data.length := by
  unfold next at h
  cases h₁ : half data with
  | error s => simp [h₁, bind, Except.bind] at h
  | ok p =>
    simp only [h₁, bind, Except.bind] at h
    cases h₂ : half p.2 with
    | error s => simp [h₂] at h
    | ok q =>
      simp only [h₂] at h
      have := length_of_half h₁
      have := length_of_half h₂
      split at h
      · simp at h
      · split at h
        · simp at h
        · rename_i hc
          have := Bytes.length_of_cut? hc
          simp only [Except.ok.injEq, Prod.mk.injEq] at h
          rw [← h.2, List.length_drop]
          omega

/-- Every attribute with the number of bytes after it, and where reading stopped early. -/
def attributes (data : Bytes) : List (Attribute × Nat) × Option Stop :=
  if data.isEmpty then ([], none)
  else match _h : next data with
    | .error stop => ([], some stop)
    | .ok (a, rest) =>
      let (as, stop) := attributes rest
      ((a, rest.length) :: as, stop)
termination_by data.length
decreasing_by exact length_of_next _h

/-- Takes every attribute into the record in turn; one that it cannot take stops the reading after
that attribute. -/
def fill {α : Type} (take : α → Attribute → Option α) (record : α) (data : Bytes) : Except Stop α :=
  if data.isEmpty then .ok record
  else match _h : next data with
    | .error stop => .error stop
    | .ok (a, rest) =>
      match take record a with
      | none => .error ⟨.rejected, rest.length⟩
      | some record => fill take record rest
termination_by data.length
decreasing_by exact length_of_next _h

/-- A record of `size` header bytes and then attributes. Failure names the byte where it stopped. -/
def record {α : Type} (size : Nat) (start : Bytes → α) (take : α → Attribute → Option α)
    (data : Bytes) : Except Fault α :=
  match Bytes.cut? size data with
  | none => .error (.badRecord (.stopped 0 data.length))
  | some (head, rest) =>
    (fill take (start head) rest).mapError fun stop =>
      .badRecord (.stopped (data.length - stop.left) data.length)

end VethPeer.Wire.Cursor
