import Mathlib
import VethPeer.Ip
import VethPeer.Text.Digits

/-! A number is read off the front of a text, and so are four of them with points between. -/
namespace VethPeer.Ip

open Numeral

variable {base most n : ℕ} {zeros : Bool} {c sep : Char} {cs rest : List Char} {ns : List ℕ}
  {bits : BitVec 32}

/-- No digit of the base comes first. -/
def Stops (base : ℕ) (cs : List Char) : Prop := ∀ c ∈ cs.head?, digitValue? base c = none

theorem stops_nil (base : ℕ) : Stops base [] := nofun

theorem stops_cons (h : digitValue? base c = none) : Stops base (c :: cs) := by
  intro d hd
  rwa [← Option.some.inj hd]

theorem takeWhile_of_stops (h : Stops base cs) :
    cs.takeWhile (fun c => (digitValue? base c).isSome) = [] := by
  cases cs with
  | nil => rfl
  | cons c cs => rw [List.takeWhile_cons_of_neg (by simp [h c rfl])]

/-- What is written as a number is read as that number, whatever comes behind it. -/
theorem number?_digits_append (hb : 1 < base) (h16 : base ≤ 16) (hm : 0 < most)
    (hn : n < base ^ most) (zeros : Bool) (h : Stops base rest) :
    number? base most zeros (digits base n ++ rest) = some (n, rest) := by
  have htake : (digits base n ++ rest).takeWhile (fun c => (digitValue? base c).isSome) =
      digits base n := by
    rw [List.takeWhile_append_of_pos fun c hc => isSome_of_mem_digits hb h16 hc,
      takeWhile_of_stops h, List.append_nil]
  have hlength := length_digits_le hm hn
  have hzero : ¬ ((digits base n).head? = some '0' ∧ 1 < (digits base n).length) := by
    rintro ⟨hhead, hlong⟩
    rw [eq_zero_of_head?_digits hb h16 hhead, digits, if_pos (.inl (by omega))] at hlong
    exact absurd hlong (lt_irrefl 1)
  simp only [number?, htake, List.isEmpty_iff]
  rw [if_neg, gather_digits hb h16, List.drop_left]
  rintro (hnil | hlong | ⟨-, hlead⟩)
  · exact digits_ne_nil base n hnil
  · omega
  · exact hzero hlead

theorem number?_of_stops (h : Stops base cs) : number? base most zeros cs = none := by
  simp only [number?, takeWhile_of_stops h]
  rfl

theorem suffix_of_number? (h : number? base most zeros cs = some (n, rest)) : rest <:+ cs := by
  simp only [number?] at h
  split at h
  · cases h
  · cases h
    exact List.drop_suffix _ _

theorem octet?_digits_append (hn : n < 256) (h : Stops 10 rest) :
    octet? (digits 10 n ++ rest) = some (n, rest) := by
  rw [octet?, number?_digits_append (by decide) (by decide) (by decide) (by omega) false h]
  exact if_pos (decide_eq_true hn)

/-- Texts with a separator between them, the first one apart. -/
theorem intercalate_cons (x : List Char) (xs : List (List Char)) :
    [sep].intercalate (x :: xs) = x ++ xs.flatMap (sep :: ·) := by
  induction xs generalizing x with
  | nil => simp
  | cons y ys ih => simp [List.intercalate_cons_cons, ih]

/-- A separator is no digit, so a number before it ends there. -/
theorem stops_flatMap (hsep : digitValue? base sep = none) (h : Stops base rest)
    (xs : List (List Char)) : Stops base (xs.flatMap (sep :: ·) ++ rest) := by
  cases xs with
  | nil => exact h
  | cons x xs => exact stops_cons hsep

theorem digitValue?_point : digitValue? 10 '.' = none := rfl

theorem octets?_flatMap_append (hns : ∀ n ∈ ns, n < 256) (h : Stops 10 rest) :
    octets? false ns.length ((ns.map (digits 10)).flatMap ('.' :: ·) ++ rest) =
      some (ns, rest) := by
  induction ns with
  | nil => rfl
  | cons n ns ih =>
    obtain ⟨hn, hns⟩ := List.forall_mem_cons.mp hns
    have hoctet := octet?_digits_append hn (stops_flatMap digitValue?_point h (ns.map (digits 10)))
    rw [List.map_cons, List.flatMap_cons, List.append_assoc, List.cons_append]
    simp only [List.length_cons, octets?, separated?, Bool.false_eq_true, if_false, if_true,
      Option.bind_some, hoctet, ih hns, Option.map_some]

theorem octets?_intercalate_append (hns : ∀ n ∈ ns, n < 256) (h : Stops 10 rest) :
    octets? true ns.length (['.'].intercalate (ns.map (digits 10)) ++ rest) = some (ns, rest) := by
  cases ns with
  | nil => rfl
  | cons n ns =>
    obtain ⟨hn, hns⟩ := List.forall_mem_cons.mp hns
    have hoctet := octet?_digits_append hn (stops_flatMap digitValue?_point h (ns.map (digits 10)))
    rw [List.map_cons, intercalate_cons, List.append_assoc]
    simp only [List.length_cons, octets?, separated?, if_true, Option.bind_some, hoctet,
      octets?_flatMap_append hns h, Option.map_some]

/-- What is written with points is read as the same address, whatever comes behind it. -/
theorem dotted?_dottedText_append (bits : BitVec 32) (h : Stops 10 rest) :
    dotted? (dottedText bits ++ rest) = some (bits, rest) := by
  have hread : octets? true (octets bits).length (dottedText bits ++ rest) =
      some (octets bits, rest) :=
    octets?_intercalate_append (fun n hn => mem_spread_lt (by decide) hn) h
  have hgather : gather 256 (octets bits) = bits.toNat := by
    rw [octets, gather_spread]
    exact Nat.mod_eq_of_lt bits.isLt
  rw [octets, length_spread] at hread
  simp only [dotted?, hread, Option.map_some]
  rw [← octets, hgather, BitVec.ofNat_toNat, BitVec.setWidth_eq]

theorem dotted?_of_stops (h : Stops 10 cs) : dotted? cs = none := by
  have hoctet : octet? cs = none := by
    rw [octet?, number?_of_stops h]
    rfl
  simp only [dotted?, octets?, separated?, if_true, Option.bind_some, hoctet, Option.map_none]

theorem separated?_of_not_mem (h : sep ∉ cs) : separated? sep false cs = none := by
  cases cs with
  | nil => rfl
  | cons c cs =>
    have hc : c ≠ sep := List.ne_of_not_mem_cons h |>.symm
    simp only [separated?, Bool.false_eq_true, if_false, if_neg hc]

/-- Without a point there are no four numbers with points between. -/
theorem dotted?_of_not_mem (h : '.' ∉ cs) : dotted? cs = none := by
  have hoctets : octets? true 4 cs = none := by
    have hfirst : separated? '.' true cs = some cs := if_pos rfl
    rw [octets?, hfirst, Option.bind_some]
    cases hoctet : octet? cs with
    | none => rfl
    | some read =>
      obtain ⟨n, rest⟩ := read
      have hnumber : number? 10 3 false cs = some (n, rest) :=
        (Option.filter_eq_some_iff.mp hoctet).1
      have hrest : '.' ∉ rest := fun hp => h ((suffix_of_number? hnumber).subset hp)
      simp only [octets?, separated?_of_not_mem hrest, Option.bind_none, Option.map_none]
  rw [dotted?, hoctets, Option.map_none]

end VethPeer.Ip
