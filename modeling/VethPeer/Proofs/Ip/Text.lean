import Mathlib
import VethPeer.Proofs.Ip.Quads

/-! The text of an address is read as that address again, and as no other. -/
namespace VethPeer.Ip

open Numeral

variable {room g start count base n : ℕ} {first quad : Bool} {c sep : Char}
  {cs after more rest : List Char} {xs : List (List Char)} {gs ns head tail : List ℕ}
  {best : ℕ × ℕ}

/-- The zeros that stand together from the place `i` on. -/
def zerosAt (gs : List ℕ) (i : ℕ) : ℕ := ((gs.drop i).takeWhile (· = 0)).length

/-- Of the zeros at the first `k` places these are the most that stand together, and the leftmost. -/
structure Longest (gs : List ℕ) (k : ℕ) (best : ℕ × ℕ) : Prop where
  reached : best.2 ≤ zerosAt gs best.1
  longest : ∀ i < k, zerosAt gs i ≤ best.2
  leftmost : ∀ i < best.1, zerosAt gs i < best.2

theorem Longest.step {k : ℕ} (h : Longest gs k best) :
    Longest gs (k + 1) (if best.2 < zerosAt gs k then (k, zerosAt gs k) else best) := by
  split
  · rename_i hmore
    refine ⟨le_rfl, fun i hi => ?_, fun i hi => (h.longest i hi).trans_lt hmore⟩
    rcases Nat.lt_succ_iff_lt_or_eq.mp hi with hi | rfl
    · exact ((h.longest i hi).trans_lt hmore).le
    · exact le_rfl
  · rename_i hless
    refine ⟨h.reached, fun i hi => ?_, h.leftmost⟩
    rcases Nat.lt_succ_iff_lt_or_eq.mp hi with hi | rfl
    · exact h.longest i hi
    · exact not_lt.mp hless

theorem longest_zeroRun (gs : List ℕ) : Longest gs gs.length (zeroRun gs) := by
  have hfold (k : ℕ) : Longest gs k ((List.range k).foldl (fun best i =>
      if best.2 < zerosAt gs i then (i, zerosAt gs i) else best) (0, 0)) := by
    induction k with
    | zero => exact ⟨Nat.zero_le _, nofun, nofun⟩
    | succ k ih =>
      rw [List.range_succ, List.foldl_append]
      exact ih.step
  exact hfold gs.length

example : hexText 0x00010000000000020000000000000003 = "1:0:0:2::3".toList := by cbv

/-- The zeros of the longest run, between what comes before them and after them. -/
theorem zeroRun_split (gs : List ℕ) :
    gs.take (zeroRun gs).1 ++ List.replicate (zeroRun gs).2 0 ++
      gs.drop ((zeroRun gs).1 + (zeroRun gs).2) = gs := by
  have hreached := (longest_zeroRun gs).reached
  generalize zeroRun gs = best at hreached
  have hzeros : (gs.drop best.1).take best.2 = List.replicate best.2 0 := by
    have hrun : (gs.drop best.1).take best.2 <+: (gs.drop best.1).takeWhile (· = 0) := by
      refine List.prefix_of_prefix_length_le (List.take_prefix _ _) (List.takeWhile_prefix _) ?_
      exact (List.length_take_le _ _).trans hreached
    have hlength : best.2 ≤ (gs.drop best.1).length :=
      hreached.trans (List.takeWhile_prefix _).length_le
    refine List.eq_replicate_iff.mpr ⟨List.length_take_of_le hlength, fun n hn => ?_⟩
    simpa using List.mem_takeWhile_imp (hrun.subset hn)
  rw [← hzeros, List.append_assoc, ← List.drop_drop, List.take_append_drop, List.take_append_drop]

/-- Groups are over: nothing comes, or two colons. -/
inductive Closes : List Char → Prop
  | nothing : Closes []
  | gap (more : List Char) : Closes (':' :: ':' :: more)

theorem digitValue?_colon : digitValue? 16 ':' = none := rfl

theorem Closes.stops (h : Closes cs) : Stops 16 cs := by
  cases h with
  | nothing => exact stops_nil 16
  | gap more => exact stops_cons digitValue?_colon

theorem digitValue?_ten (h : digitValue? 16 c = none) : digitValue? 10 c = none := by
  unfold digitValue? at h ⊢
  split_ifs at * <;> simp_all <;> omega

theorem stops_ten (h : Stops 16 cs) : Stops 10 cs := fun c hc => digitValue?_ten (h c hc)

/-- Where no group begins, none is read. -/
theorem groups?_of_stops (hsep : separated? ':' first cs = some after) (h : Stops 16 after) :
    groups? first room cs = ([], false, cs) := by
  cases room with
  | zero => rfl
  | succ room =>
    have hdotted : dotted? after = none := dotted?_of_stops (stops_ten h)
    simp only [groups?, hsep, hdotted, number?_of_stops h, ite_self]

/-- A group is read, and then those behind it. -/
theorem groups?_digits_append (hsep : separated? ':' first cs = some (digits 16 g ++ more))
    (hg : g < 65536) (hdotted : dotted? (digits 16 g ++ more) = none) (hstops : Stops 16 more)
    (hmore : groups? false room more = (ns, quad, rest)) :
    groups? first (room + 1) cs = (g :: ns, quad, rest) := by
  have hnumber : number? 16 4 true (digits 16 g ++ more) = some (g, more) :=
    number?_digits_append (by decide) le_rfl (by decide) hg true hstops
  simp only [groups?, hsep, hdotted, ite_self, hnumber, hmore]

theorem point_not_mem_digits (g : ℕ) : '.' ∉ digits 16 g := by
  intro h
  have hsome := isSome_of_mem_digits (by decide) le_rfl h
  cases hsome

theorem mem_intercalate (h : c ∈ [sep].intercalate xs) : c = sep ∨ ∃ x ∈ xs, c ∈ x := by
  cases xs with
  | nil => cases h
  | cons x xs =>
    rw [intercalate_cons, List.mem_append, List.mem_flatMap] at h
    rcases h with hx | ⟨y, hy, hc⟩
    · exact .inr ⟨x, List.mem_cons_self, hx⟩
    · exact (List.mem_cons.mp hc).imp id fun hc => ⟨y, List.mem_cons_of_mem _ hy, hc⟩

theorem mem_dottedText {bits : BitVec 32} (h : c ∈ dottedText bits) :
    c = '.' ∨ (digitValue? 16 c).isSome = true := by
  refine (mem_intercalate h).imp id ?_
  rintro ⟨x, hx, hc⟩
  obtain ⟨n, -, rfl⟩ := List.mem_map.mp hx
  have hdecimal := isSome_of_mem_digits (by decide) (by decide) hc
  by_contra hhex
  rw [Bool.not_eq_true, Option.isSome_eq_false_iff, Option.isNone_iff_eq_none] at hhex
  rw [digitValue?_ten hhex] at hdecimal
  cases hdecimal

theorem mem_colonText (h : c ∈ colonText gs) : c = ':' ∨ (digitValue? 16 c).isSome = true := by
  refine (mem_intercalate h).imp id ?_
  rintro ⟨x, hx, hc⟩
  obtain ⟨n, -, rfl⟩ := List.mem_map.mp hx
  exact isSome_of_mem_digits (by decide) le_rfl hc

theorem point_not_mem_colonText (gs : List ℕ) : '.' ∉ colonText gs := by
  intro h
  rcases mem_colonText h with h | h <;> cases h

theorem groups?_flatMap_append (hgs : ∀ g ∈ gs, g < 65536) (hroom : gs.length ≤ room)
    (hpoint : '.' ∉ rest) (hrest : Closes rest) :
    groups? false room ((gs.map (digits 16)).flatMap (':' :: ·) ++ rest) = (gs, false, rest) := by
  induction gs generalizing room with
  | nil =>
    cases hrest with
    | nothing => cases room <;> rfl
    | gap more => exact groups?_of_stops rfl (stops_cons digitValue?_colon)
  | cons g gs ih =>
    obtain ⟨hg, hgs⟩ := List.forall_mem_cons.mp hgs
    cases room with
    | zero => cases hroom
    | succ room =>
      rw [List.map_cons, List.flatMap_cons, List.append_assoc, List.cons_append]
      refine groups?_digits_append rfl hg ?_ ?_ (ih hgs (Nat.le_of_succ_le_succ hroom))
      · refine dotted?_of_not_mem ?_
        simp [point_not_mem_digits, hpoint]
      · exact stops_flatMap digitValue?_colon hrest.stops _

/-- What is written with colons is read as the same groups, up to where they are over. -/
theorem groups?_colonText_append (hgs : ∀ g ∈ gs, g < 65536) (hroom : gs.length ≤ room)
    (hpoint : '.' ∉ rest) (hrest : Closes rest) :
    groups? true room (colonText gs ++ rest) = (gs, false, rest) := by
  cases gs with
  | nil => exact groups?_of_stops rfl hrest.stops
  | cons g gs =>
    obtain ⟨hg, hgs⟩ := List.forall_mem_cons.mp hgs
    cases room with
    | zero => cases hroom
    | succ room =>
      have hmore := groups?_flatMap_append hgs (Nat.le_of_succ_le_succ hroom) hpoint hrest
      rw [colonText, List.map_cons, intercalate_cons, List.append_assoc]
      refine groups?_digits_append rfl hg ?_ ?_ hmore
      · refine dotted?_of_not_mem ?_
        simp [point_not_mem_digits, hpoint]
      · exact stops_flatMap digitValue?_colon hrest.stops _

/-- All eight groups. -/
theorem colons?_colonText (hgs : ∀ g ∈ gs, g < 65536) (hlength : gs.length = 8) :
    colons? (colonText gs) = some (.ofNat 128 (gather 65536 gs), []) := by
  have hread := groups?_colonText_append hgs hlength.le List.not_mem_nil .nothing
  rw [List.append_nil] at hread
  simp only [colons?, hread, if_pos hlength]

/-- Fewer groups around a gap of zeros. -/
theorem colons?_gap (hhead : ∀ g ∈ head, g < 65536) (htail : ∀ g ∈ tail, g < 65536)
    (hlength : head.length + tail.length < 8) :
    colons? (colonText head ++ ':' :: ':' :: colonText tail) =
      some (.ofNat 128 (gather 65536
        (head ++ List.replicate (8 - head.length - tail.length) 0 ++ tail)), []) := by
  have hpoint : '.' ∉ ':' :: ':' :: colonText tail := by
    simp [point_not_mem_colonText]
  have hfirst : groups? true 8 (colonText head ++ ':' :: ':' :: colonText tail) =
      (head, false, ':' :: ':' :: colonText tail) :=
    groups?_colonText_append hhead (by omega) hpoint (.gap _)
  have hsecond : groups? true (7 - head.length) (colonText tail ++ []) = (tail, false, []) :=
    groups?_colonText_append htail (by omega) List.not_mem_nil .nothing
  rw [List.append_nil] at hsecond
  simp only [colons?, hfirst, if_neg (show ¬ head.length = 8 by omega), hsecond,
    Bool.false_eq_true, if_false]

/-- The gap that is left for the longest run of zeros is filled again. -/
theorem colons?_zeroRun (hgs : ∀ g ∈ gs, g < 65536) (hlength : gs.length = 8)
    (hrun : 0 < (zeroRun gs).2) :
    colons? (colonText (gs.take (zeroRun gs).1) ++
        ':' :: ':' :: colonText (gs.drop ((zeroRun gs).1 + (zeroRun gs).2))) =
      some (.ofNat 128 (gather 65536 gs), []) := by
  have hsplit := zeroRun_split gs
  generalize zeroRun gs = best at *
  have hcount := congrArg List.length hsplit
  rw [List.length_append, List.length_append, List.length_replicate, hlength] at hcount
  have hgap : 8 - (gs.take best.1).length - (gs.drop (best.1 + best.2)).length = best.2 := by
    omega
  rw [colons?_gap (fun g hg => hgs g (List.mem_of_mem_take hg))
    (fun g hg => hgs g (List.mem_of_mem_drop hg)) (by omega), hgap, hsplit]

/-- An address of the other family at the end. -/
theorem colons?_dottedText (bits : BitVec 32) :
    colons? ("::ffff:".toList ++ dottedText bits) =
      some (.ofNat 128 (gather 65536
        (List.replicate 5 0 ++ 0xffff :: spread 65536 2 bits.toNat)), []) := by
  have htext : "::ffff:".toList ++ dottedText bits =
      ':' :: ':' :: ("ffff".toList ++ ':' :: dottedText bits) := rfl
  have hfirst : groups? true 8 (':' :: ':' :: ("ffff".toList ++ ':' :: dottedText bits)) =
      ([], false, ':' :: ':' :: ("ffff".toList ++ ':' :: dottedText bits)) :=
    groups?_of_stops rfl (stops_cons digitValue?_colon)
  have hquad : groups? false 6 (':' :: dottedText bits) =
      (spread 65536 2 bits.toNat, true, []) := by
    have hdotted := dotted?_dottedText_append bits (stops_nil 10)
    rw [List.append_nil] at hdotted
    simp [groups?, separated?, hdotted]
  have hffff : digits 16 0xffff = "ffff".toList := by cbv
  have hsecond : groups? true 7 ("ffff".toList ++ ':' :: dottedText bits) =
      (0xffff :: spread 65536 2 bits.toNat, true, []) := by
    rw [← hffff]
    refine groups?_digits_append rfl (by decide) ?_ (stops_cons digitValue?_colon) hquad
    rw [hffff]
    exact dotted?_of_stops (stops_cons rfl)
  rw [htext]
  simp only [colons?, hfirst, List.length_nil, Nat.sub_zero, hsecond, List.length_cons,
    length_spread, Bool.false_eq_true, if_false, List.nil_append]
  rfl

theorem gather_groups (bits : BitVec 128) :
    BitVec.ofNat 128 (gather 65536 (groups bits)) = bits := by
  have hgather : gather 65536 (groups bits) = bits.toNat := by
    rw [groups, gather_spread]
    exact Nat.mod_eq_of_lt bits.isLt
  rw [hgather, BitVec.ofNat_toNat, BitVec.setWidth_eq]

/-- The last two groups are those of the address of the other family. -/
theorem drop_groups (bits : BitVec 128) :
    (groups bits).drop 6 = spread 65536 2 (bits.setWidth 32).toNat := by
  have hsplit : groups bits = spread 65536 6 (bits.toNat / 65536 ^ 2) ++
      spread 65536 2 bits.toNat := spread_add 65536 bits.toNat 2 6
  rw [hsplit, List.drop_left' (length_spread 65536 6 _), BitVec.toNat_setWidth]
  exact (spread_mod 65536 2 bits.toNat).symm

/-- Every address of the wide family is read back from its text, in whichever form that is. -/
theorem colons?_hexText (bits : BitVec 128) : colons? (hexText bits) = some (bits, []) := by
  have hlength : (groups bits).length = 8 := length_spread 65536 8 _
  have hlt : ∀ g ∈ groups bits, g < 65536 := fun g hg => mem_spread_lt (by decide) hg
  simp only [hexText]
  split
  · rename_i hmapped
    have hsplit := List.take_append_drop 6 (groups bits)
    rw [hmapped, drop_groups] at hsplit
    have hgroups : List.replicate 5 0 ++ 0xffff :: spread 65536 2 (bits.setWidth 32).toNat =
        groups bits := hsplit
    rw [colons?_dottedText, hgroups, gather_groups]
  · split
    · rename_i hlong
      have hread := colons?_zeroRun hlt hlength
      rw [gather_groups] at hread
      -- where the run is does not matter any more, and it is not to be computed
      generalize zeroRun (groups bits) = best at *
      rw [List.append_assoc]
      exact hread (Nat.zero_lt_of_lt hlong)
    · rw [colons?_colonText hlt hlength, gather_groups]

theorem dotted?_hexText (bits : BitVec 128) : dotted? (hexText bits) = none := by
  simp only [hexText]
  split
  · exact dotted?_of_stops (stops_cons rfl)
  · refine dotted?_of_not_mem ?_
    split
    · simp [point_not_mem_colonText]
    · exact point_not_mem_colonText _

/-- Nothing but hexadecimal digits, points and colons is written. -/
theorem mem_chars {a : Ip} (h : c ∈ a.chars) :
    c = '.' ∨ c = ':' ∨ (digitValue? 16 c).isSome = true := by
  cases a with
  | v4 bits => exact (mem_dottedText h).imp id .inr
  | v6 bits =>
    have hmapped : ∀ c ∈ [':', ':', 'f', 'f', 'f', 'f', ':'],
        c = ':' ∨ (digitValue? 16 c).isSome = true := by
      simp [digitValue?]
    have hgap : ∀ c ∈ [':', ':'], c = ':' := by
      simp
    simp only [chars, hexText] at h
    split at h
    · rcases List.mem_append.mp h with h | h
      · exact .inr (hmapped c h)
      · exact (mem_dottedText h).imp id .inr
    · split at h
      · rw [List.append_assoc, List.mem_append, List.mem_append] at h
        rcases h with h | h | h
        · exact .inr (mem_colonText h)
        · exact .inr (.inl (hgap c h))
        · exact .inr (mem_colonText h)
      · exact .inr (mem_colonText h)

/-- An address is read back from its text, and one of the wide family stays in it even where its
text ends like one of the other. -/
theorem ofText?_text (a : Ip) : ofText? a.text = some a := by
  rw [ofText?, text, String.toList_ofList]
  cases a with
  | v4 bits =>
    have hread := dotted?_dottedText_append bits (stops_nil 10)
    rw [List.append_nil] at hread
    simp only [ofChars?, chars, hread]
    rfl
  | v6 bits =>
    simp only [ofChars?, chars, dotted?_hexText, colons?_hexText]
    rfl

end VethPeer.Ip
