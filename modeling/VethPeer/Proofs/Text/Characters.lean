import Mathlib
import VethPeer.Text.Utf8

/-! Which bytes are a character, which ones begin one, and what stands at the front of a byte
string: a character, or a part that is none. -/
namespace VethPeer.Utf8

open String (utf8EncodeChar)

variable {b lead x y z : UInt8} {text part after rest rest' : Bytes}
  {early ranges : List (UInt8 × UInt8)} {c d : Char} {n : ℕ} {piece piece' : Piece}

def Within (range : UInt8 × UInt8) (b : UInt8) : Prop := range.1 ≤ b ∧ b ≤ range.2

theorem within_iff {low high : UInt8} :
    Within (low, high) b ↔ low.toNat ≤ b.toNat ∧ b.toNat ≤ high.toNat := by
  rw [Within, UInt8.le_iff_toNat_le, UInt8.le_iff_toNat_le]

theorem within_any : Within (0x80, 0xBF) b ↔ 0x80 ≤ b.toNat ∧ b.toNat ≤ 0xBF := within_iff

theorem followers_one (h : lead.toNat < 0x80) : followers lead = some [] := by
  simp [followers, UInt8.lt_iff_toNat_lt, h]

theorem followers_two (h : 0xC2 ≤ lead.toNat) (h' : lead.toNat < 0xE0) :
    followers lead = some [(0x80, 0xBF)] := by
  simp only [followers, UInt8.lt_iff_toNat_lt, UInt8.reduceToNat]
  rw [if_neg (by omega), if_neg (by omega), if_pos h']

/-- Of three bytes, the second keeps off the shorter forms and the surrogates. -/
theorem followers_three (h : 0xE0 ≤ lead.toNat) (h' : lead.toNat < 0xF0) :
    ∃ second, followers lead = some [second, (0x80, 0xBF)] ∧
      ∀ b, Within second b ↔ (0x80 ≤ b.toNat ∧ b.toNat ≤ 0xBF) ∧
        (lead.toNat = 0xE0 → 0xA0 ≤ b.toNat) ∧ (lead.toNat = 0xED → b.toNat ≤ 0x9F) := by
  simp only [followers, UInt8.lt_iff_toNat_lt, ← UInt8.toNat_inj, UInt8.reduceToNat]
  rw [if_neg (by omega), if_neg (by omega), if_neg (by omega)]
  by_cases hshort : lead.toNat = 0xE0
  · refine ⟨_, if_pos hshort, fun b => ?_⟩
    simp only [within_iff, UInt8.reduceToNat]
    omega
  by_cases hsurrogate : lead.toNat = 0xED
  · refine ⟨_, by rw [if_neg hshort, if_pos hsurrogate], fun b => ?_⟩
    simp only [within_iff, UInt8.reduceToNat]
    omega
  · refine ⟨_, by rw [if_neg hshort, if_neg hsurrogate, if_pos h'], fun b => ?_⟩
    simp only [within_iff, UInt8.reduceToNat]
    omega

/-- Of four bytes, the second keeps off the shorter forms and all past the last character. -/
theorem followers_four (h : 0xF0 ≤ lead.toNat) (h' : lead.toNat < 0xF5) :
    ∃ second, followers lead = some [second, (0x80, 0xBF), (0x80, 0xBF)] ∧
      ∀ b, Within second b ↔ (0x80 ≤ b.toNat ∧ b.toNat ≤ 0xBF) ∧
        (lead.toNat = 0xF0 → 0x90 ≤ b.toNat) ∧ (lead.toNat = 0xF4 → b.toNat ≤ 0x8F) := by
  simp only [followers, UInt8.lt_iff_toNat_lt, ← UInt8.toNat_inj, UInt8.reduceToNat]
  rw [if_neg (by omega), if_neg (by omega), if_neg (by omega), if_neg (by omega),
    if_neg (by omega), if_neg (by omega)]
  by_cases hshort : lead.toNat = 0xF0
  · refine ⟨_, if_pos hshort, fun b => ?_⟩
    simp only [within_iff, UInt8.reduceToNat]
    omega
  by_cases hlast : lead.toNat = 0xF4
  · refine ⟨_, by rw [if_neg hshort, if_neg (by omega), if_pos hlast], fun b => ?_⟩
    simp only [within_iff, UInt8.reduceToNat]
    omega
  · refine ⟨_, by rw [if_neg hshort, if_pos (by omega)], fun b => ?_⟩
    simp only [within_iff, UInt8.reduceToNat]
    omega

theorem lead_cases (h : followers lead = some ranges) :
    lead.toNat < 0x80 ∨ (0xC2 ≤ lead.toNat ∧ lead.toNat < 0xE0) ∨
      (0xE0 ≤ lead.toNat ∧ lead.toNat < 0xF0) ∨ (0xF0 ≤ lead.toNat ∧ lead.toNat < 0xF5) := by
  by_contra hno
  have hnone : followers lead = none := by
    simp only [followers, UInt8.lt_iff_toNat_lt, ← UInt8.toNat_inj, UInt8.reduceToNat]
    rw [if_neg (by omega)]
    by_cases hshort : lead.toNat < 0xC2
    · rw [if_pos hshort]
    · rw [if_neg hshort, if_neg (by omega), if_neg (by omega), if_neg (by omega),
        if_neg (by omega), if_neg (by omega), if_neg (by omega), if_neg (by omega)]
  cases hnone.symm.trans h

/-- The bytes of a character lie in the ranges that its first byte asks for. -/
theorem fits_of_encode (h : utf8EncodeChar c = lead :: after) :
    ∃ ranges, followers lead = some ranges ∧ List.Forall₂ Within ranges after := by
  have hvalid : c.val.toNat < 0xd800 ∨ 0xdfff < c.val.toNat ∧ c.val.toNat < 0x110000 := c.valid
  revert h
  fun_cases String.utf8EncodeChar c with
  | case1 v h1 =>
    rintro ⟨⟩
    refine ⟨_, followers_one ?_, .nil⟩
    rw [UInt8.toNat_ofNat']
    omega
  | case2 v h1 h2 =>
    rintro ⟨⟩
    refine ⟨_, followers_two ?_ ?_, .cons (within_any.mpr ?_) .nil⟩
    all_goals rw [UInt8.toNat_ofNat']; omega
  | case3 v h1 h2 h3 =>
    rintro ⟨⟩
    obtain ⟨second, hranges, hsecond⟩ := @followers_three (.ofNat (v / 4096 % 16 + 0xe0))
      (by rw [UInt8.toNat_ofNat']; omega) (by rw [UInt8.toNat_ofNat']; omega)
    refine ⟨_, hranges, .cons ((hsecond _).mpr ?_) (.cons (within_any.mpr ?_) .nil)⟩
    all_goals simp only [UInt8.toNat_ofNat']; omega
  | case4 v h1 h2 h3 =>
    rintro ⟨⟩
    obtain ⟨second, hranges, hsecond⟩ := @followers_four (.ofNat (v / 262144 % 8 + 0xf0))
      (by rw [UInt8.toNat_ofNat']; omega) (by rw [UInt8.toNat_ofNat']; omega)
    refine ⟨_, hranges, .cons ((hsecond _).mpr ?_) (.cons (within_any.mpr ?_)
      (.cons (within_any.mpr ?_) .nil))⟩
    all_goals simp only [UInt8.toNat_ofNat']; omega

theorem toNat_ofNat_of_valid (h : n.isValidChar) : (Char.ofNat n).val.toNat = n := by
  rw [Char.ofNat, dif_pos h]
  rfl

theorem ofNat_eq_iff : UInt8.ofNat n = b ↔ n % 256 = b.toNat := by
  rw [← UInt8.toNat_inj, UInt8.toNat_ofNat']

theorem encode_one (h : lead.toNat < 0x80) :
    utf8EncodeChar (Char.ofNat (codePoint lead [])) = [lead] := by
  have hcode : codePoint lead [] = lead.toNat := rfl
  have hchar := toNat_ofNat_of_valid (n := lead.toNat) (.inl (by omega))
  rw [hcode, utf8EncodeChar, hchar, if_pos (by omega), UInt8.ofNat_toNat]

theorem encode_two (h : 0xC2 ≤ lead.toNat) (h' : lead.toNat < 0xE0) (hx : Within (0x80, 0xBF) x) :
    utf8EncodeChar (Char.ofNat (codePoint lead [x])) = [lead, x] := by
  have hx := within_any.mp hx
  have hcode : codePoint lead [x] = lead.toNat % 32 * 64 + x.toNat % 64 := rfl
  have hchar := toNat_ofNat_of_valid (n := codePoint lead [x]) (.inl (by omega))
  rw [utf8EncodeChar, hchar, if_neg (by omega), if_pos (by omega)]
  simp only [List.cons.injEq, ofNat_eq_iff, and_true]
  omega

theorem encode_three (h : 0xE0 ≤ lead.toNat) (h' : lead.toNat < 0xF0)
    (hx : (0x80 ≤ x.toNat ∧ x.toNat ≤ 0xBF) ∧
      (lead.toNat = 0xE0 → 0xA0 ≤ x.toNat) ∧ (lead.toNat = 0xED → x.toNat ≤ 0x9F))
    (hy : Within (0x80, 0xBF) y) :
    utf8EncodeChar (Char.ofNat (codePoint lead [x, y])) = [lead, x, y] := by
  have hy := within_any.mp hy
  have hcode : codePoint lead [x, y] =
      (lead.toNat % 16 * 64 + x.toNat % 64) * 64 + y.toNat % 64 := rfl
  have hvalid : (codePoint lead [x, y]).isValidChar := by
    rw [Nat.isValidChar]
    omega
  rw [utf8EncodeChar, toNat_ofNat_of_valid hvalid, if_neg (by omega), if_neg (by omega),
    if_pos (by omega)]
  simp only [List.cons.injEq, ofNat_eq_iff, and_true]
  omega

theorem encode_four (h : 0xF0 ≤ lead.toNat) (h' : lead.toNat < 0xF5)
    (hx : (0x80 ≤ x.toNat ∧ x.toNat ≤ 0xBF) ∧
      (lead.toNat = 0xF0 → 0x90 ≤ x.toNat) ∧ (lead.toNat = 0xF4 → x.toNat ≤ 0x8F))
    (hy : Within (0x80, 0xBF) y) (hz : Within (0x80, 0xBF) z) :
    utf8EncodeChar (Char.ofNat (codePoint lead [x, y, z])) = [lead, x, y, z] := by
  have hy := within_any.mp hy
  have hz := within_any.mp hz
  have hcode : codePoint lead [x, y, z] =
      ((lead.toNat % 8 * 64 + x.toNat % 64) * 64 + y.toNat % 64) * 64 + z.toNat % 64 := rfl
  have hvalid : (codePoint lead [x, y, z]).isValidChar := by
    rw [Nat.isValidChar]
    omega
  rw [utf8EncodeChar, toNat_ofNat_of_valid hvalid, if_neg (by omega), if_neg (by omega),
    if_neg (by omega)]
  simp only [List.cons.injEq, ofNat_eq_iff, and_true]
  omega

/-- Bytes that lie in all the ranges are a character, and its number is read off them. -/
theorem encode_of_fits (h : followers lead = some ranges)
    (hfit : List.Forall₂ Within ranges after) :
    utf8EncodeChar (Char.ofNat (codePoint lead after)) = lead :: after := by
  rcases lead_cases h with h1 | ⟨h2, h2'⟩ | ⟨h3, h3'⟩ | ⟨h4, h4'⟩
  · cases (followers_one h1).symm.trans h
    cases hfit
    exact encode_one h1
  · cases (followers_two h2 h2').symm.trans h
    obtain _ | ⟨hx, ⟨⟩⟩ := hfit
    exact encode_two h2 h2' hx
  · obtain ⟨second, hranges, hsecond⟩ := followers_three h3 h3'
    cases hranges.symm.trans h
    obtain _ | ⟨hx, _ | ⟨hy, ⟨⟩⟩⟩ := hfit
    exact encode_three h3 h3' ((hsecond _).mp hx) hy
  · obtain ⟨second, hranges, hsecond⟩ := followers_four h4 h4'
    cases hranges.symm.trans h
    obtain _ | ⟨hx, _ | ⟨hy, _ | ⟨hz, ⟨⟩⟩⟩⟩ := hfit
    exact encode_four h4 h4' ((hsecond _).mp hx) hy hz

theorem eq_of_encode_append (h : utf8EncodeChar c ++ rest = utf8EncodeChar d ++ rest') : c = d := by
  have hbytes := congrArg List.toByteArray h
  rw [List.toByteArray_append, List.toByteArray_append] at hbytes
  have hread := ByteArray.utf8DecodeChar?_utf8EncodeChar_append (b := rest.toByteArray) (c := c)
  rw [hbytes, ByteArray.utf8DecodeChar?_utf8EncodeChar_append] at hread
  exact (Option.some.inj hread).symm

/-- The bytes are the first ones of some character, or all of them. -/
def Begins (part : Bytes) : Prop := ∃ c, part <+: utf8EncodeChar c

theorem low_le_high (h : followers lead = some ranges) : ∀ range ∈ ranges, range.1 ≤ range.2 := by
  revert h
  fun_cases followers lead
  all_goals rintro ⟨⟩
  all_goals simp +zetaDelta

theorem begins_of_fits (h : followers lead = some ranges) (hearly : early <+: ranges)
    (hfit : List.Forall₂ Within early after) : Begins (lead :: after) := by
  obtain ⟨more, rfl⟩ := hearly
  -- the lowest byte of every range that is left completes a character
  have hlow : List.Forall₂ Within more (more.map Prod.fst) := by
    rw [List.forall₂_map_right_iff, List.forall₂_same]
    intro range hrange
    exact ⟨UInt8.le_refl _, low_le_high h range (List.mem_append_right _ hrange)⟩
  have hencode := encode_of_fits h (List.rel_append hfit hlow)
  exact ⟨_, more.map Prod.fst, hencode.symm⟩

theorem fits_of_begins (h : Begins (lead :: after)) :
    ∃ ranges early, followers lead = some ranges ∧ early <+: ranges ∧
      List.Forall₂ Within early after := by
  obtain ⟨c, more, hc⟩ := h
  obtain ⟨ranges, hranges, hfit⟩ := fits_of_encode hc.symm
  exact ⟨ranges, _, hranges, List.take_prefix _ _, List.forall₂_take_append _ _ _ hfit⟩

theorem fitting_le (ranges : List (UInt8 × UInt8)) (rest : Bytes) :
    fitting ranges rest ≤ ranges.length := by
  fun_induction fitting with
  | case1 low high ranges b rest hb ih => exact Nat.succ_le_succ ih
  | case2 => exact Nat.zero_le _
  | case3 => exact Nat.zero_le _

theorem fitting_le_right (ranges : List (UInt8 × UInt8)) (rest : Bytes) :
    fitting ranges rest ≤ rest.length := by
  fun_induction fitting with
  | case1 low high ranges b rest hb ih => exact Nat.succ_le_succ ih
  | case2 => exact Nat.zero_le _
  | case3 => exact Nat.zero_le _

theorem fits_fitting (ranges : List (UInt8 × UInt8)) (rest : Bytes) :
    List.Forall₂ Within (ranges.take (fitting ranges rest)) (rest.take (fitting ranges rest)) := by
  fun_induction fitting with
  | case1 low high ranges b rest hb ih => exact .cons hb ih
  | case2 => exact .nil
  | case3 => exact .nil

theorem length_le_fitting (hearly : early <+: ranges) (hafter : after <+: rest)
    (hfit : List.Forall₂ Within early after) : after.length ≤ fitting ranges rest := by
  induction hfit generalizing ranges rest with
  | nil => exact Nat.zero_le _
  | @cons range b early after hb hfit ih =>
    obtain ⟨ranges, rfl⟩ := hearly
    obtain ⟨rest, rfl⟩ := hafter
    have hrec := ih (List.prefix_append _ ranges) (List.prefix_append _ rest)
    have hrange : range.1 ≤ b ∧ b ≤ range.2 := hb
    rw [List.cons_append, List.cons_append, fitting, if_pos hrange]
    exact Nat.succ_le_succ hrec

/-- Where no character stands: the longest part at the front that begins a character, or a single
byte if none does. -/
structure MaximalSubpart (part text : Bytes) : Prop where
  ne_nil : part ≠ []
  no_char : ∀ c, ¬ utf8EncodeChar c <+: text
  at_front : part <+: text
  subpart : part.length = 1 ∨ Begins part
  longest : ∀ other, other <+: text → other.length = 1 ∨ Begins other → other.length ≤ part.length

theorem MaximalSubpart.unique {part' : Bytes} (h : MaximalSubpart part text)
    (h' : MaximalSubpart part' text) : part = part' := by
  have hle := h'.longest part h.at_front h.subpart
  have hge := h.longest part' h'.at_front h'.subpart
  have hprefix := List.prefix_of_prefix_length_le h.at_front h'.at_front hle
  exact hprefix.eq_of_length_le hge

theorem maximalSubpart_lead (h : followers lead = none) (rest : Bytes) :
    MaximalSubpart [lead] (lead :: rest) ∧ ¬ Begins [lead] := by
  have hno (part : Bytes) : ¬ Begins (lead :: part) := by
    intro hpart
    obtain ⟨ranges, _, hranges, _⟩ := fits_of_begins hpart
    cases h.symm.trans hranges
  refine ⟨⟨by simp, fun c hc => ?_, by simp, .inl rfl, fun other hother hsub => ?_⟩, hno []⟩
  · obtain hnil | ⟨q, hq, -⟩ := List.prefix_cons_iff.mp hc
    · exact String.utf8EncodeChar_ne_nil hnil
    · exact hno q ⟨c, by rw [hq]⟩
  · obtain rfl | ⟨q, rfl, -⟩ := List.prefix_cons_iff.mp hother
    · exact Nat.zero_le _
    · exact (hsub.resolve_right (hno q)).le

theorem maximalSubpart_fitting (h : followers lead = some ranges)
    (hless : fitting ranges rest ≠ ranges.length) :
    MaximalSubpart (lead :: rest.take (fitting ranges rest)) (lead :: rest) ∧
      Begins (lead :: rest.take (fitting ranges rest)) := by
  have hbegins := begins_of_fits h (List.take_prefix _ _) (fits_fitting ranges rest)
  have hlongest (q : Bytes) (hq : q <+: rest) (hbegins : Begins (lead :: q)) :
      q.length ≤ fitting ranges rest := by
    obtain ⟨_, early, hranges, hearly, hfit⟩ := fits_of_begins hbegins
    cases h.symm.trans hranges
    exact length_le_fitting hearly hq hfit
  refine ⟨⟨by simp, fun c hc => ?_, ?_, .inr hbegins, fun other hother hsub => ?_⟩, hbegins⟩
  · obtain hnil | ⟨q, hc, hq⟩ := List.prefix_cons_iff.mp hc
    · exact String.utf8EncodeChar_ne_nil hnil
    · -- a whole character would have filled all ranges
      obtain ⟨_, hranges, hfit⟩ := fits_of_encode hc
      cases h.symm.trans hranges
      have hwhole := hlongest q hq ⟨c, by rw [hc]⟩
      have hbound := fitting_le ranges rest
      have hlength := hfit.length_eq
      omega
  · exact List.cons_prefix_cons.mpr ⟨rfl, List.take_prefix _ _⟩
  · obtain rfl | ⟨q, rfl, hq⟩ := List.prefix_cons_iff.mp hother
    · exact Nat.zero_le _
    · have hwidth := fitting_le_right ranges rest
      rw [List.length_cons, List.length_cons, List.length_take, Nat.min_eq_left hwidth]
      rcases hsub with hone | hq'
      · rw [List.length_cons] at hone
        omega
      · exact Nat.succ_le_succ (hlongest q hq hq')

/-- What stands at the front of the bytes: a character, or a part that is none. -/
inductive Fronts (text : Bytes) : Piece → Prop
  | char {c : Char} {rest : Bytes} (split : text = utf8EncodeChar c ++ rest) :
      Fronts text (.char c (utf8EncodeChar c).length)
  | broken {part rest : Bytes} {ended : Bool} (split : text = part ++ rest)
      (bad : MaximalSubpart part text) (ends : ended = true ↔ rest = [] ∧ Begins part) :
      Fronts text (.broken part.length ended)

theorem fronts_front (lead : UInt8) (rest : Bytes) : Fronts (lead :: rest) (front lead rest) := by
  rw [front]
  cases h : followers lead with
  | none =>
    obtain ⟨hbad, hno⟩ := maximalSubpart_lead h rest
    exact .broken rfl hbad (by simp [hno])
  | some ranges =>
    have hwidth := fitting_le_right ranges rest
    dsimp only
    by_cases hall : fitting ranges rest = ranges.length
    · have hfit := fits_fitting ranges rest
      rw [List.take_of_length_le hall.ge] at hfit
      have hencode := encode_of_fits h hfit
      rw [if_pos hall]
      generalize Char.ofNat (codePoint lead (rest.take (fitting ranges rest))) = c at hencode ⊢
      have hlength := congrArg List.length hencode
      rw [List.length_cons, List.length_take, Nat.min_eq_left hwidth] at hlength
      have hsplit : lead :: rest = utf8EncodeChar c ++ rest.drop (fitting ranges rest) := by
        rw [hencode, List.cons_append, List.take_append_drop]
      rw [← hlength]
      exact .char hsplit
    · obtain ⟨hbad, hbegins⟩ := maximalSubpart_fitting h hall
      have hsplit : lead :: rest =
          (lead :: rest.take (fitting ranges rest)) ++ rest.drop (fitting ranges rest) := by simp
      have hends : (rest.drop (fitting ranges rest)).isEmpty = true ↔
          rest.drop (fitting ranges rest) = [] ∧
            Begins (lead :: rest.take (fitting ranges rest)) := by simp [hbegins]
      have hfront := Fronts.broken hsplit hbad hends
      rw [List.length_cons, List.length_take, Nat.min_eq_left hwidth] at hfront
      rwa [if_neg hall]

namespace Fronts

theorem ne_nil (h : Fronts text piece) : text ≠ [] := by
  rintro rfl
  cases h with
  | char split => exact String.utf8EncodeChar_ne_nil (List.append_eq_nil_iff.mp split.symm).1
  | broken _ bad => exact bad.ne_nil (List.prefix_nil.mp bad.at_front)

theorem width_pos (h : Fronts text piece) : 0 < piece.width := by
  cases h with
  | char => exact List.length_pos_of_ne_nil String.utf8EncodeChar_ne_nil
  | broken _ bad => exact List.length_pos_of_ne_nil bad.ne_nil

theorem unique (h : Fronts text piece) (h' : Fronts text piece') : piece = piece' := by
  cases h with
  | @char c rest split =>
    cases h' with
    | char split' =>
      obtain rfl := eq_of_encode_append (split.symm.trans split')
      rfl
    | broken _ bad' => exact absurd ⟨rest, split.symm⟩ (bad'.no_char c)
  | @broken part rest ended split bad ends =>
    cases h' with
    | @char c rest' split' => exact absurd ⟨rest', split'.symm⟩ (bad.no_char c)
    | @broken part' rest' ended' split' bad' ends' =>
      obtain rfl := bad.unique bad'
      obtain rfl := List.append_cancel_left (split.symm.trans split')
      obtain rfl : ended = ended' := Bool.eq_iff_iff.mpr (ends.trans ends'.symm)
      rfl

theorem pieces_eq (h : Fronts text piece) :
    pieces text = piece :: pieces (text.drop piece.width) := by
  obtain ⟨lead, rest, rfl⟩ := List.exists_cons_of_ne_nil h.ne_nil
  obtain ⟨n, hn⟩ := Nat.exists_eq_succ_of_ne_zero h.width_pos.ne'
  obtain rfl := h.unique (fronts_front lead rest)
  rw [pieces, hn, Nat.succ_sub_one, List.drop_succ_cons]

end Fronts

theorem pieces_nil : pieces [] = [] := by
  rw [pieces]

theorem pieces_char (c : Char) (rest : Bytes) :
    pieces (utf8EncodeChar c ++ rest) = .char c (utf8EncodeChar c).length :: pieces rest := by
  have hfront : Fronts (utf8EncodeChar c ++ rest) _ := .char rfl
  rw [hfront.pieces_eq, Piece.width, List.drop_left]

theorem pieces_broken (bad : MaximalSubpart part (part ++ rest)) :
    ∃ ended, (ended = true ↔ rest = [] ∧ Begins part) ∧
      pieces (part ++ rest) = .broken part.length ended :: pieces rest := by
  classical
  have hends := decide_eq_true_iff (p := rest = [] ∧ Begins part)
  have hfront : Fronts (part ++ rest) _ := .broken rfl bad hends
  refine ⟨_, hends, ?_⟩
  rw [hfront.pieces_eq, Piece.width, List.drop_left]

/-- A byte string is empty, or a character and what follows it, or a maximal subpart where none
stands and what follows that. -/
@[elab_as_elim]
theorem front_induction {motive : Bytes → Prop} (empty : motive [])
    (char : ∀ c rest, motive rest → motive (utf8EncodeChar c ++ rest))
    (broken : ∀ part rest, MaximalSubpart part (part ++ rest) → motive rest →
      motive (part ++ rest)) (text : Bytes) : motive text := by
  induction hn : text.length using Nat.strong_induction_on generalizing text with
  | _ n ih =>
    subst hn
    cases text with
    | nil => exact empty
    | cons lead tail =>
      have hfront := fronts_front lead tail
      generalize front lead tail = piece at hfront
      have hwidth := hfront.width_pos
      cases hfront with
      | @char c rest split =>
        rw [split] at ih ⊢
        refine char c rest (ih _ ?_ rest rfl)
        rw [List.length_append]
        exact Nat.lt_add_of_pos_left hwidth
      | @broken part rest ended split bad =>
        rw [split] at bad ih ⊢
        refine broken part rest bad (ih _ ?_ rest rfl)
        rw [List.length_append]
        exact Nat.lt_add_of_pos_left hwidth

end VethPeer.Utf8
