import Mathlib
import VethPeer.Bytes.Codec
import VethPeer.Net.Subnet
import VethPeer.Proofs.Ip.Text
import VethPeer.Proofs.Net.Containment

/-! The text of a subnet is read as that subnet again, and which texts are read as subnets. -/
namespace VethPeer.Subnet

variable {text front back : String} {a : Ip} {n : ℕ} {s : Subnet} {f : Failure}

/-- The texts that stand for a subnet: an address for itself alone, or an address, a slash and a
length that the address has room for. -/
inductive Written : String → Subnet → Prop
  | bare {text : String} {a : Ip} (whole : '/' ∉ text.toList) (address : Ip.ofText? text = some a) :
      Written text (host a)
  | slashed {front back : String} {a : Ip} {n : ℕ} (whole : '/' ∉ front.toList)
      (address : Ip.ofText? front = some a) (number : Numeral.Spells back.toList n)
      (fits : n ≤ a.width) : Written (front ++ "/" ++ back) ⟨a, n, fits⟩

theorem width_le (a : Ip) : a.width ≤ 128 := by
  cases a <;> simp [Ip.width]

theorem ofAddress_of_le (h : n ≤ a.width) : ofAddress a n = .ok ⟨a, n, h⟩ := by
  rw [ofAddress, dif_pos h]

/-- Every text has no slash, or a first one. -/
theorem no_slash_or_first (text : String) :
    '/' ∉ text.toList ∨
      ∃ front back : String, '/' ∉ front.toList ∧ text = front ++ "/" ++ back := by
  by_cases h : '/' ∈ text.toList
  · obtain ⟨before, after, hsplit, hbefore⟩ := List.eq_append_cons_of_mem h
    refine .inr ⟨String.ofList before, String.ofList after, by simpa using hbefore, ?_⟩
    apply String.toList_inj.mp
    simp [hsplit]
  · exact .inl h

theorem ofText_no_slash (h : '/' ∉ text.toList) :
    ofText text =
      match Ip.ofText? text with
      | some a => .ok (host a)
      | none => .error (.target (.notSubnet text)) := by
  simp only [ofText, takeWhile_ne h, List.drop_length, Ip.ofText?]
  cases Ip.ofChars? text.toList <;> rfl

theorem ofText_slashed (h : '/' ∉ front.toList) (back : String) :
    ofText (front ++ "/" ++ back) =
      match Ip.ofText? front, (Numeral.natural? back).filter (· < 256) with
      | some a, some n => ofAddress a n
      | _, _ => .error (.target (.notSubnet (front ++ "/" ++ back))) := by
  have hlist : (front ++ "/" ++ back).toList = front.toList ++ '/' :: back.toList := by simp
  simp only [ofText, hlist, takeWhile_ne_append h, List.drop_left, Ip.ofText?]
  cases Ip.ofChars? front.toList with
  | none => rfl
  | some a =>
    dsimp only
    rw [String.ofList_toList]
    cases (Numeral.natural? back).filter (· < 256) <;> rfl

theorem ofText_of_written (h : Written text s) : ofText text = .ok s := by
  cases h with
  | bare whole address => rw [ofText_no_slash whole, address]
  | @slashed front back a n whole address number fits =>
    have hwidth := width_le a
    have hnumber : (Numeral.natural? back).filter (· < 256) = some n := by
      rw [Numeral.natural?_eq_some_iff.mpr number]
      exact if_pos (decide_eq_true (by omega))
    rw [ofText_slashed whole, address, hnumber]
    exact ofAddress_of_le fits

/-- A text that stands for no subnet is refused whole, or for its length if that alone is wrong. -/
theorem written_or_refused (text : String) :
    (∃ s, Written text s) ∨ ofText text = .error (.target (.notSubnet text)) ∨
      ∃ a n, a.width < n ∧ ofText text = .error (.target (.tooLong n a)) := by
  rcases no_slash_or_first text with whole | ⟨front, back, whole, rfl⟩
  · cases address : Ip.ofText? text with
    | some a => exact .inl ⟨_, .bare whole address⟩
    | none =>
      rw [ofText_no_slash whole, address]
      exact .inr (.inl rfl)
  · rw [ofText_slashed whole]
    cases address : Ip.ofText? front with
    | none => exact .inr (.inl rfl)
    | some a =>
      cases number : (Numeral.natural? back).filter (· < 256) with
      | none => exact .inr (.inl rfl)
      | some n =>
        by_cases fits : n ≤ a.width
        · have hspells := Numeral.natural?_eq_some_iff.mp (Option.filter_eq_some_iff.mp number).1
          exact .inl ⟨_, .slashed whole address hspells fits⟩
        · exact .inr (.inr ⟨a, n, not_le.mp fits, dif_neg fits⟩)

theorem ofText_eq_ok_iff : ofText text = .ok s ↔ Written text s := by
  refine ⟨fun h => ?_, ofText_of_written⟩
  rcases written_or_refused text with ⟨s', hs'⟩ | hno | ⟨a, n, -, hlong⟩
  · obtain rfl : s = s' := Except.ok.inj (h.symm.trans (ofText_of_written hs'))
    exact hs'
  · rw [hno] at h
    cases h
  · rw [hlong] at h
    cases h

theorem written_text (s : Subnet) : Written s.text s := by
  obtain ⟨a, n, fits⟩ := s
  have htext : text ⟨a, n, fits⟩ = a.text ++ "/" ++ toString n := rfl
  have hslash : '/' ∉ a.text.toList := by
    rw [Ip.text, String.toList_ofList]
    intro hc
    rcases Ip.mem_chars hc with h | h | h <;> cases h
  rw [htext]
  exact .slashed hslash (Ip.ofText?_text a) (Numeral.spells_toString n) fits

/-- Every subnet is read back from its text. A text is read as a subnet exactly if it is written as
one, whatever zeros or plus sign its length has in front; every other text is refused as a target,
and no subnet that is read is longer than its address. -/
theorem ofText_written :
    (∀ s : Subnet, ofText s.text = .ok s) ∧
    (∀ text s, ofText text = .ok s ↔ Written text s) ∧
    (∀ text f, ofText text = .error f → f = .target (.notSubnet text) ∨
      ∃ a n, a.width < n ∧ f = .target (.tooLong n a)) ∧
    ∀ text s, ofText text = .ok s → s.length ≤ s.address.width := by
  refine ⟨fun s => ofText_of_written s.written_text, fun _ _ => ofText_eq_ok_iff, ?_, ?_⟩
  · intro text f h
    rcases written_or_refused text with ⟨s, hs⟩ | hno | ⟨a, n, hn, hlong⟩
    · rw [ofText_of_written hs] at h
      cases h
    · exact .inl (Except.error.inj (h.symm.trans hno))
    · exact .inr ⟨a, n, hn, Except.error.inj (h.symm.trans hlong)⟩
  · intro _ s _
    exact s.length_le

/-- Zeros and a plus sign make no difference, a second slash is refused, and so is a length that the
address has no room for. -/
theorem ofText_written_tenNet :
    ofText tenNet.text = .ok tenNet ∧ Written "10.64.0.0/+010" tenNet ∧
    (∃ f, ofText "10.64.0.0/10/" = .error f ∧ (f = .target (.notSubnet "10.64.0.0/10/") ∨
      ∃ a n, a.width < n ∧ f = .target (.tooLong n a))) ∧
    tenNet.length ≤ tenNet.address.width := by
  obtain ⟨hback, hwritten, hrefused, hlength⟩ := ofText_written
  have hread : ofText "10.64.0.0/+010" = .ok tenNet := by cbv
  exact ⟨hback tenNet, (hwritten _ _).mp hread, ⟨_, by cbv, hrefused "10.64.0.0/10/" _ (by cbv)⟩,
    hlength _ _ hread⟩

end VethPeer.Subnet
