import Mathlib
import VethPeer.Text.Numeral

/-! The digits of a number stand for that number, up to what their count can hold, and its text is
read back. -/
namespace VethPeer.Numeral

variable {base n most : ℕ}

theorem gather_spread (base count n : ℕ) :
    gather base (spread base count n) = n % base ^ count := by
  induction count generalizing n with
  | zero => simp [spread, gather, Nat.mod_one]
  | succ count ih =>
    simp only [gather] at ih
    simp only [gather, spread, List.foldl_append, List.foldl_cons, List.foldl_nil, ih]
    rw [Nat.pow_succ', Nat.mod_mul, Nat.mul_comm base]
    omega

theorem mem_spread_lt {count d : ℕ} (hb : 0 < base) (hd : d ∈ spread base count n) : d < base := by
  induction count generalizing n with
  | zero => cases hd
  | succ count ih =>
    rcases List.mem_append.mp hd with hd | hd
    · exact ih hd
    · rw [List.mem_singleton.mp hd]
      exact Nat.mod_lt _ hb

theorem spread_add (base n low high : ℕ) :
    spread base (high + low) n = spread base high (n / base ^ low) ++ spread base low n := by
  induction low generalizing n with
  | zero => simp [spread]
  | succ low ih =>
    rw [← Nat.add_assoc, spread, spread, ih, Nat.div_div_eq_div_mul, ← Nat.pow_succ',
      List.append_assoc]

theorem spread_mod (base count n : ℕ) :
    spread base count (n % base ^ count) = spread base count n := by
  induction count generalizing n with
  | zero => rfl
  | succ count ih =>
    rw [spread, spread, Nat.pow_succ', Nat.mod_mul_right_div_self, ih, Nat.mod_mul_right_mod]

theorem digitValue?_of_isDigit {c : Char} (h : c.isDigit = true) :
    digitValue? 10 c = some (c.toNat - 48) := by
  have hb : '0' ≤ c ∧ c ≤ '9' := by simpa [Char.isDigit, Char.le_def] using h
  have hle : c.toNat ≤ 57 := hb.2
  have hlt : c.toNat - 48 < 10 := by omega
  simp only [digitValue?, if_pos hb, if_pos hlt]

theorem mapM_digitValue? {cs : List Char} (h : ∀ c ∈ cs, c.isDigit = true) :
    cs.mapM (digitValue? 10) = some (cs.map fun c => c.toNat - 48) := by
  induction cs with
  | nil => rfl
  | cons c cs ih =>
    have hc := digitValue?_of_isDigit (h c (by simp))
    have hcs := ih fun d hd => h d (by simp [hd])
    simp [List.mapM_cons, hc, hcs]

theorem gather_map (cs : List Char) :
    gather 10 (cs.map fun c => c.toNat - 48) = Nat.ofDigitChars 10 cs 0 := by
  rw [Nat.ofDigitChars_eq_foldl, gather, List.foldl_map]
  congr 1
  funext n c
  rw [Nat.mul_comm]
  rfl

theorem decimal?_of_digits {cs : List Char} (h : ∀ c ∈ cs, c.isDigit = true) (hn : cs ≠ []) :
    decimal? cs = some (Nat.ofDigitChars 10 cs 0) := by
  rw [decimal?, mapM_digitValue? h, ← gather_map]
  cases cs with
  | nil => exact (hn rfl).elim
  | cons c cs => rfl

theorem isDigit_of_mem_toString {n : ℕ} {c : Char} (h : c ∈ (toString n).toList) :
    c.isDigit = true := by
  rw [Nat.toString_eq_ofList_toDigits, String.toList_ofList] at h
  exact Nat.isDigit_of_mem_toDigits (by decide) (by decide) h

theorem decimal?_toString (n : ℕ) : decimal? (toString n).toList = some n := by
  rw [decimal?_of_digits (fun c hc => isDigit_of_mem_toString hc) (by simp),
    Nat.toString_eq_ofList_toDigits, String.toList_ofList, Nat.ofDigitChars_ten_toDigits]

/-- A number is read back from its text. -/
theorem integer?_toString (n : ℕ) : integer? (toString n) = some (n : ℤ) := by
  have hdigit {c : Char} : c ∈ (toString n).toList → c.isDigit = true := isDigit_of_mem_toString
  rw [integer?]
  split
  · rename_i cs he
    have hsign : '-' ∈ (toString n).toList := he ▸ List.mem_cons_self
    cases hdigit hsign
  · rename_i cs he
    have hsign : '+' ∈ (toString n).toList := he ▸ List.mem_cons_self
    cases hdigit hsign
  · rw [decimal?_toString]
    rfl

/-- The decimal number that a text stands for: there is a digit, zeros may come first, and a plus
sign may stand in front. -/
inductive Spells : List Char → ℕ → Prop
  | bare {ds : List Char} (some : ds ≠ []) (digits : ∀ c ∈ ds, c.isDigit = true) :
      Spells ds (Nat.ofDigitChars 10 ds 0)
  | signed {ds : List Char} (some : ds ≠ []) (digits : ∀ c ∈ ds, c.isDigit = true) :
      Spells ('+' :: ds) (Nat.ofDigitChars 10 ds 0)

theorem isDigit_of_digitValue? {c : Char} {d : ℕ} (h : digitValue? 10 c = some d) :
    c.isDigit = true := by
  by_cases hc : '0' ≤ c ∧ c ≤ '9'
  · simpa [Char.isDigit, Char.le_def] using hc
  · -- a letter stands for ten or more
    simp only [digitValue?, if_neg hc] at h
    split_ifs at h with hlower hvalue hupper hvalue hvalue
    · have hle : 97 ≤ c.toNat := hlower.1
      omega
    · have hle : 65 ≤ c.toNat := hupper.1
      omega
    · exact absurd hvalue (lt_irrefl 10)

theorem isDigit_of_mapM {cs : List Char} {ds : List ℕ} (h : cs.mapM (digitValue? 10) = some ds) :
    ∀ c ∈ cs, c.isDigit = true := by
  induction cs generalizing ds with
  | nil => nofun
  | cons c cs ih =>
    rw [List.mapM_cons] at h
    obtain ⟨d, hd, h⟩ := Option.bind_eq_some_iff.mp h
    obtain ⟨ds', hds, -⟩ := Option.bind_eq_some_iff.mp h
    exact List.forall_mem_cons.mpr ⟨isDigit_of_digitValue? hd, ih hds⟩

theorem decimal?_eq_some_iff {cs : List Char} :
    decimal? cs = some n ↔
      cs ≠ [] ∧ (∀ c ∈ cs, c.isDigit = true) ∧ Nat.ofDigitChars 10 cs 0 = n := by
  constructor
  · intro h
    have hdigits : ∀ c ∈ cs, c.isDigit = true := by
      cases hm : cs.mapM (digitValue? 10) with
      | none => simp [decimal?, hm] at h
      | some ds => exact isDigit_of_mapM hm
    have hne : cs ≠ [] := by
      rintro rfl
      cases h
    rw [decimal?_of_digits hdigits hne] at h
    exact ⟨hne, hdigits, Option.some.inj h⟩
  · rintro ⟨hne, hdigits, rfl⟩
    exact decimal?_of_digits hdigits hne

theorem natural?_eq_some_iff {s : String} : natural? s = some n ↔ Spells s.toList n := by
  rw [natural?]
  split
  · rename_i cs he
    rw [he, decimal?_eq_some_iff]
    constructor
    · rintro ⟨hne, hdigits, rfl⟩
      exact .signed hne hdigits
    · intro h
      cases h with
      | bare some digits => cases digits '+' List.mem_cons_self
      | signed some digits => exact ⟨some, digits, rfl⟩
  · rename_i cs hplus
    rw [decimal?_eq_some_iff]
    constructor
    · rintro ⟨hne, hdigits, rfl⟩
      exact .bare hne hdigits
    · intro h
      generalize s.toList = cs at h hplus
      cases h with
      | bare some digits => exact ⟨some, digits, rfl⟩
      | signed some digits => exact (hplus _ rfl).elim

theorem spells_toString (n : ℕ) : Spells (toString n).toList n := by
  obtain ⟨hne, hdigits, hvalue⟩ := decimal?_eq_some_iff.mp (decimal?_toString n)
  have hspells := Spells.bare hne hdigits
  rwa [hvalue] at hspells

theorem digitValue?_digitChar {d : ℕ} (h16 : base ≤ 16) (hd : d < base) :
    digitValue? base (digitChar d) = some d := by
  have hd16 : d < 16 := hd.trans_le h16
  interval_cases d <;> simp [digitValue?, digitChar, hd]

theorem digits_ne_nil (base n : ℕ) : digits base n ≠ [] := by
  rw [digits]
  split <;> simp

theorem isSome_of_mem_digits {c : Char} (hb : 1 < base) (h16 : base ≤ 16) (hc : c ∈ digits base n) :
    (digitValue? base c).isSome = true := by
  fun_induction digits base n with
  | case1 n hn =>
    rw [List.mem_singleton.mp hc, digitValue?_digitChar h16 (by omega)]
    rfl
  | case2 n hn ih =>
    rcases List.mem_append.mp hc with hc | hc
    · exact ih hc
    · rw [List.mem_singleton.mp hc, digitValue?_digitChar h16 (Nat.mod_lt _ (by omega))]
      rfl

theorem gather_digits (hb : 1 < base) (h16 : base ≤ 16) (n : ℕ) :
    gather base ((digits base n).filterMap (digitValue? base)) = n := by
  fun_induction digits base n with
  | case1 n hn =>
    have hvalue := digitValue?_digitChar h16 (show n < base by omega)
    simp [hvalue, gather]
  | case2 n hn ih =>
    have hvalue := digitValue?_digitChar h16 (Nat.mod_lt n (show 0 < base by omega))
    rw [gather] at ih
    rw [List.filterMap_append, gather, List.foldl_append, ih, List.filterMap_cons_some hvalue]
    exact Nat.div_add_mod' n base

theorem length_digits_le (hm : 0 < most) (hn : n < base ^ most) :
    (digits base n).length ≤ most := by
  fun_induction digits base n generalizing most with
  | case1 => exact hm
  | case2 n hbase ih =>
    obtain ⟨most, rfl⟩ := Nat.exists_eq_succ_of_ne_zero hm.ne'
    rw [Nat.pow_succ] at hn
    have hdiv : n / base < base ^ most := Nat.div_lt_of_lt_mul (by rwa [Nat.mul_comm])
    have hpos : 0 < most := by
      rcases Nat.eq_zero_or_pos most with rfl | hpos
      · rw [Nat.pow_zero, Nat.one_mul] at hn
        exact absurd (Or.inl hn) hbase
      · exact hpos
    have hlength := ih hpos hdiv
    simpa using hlength

/-- Only zero is written with a zero in front. -/
theorem eq_zero_of_head?_digits (hb : 1 < base) (h16 : base ≤ 16)
    (h : (digits base n).head? = some '0') : n = 0 := by
  fun_induction digits base n with
  | case1 n hn =>
    have hvalue := digitValue?_digitChar h16 (show n < base by omega)
    have hzero := digitValue?_digitChar (d := 0) h16 (by omega)
    have hchar : digitChar n = digitChar 0 := Option.some.inj h
    rw [hchar, hzero] at hvalue
    exact (Option.some.inj hvalue).symm
  | case2 n hn ih =>
    rw [List.head?_append_of_ne_nil _ (digits_ne_nil _ _)] at h
    have hdiv := ih h
    rw [Nat.div_eq_zero_iff] at hdiv
    omega

end VethPeer.Numeral
