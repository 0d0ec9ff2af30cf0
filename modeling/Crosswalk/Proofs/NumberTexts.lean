import Crosswalk.Proofs.ShortestDigits

/-!
# Numbers that are read back

The text of a number of the format `double` is read back as the number, if it is the decimal with the fewest
digits. Whole numbers are written as integers of 64 bits, which gives the number back up to `2 ^ 63` and
no number beyond that.
-/

namespace Crosswalk.Number

variable {fmt : NumberFormat} {s : Bool} {m n count : Nat} {e k : Int} {cs whole fraction : List Char} {d : Decimal}

/-! ## Digits -/

theorem exists_toDigits_cons (hn : n ≠ 0) : ∃ c rest, Nat.toDigits 10 n = c :: rest ∧ c ≠ '0' := by
  induction n using Nat.strongRecOn with
  | ind n ih =>
    by_cases hsmall : n < 10
    · have hdigit : ∀ k < 10, k ≠ 0 → k.digitChar ≠ '0' := by decide
      exact ⟨_, [], Nat.toDigits_of_lt_base hsmall, hdigit n hsmall hn⟩
    · obtain ⟨c, rest, hrest, hc⟩ := ih (n / 10) (by omega) (by omega)
      refine ⟨c, rest ++ Nat.toDigits 10 (n % 10), ?_, hc⟩
      rw [← List.cons_append, ← hrest, Nat.toDigits_append_toDigits (by decide) (by omega) (by omega),
        Nat.div_add_mod]

/-- The digits of a natural begin with none that would not count. -/
theorem dropWhile_toDigits_append (hn : n ≠ 0) (cs : List Char) :
    (Nat.toDigits 10 n ++ cs).dropWhile (· == '0') = Nat.toDigits 10 n ++ cs := by
  obtain ⟨c, rest, hrest, hc⟩ := exists_toDigits_cons hn
  rw [hrest, List.cons_append, List.dropWhile_cons_of_neg (by simpa using hc)]

theorem isDigit_of_mem_digits {c : Char} (hc : c ∈ digits n) : c.isDigit = true :=
  Nat.isDigit_of_mem_toDigits (by decide) (by decide) hc

theorem pow_length_toDigits (hn : n ≠ 0) :
    10 ^ ((Nat.toDigits 10 n).length - 1) ≤ n ∧ n < 10 ^ (Nat.toDigits 10 n).length := by
  have hpos : 0 < (Nat.toDigits 10 n).length := List.length_pos_iff.2 Nat.toDigits_ne_nil
  refine ⟨?_, (Nat.length_toDigits_le_iff (by decide) hpos).1 le_rfl⟩
  by_cases hone : (Nat.toDigits 10 n).length = 1
  · rw [hone]
    exact Nat.one_le_iff_ne_zero.2 hn
  · have hle := Nat.length_toDigits_le_iff (n := n) (k := (Nat.toDigits 10 n).length - 1) (b := 10)
      (by decide) (by omega)
    exact Nat.not_lt.1 (mt hle.2 (by omega))

/-! ## Reading decimals -/

variable (fmt s) in
/-- A decimal that is not far outside the range is rounded as a ratio. -/
theorem ofDecimal_spec (hn : n ≠ 0) (hlow : -400 ≤ k + count) (hhigh : k + count ≤ 400) :
    ∃ num den, 0 < den ∧ ofDecimal fmt s n count k = ofRatio fmt s num den ∧
      (num / den : ℚ) = n * 10 ^ k := by
  simp only [ofDecimal, if_neg hn, if_neg (not_lt.2 hhigh), if_neg (not_lt.2 hlow)]
  cases k with
  | ofNat j => exact ⟨_, _, Nat.one_pos, rfl, by simp⟩
  | negSucc j => exact ⟨_, _, Nat.pow_pos (by decide), rfl, by simp [zpow_negSucc, div_eq_mul_inv]⟩

theorem readUnsigned?_whole (hne : whole ≠ []) (hwhole : ∀ c ∈ whole, c.isDigit = true) :
    readUnsigned? fmt s whole =
      some (ofDecimal fmt s (digitsValue whole) (whole.dropWhile (· == '0')).length 0) := by
  have htake : whole.takeWhile Char.isDigit = whole := List.takeWhile_eq_self_iff.2 hwhole
  have hdrop : whole.dropWhile Char.isDigit = [] := List.dropWhile_eq_nil_iff.2 hwhole
  simp [readUnsigned?, htake, hdrop, hne, readExponent?, digitsValue_dropWhile_zero]

theorem readUnsigned?_point (hne : whole ≠ []) (hwhole : ∀ c ∈ whole, c.isDigit = true)
    (hfraction : ∀ c ∈ fraction, c.isDigit = true) :
    readUnsigned? fmt s (whole ++ '.' :: fraction) =
      some (ofDecimal fmt s (digitsValue (whole ++ fraction))
        ((whole ++ fraction).dropWhile (· == '0')).length (-fraction.length)) := by
  have htake : (whole ++ '.' :: fraction).takeWhile Char.isDigit = whole := by
    rw [List.takeWhile_append_of_pos hwhole, List.takeWhile_cons_of_neg (by decide), List.append_nil]
  have hdrop : (whole ++ '.' :: fraction).dropWhile Char.isDigit = '.' :: fraction := by
    rw [List.dropWhile_append_of_pos hwhole, List.dropWhile_cons_of_neg (by decide)]
  have htake' : fraction.takeWhile Char.isDigit = fraction := List.takeWhile_eq_self_iff.2 hfraction
  have hdrop' : fraction.dropWhile Char.isDigit = [] := List.dropWhile_eq_nil_iff.2 hfraction
  simp [readUnsigned?, htake, hdrop, htake', hdrop', hne, readExponent?, digitsValue_dropWhile_zero]

/-- Positional notation without padding: zeros before the digits, or behind them, or a point within. -/
theorem positional_zero (d : Decimal) : positional 0 d =
    if ((digits d.digits).length : Int) + d.exponent ≤ 0 then
      '0' :: '.' :: (List.replicate (-((digits d.digits).length + d.exponent)).toNat '0' ++ digits d.digits)
    else if 0 ≤ d.exponent then digits d.digits ++ List.replicate d.exponent.toNat '0'
    else
      (digits d.digits).take ((digits d.digits).length + d.exponent).toNat ++
        '.' :: (digits d.digits).drop ((digits d.digits).length + d.exponent).toNat := by
  have hne : digits d.digits ≠ [] := Nat.toDigits_ne_nil
  rw [positional]
  dsimp only
  split
  · simp [hne]
  · split
    · simp
    · have hdrop : ¬ (digits d.digits).length ≤ ((digits d.digits).length + d.exponent).toNat := by omega
      simp [hdrop]

theorem digitsValue_append_zeros (cs : List Char) (n : Nat) :
    digitsValue (cs ++ List.replicate n '0') = 10 ^ n * digitsValue cs :=
  (Nat.ofDigitChars_append 0).trans Nat.ofDigitChars_replicate_zero

theorem isDigit_of_mem_zeros {c : Char} (hc : c ∈ List.replicate n '0') : c.isDigit = true :=
  (List.eq_of_mem_replicate hc) ▸ by decide

variable (fmt s) in
/-- The digits of a decimal, with zeros before them and a point where its exponent says, are read as it. -/
theorem readUnsigned?_pointed (hd : d.digits ≠ 0) (hne : whole ≠ [])
    (happend : whole ++ fraction = List.replicate n '0' ++ digits d.digits)
    (hlength : (-fraction.length : Int) = d.exponent) :
    readUnsigned? fmt s (whole ++ '.' :: fraction) =
      some (ofDecimal fmt s d.digits (digits d.digits).length d.exponent) := by
  have hall : ∀ c ∈ whole ++ fraction, c.isDigit = true := by
    rw [happend]
    exact List.forall_mem_append.2 ⟨fun c hc => isDigit_of_mem_zeros hc, fun c hc => isDigit_of_mem_digits hc⟩
  have hdrop : (whole ++ fraction).dropWhile (· == '0') = digits d.digits := by
    rw [happend, List.dropWhile_append_of_pos (by simp)]
    simpa only [List.append_nil, digits] using dropWhile_toDigits_append hd []
  have hread : digitsValue (whole ++ fraction) = d.digits := by
    rw [← digitsValue_dropWhile_zero, hdrop]
    exact digitsValue_toDigits _
  obtain ⟨hwhole, hfraction⟩ := List.forall_mem_append.1 hall
  rw [readUnsigned?_point hne hwhole hfraction, hdrop, hread, hlength]

variable (fmt s) in
/-- The text of a decimal is read as the decimal. -/
theorem readUnsigned?_positional (hd : d.digits ≠ 0) : ∃ n count k,
    readUnsigned? fmt s (positional 0 d) = some (ofDecimal fmt s n count k) ∧ n ≠ 0 ∧
      (n * 10 ^ k : ℚ) = d.value ∧ k + count = (digits d.digits).length + d.exponent := by
  have hne : digits d.digits ≠ [] := Nat.toDigits_ne_nil
  rw [positional_zero]
  split
  next hsmall =>
    generalize hpoint : ((digits d.digits).length : Int) + d.exponent = point at *
    have hlength : (-(List.replicate (-point).toNat '0' ++ digits d.digits).length : Int) = d.exponent := by
      rw [List.length_append, List.length_replicate]
      omega
    have hread := readUnsigned?_pointed fmt s hd (List.cons_ne_nil '0' []) (n := (-point).toNat + 1) rfl hlength
    exact ⟨_, _, _, hread, hd, rfl, by omega⟩
  next hlarge =>
    split
    next hexponent =>
      refine ⟨_, _, _, readUnsigned?_whole (by simp [hne]) (List.forall_mem_append.2
        ⟨fun c hc => isDigit_of_mem_digits hc, fun c hc => isDigit_of_mem_zeros hc⟩), ?_⟩
      have hvalue : digitsValue (digits d.digits) = d.digits := digitsValue_toDigits _
      rw [digits, dropWhile_toDigits_append hd, ← digits, digitsValue_append_zeros, hvalue, List.length_append,
        List.length_replicate]
      refine ⟨Nat.mul_ne_zero (Nat.pow_pos (by decide)).ne' hd, ?_, by omega⟩
      obtain ⟨j, hj⟩ := Int.eq_ofNat_of_zero_le hexponent
      rw [Decimal.value, hj]
      push_cast
      simp [mul_comm]
    next hexponent =>
      have htake : (digits d.digits).take ((digits d.digits).length + d.exponent).toNat ≠ [] := by
        simp only [ne_eq, List.take_eq_nil_iff, hne, or_false]
        omega
      have hlength : (-((digits d.digits).drop
          ((digits d.digits).length + d.exponent).toNat).length : Int) = d.exponent := by
        rw [List.length_drop]
        omega
      have hread := readUnsigned?_pointed fmt s hd htake (n := 0) (List.take_append_drop ..) hlength
      exact ⟨_, _, _, hread, hd, rfl, by omega⟩

/-! ## Reading numbers back -/

/-- A decimal lies between the power of ten of its first digit and the next one. -/
theorem decimal_value_bounds (hd : d.digits ≠ 0) :
    (10 : ℚ) ^ (((digits d.digits).length : Int) + d.exponent - 1) ≤ d.value ∧
      d.value < (10 : ℚ) ^ (((digits d.digits).length : Int) + d.exponent) := by
  obtain ⟨hlow, hhigh⟩ := pow_length_toDigits hd
  have hlength : 0 < (digits d.digits).length := List.length_pos_iff.2 Nat.toDigits_ne_nil
  rw [← digits] at hlow hhigh
  have hten := ten_zpow_pos d.exponent
  have hsplit : ((digits d.digits).length : Int) + d.exponent - 1 =
      ((digits d.digits).length - 1 : Nat) + d.exponent := by omega
  rw [hsplit, zpow_add₀ (by norm_num), zpow_add₀ (by norm_num), zpow_natCast, zpow_natCast]
  exact ⟨mul_le_mul_of_nonneg_right (by exact_mod_cast hlow) hten.le,
    mul_lt_mul_of_pos_right (by exact_mod_cast hhigh) hten⟩

/-- The range of the ratios that are rounded to numbers other than zero. -/
theorem RoundsTo.range {v : ℚ} (h : RoundsTo .double v m e) (hm : m ≠ 0)
    (hfit : NumberFormat.double.Fits m e) : (2 : ℚ) ^ (-1075 : Int) ≤ v ∧ v ≤ (10 : ℚ) ^ (384 : Int) := by
  have hunit := two_zpow_pos e
  have hone : (1 : ℚ) ≤ m := by exact_mod_cast Nat.one_le_iff_ne_zero.2 hm
  have hprecise : (m : ℚ) + 1 ≤ 2 ^ 53 := by exact_mod_cast hfit.precise
  have hleast : -1074 ≤ e := hfit.least
  have hreach := reach_le .double m e
  refine ⟨le_trans ?_ h.bounds.1, h.bounds.2.trans ?_⟩
  · calc (2 : ℚ) ^ (-1075 : Int) ≤ 2 ^ (e - 1) := zpow_le_zpow_right₀ one_le_two (by omega)
      _ = 1 / 2 * 2 ^ e := by rw [zpow_sub_one₀ two_ne_zero, mul_comm, one_div]
      _ ≤ (m - reach .double m e) * 2 ^ e := mul_le_mul_of_nonneg_right (by linarith) hunit.le
  · calc ((m : ℚ) + 1 / 2) * 2 ^ e ≤ 2 ^ 53 * 2 ^ (971 : Int) :=
          mul_le_mul (by linarith) (zpow_le_zpow_right₀ one_le_two hfit.greatest) hunit.le (by positivity)
      _ = (2 ^ 8) ^ 128 := by rw [← pow_mul, ← zpow_natCast, ← zpow_natCast, ← zpow_add₀ two_ne_zero]; rfl
      _ ≤ (10 ^ 3) ^ 128 := pow_le_pow_left₀ (by norm_num) (by norm_num) _
      _ = 10 ^ (384 : Int) := by rw [← pow_mul, ← zpow_natCast]; rfl

/-- The first digit of a decimal that is written for a number is near its power of ten. -/
theorem point_bounds (hm : m ≠ 0) (hfit : NumberFormat.double.Fits m e)
    (hrounds : RoundsTo .double d.value m e) (hd : d.digits ≠ 0) :
    -400 ≤ ((digits d.digits).length : Int) + d.exponent ∧
      ((digits d.digits).length : Int) + d.exponent ≤ 400 := by
  obtain ⟨hlow, hhigh⟩ := hrounds.range hm hfit
  obtain ⟨hpointLow, hpointHigh⟩ := decimal_value_bounds hd
  have hstart := (ten_zpow_le_two_zpow (j := -1075) (by decide)).trans_lt (hlow.trans_lt hpointHigh)
  have hleast := (zpow_lt_zpow_iff_right₀ (by norm_num)).1 hstart
  have hgreatest := (zpow_le_zpow_iff_right₀ (by norm_num)).1 (hpointLow.trans hhigh)
  omega

/-- A decimal that is rounded to a number is read as the number. -/
theorem readUnsigned?_of_roundsTo (hm : m ≠ 0) (hfit : NumberFormat.double.Fits m e)
    (hrounds : RoundsTo .double d.value m e) (hd : d.digits ≠ 0) :
    readUnsigned? .double s (positional 0 d) = some (.finite s m e) := by
  obtain ⟨hlow, hhigh⟩ := point_bounds hm hfit hrounds hd
  obtain ⟨n, count, k, hread, hn, hvalue, hpoint⟩ := readUnsigned?_positional .double s hd
  rw [← hpoint] at hlow hhigh
  obtain ⟨num, den, hden, hratio, heq⟩ := ofDecimal_spec .double s hn hlow hhigh
  rw [hread, hratio, ofRatio_of_roundsTo hden hm hfit (by decide) (heq ▸ hvalue ▸ hrounds)]

theorem mem_positional {c : Char} (hc : c ∈ positional 0 d) : c.isDigit = true ∨ c = '.' := by
  rw [positional_zero] at hc
  split at hc
  · simp only [List.mem_cons, List.mem_append, List.mem_replicate] at hc
    rcases hc with rfl | rfl | ⟨-, rfl⟩ | hc
    · exact .inl rfl
    · exact .inr rfl
    · exact .inl rfl
    · exact .inl (isDigit_of_mem_digits hc)
  · split at hc
    · simp only [List.mem_append, List.mem_replicate] at hc
      rcases hc with hc | ⟨-, rfl⟩
      · exact .inl (isDigit_of_mem_digits hc)
      · exact .inl rfl
    · simp only [List.mem_append, List.mem_cons] at hc
      rcases hc with hc | rfl | hc
      · exact .inl (isDigit_of_mem_digits (List.mem_of_mem_take hc))
      · exact .inr rfl
      · exact .inl (isDigit_of_mem_digits (List.mem_of_mem_drop hc))

/-- A sign and a text of digits and points are read as what the text is read as with that sign. -/
theorem ofText_signed {x : Number} (h : readUnsigned? .double s cs = some x)
    (hcs : ∀ c ∈ cs, c.isDigit = true ∨ c = '.') :
    ofText (String.ofList (if s then '-' :: cs else cs)) = x := by
  have hsolid : ∀ c ∈ cs, Text.isBlank c = false := by
    intro c hc
    rcases hcs c hc with hc | rfl
    · exact Text.isBlank_of_isDigit hc
    · decide
  cases s with
  | true =>
    have htrim := Text.trimChars_of_solid (List.forall_mem_cons.2 ⟨(by decide : Text.isBlank '-' = false), hsolid⟩)
    rw [if_pos rfl, ofText, String.toList_ofList, htrim, read?, h, Option.getD_some]
  | false =>
    have hplain : read? .double cs = readUnsigned? .double false cs := by
      unfold read?
      split
      · exact absurd (hcs _ List.mem_cons_self) (by decide)
      · exact absurd (hcs _ List.mem_cons_self) (by decide)
      · rfl
    rw [if_neg Bool.false_ne_true, ofText, String.toList_ofList, Text.trimChars_of_solid hsolid, hplain, h,
      Option.getD_some]

/-- A number is read back from the text with the fewest digits. -/
theorem ofText_display (hm : m ≠ 0) (hfit : NumberFormat.double.Fits m e) :
    ofText ((finite s m e).display .double) = finite s m e := by
  obtain ⟨hrounds, hne⟩ := shortest_spec hm hfit
  rw [display, toDecimal, if_neg hm]
  exact ofText_signed (readUnsigned?_of_roundsTo hm hfit hrounds hne) fun c hc => mem_positional hc

/-- The digits of a natural that is rounded to a number are read as the number. -/
theorem ofText_toDigits (hm : m ≠ 0) (hfit : NumberFormat.double.Fits m e)
    (hrounds : RoundsTo .double n m e) :
    ofText (String.ofList (if s then '-' :: Nat.toDigits 10 n else Nat.toDigits 10 n)) =
      finite s m e := by
  have hn : n ≠ 0 := by
    rintro rfl
    exact (hrounds.pos hm).ne' Nat.cast_zero
  have htext : Nat.toDigits 10 n = positional 0 ⟨n, 0⟩ := by
    have hne : (Nat.toDigits 10 n) ≠ [] := Nat.toDigits_ne_nil
    simp [positional_zero, digits, hne]
  have hvalue : RoundsTo .double (Decimal.value ⟨n, 0⟩) m e := by
    rwa [Decimal.value, zpow_zero, mul_one]
  rw [htext]
  exact ofText_signed (readUnsigned?_of_roundsTo hm hfit hvalue hn) fun c hc => mem_positional hc

/-! ## Which numbers are read back -/

/-- The two are one number: equal as numbers, so that the two zeros count as one, or both no number. -/
def Same (x y : Number) : Prop :=
  x.equal y = true ∨ (x = nan ∧ y = nan)

/-- Finite numbers are equal if their values are. -/
theorem equal_finite_iff {t : Bool} {f : Int} :
    (finite s m e).equal (finite t n f) = true ↔
      ((if s then -1 else 1) * (m * 2 ^ e) : ℚ) = (if t then -1 else 1) * (n * 2 ^ f) := by
  have hscale (m : Nat) (e k : Int) (hk : k ≤ e) :
      ((m * Nat.pow 2 (e - k).toNat : Nat) : ℚ) * 2 ^ k = m * 2 ^ e := by
    obtain ⟨j, rfl⟩ := Int.le.dest hk
    rw [add_sub_cancel_left, Int.toNat_natCast, zpow_add₀ two_ne_zero, zpow_natCast, Nat.pow_eq]
    push_cast
    ring
  have hm := hscale m e _ (Int.min_le_left e f)
  have hn := hscale n f _ (Int.min_le_right e f)
  have hunit := two_zpow_pos (min e f)
  simp only [equal, align, beq_iff_eq]
  rw [← hm, ← hn, ← mul_assoc, ← mul_assoc, mul_left_inj' hunit.ne', ← Int.cast_inj (α := ℚ)]
  cases s <;> cases t <;> simp

theorem same_refl (x : Number) : x.Same x := by
  cases x with
  | nan => exact .inr ⟨rfl, rfl⟩
  | infinite s => exact .inl (beq_self_eq_true s)
  | finite s m e => exact .inl (equal_finite_iff.2 rfl)

/-- The integer that a number is. -/
theorem eq_of_toInt? {z : Int} (h : (finite s m e).toInt? = some z) :
    ((z.natAbs : Nat) : ℚ) = m * 2 ^ e ∧ z = if s then -(z.natAbs : Int) else z.natAbs := by
  obtain ⟨hd, hratio⟩ := scale_spec m e
  rw [toInt?] at h
  dsimp only at h
  split at h
  next hmod =>
    have hnum := Nat.div_mul_cancel (Nat.dvd_of_mod_eq_zero hmod)
    have habs : z.natAbs = (scale m e).1 / (scale m e).2 := by
      cases h
      split
      · exact Int.natAbs_neg _
      · rfl
    rw [habs]
    constructor
    · rw [← hratio, eq_div_iff (Nat.cast_pos.2 hd).ne']
      exact_mod_cast hnum
    · exact (Option.some.inj h).symm
  next => cases h

theorem toInt?_zero : (finite s 0 e).toInt? = some 0 := by
  cases e <;> cases s <;> simp [toInt?, scale]

theorem toString_signed (hn : n ≠ 0) : toString (if s then -(n : Int) else n) =
    String.ofList (if s then '-' :: Nat.toDigits 10 n else Nat.toDigits 10 n) := by
  cases s with
  | false => exact Nat.toString_eq_ofList_toDigits
  | true =>
    obtain ⟨n, rfl⟩ := Nat.exists_eq_succ_of_ne_zero hn
    have hneg : toString (Int.negSucc n) = String.ofList ['-'] ++ toString (n + 1) := rfl
    rw [Nat.toString_eq_ofList_toDigits, ← String.ofList_append] at hneg
    rw [if_pos rfl, if_pos rfl]
    exact hneg

/-- The bound of the integers of 64 bits is a number, and the integer below it is rounded to it. -/
theorem roundsTo_bound {n : Nat} (hlow : 2 ^ 63 ≤ n + 1) (hhigh : n ≤ 2 ^ 63) :
    RoundsTo .double n (2 ^ 52) 11 := by
  have hreach : reach .double (2 ^ 52) 11 = 1 / 4 := if_pos ⟨rfl, by decide⟩
  have hlow : (2 ^ 63 : ℚ) ≤ n + 1 := by exact_mod_cast hlow
  have hhigh : (n : ℚ) ≤ 2 ^ 63 := by exact_mod_cast hhigh
  rw [RoundsTo, hreach]
  norm_num at *
  refine .inl ⟨by linarith, by linarith⟩

theorem fits_bound : NumberFormat.double.Fits (2 ^ 52) 11 := by
  constructor <;> decide

/-- The integer that is written for a number, which is the number itself or the bound that it exceeds. -/
theorem exists_clamped {z : Int} (hz : z ≠ 0) (hs : z = if s then -(z.natAbs : Int) else z.natAbs) :
    ∃ n : Nat, n ≠ 0 ∧ clampInt64 z = (if s then -(n : Int) else n) ∧
      (n = z.natAbs ∧ n ≤ 2 ^ 63 ∨ 2 ^ 63 ≤ n + 1 ∧ n ≤ 2 ^ 63 ∧ 2 ^ 63 ≤ z.natAbs) := by
  rw [clampInt64]
  generalize z.natAbs = n at *
  cases s with
  | true =>
    rw [if_pos rfl] at hs
    refine ⟨min n (2 ^ 63), by omega, ?_, by omega⟩
    rw [if_pos rfl]
    omega
  | false =>
    rw [if_neg Bool.false_ne_true] at hs
    refine ⟨min n (2 ^ 63 - 1), by omega, ?_, by omega⟩
    rw [if_neg Bool.false_ne_true]
    omega

/-- A whole number is read back from its text just if it does not exceed the bound. -/
theorem ofText_toText_whole_iff {z : Int} (hm : m ≠ 0) (hfit : NumberFormat.double.Fits m e)
    (hint : (finite s m e).toInt? = some z) :
    (ofText (finite s m e).toText).Same (finite s m e) ↔ z.natAbs ≤ 2 ^ 63 := by
  obtain ⟨hvalue, hsign⟩ := eq_of_toInt? hint
  have hz : z ≠ 0 := by
    rintro rfl
    exact (mul_pos (Nat.cast_pos.2 (Nat.pos_of_ne_zero hm)) (two_zpow_pos e)).ne' hvalue.symm
  obtain ⟨n, hn, hclamp, hcases⟩ := exists_clamped hz hsign
  rw [toText, hint]
  dsimp only
  rw [hclamp, toString_signed hn]
  rcases hcases with ⟨rfl, hle⟩ | ⟨hlow, hhigh, hbeyond⟩
  · rw [ofText_toDigits hm hfit (hvalue ▸ roundsTo_self)]
    exact iff_of_true (same_refl _) hle
  · rw [ofText_toDigits (by decide) fits_bound (roundsTo_bound hlow hhigh), Same, equal_finite_iff, ← hvalue]
    have hbound : ((2 ^ 52 : Nat) * 2 ^ (11 : Int) : ℚ) = (2 ^ 63 : Nat) := by norm_num
    have hfinite : ¬ (finite s (2 ^ 52) 11 = nan ∧ finite s m e = nan) := fun h => nomatch h.1
    have hsign : (if s then -1 else 1 : ℚ) ≠ 0 := by split <;> norm_num
    rw [or_iff_left hfinite, mul_right_inj' hsign, hbound, Nat.cast_inj]
    omega

theorem same_ofText_toText_zero : (ofText (finite s 0 e).toText).Same (finite s 0 e) := by
  have hread : ofText (toString (clampInt64 0)) = finite false 0 (-1074) := by decide +kernel
  rw [toText, toInt?_zero]
  dsimp only
  rw [hread]
  refine .inl (equal_finite_iff.2 ?_)
  simp

/-- A number is read back from its text just if it is no whole number beyond `2 ^ 63`. -/
theorem ofText_toText_iff {x : Number} (h : x.IsOf .double) :
    (ofText x.toText).Same x ↔ ∀ z, x.toInt? = some z → z.natAbs ≤ 2 ^ 63 := by
  cases x with
  | nan =>
    have hread : ofText nan.toText = nan := by decide +kernel
    rw [hread]
    exact iff_of_true (same_refl _) fun z hz => nomatch hz
  | infinite s =>
    have hread : ofText (infinite s).toText = infinite s := by cases s <;> decide +kernel
    rw [hread]
    exact iff_of_true (same_refl _) fun z hz => nomatch hz
  | finite s m e =>
    by_cases hm : m = 0
    · subst hm
      rw [toInt?_zero]
      exact iff_of_true same_ofText_toText_zero fun z hz => Option.some.inj hz ▸ Nat.zero_le _
    cases hint : (finite s m e).toInt? with
    | none =>
      rw [toText, hint]
      dsimp only
      rw [ofText_display hm h]
      exact iff_of_true (same_refl _) fun z hz => nomatch hz
    | some z =>
      rw [ofText_toText_whole_iff hm h hint]
      simp only [Option.some.injEq, forall_eq']

end Crosswalk.Number
