import Mathlib
import EventSandbox.Proofs.Json.Numeral
import EventSandbox.Proofs.Number.Reading

/-!
# EventSandbox.Proofs.Json.Float — reading the text of a double

The reader gathers all digits of a double's text, before the point and after it, and applies the
place of the point and the exponent at once (`gathers_unsigned`). There are never more digits than
fit its significand.
-/

namespace EventSandbox.Json

variable {negative : Bool} {n : ℕ} {cs ds : List Char} {s rest : Bytes}

/-! ## Digits -/

theorem fractionDigits_encode (taken : ℕ) (hcs : ∀ c ∈ cs, c.isDigit)
    (hmax : Nat.ofDigitChars 10 cs n ≤ maxSignificand) (hrest : startsWithDigit rest = false) :
    fractionDigits n taken (Utf8.encode cs ++ rest) =
      (Nat.ofDigitChars 10 cs n, taken + cs.length, rest) := by
  induction cs generalizing n taken with
  | nil =>
    rw [Utf8.encode_nil, List.nil_append, Nat.ofDigitChars_nil]
    exact fractionDigits_stop hrest n taken
  | cons c cs ih =>
    obtain ⟨hencode, hdigit, -⟩ := encodeChar_digit (hcs c (by simp))
    -- What has been gathered so far is at most what all digits make, so it fits as well.
    rw [Nat.ofDigitChars_cons, ← mul_add_digitValue (hcs c (by simp))] at hmax ⊢
    have hle := le_ofDigitChars cs (n * 10 + digitValue (ascii c))
    rw [Utf8.encode_cons, hencode, List.singleton_append, List.cons_append, fractionDigits,
      if_pos hdigit]
    dsimp only
    rw [if_pos (by omega), ih _ (fun c hc => hcs c (by simp [hc])) hmax, List.length_cons,
      Nat.add_assoc, Nat.add_comm 1]

theorem exponentDigits_encode (hcs : ∀ c ∈ cs, c.isDigit)
    (hmax : Nat.ofDigitChars 10 cs n ≤ maxExponent) (hrest : startsWithDigit rest = false) :
    exponentDigits n (Utf8.encode cs ++ rest) = (some (Nat.ofDigitChars 10 cs n), rest) := by
  induction cs generalizing n with
  | nil =>
    rw [Utf8.encode_nil, List.nil_append, Nat.ofDigitChars_nil]
    exact exponentDigits_stop hrest n
  | cons c cs ih =>
    obtain ⟨hencode, hdigit, -⟩ := encodeChar_digit (hcs c (by simp))
    rw [Nat.ofDigitChars_cons, ← mul_add_digitValue (hcs c (by simp))] at hmax ⊢
    have hle := le_ofDigitChars cs (n * 10 + digitValue (ascii c))
    rw [Utf8.encode_cons, hencode, List.singleton_append, List.cons_append, exponentDigits,
      if_pos hdigit]
    dsimp only
    rw [if_pos (by omega)]
    exact ih (fun c hc => hcs c (by simp [hc])) hmax

/-! ## The end of a number -/

/-- A number with its sign, and what follows it. -/
def finished (negative : Bool) (rest : Bytes) (x : Double) : Number × Bytes :=
  (signed negative x, rest)

theorem doubleTail_ends {exponent : ℤ} (hrest : Ends rest) :
    doubleTail negative n exponent rest = (scale n exponent).map (finished negative rest) := by
  rcases hrest.cases with rfl | ⟨b, s, rfl, -, -, hmark⟩
  · rfl
  · unfold doubleTail
    dsimp only
    rw [if_neg (by simp [hmark])]
    rfl

theorem saturate_eq {e : ℤ} (hlow : -0x80000000 ≤ e) (hhigh : e ≤ 0x7FFFFFFF) : saturate e = e := by
  unfold saturate
  omega

/-- An exponent with its sign. -/
theorem exponentPart_marked {exponent : ℤ} {k : ℕ} {b : UInt8} (minus : Bool) (hb : isDigit b)
    (h : exponentDigits (digitValue b) s = (some k, rest)) :
    exponentPart negative n exponent (ascii (if minus then '-' else '+') :: b :: s) =
      (scale n (saturate (if minus then exponent - k else exponent + k))).map
        (finished negative rest) := by
  unfold exponentPart
  dsimp only
  -- The two signs are looked at one after the other, and lead to the same.
  cases minus with
  | false =>
    rw [if_neg Bool.false_ne_true, if_pos rfl]
    dsimp only
    rw [if_pos hb, h]
    dsimp only
    cases scale n (saturate (if false then exponent - k else exponent + k)) <;> rfl
  | true =>
    rw [if_pos rfl, if_neg (by decide), if_pos rfl]
    dsimp only
    rw [if_pos hb, h]
    dsimp only
    cases scale n (saturate (if true then exponent - k else exponent + k)) <;> rfl

section Exponent

variable {exponent lead : ℤ} (hlow : -0x80000000 ≤ exponent + lead)
  (hhigh : exponent + lead ≤ 0x7FFFFFFF)

include hlow hhigh

theorem exponentPart_sign {b : UInt8} (hb : isDigit b)
    (h : exponentDigits (digitValue b) s = (some lead.natAbs, rest)) :
    exponentPart negative n exponent (ascii (if lead < 0 then '-' else '+') :: b :: s) =
      (scale n (exponent + lead)).map (finished negative rest) := by
  have hsum : saturate (if lead < 0 then exponent - lead.natAbs else exponent + lead.natAbs) =
      exponent + lead := by
    rw [← saturate_eq hlow hhigh]
    congr 1
    split_ifs <;> omega
  rw [← hsum]
  by_cases hneg : lead < 0
  · rw [if_pos hneg, if_pos hneg]
    exact exponentPart_marked true hb h
  · rw [if_neg hneg, if_neg hneg]
    exact exponentPart_marked false hb h

/-- The exponent that is written after a number is added to that of its digits. -/
theorem doubleTail_exponent (hlead : lead.natAbs ≤ maxExponent) (hrest : Ends rest) :
    doubleTail negative n exponent
        (Utf8.encode ('e' :: (if lead < 0 then '-' else '+') :: Double.digitsOf lead.natAbs) ++
          rest) =
      (scale n (exponent + lead)).map (finished negative rest) := by
  obtain ⟨c, cs, hdigits⟩ : ∃ c cs, Double.digitsOf lead.natAbs = c :: cs :=
    List.exists_cons_of_ne_nil Nat.toDigits_ne_nil
  have hall := isDigit_digitsOf lead.natAbs
  have hvalue := ofDigitChars_digitsOf lead.natAbs
  rw [hdigits] at hall hvalue
  -- The reader takes the first digit by itself, since there has to be one.
  rw [Nat.ofDigitChars_cons, ← mul_add_digitValue (hall c (by simp)), Nat.zero_mul,
    Nat.zero_add] at hvalue
  obtain ⟨hencode, hdigit, -⟩ := encodeChar_digit (hall c (by simp))
  have hexponent : exponentDigits (digitValue (ascii c)) (Utf8.encode cs ++ rest) =
      (some lead.natAbs, rest) := by
    rw [exponentDigits_encode (fun c hc => hall c (by simp [hc])) (hvalue.trans_le hlead)
      hrest.startsWithDigit, hvalue]
  have hsign : String.utf8EncodeChar (if lead < 0 then '-' else '+') =
      [ascii (if lead < 0 then '-' else '+')] := by
    split_ifs <;> rfl
  rw [hdigits, Utf8.encode_cons, Utf8.encode_cons, hsign, Utf8.encode_cons, hencode,
    Utf8.encodeChar_of_le (c := 'e') (by decide)]
  change exponentPart negative n exponent (_ :: ascii c :: (Utf8.encode cs ++ rest)) = _
  exact exponentPart_sign hlow hhigh hdigit hexponent

end Exponent

/-! ## The digits of a number -/

/-- Digits before and after a point are gathered as one significand. -/
theorem number_fraction (hwhole : Whole cs) (hdigits : ∀ c ∈ cs ++ ds, c.isDigit) (hds : ds ≠ [])
    (hmax : Nat.ofDigitChars 10 (cs ++ ds) 0 ≤ maxSignificand)
    (hrest : startsWithDigit rest = false) :
    number negative (Utf8.encode (cs ++ '.' :: ds) ++ rest) =
      doubleTail negative (Nat.ofDigitChars 10 (cs ++ ds) 0) (-(ds.length : ℤ)) rest := by
  -- The point is followed by a digit, so what comes after it is read as a fraction.
  obtain ⟨c, es, rfl⟩ := List.exists_cons_of_ne_nil hds
  have hcs : ∀ c ∈ cs, c.isDigit := fun c hc => hdigits c (List.mem_append_left _ hc)
  have hes : ∀ d ∈ c :: es, d.isDigit := fun d hd => hdigits d (List.mem_append_right _ hd)
  rw [Nat.ofDigitChars_append] at hmax ⊢
  have hread := fractionDigits_encode 0 hes hmax hrest
  obtain ⟨hencode, hdigit, -⟩ := encodeChar_digit (hes c (by simp))
  rw [Utf8.encode_cons, hencode] at hread
  rw [Utf8.encode_append, Utf8.encode_cons, Utf8.encodeChar_of_le (c := '.') (by decide),
    Utf8.encode_cons, hencode, List.append_assoc]
  rw [number_whole hwhole hcs ((le_ofDigitChars _ _).trans hmax) rfl]
  change fractionPart negative _ 0 (ascii c :: (Utf8.encode es ++ rest)) = _
  rw [List.singleton_append, List.cons_append] at hread
  unfold fractionPart
  dsimp only
  rw [if_pos hdigit, hread]
  dsimp only
  rw [Nat.zero_add, Nat.cast_zero, zero_sub]

/-- A single digit before the exponent. -/
theorem number_exponent {c : Char} (hc : c.isDigit)
    (hmax : Nat.ofDigitChars 10 [c] 0 ≤ maxSignificand) (cs : List Char) :
    number negative (Utf8.encode [c] ++ (Utf8.encode ('e' :: cs) ++ rest)) =
      doubleTail negative (Nat.ofDigitChars 10 [c] 0) 0 (Utf8.encode ('e' :: cs) ++ rest) := by
  have hwhole : Whole [c] := by
    by_cases hzero : c = '0'
    · exact .inl (by rw [hzero])
    · exact .inr ⟨c, [], rfl, hzero⟩
  rw [number_whole hwhole (by simpa using hc) hmax rfl, Utf8.encode_cons,
    Utf8.encodeChar_of_le (c := 'e') (by decide), List.singleton_append, List.cons_append]
  unfold numberTail
  dsimp only
  rw [if_neg (by decide), if_pos (.inr (by decide)), Nat.cast_zero]

/-! ## The text of a double -/

/-- The text of a double without its sign. -/
def unsigned (x : Double) : List Char :=
  if x.isZero then ['0', '.', '0']
  else
    let d := x.shortest
    let digits := Double.digitsOf d.digits
    let lead := d.exponent + digits.length - 1
    if -5 ≤ lead ∧ lead ≤ 15 then Double.plain digits lead else Double.scientific digits lead

theorem render_eq (x : Double) :
    x.render = if x.negative then '-' :: unsigned x else unsigned x := rfl

/-- What is read from a text is a number with certain digits. -/
def Gathers (d : Decimal) (text : List Char) : Prop :=
  ∀ negative rest, Ends rest → number negative (Utf8.encode text ++ rest) =
    (scale d.digits d.exponent).map (finished negative rest)

theorem gathers_fraction (hwhole : Whole cs) (hdigits : ∀ c ∈ cs ++ ds, c.isDigit) (hds : ds ≠ [])
    (hmax : Nat.ofDigitChars 10 (cs ++ ds) 0 ≤ maxSignificand) :
    Gathers ⟨Nat.ofDigitChars 10 (cs ++ ds) 0, -(ds.length : ℤ)⟩ (cs ++ '.' :: ds) := by
  intro negative rest hrest
  rw [number_fraction hwhole hdigits hds hmax hrest.startsWithDigit, doubleTail_ends hrest]

/-- The digits of `n` after the point, behind some zeros. -/
theorem gathers_below (k : ℕ) (hn : n ≤ maxSignificand) :
    Gathers ⟨n, -(k + (Double.digitsOf n).length : ℕ)⟩
      ('0' :: '.' :: (List.replicate k '0' ++ Double.digitsOf n)) := by
  -- The zeros in front add nothing to the number.
  have hvalue :
      Nat.ofDigitChars 10 (['0'] ++ (List.replicate k '0' ++ Double.digitsOf n)) 0 = n := by
    rw [Nat.ofDigitChars_append, Nat.ofDigitChars_append, Nat.ofDigitChars_replicate_zero]
    exact ofDigitChars_digitsOf n
  have hdigits : ∀ c ∈ ['0'] ++ (List.replicate k '0' ++ Double.digitsOf n), c.isDigit := by
    intro c hc
    simp only [List.singleton_append, List.mem_cons, List.mem_append, List.mem_replicate] at hc
    rcases hc with rfl | ⟨-, rfl⟩ | hc
    · rfl
    · rfl
    · exact isDigit_digitsOf n c hc
  have hgather := gathers_fraction (.inl rfl) hdigits
    (List.append_ne_nil_of_right_ne_nil _ Nat.toDigits_ne_nil) (hvalue.trans_le hn)
  rw [hvalue, List.length_append, List.length_replicate] at hgather
  exact hgather

/-- The digits of `n` with some zeros and one more after the point. -/
theorem gathers_above (k : ℕ) (hpos : 0 < n) (hn : n * 10 ^ (k + 1) ≤ maxSignificand) :
    Gathers ⟨n * 10 ^ (k + 1), -1⟩ (Double.digitsOf n ++ List.replicate k '0' ++ ['.', '0']) := by
  have hvalue : Nat.ofDigitChars 10 ((Double.digitsOf n ++ List.replicate k '0') ++ ['0']) 0 =
      n * 10 ^ (k + 1) := by
    rw [Nat.ofDigitChars_append, Nat.ofDigitChars_append, ofDigitChars_digitsOf,
      Nat.ofDigitChars_replicate_zero, Nat.ofDigitChars_cons, Nat.ofDigitChars_nil, pow_succ]
    simp
    ring
  have hdigits : ∀ c ∈ (Double.digitsOf n ++ List.replicate k '0') ++ ['0'], c.isDigit := by
    intro c hc
    simp only [List.mem_append, List.mem_replicate, List.mem_singleton] at hc
    rcases hc with (hc | ⟨-, rfl⟩) | rfl
    · exact isDigit_digitsOf n c hc
    · rfl
    · rfl
  -- There is something before the point, and it does not begin with a zero.
  have hwhole : Whole (Double.digitsOf n ++ List.replicate k '0') := by
    obtain ⟨c, es, hes, hc⟩ := exists_digits hpos
    rw [hes]
    exact .inr ⟨c, _, rfl, hc⟩
  have hgather := gathers_fraction hwhole hdigits (by simp) (hvalue.trans_le hn)
  rw [hvalue] at hgather
  exact hgather

/-- The digits of `n` with the point behind the first `k`. -/
theorem gathers_inside {k : ℕ} (hpos : 0 < n) (hn : n ≤ maxSignificand) (hk : 0 < k)
    (hlength : k < (Double.digitsOf n).length) :
    Gathers ⟨n, -((Double.digitsOf n).length - k : ℕ)⟩
      ((Double.digitsOf n).take k ++ '.' :: (Double.digitsOf n).drop k) := by
  have hsplit := List.take_append_drop k (Double.digitsOf n)
  have hvalue : Nat.ofDigitChars 10
      ((Double.digitsOf n).take k ++ (Double.digitsOf n).drop k) 0 = n := by
    rw [hsplit, ofDigitChars_digitsOf]
  have hdigits : ∀ c ∈ (Double.digitsOf n).take k ++ (Double.digitsOf n).drop k, c.isDigit := by
    rw [hsplit]
    exact isDigit_digitsOf n
  have hwhole : Whole ((Double.digitsOf n).take k) := by
    obtain ⟨c, es, hes, hc⟩ := exists_digits hpos
    obtain ⟨j, rfl⟩ := Nat.exists_eq_succ_of_ne_zero hk.ne'
    rw [hes]
    exact .inr ⟨c, _, rfl, hc⟩
  have hgather := gathers_fraction hwhole hdigits (by simpa using hlength) (hvalue.trans_le hn)
  rw [hvalue, List.length_drop] at hgather
  exact hgather

section Decimal

variable {d : Decimal} {lead : ℤ} (hpos : 0 < d.digits) (hmax : d.digits ≤ 10 ^ 17)
  (hlead : lead = d.exponent + (Double.digitsOf d.digits).length - 1)

include hpos hmax hlead

/-- In plain notation a number without a fraction gets its zeros and one more. -/
theorem gathers_plain (hsmall : lead ≤ 15) :
    Gathers (if 0 ≤ d.exponent then ⟨d.digits * 10 ^ (d.exponent + 1).toNat, -1⟩ else d)
      (Double.plain (Double.digitsOf d.digits) lead) := by
  have hfits : d.digits ≤ maxSignificand := hmax.trans (by decide)
  have hlength : 0 < (Double.digitsOf d.digits).length := Double.digitCount_pos _
  unfold Double.plain
  dsimp only
  by_cases hbelow : lead < 0
  · rw [if_pos hbelow, if_neg (by omega)]
    have hgather := gathers_below ((-lead).toNat - 1) hfits
    have hexponent : -(((-lead).toNat - 1 + (Double.digitsOf d.digits).length : ℕ) : ℤ) =
        d.exponent := by omega
    rw [hexponent] at hgather
    exact hgather
  rw [if_neg hbelow]
  by_cases hwhole : (Double.digitsOf d.digits).length ≤ lead.toNat + 1
  · rw [if_pos hwhole, if_pos (by omega)]
    have hzeros : (d.exponent + 1).toNat =
        lead.toNat + 1 - (Double.digitsOf d.digits).length + 1 := by omega
    rw [hzeros]
    refine gathers_above _ hpos ((Double.mul_ten_pow_lt hpos ?_).le.trans (by decide))
    change (Double.digitsOf d.digits).length + _ ≤ 17
    omega
  · rw [if_neg hwhole, if_neg (by omega)]
    have hgather := gathers_inside hpos hfits (Nat.succ_pos lead.toNat) (not_le.1 hwhole)
    have hexponent : -(((Double.digitsOf d.digits).length - lead.toNat.succ : ℕ) : ℤ) =
        d.exponent := by omega
    rw [hexponent] at hgather
    exact hgather

theorem gathers_scientific (hlow : -0x7FFFFFFF ≤ lead) (hhigh : lead ≤ 0x7FFFFFFF)
    (hexponent : -0x80000000 ≤ d.exponent) (hle : d.exponent ≤ 0x7FFFFFFF) :
    Gathers d (Double.scientific (Double.digitsOf d.digits) lead) := by
  have hfits : d.digits ≤ maxSignificand := hmax.trans (by decide)
  have hbound : lead.natAbs ≤ maxExponent := by
    unfold maxExponent
    omega
  have hvalue := ofDigitChars_digitsOf d.digits
  have hall := isDigit_digitsOf d.digits
  obtain ⟨c, es, hdigits, hc⟩ := exists_digits hpos
  rw [hdigits] at hlead hvalue hall ⊢
  intro negative rest hrest
  have hend : ∀ exponent, exponent + lead = d.exponent →
      doubleTail negative d.digits exponent
          (Utf8.encode ('e' :: (if lead < 0 then '-' else '+') :: Double.digitsOf lead.natAbs) ++
            rest) =
        (scale d.digits d.exponent).map (finished negative rest) := by
    rintro exponent hsum
    rw [doubleTail_exponent (hsum ▸ hexponent) (hsum ▸ hle) hbound hrest, hsum]
  -- A single digit is written without a point.
  cases es with
  | nil =>
    change number negative (Utf8.encode ([c] ++ 'e' :: _) ++ rest) = _
    rw [Utf8.encode_append, List.append_assoc,
      number_exponent (hall c (by simp)) (hvalue.trans_le hfits), hvalue]
    have hsum : 0 + lead = d.exponent := by
      rw [hlead]
      simp
    rw [hend 0 hsum]
  | cons e es =>
    change number negative (Utf8.encode (([c] ++ '.' :: e :: es) ++ 'e' :: _) ++ rest) = _
    have hwhole : Whole [c] := .inr ⟨c, [], rfl, hc⟩
    rw [Utf8.encode_append, List.append_assoc,
      number_fraction hwhole hall (by simp) (hvalue.trans_le hfits) rfl]
    have hsum : -((e :: es).length : ℤ) + lead = d.exponent := by
      rw [hlead]
      simp
      ring
    change doubleTail negative (Nat.ofDigitChars 10 (c :: e :: es) 0) _ _ = _
    rw [hvalue, hend _ hsum]

end Decimal

/-- All digits of the text of a double are gathered. -/
theorem gathers_unsigned (x : Double) : Gathers x.written (unsigned x) := by
  unfold unsigned Double.written
  by_cases hzero : x.isZero
  · rw [if_pos hzero, if_pos hzero]
    have hdigits : ∀ c ∈ ['0'] ++ ['0'], c.isDigit := by simp
    exact gathers_fraction (.inl rfl) hdigits (by simp) (Nat.zero_le _)
  rw [if_neg hzero, if_neg hzero]
  have hmagnitude : x.magnitude ≠ 0 := by simpa [Double.isZero] using hzero
  obtain ⟨hpos, hmax, hnearest⟩ := Double.nearest_shortest hmagnitude
  have hlow := Double.exponent_ge hpos (hmax.trans_lt (by norm_num)) hmagnitude hnearest
  have hhigh := Double.exponent_le hpos hnearest
  have hcount : (Double.digitsOf x.shortest.digits).length = Double.digitCount x.shortest.digits :=
    rfl
  dsimp only
  by_cases hplain : -5 ≤ x.shortest.exponent + (Double.digitsOf x.shortest.digits).length - 1 ∧
      x.shortest.exponent + (Double.digitsOf x.shortest.digits).length - 1 ≤ 15
  · rw [if_pos hplain]
    -- In plain notation, the bound on the place of the first digit is one on the number of digits.
    have hwhole : 0 ≤ x.shortest.exponent ∧
        Double.digitCount x.shortest.digits + x.shortest.exponent ≤ 16 ↔
          0 ≤ x.shortest.exponent := by
      rw [← hcount]
      omega
    rw [if_congr hwhole rfl rfl]
    exact gathers_plain hpos hmax rfl hplain.2
  · rw [if_neg hplain, if_neg (by rw [← hcount]; omega)]
    have hlength : (Double.digitsOf x.shortest.digits).length ≤ 18 :=
      (Nat.length_toDigits_le_iff (by norm_num) (by norm_num)).2 (hmax.trans_lt (by norm_num))
    exact gathers_scientific hpos hmax rfl (by omega) (by omega) (by omega) (by omega)

end EventSandbox.Json
