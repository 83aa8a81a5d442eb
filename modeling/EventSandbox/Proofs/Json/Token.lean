import EventSandbox.Json.Parser
import EventSandbox.Proofs.Json.Grammar

/-!
# EventSandbox.Proofs.Json.Token — reading blanks, strings and integers

Each reader takes what the grammar gives it and leaves the rest of the text. A string ends at its
quote. An integer ends where something follows that may stand after a value (`Ends`).
-/

namespace EventSandbox.Json

variable {b : UInt8} {s t rest : Bytes}

/-! ## Blanks -/

theorem skipBlank_blank (hb : isBlank b) (s : Bytes) : skipBlank (b :: s) = skipBlank s := by
  unfold skipBlank
  rw [List.dropWhile_cons, if_pos hb]

theorem skipBlank_of_not (hb : isBlank b = false) (s : Bytes) : skipBlank (b :: s) = b :: s := by
  unfold skipBlank
  rw [List.dropWhile_cons, if_neg (by simp [hb])]

theorem skipBlank_blanks (hs : ∀ b ∈ s, isBlank b) (t : Bytes) :
    skipBlank (s ++ t) = skipBlank t := by
  induction s with
  | nil => rfl
  | cons b s ih =>
    rw [List.cons_append, skipBlank_blank (hs b (by simp))]
    exact ih fun b hb => hs b (by simp [hb])

theorem skipBlank_skipBlank (s : Bytes) : skipBlank (skipBlank s) = skipBlank s := by
  induction s with
  | nil => rfl
  | cons b s ih =>
    cases hb : isBlank b with
    | true => rw [skipBlank_blank hb, ih]
    | false => rw [skipBlank_of_not hb, skipBlank_of_not hb]

/-! ## Strings -/

theorem stringBody_plain {acc : Bytes} (hquote : b ≠ ascii '"') (hcontrol : ¬ b < 0x20)
    (hbackslash : b ≠ ascii '\\') : stringBody acc (b :: s) = stringBody (b :: acc) s := by
  rw [stringBody.eq_def]
  dsimp only
  rw [if_neg hquote, if_neg hcontrol, if_neg hbackslash]

theorem stringBody_plains {acc : Bytes}
    (h : ∀ b ∈ t, b ≠ ascii '"' ∧ ¬ b < 0x20 ∧ b ≠ ascii '\\') :
    stringBody acc (t ++ s) = stringBody (t.reverse ++ acc) s := by
  induction t generalizing acc with
  | nil => rfl
  | cons b t ih =>
    obtain ⟨hquote, hcontrol, hbackslash⟩ := h b (by simp)
    rw [List.cons_append, stringBody_plain hquote hcontrol hbackslash,
      ih fun b hb => h b (by simp [hb])]
    simp

theorem stringBody_short {acc : Bytes} {letter : UInt8} {c : Char}
    (h : shortEscape? letter = some c) :
    stringBody acc (ascii '\\' :: letter :: s) = stringBody (pushChar acc c.toNat) s := by
  have hu : letter ≠ ascii 'u' := by
    rintro rfl
    cases h
  rw [stringBody.eq_def]
  dsimp only
  rw [if_neg (by decide), if_neg (by decide), if_pos rfl, if_neg hu, h]

theorem stringBody_hex {acc : Bytes} {h₁ h₂ h₃ h₄ : UInt8} {code : Nat}
    (h : hexFour? h₁ h₂ h₃ h₄ = some code) (hleading : ¬ isLeading code)
    (htrailing : ¬ isTrailing code) :
    stringBody acc (ascii '\\' :: ascii 'u' :: h₁ :: h₂ :: h₃ :: h₄ :: s) =
      stringBody (pushChar acc code) s := by
  rw [stringBody.eq_def]
  dsimp only
  rw [if_neg (by decide), if_neg (by decide), if_pos rfl, if_pos rfl, h]
  dsimp only
  rw [if_neg htrailing, if_neg hleading]

theorem stringBody_pair {acc : Bytes} {h₁ h₂ h₃ h₄ k₁ k₂ k₃ k₄ : UInt8} {lead trail : Nat}
    (hlead : hexFour? h₁ h₂ h₃ h₄ = some lead) (htrail : hexFour? k₁ k₂ k₃ k₄ = some trail)
    (hleading : isLeading lead) (htrailing : isTrailing trail) :
    stringBody acc (ascii '\\' :: ascii 'u' :: h₁ :: h₂ :: h₃ :: h₄ ::
        ascii '\\' :: ascii 'u' :: k₁ :: k₂ :: k₃ :: k₄ :: s) =
      stringBody (pushChar acc (joinSurrogates lead trail)) s := by
  have hnot : ¬ isTrailing lead := by
    simp only [isLeading, isTrailing, decide_eq_true_eq] at hleading ⊢
    omega
  rw [stringBody.eq_def]
  dsimp only
  rw [if_neg (by decide), if_neg (by decide), if_pos rfl, if_pos rfl, hlead]
  dsimp only
  rw [if_neg hnot, if_pos hleading, if_pos ⟨rfl, rfl⟩, htrail]
  exact if_pos htrailing

theorem pushChar_toNat (acc : Bytes) (c : Char) :
    pushChar acc c.toNat = (String.utf8EncodeChar c).reverse ++ acc := by
  unfold pushChar
  rw [Char.ofNat_toNat]

/-- The bytes of a character that needs no escape mean nothing else. -/
theorem ne_of_mem_encodeChar {c : Char} (hquote : c ≠ '"') (hbackslash : c ≠ '\\')
    (hcontrol : 0x20 ≤ c.toNat) (hb : b ∈ String.utf8EncodeChar c) :
    b ≠ ascii '"' ∧ ¬ b < 0x20 ∧ b ≠ ascii '\\' := by
  -- A character of ASCII is its own byte; the bytes of all others are beyond ASCII.
  simp only [ne_eq, ← UInt8.toNat_inj, UInt8.lt_iff_toNat_lt]
  by_cases hascii : c.toNat ≤ 0x7F
  · rw [Utf8.encodeChar_of_le hascii, List.mem_singleton] at hb
    have hquote' : c.toNat ≠ '"'.toNat := fun h => hquote (Char.toNat_inj.1 h)
    have hbackslash' : c.toNat ≠ '\\'.toNat := fun h => hbackslash (Char.toNat_inj.1 h)
    have hbyte : b.toNat = c.toNat := by
      rw [hb, ascii, Utf8.toNat_ofNat (by omega)]
    rw [hbyte]
    exact ⟨hquote', by simpa using hcontrol, hbackslash'⟩
  · have hhigh := Utf8.le_of_mem_encodeChar (by omega) hb
    have hquote' : (ascii '"').toNat = 0x22 := rfl
    have hbackslash' : (ascii '\\').toNat = 0x5C := rfl
    have hspace : (0x20 : UInt8).toNat = 0x20 := rfl
    omega

/-- A character is gathered however it is written. -/
theorem stringBody_charText {c : Char} (h : CharText c t) (acc s : Bytes) :
    stringBody acc (t ++ s) = stringBody ((String.utf8EncodeChar c).reverse ++ acc) s := by
  -- The code of a character is never half of a surrogate pair.
  have hvalid := Utf8.toNat_cases c
  cases h with
  | plain hquote hbackslash hcontrol =>
    exact stringBody_plains fun b => ne_of_mem_encodeChar hquote hbackslash hcontrol
  | short h =>
    rw [← pushChar_toNat]
    exact stringBody_short h
  | hex h =>
    rw [← pushChar_toNat]
    refine stringBody_hex h ?_ ?_
    · simp only [isLeading, decide_eq_true_eq]
      omega
    · simp only [isTrailing, decide_eq_true_eq]
      omega
  | pair hlead htrail hleading htrailing h =>
    rw [← pushChar_toNat, ← h]
    exact stringBody_pair hlead htrail hleading htrailing

theorem stringBody_charsText {cs : List Char} (h : CharsText cs t) (before : List Char)
    (rest : Bytes) :
    stringBody (Utf8.encode before).reverse (t ++ ascii '"' :: rest) =
      .ok (String.ofList (before ++ cs), rest) := by
  induction h generalizing before with
  | nil =>
    rw [List.nil_append, stringBody.eq_def]
    dsimp only
    rw [if_pos rfl, List.reverse_reverse, Utf8.decode?_encode, List.append_nil]
  | @cons c cs t u h hrest ih =>
    have hacc : (String.utf8EncodeChar c).reverse ++ (Utf8.encode before).reverse =
        (Utf8.encode (before ++ [c])).reverse := by simp
    rw [List.append_assoc, stringBody_charText h, hacc, ih, List.append_assoc]
    rfl

/-- A string is read however its characters are written. -/
theorem stringBody_text {text : String} (h : StringText text (ascii '"' :: s)) (rest : Bytes) :
    stringBody [] (s ++ rest) = .ok (text, rest) := by
  generalize hs : ascii '"' :: s = quoted at h
  cases h with
  | quoted h =>
    cases hs
    rw [List.append_assoc]
    exact stringBody_charsText h [] rest

/-! ## Integers -/

/-- What may follow a value. -/
def Ends (rest : Bytes) : Prop :=
  ∀ b, rest.head? = some b → isBlank b ∨ b = ascii ',' ∨ b = ascii ']' ∨ b = ascii '}'

theorem isDigit_iff : isDigit b ↔ 48 ≤ b.toNat ∧ b.toNat ≤ 57 := by
  have h0 : (ascii '0').toNat = 48 := rfl
  have h9 : (ascii '9').toNat = 57 := rfl
  simp [isDigit, UInt8.le_iff_toNat_le, h0, h9]

theorem ne_of_isDigit {c : UInt8} (hb : isDigit b) (hc : isDigit c = false) : b ≠ c := by
  rintro rfl
  exact Bool.false_ne_true (hc.symm.trans hb)

/-- What may follow a value goes on no number. -/
theorem Ends.cases (h : Ends rest) :
    rest = [] ∨ ∃ b s, rest = b :: s ∧ isDigit b = false ∧ b ≠ ascii '.' ∧
      isExponentMark b = false := by
  cases rest with
  | nil => exact .inl rfl
  | cons b s =>
    refine .inr ⟨b, s, rfl, ?_⟩
    have hb := h b rfl
    simp only [isBlank, decide_eq_true_eq] at hb
    rcases hb with (rfl | rfl | rfl | rfl) | rfl | rfl | rfl <;> decide

theorem Ends.startsWithDigit (h : Ends rest) : startsWithDigit rest = false := by
  rcases h.cases with rfl | ⟨b, s, rfl, hb, -⟩
  · rfl
  · exact hb

theorem le_ofDigitChars (cs : List Char) (n : Nat) : n ≤ Nat.ofDigitChars 10 cs n := by
  rw [Nat.ofDigitChars_eq_ofDigitChars_zero]
  have hpos : 1 ≤ 10 ^ cs.length := Nat.one_le_pow _ _ (by decide)
  have hle : 1 * n ≤ 10 ^ cs.length * n := Nat.mul_le_mul_right n hpos
  omega

/-- A digit as a character and as a byte. -/
theorem encodeChar_digit {c : Char} (h : c.isDigit) :
    String.utf8EncodeChar c = [ascii c] ∧ isDigit (ascii c) ∧
      (ascii c).toNat = c.toNat := by
  have hrange : 48 ≤ c.toNat ∧ c.toNat ≤ 57 := Char.isDigit_iff_toNat.1 h
  have hbyte : (ascii c).toNat = c.toNat := Utf8.toNat_ofNat (by omega)
  exact ⟨Utf8.encodeChar_of_le (by omega), isDigit_iff.2 (by omega), hbyte⟩

theorem mul_add_digitValue {c : Char} (h : c.isDigit) (n : Nat) :
    n * 10 + digitValue (ascii c) = 10 * n + (c.toNat - '0'.toNat) := by
  have hzero : '0'.toNat = 48 := rfl
  rw [digitValue, (encodeChar_digit h).2.2]
  omega

/-- Digits end where something else stands. -/
theorem wholeDigits_stop (h : startsWithDigit rest = false) (n k : Nat) :
    wholeDigits n k rest = (n, k, rest) := by
  cases rest with
  | nil => rfl
  | cons b s =>
    have hb : isDigit b = false := h
    rw [wholeDigits, if_neg (by simp [hb])]

theorem le_decimal (n : Nat) (t : Bytes) : n ≤ decimal n t := by
  induction t generalizing n with
  | nil => exact Nat.le_refl n
  | cons b t ih =>
    have hle := ih (n * 10 + digitValue b)
    change n ≤ decimal (n * 10 + digitValue b) t
    omega

theorem decimal_encode {cs : List Char} (hcs : ∀ c ∈ cs, c.isDigit) (n : Nat) :
    decimal n (Utf8.encode cs) = Nat.ofDigitChars 10 cs n := by
  induction cs generalizing n with
  | nil => rfl
  | cons c cs ih =>
    obtain ⟨hc, hcs⟩ := List.forall_mem_cons.1 hcs
    rw [Utf8.encode_cons, (encodeChar_digit hc).1, Nat.ofDigitChars_cons, ← mul_add_digitValue hc,
      ← ih hcs]
    rfl

theorem wholeDigits_digits (ht : ∀ b ∈ t, isDigit b) {n : Nat}
    (hmax : decimal n t ≤ maxSignificand) (hrest : startsWithDigit rest = false) :
    wholeDigits n 0 (t ++ rest) = (decimal n t, 0, rest) := by
  induction t generalizing n with
  | nil => exact wholeDigits_stop hrest n 0
  | cons b t ih =>
    obtain ⟨hb, ht⟩ := List.forall_mem_cons.1 ht
    change decimal (n * 10 + digitValue b) t ≤ maxSignificand at hmax
    -- Digits only make the significand larger, so it cannot pass the bound and come back.
    have hle := le_decimal (n * 10 + digitValue b) t
    rw [List.cons_append, wholeDigits, if_pos hb]
    dsimp only
    rw [if_pos ⟨rfl, by omega⟩]
    exact ih ht hmax

/-- No number but zero begins with a zero. -/
theorem exists_digits {n : Nat} (h : 0 < n) :
    ∃ c cs, Double.digitsOf n = c :: cs ∧ c ≠ '0' := by
  unfold Double.digitsOf
  induction n using Nat.strongRecOn with
  | ind n ih =>
    by_cases hn : n < 10
    · refine ⟨n.digitChar, [], Nat.toDigits_of_lt_base hn, ?_⟩
      intro hzero
      have hdigit := Nat.toNat_digitChar_sub_48_of_lt_ten hn
      rw [hzero] at hdigit
      have : '0'.toNat = 48 := rfl
      omega
    -- The digits of `n` are those of its tenth part, and one more at the end.
    · obtain ⟨c, cs, hdigits, hc⟩ := ih (n / 10) (by omega) (by omega)
      refine ⟨c, cs ++ [(n % 10).digitChar], ?_, hc⟩
      rw [Nat.toDigits_of_base_le (by decide) (by omega), hdigits, List.cons_append]

theorem numberTail_of_ends {negative : Bool} {n : Nat} (h : Ends rest) :
    numberTail negative n 0 rest = .ok (integer negative n, rest) := by
  rcases h.cases with rfl | ⟨b, s, rfl, -, hpoint, hexponent⟩
  · rfl
  · unfold numberTail
    dsimp only
    rw [if_neg hpoint, if_neg (by simp [hexponent])]

/-- The digits before a point are read as the number they stand for, if it fits. -/
theorem number_wholeText {negative : Bool} (ht : WholeText t)
    (hmax : decimal 0 t ≤ maxSignificand) (hrest : startsWithDigit rest = false) :
    number negative (t ++ rest) = numberTail negative (decimal 0 t) 0 rest := by
  cases ht with
  | zero =>
    rw [List.singleton_append, number, if_pos rfl, if_neg (by simp [hrest])]
    rfl
  | digits hb hzero ht =>
    have hread := wholeDigits_digits (List.forall_mem_cons.2 ⟨hb, ht⟩) hmax hrest
    rw [List.cons_append] at hread ⊢
    rw [number, if_neg hzero, if_pos hb, hread]

/-- The digits before a point are those of zero or begin with no zero. -/
def Whole (cs : List Char) : Prop := cs = ['0'] ∨ ∃ c ds, cs = c :: ds ∧ c ≠ '0'

theorem wholeText_encode {cs : List Char} (hwhole : Whole cs) (hcs : ∀ c ∈ cs, c.isDigit) :
    WholeText (Utf8.encode cs) := by
  rcases hwhole with rfl | ⟨c, ds, rfl, hc⟩
  · exact .zero
  · obtain ⟨hdigit, hdigits⟩ := List.forall_mem_cons.1 hcs
    obtain ⟨hencode, hbyte, hvalue⟩ := encodeChar_digit hdigit
    rw [Utf8.encode_cons, hencode]
    refine .digits hbyte ?_ fun b hb => ?_
    · -- A first digit that is not zero as a character is not zero as a byte.
      intro heq
      rw [heq] at hvalue
      exact hc (Char.toNat_inj.1 hvalue.symm)
    · obtain ⟨d, hd, hb⟩ := List.mem_flatMap.1 hb
      obtain ⟨hencode, hbyte, -⟩ := encodeChar_digit (hdigits d hd)
      rw [hencode, List.mem_singleton] at hb
      exact hb ▸ hbyte

theorem number_whole {negative : Bool} {cs : List Char} (hwhole : Whole cs)
    (hcs : ∀ c ∈ cs, c.isDigit) (hmax : Nat.ofDigitChars 10 cs 0 ≤ maxSignificand)
    (hrest : startsWithDigit rest = false) :
    number negative (Utf8.encode cs ++ rest) =
      numberTail negative (Nat.ofDigitChars 10 cs 0) 0 rest := by
  rw [← decimal_encode hcs] at hmax ⊢
  exact number_wholeText (wholeText_encode hwhole hcs) hmax hrest

theorem isDigit_digitsOf (n : Nat) : ∀ c ∈ Double.digitsOf n, c.isDigit := fun _ hc =>
  Nat.isDigit_of_mem_toDigits (by decide) (by decide) hc

theorem ofDigitChars_digitsOf (n : Nat) : Nat.ofDigitChars 10 (Double.digitsOf n) 0 = n :=
  Nat.ofDigitChars_ten_toDigits

theorem whole_digitsOf (n : Nat) : Whole (Double.digitsOf n) := by
  rcases Nat.eq_zero_or_pos n with rfl | hpos
  · exact .inl rfl
  · exact .inr (exists_digits hpos)

/-- A natural number is written by its digits. -/
theorem wholeText_digitsOf (n : Nat) :
    WholeText (Utf8.encode (Double.digitsOf n)) ∧ decimal 0 (Utf8.encode (Double.digitsOf n)) = n :=
  ⟨wholeText_encode (whole_digitsOf n) (isDigit_digitsOf n),
    (decimal_encode (isDigit_digitsOf n) 0).trans (ofDigitChars_digitsOf n)⟩

/-- The digits of an integer are read after its sign. -/
theorem number_digits {negative : Bool} {n : Nat} (hn : n ≤ maxSignificand) (h : Ends rest) :
    number negative (Utf8.encode (Double.digitsOf n) ++ rest) =
      .ok (integer negative n, rest) := by
  obtain ⟨hwhole, hvalue⟩ := wholeText_digitsOf n
  rw [number_wholeText hwhole (hvalue.trans_le hn) h.startsWithDigit, hvalue]
  exact numberTail_of_ends h

theorem integer_natAbs {n : Int} (lower : -0x8000000000000000 ≤ n)
    (upper : n < 0x10000000000000000) : integer (n < 0) n.natAbs = .int n lower upper := by
  unfold integer
  by_cases hneg : n < 0
  · have habs : -(n.natAbs : Int) = n := by omega
    rw [decide_eq_true hneg, if_pos rfl, if_neg (by omega), habs, Number.ofInt?,
      dif_pos ⟨lower, upper⟩]
  · have habs : (n.natAbs : Int) = n := by omega
    rw [decide_eq_false hneg, if_neg (by simp), habs, Number.ofInt?, dif_pos ⟨lower, upper⟩]

end EventSandbox.Json
