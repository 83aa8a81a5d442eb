import EventSandbox.Proofs.Json.Token

/-!
# EventSandbox.Proofs.Json.Numeral — numbers in the middle of a text

A number that is read to its end by itself is read as the same number, whatever text goes on after
it, as long as this may follow a value (`number_append`). So the reader never looks further than
the number goes.
-/

namespace EventSandbox.Json

variable {negative : Bool} {n k : Nat} {exponent : Int} {b : UInt8} {s t rest : Bytes}
  {result : Number}

/-! ## Digits -/

theorem fractionDigits_stop (h : startsWithDigit rest = false) (n k : Nat) :
    fractionDigits n k rest = (n, k, rest) := by
  cases rest with
  | nil => rfl
  | cons b s =>
    have hb : isDigit b = false := h
    rw [fractionDigits, if_neg (by simp [hb])]

theorem exponentDigits_stop (h : startsWithDigit rest = false) (n : Nat) :
    exponentDigits n rest = (some n, rest) := by
  cases rest with
  | nil => rfl
  | cons b s =>
    have hb : isDigit b = false := h
    rw [exponentDigits, if_neg (by simp [hb])]

theorem skipDigits_stop (h : startsWithDigit rest = false) : skipDigits rest = rest := by
  cases rest with
  | nil => rfl
  | cons b s =>
    have hb : isDigit b = false := h
    exact List.dropWhile_cons_of_neg (by simp [hb])

theorem skipDigits_append (h : startsWithDigit rest = false) (s : Bytes) :
    skipDigits (s ++ rest) = skipDigits s ++ rest := by
  induction s with
  | nil => exact skipDigits_stop h
  | cons b s ih =>
    unfold skipDigits at ih ⊢
    rw [List.cons_append, List.dropWhile_cons, List.dropWhile_cons]
    split
    · exact ih
    · rfl

theorem wholeDigits_append (h : startsWithDigit rest = false) (n k : Nat) (s : Bytes) :
    wholeDigits n k (s ++ rest) =
      ((wholeDigits n k s).1, (wholeDigits n k s).2.1, (wholeDigits n k s).2.2 ++ rest) := by
  induction s generalizing n k with
  | nil => exact wholeDigits_stop h n k
  | cons b s ih =>
    rw [List.cons_append, wholeDigits, wholeDigits]
    dsimp only
    split_ifs
    · exact ih _ _
    · exact ih _ _
    · rfl

theorem fractionDigits_append (h : startsWithDigit rest = false) (n k : Nat) (s : Bytes) :
    fractionDigits n k (s ++ rest) =
      ((fractionDigits n k s).1, (fractionDigits n k s).2.1,
        (fractionDigits n k s).2.2 ++ rest) := by
  induction s generalizing n k with
  | nil => exact fractionDigits_stop h n k
  | cons b s ih =>
    rw [List.cons_append, fractionDigits, fractionDigits]
    dsimp only
    split_ifs
    · exact ih _ _
    · rw [skipDigits_append h]
    · rfl

theorem exponentDigits_append (h : startsWithDigit rest = false) (n : Nat) (s : Bytes) :
    exponentDigits n (s ++ rest) = ((exponentDigits n s).1, (exponentDigits n s).2 ++ rest) := by
  induction s generalizing n with
  | nil => exact exponentDigits_stop h n
  | cons b s ih =>
    rw [List.cons_append, exponentDigits, exponentDigits]
    dsimp only
    split_ifs
    · exact ih _
    · rw [skipDigits_append h]
    · rfl

/-! ## Exponents -/

/-- Whether an exponent is negative, and what follows its sign. -/
def exponentSign (s : Bytes) : Bool × Bytes :=
  match s with
  | b :: t =>
    if b = ascii '+' then (false, t) else if b = ascii '-' then (true, t) else (false, s)
  | [] => (false, s)

/-- The number after the sign of its exponent. -/
def exponentTail (negative : Bool) (significand : Nat) (exponent : Int) (minus : Bool) (s : Bytes) :
    Except Fault (Number × Bytes) :=
  match s with
  | [] => .error .truncated
  | b :: t =>
    if isDigit b then
      match exponentDigits (digitValue b) t with
      | (some e, rest) => do
        let x ← scale significand (saturate (if minus then exponent - e else exponent + e))
        pure (signed negative x, rest)
      | (none, rest) =>
        if significand ≠ 0 ∧ !minus then .error .malformed
        else pure (signed negative Double.zero, rest)
    else .error .malformed

theorem exponentPart_eq (negative : Bool) (n : Nat) (exponent : Int) (s : Bytes) :
    exponentPart negative n exponent s =
      exponentTail negative n exponent (exponentSign s).1 (exponentSign s).2 := rfl

theorem exponentSign_append (hs : s ≠ []) (rest : Bytes) :
    exponentSign (s ++ rest) = ((exponentSign s).1, (exponentSign s).2 ++ rest) := by
  obtain ⟨b, s, rfl⟩ := List.exists_cons_of_ne_nil hs
  unfold exponentSign
  dsimp only [List.cons_append]
  split_ifs <;> rfl

theorem scaled_append {e : Int} (rest : Bytes)
    (h : ((scale n e).map fun x => (signed negative x, s)) = .ok (result, t)) :
    ((scale n e).map fun x => (signed negative x, s ++ rest)) = .ok (result, t ++ rest) ∧
      ∃ x, result = .float x := by
  cases hscale : scale n e with
  | error fault =>
    rw [hscale] at h
    cases h
  | ok x =>
    rw [hscale] at h
    cases h
    exact ⟨rfl, _, rfl⟩

/-- What an exponent comes to is a double, whatever follows it. -/
theorem exponentTail_append (minus : Bool) (hrest : startsWithDigit rest = false)
    (h : exponentTail negative n exponent minus s = .ok (result, t)) :
    exponentTail negative n exponent minus (s ++ rest) = .ok (result, t ++ rest) ∧
      ∃ x, result = .float x := by
  cases s with
  | nil => cases h
  | cons b s =>
    unfold exponentTail at h ⊢
    dsimp only [List.cons_append] at h ⊢
    -- An exponent has at least one digit, so without one the reading had failed already.
    by_cases hb : isDigit b
    swap
    · rw [if_neg hb] at h
      cases h
    rw [if_pos hb] at h ⊢
    rw [exponentDigits_append hrest]
    generalize exponentDigits (digitValue b) s = digits at h ⊢
    rcases digits with ⟨_ | e, after⟩
    · -- No exponent fits 32 bits: no number is scaled, only the sign of the exponent counts.
      dsimp only at h ⊢
      split_ifs at h ⊢
      cases h
      exact ⟨rfl, _, rfl⟩
    · exact scaled_append rest h

theorem exponentPart_append (hrest : startsWithDigit rest = false)
    (h : exponentPart negative n exponent s = .ok (result, t)) :
    exponentPart negative n exponent (s ++ rest) = .ok (result, t ++ rest) ∧
      ∃ x, result = .float x := by
  have hs : s ≠ [] := by
    rintro rfl
    cases h
  rw [exponentPart_eq] at h ⊢
  rw [exponentSign_append hs]
  exact exponentTail_append _ hrest h

/-! ## Numbers -/

theorem doubleTail_append (hrest : Ends rest)
    (h : doubleTail negative n exponent s = .ok (result, t)) :
    doubleTail negative n exponent (s ++ rest) = .ok (result, t ++ rest) ∧
      ∃ x, result = .float x := by
  cases s with
  | nil =>
    rw [List.nil_append]
    have hscaled := scaled_append rest h
    -- The number ends with its significand; what follows is nothing or a byte that is no mark.
    rcases hrest.cases with rfl | ⟨b, u, rfl, -, -, hmark⟩
    · exact hscaled
    · unfold doubleTail
      dsimp only
      rw [if_neg (by simp [hmark])]
      exact hscaled
  | cons b s =>
    unfold doubleTail at h ⊢
    dsimp only [List.cons_append] at h ⊢
    by_cases hmark : isExponentMark b
    · rw [if_pos hmark] at h ⊢
      exact exponentPart_append hrest.startsWithDigit h
    · rw [if_neg hmark] at h ⊢
      exact scaled_append rest h

theorem fractionPart_append (hrest : Ends rest)
    (h : fractionPart negative n k s = .ok (result, t)) :
    fractionPart negative n k (s ++ rest) = .ok (result, t ++ rest) ∧ ∃ x, result = .float x := by
  cases s with
  | nil => cases h
  | cons b s =>
    unfold fractionPart at h ⊢
    dsimp only [List.cons_append] at h ⊢
    -- A point wants a digit behind it, so without one the reading had failed already.
    by_cases hb : isDigit b
    swap
    · rw [if_neg hb] at h
      cases h
    rw [if_pos hb] at h ⊢
    rw [← List.cons_append, fractionDigits_append hrest.startsWithDigit]
    exact doubleTail_append hrest h

theorem numberTail_append (hrest : Ends rest)
    (h : numberTail negative n k s = .ok (result, t)) :
    numberTail negative n k (s ++ rest) = .ok (result, t ++ rest) := by
  cases s with
  | nil =>
    rw [List.nil_append]
    by_cases hk : k = 0
    · subst hk
      cases h
      exact numberTail_of_ends hrest
    · -- Digits were dropped, so the number is a double even without a fraction or an exponent.
      have hdouble : doubleTail negative n k [] = .ok (result, t) := by
        unfold numberTail at h
        dsimp only at h
        rwa [if_pos hk] at h
      have happend := (doubleTail_append hrest hdouble).1
      rw [List.nil_append] at happend
      rcases hrest.cases with rfl | ⟨b, u, rfl, -, hpoint, -⟩
      · unfold numberTail
        dsimp only
        rwa [if_pos hk]
      · unfold numberTail
        dsimp only
        rwa [if_neg hpoint, if_pos (.inl hk)]
  | cons b s =>
    unfold numberTail at h ⊢
    dsimp only [List.cons_append] at h ⊢
    split_ifs at h ⊢
    · exact (fractionPart_append hrest h).1
    · exact (doubleTail_append hrest h).1
    · cases h
      rfl

/-- A number by itself is the same number with something after it. -/
theorem number_append (hrest : Ends rest) (h : number negative s = .ok (result, t)) :
    number negative (s ++ rest) = .ok (result, t ++ rest) := by
  cases s with
  | nil => cases h
  | cons b s =>
    unfold number at h ⊢
    dsimp only [List.cons_append] at h ⊢
    -- A zero may have no digit behind it, and `rest` adds none.
    have hstart : startsWithDigit (s ++ rest) = startsWithDigit s := by
      cases s with
      | nil => exact hrest.startsWithDigit
      | cons => rfl
    rw [hstart, ← List.cons_append, wholeDigits_append hrest.startsWithDigit]
    split_ifs at h ⊢
    · exact numberTail_append hrest h
    · exact numberTail_append hrest h

/-! ## Integers -/

theorem wholeDigits_dropped (ht : ∀ b ∈ t, isDigit b) (hk : k ≠ 0)
    (hrest : startsWithDigit rest = false) :
    ∃ d ≠ 0, wholeDigits n k (t ++ rest) = (n, d, rest) := by
  induction t generalizing k with
  | nil => exact ⟨k, hk, wholeDigits_stop hrest n k⟩
  | cons b t ih =>
    obtain ⟨hb, ht⟩ := List.forall_mem_cons.1 ht
    obtain ⟨d, hd, hread⟩ := ih ht (Nat.succ_ne_zero k)
    refine ⟨d, hd, ?_⟩
    rw [List.cons_append, wholeDigits, if_pos hb]
    dsimp only
    rw [if_neg fun h => hk h.1, hread]

/-- Of a number that does not fit, digits are dropped. -/
theorem wholeDigits_exceeds (ht : ∀ b ∈ t, isDigit b) (hn : n ≤ maxSignificand)
    (hmax : maxSignificand < decimal n t) (hrest : startsWithDigit rest = false) :
    ∃ m, ∃ d ≠ 0, wholeDigits n 0 (t ++ rest) = (m, d, rest) := by
  induction t generalizing n with
  | nil => exact absurd hmax (Nat.not_lt.2 hn)
  | cons b t ih =>
    obtain ⟨hb, ht⟩ := List.forall_mem_cons.1 ht
    change maxSignificand < decimal (n * 10 + digitValue b) t at hmax
    rw [List.cons_append, wholeDigits, if_pos hb]
    dsimp only
    -- The first digit that no longer fits ends the significand; the others are only counted.
    by_cases hnext : n * 10 + digitValue b ≤ maxSignificand
    · rw [if_pos ⟨rfl, hnext⟩]
      exact ih ht hnext hmax
    · rw [if_neg fun h => hnext h.2]
      obtain ⟨d, hd, hread⟩ := wholeDigits_dropped ht (Nat.succ_ne_zero 0) hrest
      exact ⟨n, d, hd, hread⟩

/-- No digit follows those before a point. -/
theorem startsWithDigit_tail {f e : Bytes} (hf : FractionText f) (he : ExponentText e)
    (hrest : Ends rest) : startsWithDigit (f ++ e ++ rest) = false := by
  cases hf with
  | some => rfl
  | none =>
    cases he with
    | none => exact hrest.startsWithDigit
    | some hmark =>
      simp only [isExponentMark, decide_eq_true_eq] at hmark
      rcases hmark with rfl | rfl <;> rfl

theorem number_exceeds (negative : Bool) (ht : WholeText t) (hmax : maxSignificand < decimal 0 t)
    (hrest : startsWithDigit rest = false) :
    ∃ m, ∃ d ≠ 0, number negative (t ++ rest) = numberTail negative m d rest := by
  cases ht with
  | zero => exact absurd hmax (by decide)
  | digits hb hzero ht =>
    obtain ⟨m, d, hd, hread⟩ :=
      wholeDigits_exceeds (List.forall_mem_cons.2 ⟨hb, ht⟩) (Nat.zero_le _) hmax hrest
    refine ⟨m, d, hd, ?_⟩
    rw [List.cons_append] at hread ⊢
    rw [number, if_neg hzero, if_pos hb, hread]

theorem ends_nil : Ends [] := fun _ h => nomatch h

variable {i : Int} {lower : -0x8000000000000000 ≤ i} {upper : i < 0x10000000000000000}

/-- An integer comes out only where no digits were dropped and no point or exponent follows. -/
theorem numberTail_int (h : numberTail negative n k s = .ok (.int i lower upper, t)) :
    k = 0 ∧ integer negative n = .int i lower upper ∧
      ∀ b u, s = b :: u → b ≠ ascii '.' ∧ isExponentMark b = false := by
  unfold numberTail at h
  cases s with
  | nil =>
    dsimp only at h
    split_ifs at h with hk
    · -- A tail that is a double gives no integer, so only the last branch of each case remains.
      obtain ⟨-, x, hx⟩ := doubleTail_append ends_nil h
      cases hx
    · obtain ⟨hint, -⟩ := Prod.mk.inj (Except.ok.inj h)
      exact ⟨of_not_not hk, hint, fun _ _ h => nomatch h⟩
  | cons b s =>
    dsimp only at h
    split_ifs at h with hpoint hdouble
    · obtain ⟨-, x, hx⟩ := fractionPart_append ends_nil h
      cases hx
    · obtain ⟨-, x, hx⟩ := doubleTail_append ends_nil h
      cases hx
    · obtain ⟨hint, -⟩ := Prod.mk.inj (Except.ok.inj h)
      rw [not_or, Bool.not_eq_true] at hdouble
      refine ⟨of_not_not hdouble.1, hint, ?_⟩
      rintro _ _ ⟨⟩
      exact ⟨hpoint, hdouble.2⟩

theorem integer_eq_int (h : integer negative n = .int i lower upper) :
    if negative then i < 0 else i = n := by
  unfold integer at h
  cases negative with
  | false =>
    -- Without a sign the number is `n` itself; a negative one is an integer only below zero.
    rw [if_neg Bool.false_ne_true, Number.ofInt?] at h
    split_ifs at h
    cases h
    rfl
  | true =>
    rw [if_pos rfl, Number.ofInt?] at h
    split_ifs at h with hzero
    cases h
    rw [if_pos rfl]
    omega

/-- Only digits alone are read as an integer, and as the one that they stand for. A minus sign
before them makes it negative, or a double if they stand for zero. -/
theorem number_eq_int (ht : Numeral t) (hrest : Ends rest)
    (h : number negative (t ++ rest) = .ok (.int i lower upper, s)) :
    WholeText t ∧ if negative then i < 0 else i = decimal 0 t := by
  obtain @⟨w, f, e, hw, hf, he⟩ := ht
  have hstop := startsWithDigit_tail hf he hrest
  rw [List.append_assoc] at h
  -- Up to the largest significand no digit is dropped; beyond it `d ≠ 0` makes it a double.
  by_cases hmax : decimal 0 w ≤ maxSignificand
  · rw [number_wholeText hw hmax hstop] at h
    obtain ⟨-, hint, hplain⟩ := numberTail_int h
    cases hf with
    | some => exact absurd rfl (hplain _ _ rfl).1
    | none =>
      cases he with
      | some hmark => exact absurd hmark (by simp [(hplain _ _ rfl).2])
      | none =>
        rw [List.append_nil, List.append_nil]
        exact ⟨hw, integer_eq_int hint⟩
  · have hlarge := Nat.lt_of_not_le hmax
    obtain ⟨m, d, hd, hread⟩ := number_exceeds negative hw hlarge hstop
    rw [hread] at h
    exact absurd (numberTail_int h).1 hd

end EventSandbox.Json
