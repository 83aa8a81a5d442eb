import EventSandbox.Proofs.Json.Parser

/-!
# EventSandbox.Proofs.Json.Skipping — what nobody reads

A value that nobody asks for is passed over and not read. Whatever follows the grammar is passed
over to its last byte, and nothing of what comes behind it (`skipValue_loose`): it may be nested
deeper than a reader goes, and hold numbers and strings that no reader takes.

Passing over works with a stack of brackets in place of recursion. A turn that reads nothing comes
after one that does, so that twice the length of a text bounds the turns it takes.
-/

namespace EventSandbox.Json

variable {limit n : Nat} {b : UInt8} {s t rest : Bytes}

/-! ## Strings -/

theorem skipString_loose (h : LooseString t) (rest : Bytes) :
    skipString (t ++ rest) = .ok rest := by
  -- The scan looks at one piece per turn, the piece that the rule of the grammar adds.
  induction h with
  | close =>
    rw [List.singleton_append, skipString.eq_def]
    exact if_pos rfl
  | plain hquote hcontrol hbackslash _ ih =>
    rw [List.cons_append, skipString.eq_def]
    dsimp only
    rw [if_neg hquote, if_neg hcontrol, if_neg hbackslash, ih]
  | @short letter c t hletter _ ih =>
    -- The letter of a short escape is not `u`, which would ask for four digits.
    have hu : letter ≠ ascii 'u' := by
      rintro rfl
      cases hletter
    rw [List.cons_append, List.cons_append, skipString.eq_def]
    dsimp only
    rw [if_neg (by decide), if_neg (by decide), if_pos rfl, if_neg hu, hletter]
    exact ih
  | hex hdigits _ ih =>
    simp only [List.cons_append]
    rw [skipString.eq_def]
    dsimp only
    rw [if_neg (by decide), if_neg (by decide), if_pos rfl, if_pos rfl, hdigits]
    exact ih

/-! ## Numbers -/

theorem skipDigits_digits (ht : ∀ b ∈ t, isDigit b) (hrest : startsWithDigit rest = false) :
    skipDigits (t ++ rest) = rest := by
  induction t with
  | nil => exact skipDigits_stop hrest
  | cons b t ih =>
    obtain ⟨hb, ht⟩ := List.forall_mem_cons.1 ht
    unfold skipDigits at ih ⊢
    rw [List.cons_append, List.dropWhile_cons, if_pos hb, ih ht]

theorem skipSomeDigits_digits (ht : Digits t) (hrest : startsWithDigit rest = false) :
    skipSomeDigits (t ++ rest) = .ok rest := by
  obtain ⟨hne, hall⟩ := ht
  obtain ⟨b, u, rfl⟩ := List.exists_cons_of_ne_nil hne
  have hb : startsWithDigit (b :: u ++ rest) := hall b (by simp)
  rw [skipSomeDigits, if_pos hb, skipDigits_digits hall hrest]

theorem skipExponent_digits {sign : Bytes} (hsign : sign ∈ exponentSigns) (ht : Digits t)
    (hrest : startsWithDigit rest = false) : skipExponent (sign ++ t ++ rest) = .ok rest := by
  have hdigits := skipSomeDigits_digits ht hrest
  simp only [exponentSigns, List.mem_cons, List.not_mem_nil, or_false] at hsign
  -- Either no sign, where a digit must not be taken for one, or one of the two signs.
  rcases hsign with rfl | rfl | rfl
  · obtain ⟨hne, hall⟩ := ht
    obtain ⟨b, u, rfl⟩ := List.exists_cons_of_ne_nil hne
    have hb : ¬ (b = ascii '+' ∨ b = ascii '-') := by
      have hdigit := hall b (by simp)
      rintro (rfl | rfl)
      · cases hdigit
      · cases hdigit
    rw [List.nil_append, List.cons_append, skipExponent]
    rw [if_neg hb]
    exact hdigits
  · exact hdigits
  · exact hdigits

/-- What may follow the digits before a point, with what may follow a value. -/
theorem skipNumberTail_text {f e : Bytes} (hf : FractionText f) (he : ExponentText e)
    (hrest : Ends rest) : skipNumberTail (f ++ e ++ rest) = .ok rest := by
  have hstop := hrest.startsWithDigit
  cases hf with
  | none =>
    cases he with
    | none =>
      -- Nothing is skipped, and what follows is taken neither for a fraction nor for an exponent.
      rcases hrest.cases with rfl | ⟨b, u, rfl, -, hpoint, hmark⟩
      · rfl
      · rw [List.append_nil, List.nil_append, skipNumberTail]
        rw [if_neg hpoint, if_neg (by simp [hmark])]
    | @some mark sign t hmark hsign ht =>
      have hpoint : mark ≠ ascii '.' := by
        rintro rfl
        cases hmark
      rw [List.nil_append, List.cons_append, skipNumberTail]
      rw [if_neg hpoint, if_pos hmark]
      exact skipExponent_digits hsign ht hstop
  | @some t ht =>
    rw [List.cons_append, List.cons_append, skipNumberTail, if_pos rfl]
    cases he with
    | none =>
      rw [List.append_nil, skipSomeDigits_digits ht hstop]
      rcases hrest.cases with rfl | ⟨b, u, rfl, -, -, hmark⟩
      · rfl
      · exact if_neg (by simp [hmark])
    | @some mark sign u hmark hsign hu =>
      have hdigit : startsWithDigit (mark :: (sign ++ u) ++ rest) = false := by
        simp only [isExponentMark, decide_eq_true_eq] at hmark
        rcases hmark with rfl | rfl <;> rfl
      rw [List.append_assoc, skipSomeDigits_digits ht hdigit]
      exact (if_pos hmark).trans (skipExponent_digits hsign hu hstop)

theorem skipNumber_numeral (ht : Numeral t) (hrest : Ends rest) :
    skipNumber (t ++ rest) = .ok rest := by
  obtain @⟨w, f, e, hw, hf, he⟩ := ht
  have htail := skipNumberTail_text hf he hrest
  have hstop := startsWithDigit_tail hf he hrest
  rw [List.append_assoc]
  -- A zero stands alone; other digits go on up to the first byte that is none.
  cases hw with
  | zero =>
    rw [List.singleton_append, skipNumber]
    rw [if_pos rfl, if_neg (ne_of_eq_of_ne hstop Bool.false_ne_true)]
    exact htail
  | digits hb hzero hall =>
    rw [List.cons_append, skipNumber]
    rw [if_neg hzero, if_pos hb, skipDigits_digits hall hstop]
    exact htail

/-! ## Turns -/

section Turns

variable {bracket : Bracket} {stack outer : List Bracket} {first : Bool} {k : Bytes}

/-- Where an open bracket has been left. -/
def place (first : Bool) : Place := if first then .opened else .after

/-- The blanks before a value or inside an open bracket mean nothing. -/
theorem skipFrom_congr {p : Place} (hp : p = .before ∨ stack ≠ [])
    (h : skipBlank s = skipBlank t) :
    skipFrom limit p stack s = skipFrom limit p stack t := by
  cases limit with
  | zero => rfl
  | succ limit =>
    rcases hp with rfl | hopen
    · rw [skipFrom, skipFrom, h]
    · obtain ⟨top, outer, rfl⟩ := List.exists_cons_of_ne_nil hopen
      cases p <;> rw [skipFrom, skipFrom, h]

theorem skipFrom_close (rest : Bytes) :
    skipFrom (limit + 1) (place first) (bracket :: outer) (bracket.closing :: rest) =
      skipFrom limit .after outer rest := by
  cases bracket <;> cases first <;> rfl

/-- What precedes a value in a bracket does not close it. -/
theorem KeyText.skipBlank (hk : KeyText bracket k) (ht : Begins t) (rest : Bytes) :
    ∃ b u, b ≠ bracket.closing ∧ skipBlank (k ++ (t ++ rest)) = b :: u := by
  cases hk with
  | array =>
    obtain ⟨b, u, hb, hskip⟩ := ht
    exact ⟨b, _, hb, hskip rest⟩
  | @object before k after hbefore =>
    refine ⟨ascii '"', k ++ (after ++ [ascii ':']) ++ (t ++ rest), by decide, ?_⟩
    rw [List.append_assoc, skipBlank_blanks hbefore, List.cons_append, skipBlank_of_not rfl]

theorem skipKey_text (hk : KeyText bracket k) (h : skipBlank s = skipBlank (k ++ t)) :
    ∃ u, skipKey bracket s = .ok u ∧ skipBlank u = skipBlank t := by
  cases hk with
  | array => exact ⟨s, rfl, h⟩
  | @object before k after hbefore hk hafter =>
    refine ⟨t, ?_, rfl⟩
    rw [List.append_assoc, skipBlank_blanks hbefore, List.cons_append, skipBlank_of_not rfl] at h
    rw [skipKey, h]
    dsimp only
    rw [if_pos rfl, List.append_assoc, skipString_loose hk, List.append_assoc]
    exact colon_text hafter t

theorem skipFrom_element (hk : KeyText bracket k) (ht : Begins t) (rest : Bytes) :
    skipFrom (limit + 1) (place first) (bracket :: outer)
        (separator first ++ (k ++ (t ++ rest))) =
      skipFrom limit .before (bracket :: outer) (t ++ rest) := by
  -- Before the first element no comma is looked for, but the closing bracket is.
  cases first with
  | true =>
    obtain ⟨b, u, hb, hskip⟩ := hk.skipBlank ht rest
    have hseen : skipBlank (b :: u) = skipBlank (k ++ (t ++ rest)) := by
      rw [← hskip, skipBlank_skipBlank]
    obtain ⟨w, hkey, hw⟩ := skipKey_text hk hseen
    change skipFrom (limit + 1) .opened _ (k ++ (t ++ rest)) = _
    rw [skipFrom, hskip]
    dsimp only
    rw [if_neg hb, hkey]
    exact skipFrom_congr (.inl rfl) hw
  | false =>
    obtain ⟨w, hkey, hw⟩ := skipKey_text hk (s := k ++ (t ++ rest)) rfl
    change skipFrom (limit + 1) .after _ (ascii ',' :: (k ++ (t ++ rest))) = _
    rw [skipFrom, skipBlank_of_not rfl]
    dsimp only
    rw [if_pos rfl, hkey]
    exact skipFrom_congr (.inl rfl) hw

/-! ## Whole values -/

/-- A text is passed over in so many turns, whatever follows it. -/
def Passes : Shape → Bytes → Prop
  | .value, t => ∃ turns < 2 * t.length, ∀ limit stack rest, Ends rest →
      skipFrom (limit + turns) .before stack (t ++ rest) = skipFrom limit .after stack rest
  | .inside bracket first, t => ∃ turns ≤ 2 * t.length, ∀ limit outer rest,
      skipFrom (limit + turns) (place first) (bracket :: outer) (t ++ rest) =
        skipFrom limit .after outer rest

theorem passes_blank {shape : Shape} (hb : isBlank b) (h : Passes shape t) :
    Passes shape (b :: t) := by
  -- The blank takes no turn, so the turns stay below the longer length.
  cases shape with
  | value =>
    obtain ⟨turns, hturns, hskip⟩ := h
    refine ⟨turns, by rw [List.length_cons]; omega, fun limit stack rest hrest => ?_⟩
    rw [← hskip limit stack rest hrest]
    exact skipFrom_congr (.inl rfl) (skipBlank_blank hb _)
  | inside bracket first =>
    obtain ⟨turns, hturns, hskip⟩ := h
    refine ⟨turns, by rw [List.length_cons]; omega, fun limit outer rest => ?_⟩
    rw [← hskip limit outer rest]
    exact skipFrom_congr (.inr (List.cons_ne_nil _ _)) (skipBlank_blank hb _)

/-- A value without brackets takes one turn. -/
theorem passes_scalar (hne : t ≠ [])
    (h : ∀ limit stack rest, Ends rest →
      skipFrom (limit + 1) .before stack (t ++ rest) = skipFrom limit .after stack rest) :
    Passes .value t := by
  have hpos := List.length_pos_iff.2 hne
  exact ⟨1, by omega, h⟩

/-- A word is known by its first letter. -/
theorem passes_word (b : UInt8) (word : Bytes)
    (h : ∀ limit stack s, skipFrom (limit + 1) .before stack (b :: s) =
      expect word s >>= skipFrom limit .after stack) : Passes .value (b :: word) := by
  refine passes_scalar (List.cons_ne_nil _ _) fun limit stack rest _ => ?_
  rw [List.cons_append, h, expect_append]
  rfl

theorem passes_words (h : t ∈ words) : Passes .value t := by
  simp only [words, List.mem_cons, List.not_mem_nil, or_false] at h
  rcases h with rfl | rfl | rfl
  · exact passes_word (ascii 'n') (utf8 "ull") fun _ _ _ => rfl
  · exact passes_word (ascii 't') (utf8 "rue") fun _ _ _ => rfl
  · exact passes_word (ascii 'f') (utf8 "alse") fun _ _ _ => rfl

theorem passes_number {negative : Bool} (h : Numeral t) : Passes .value (sign negative ++ t) := by
  obtain ⟨b, u, rfl, hb⟩ := h.beginsWithDigit
  refine passes_scalar (by simp) fun limit stack rest hrest => ?_
  have hnumber := skipNumber_numeral h hrest
  rw [List.append_assoc]
  -- A sign leads to the number at once; a digit is asked about four other bytes first.
  cases negative with
  | true =>
    change skipFrom (limit + 1) .before stack (ascii '-' :: (b :: u ++ rest)) = _
    rw [skipFrom, skipBlank_of_not rfl]
    dsimp only
    rw [hnumber]
    rfl
  | false =>
    have hne {c : UInt8} (hc : isDigit c = false) : b ≠ c := ne_of_isDigit hb hc
    change skipFrom (limit + 1) .before stack (b :: (u ++ rest)) = _
    rw [List.cons_append] at hnumber
    rw [skipFrom, skipBlank_of_not (isBlank_of_isDigit hb)]
    dsimp only
    rw [if_neg (hne rfl), if_neg (hne rfl), if_neg (hne rfl), if_neg (hne rfl), if_pos hb, hnumber]
    rfl

theorem passes_string (h : LooseString t) : Passes .value (ascii '"' :: t) := by
  refine passes_scalar (List.cons_ne_nil _ _) fun limit stack rest _ => ?_
  rw [List.cons_append, skipFrom, skipBlank_of_not rfl]
  dsimp only
  rw [skipString_loose h]
  rfl

theorem passes_bracket (h : Passes (.inside bracket true) t) :
    Passes .value (bracket.opening :: t) := by
  obtain ⟨turns, hturns, hskip⟩ := h
  refine ⟨turns + 1, by rw [List.length_cons]; omega, fun limit stack rest _ => ?_⟩
  rw [← hskip limit stack rest]
  cases bracket <;> rfl

theorem passes_close : Passes (.inside bracket first) [bracket.closing] :=
  ⟨1, Nat.le_succ 1, fun _ _ rest => skipFrom_close rest⟩

/-- An element takes a turn to be reached. -/
theorem passes_element {u : Bytes} (hk : KeyText bracket k) (ht : Begins t)
    (hends : ∀ rest, Ends (u ++ rest)) (h : Passes .value t)
    (hrest : Passes (.inside bracket false) u) :
    Passes (.inside bracket first) (separator first ++ (k ++ (t ++ u))) := by
  obtain ⟨m, hm, hvalue⟩ := h
  obtain ⟨n, hn, hinside⟩ := hrest
  refine ⟨n + m + 1, ?_, fun limit outer rest => ?_⟩
  · simp only [List.length_append]
    omega
  · rw [List.append_assoc, List.append_assoc, List.append_assoc, ← Nat.add_assoc,
      skipFrom_element hk ht, ← Nat.add_assoc, hvalue _ _ _ (hends rest)]
    exact hinside limit outer rest

end Turns

theorem Loose.passes {shape : Shape} (h : Loose shape t) : Passes shape t := by
  induction h with
  | blank hb _ ih => exact passes_blank hb ih
  | word h => exact passes_words h
  | number h => exact passes_number h
  | string h => exact passes_string h
  | bracket _ ih => exact passes_bracket ih
  | close => exact passes_close
  | element hk h hrest ih ihrest => exact passes_element hk h.begins hrest.ends ih ihrest

/-- A value is passed over, and nothing of what follows it. -/
theorem skipValue_loose (h : Loose .value t) (hlimit : t.length ≤ limit) (hrest : Ends rest) :
    skipValue limit (t ++ rest) = .ok rest := by
  obtain ⟨turns, hturns, hskip⟩ := h.passes
  -- One of the turns that are left finds the value complete.
  obtain ⟨spare, hspare⟩ : ∃ spare, 2 * limit + 2 = spare + 1 + turns :=
    ⟨2 * limit + 1 - turns, by omega⟩
  rw [skipValue, hspare, hskip _ _ _ hrest, skipFrom]

end EventSandbox.Json
