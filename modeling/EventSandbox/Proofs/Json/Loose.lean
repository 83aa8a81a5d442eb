import EventSandbox.Json.Parser
import EventSandbox.Proofs.Json.Numeral

/-!
# EventSandbox.Proofs.Json.Loose — what a text looks like

`Loose .value t` says that `t` follows the grammar of a value. It asks for less than `Text`
(`Text.loose`): numbers may be of any size, strings need not be UTF-8 and their escapes need not
make sense, and brackets may be nested as deep as they like.

A reader knows what to do by the first byte of a value, and that the value is over by the first byte
behind it (`Loose.begins`, `Loose.ends`).
-/

namespace EventSandbox.Json

variable {n : Nat} {b : UInt8} {s t u rest : Bytes}

/-! ## First bytes -/

/-- A text that begins with a byte that is neither a blank nor the end of an array. -/
def Begins (t : Bytes) : Prop :=
  ∃ b u, b ≠ ascii ']' ∧ ∀ rest, skipBlank (t ++ rest) = b :: (u ++ rest)

theorem begins_cons (h : isBlank b = false) (hb : b ≠ ascii ']') (u : Bytes) : Begins (b :: u) :=
  ⟨b, u, hb, fun _ => skipBlank_of_not h _⟩

theorem Begins.length_pos (h : Begins t) : 0 < t.length := by
  obtain ⟨b, u, -, hskip⟩ := h
  rcases t with _ | ⟨c, t⟩
  · cases hskip []
  · exact Nat.succ_pos _

theorem isBlank_of_isDigit (h : isDigit b) : isBlank b = false := by
  have hrange := isDigit_iff.1 h
  rw [← Bool.not_eq_true]
  intro hblank
  simp only [isBlank, decide_eq_true_eq] at hblank
  rcases hblank with rfl | rfl | rfl | rfl <;> exact absurd hrange (by decide)

/-- What begins with a digit. -/
def BeginsWithDigit (t : Bytes) : Prop := ∃ b u, t = b :: u ∧ isDigit b

theorem WholeText.beginsWithDigit (h : WholeText t) (s : Bytes) : BeginsWithDigit (t ++ s) := by
  cases h with
  | zero => exact ⟨ascii '0', _, rfl, rfl⟩
  | @digits b u hb => exact ⟨b, _, List.cons_append, hb⟩

theorem beginsWithDigit_digitsOf (n : Nat) :
    BeginsWithDigit (Utf8.encode (Double.digitsOf n)) := by
  rw [← List.append_nil (Utf8.encode _)]
  exact (wholeText_digitsOf n).1.beginsWithDigit []

theorem Numeral.beginsWithDigit (h : Numeral t) : BeginsWithDigit t := by
  obtain ⟨hw, -, -⟩ := h
  exact hw.beginsWithDigit _

theorem BeginsWithDigit.begins (h : BeginsWithDigit t) : Begins t := by
  obtain ⟨b, u, rfl, hb⟩ := h
  exact begins_cons (isBlank_of_isDigit hb) (ne_of_isDigit hb rfl) u

/-- A number begins with its sign or with a digit. -/
theorem begins_number {negative : Bool} (h : BeginsWithDigit t) : Begins (sign negative ++ t) := by
  cases negative with
  | true => exact begins_cons rfl (by decide) t
  | false => exact h.begins

theorem ends_cons (h : isBlank b ∨ b = ascii ',' ∨ b = ascii ']' ∨ b = ascii '}') (s : Bytes) :
    Ends (b :: s) := by
  rintro _ ⟨⟩
  exact h

/-! ## The grammar -/

/-- A string after its opening quote, of which only the grammar matters. -/
inductive LooseString : Bytes → Prop
  | close : LooseString [ascii '"']
  | plain {b : UInt8} {t : Bytes} (hquote : b ≠ ascii '"') (hcontrol : ¬ b < 0x20)
      (hbackslash : b ≠ ascii '\\') (h : LooseString t) : LooseString (b :: t)
  | short {letter : UInt8} {c : Char} {t : Bytes} (hletter : shortEscape? letter = some c)
      (h : LooseString t) : LooseString (ascii '\\' :: letter :: t)
  | hex {h₁ h₂ h₃ h₄ : UInt8} {n : Nat} {t : Bytes} (hdigits : hexFour? h₁ h₂ h₃ h₄ = some n)
      (h : LooseString t) : LooseString (ascii '\\' :: ascii 'u' :: h₁ :: h₂ :: h₃ :: h₄ :: t)

/-- The byte that opens a bracket. -/
def Bracket.opening : Bracket → UInt8
  | .array => ascii '['
  | .object => ascii '{'

/-- What precedes a value in a bracket: in an object, a key and its colon. -/
inductive KeyText : Bracket → Bytes → Prop
  | array : KeyText .array []
  | object {before k after : Bytes} (hbefore : ∀ b ∈ before, isBlank b) (hk : LooseString k)
      (hafter : ∀ b ∈ after, isBlank b) :
      KeyText .object (before ++ ascii '"' :: (k ++ (after ++ [ascii ':'])))

/-- What a text that is passed over, or a part of one, is about. -/
inductive Shape
  | value
  /-- What an open bracket still gets. -/
  | inside (bracket : Bracket) (first : Bool)

/-- The words that are values. -/
def words : List Bytes := [utf8 "null", utf8 "true", utf8 "false"]

/-- Texts that follow the grammar. -/
inductive Loose : Shape → Bytes → Prop
  | blank {shape : Shape} {b : UInt8} {t : Bytes} (hb : isBlank b) (h : Loose shape t) :
      Loose shape (b :: t)
  | word {t : Bytes} (h : t ∈ words) : Loose .value t
  | number {negative : Bool} {t : Bytes} (h : Numeral t) : Loose .value (sign negative ++ t)
  | string {t : Bytes} (h : LooseString t) : Loose .value (ascii '"' :: t)
  | bracket {bracket : Bracket} {t : Bytes} (h : Loose (.inside bracket true) t) :
      Loose .value (bracket.opening :: t)
  | close {bracket : Bracket} {first : Bool} : Loose (.inside bracket first) [bracket.closing]
  | element {bracket : Bracket} {first : Bool} {k t u : Bytes} (hk : KeyText bracket k)
      (h : Loose .value t) (hrest : Loose (.inside bracket false) u) :
      Loose (.inside bracket first) (separator first ++ (k ++ (t ++ u)))

/-! ## Both ends -/

theorem Loose.begins (h : Loose .value t) : Begins t := by
  generalize hshape : Shape.value = shape at h
  -- Blanks do not count, and what comes after them tells by its first byte that it is a value.
  induction h with
  | @blank _ b t hb _ ih =>
    obtain ⟨c, u, hc, hskip⟩ := ih hshape
    refine ⟨c, u, hc, fun rest => ?_⟩
    rw [List.cons_append, skipBlank_blank hb]
    exact hskip rest
  | word h =>
    simp only [words, List.mem_cons, List.not_mem_nil, or_false] at h
    rcases h with rfl | rfl | rfl
    · exact begins_cons rfl (by decide) (utf8 "ull")
    · exact begins_cons rfl (by decide) (utf8 "rue")
    · exact begins_cons rfl (by decide) (utf8 "alse")
  | number h => exact begins_number h.beginsWithDigit
  | string => exact begins_cons rfl (by decide) _
  | @bracket bracket => cases bracket <;> exact begins_cons rfl (by decide) _
  | close | element => cases hshape

theorem Loose.ends {bracket : Bracket} (h : Loose (.inside bracket false) t) (rest : Bytes) :
    Ends (t ++ rest) := by
  cases h with
  | blank hblank => exact ends_cons (.inl hblank) _
  | close =>
    cases bracket with
    | array => exact ends_cons (.inr (.inr (.inl rfl))) _
    | object => exact ends_cons (.inr (.inr (.inr rfl))) _
  | element => exact ends_cons (.inr (.inl rfl)) _

/-! ## Texts -/

/-- The text of an integer is that of its absolute value after its sign. -/
theorem encode_int (k : Int) (lower upper) :
    Utf8.encode (Number.int k lower upper).render =
      sign (k < 0) ++ Utf8.encode (Double.digitsOf k.natAbs) := by
  simp only [Number.render]
  by_cases hneg : k < 0
  · rw [if_pos hneg, decide_eq_true hneg]
    rfl
  · rw [if_neg hneg, decide_eq_false hneg]
    rfl

theorem WholeText.numeral (h : WholeText t) : Numeral t := by
  rw [← List.append_nil t]
  exact .mk h .none .none

theorem looseString_plains (h : ∀ b ∈ t, b ≠ ascii '"' ∧ ¬ b < 0x20 ∧ b ≠ ascii '\\')
    (hu : LooseString u) : LooseString (t ++ u) := by
  induction t with
  | nil => exact hu
  | cons b t ih =>
    obtain ⟨⟨hquote, hcontrol, hbackslash⟩, h⟩ := List.forall_mem_cons.1 h
    exact .plain hquote hcontrol hbackslash (ih h)

theorem looseString_char {c : Char} (h : CharText c t) (hu : LooseString u) :
    LooseString (t ++ u) := by
  cases h with
  | plain hquote hbackslash hcontrol =>
    exact looseString_plains (fun b => ne_of_mem_encodeChar hquote hbackslash hcontrol) hu
  | short h => exact .short h hu
  | hex h => exact .hex h hu
  | pair hlead htrail => exact .hex hlead (.hex htrail hu)

theorem looseString_chars {cs : List Char} (h : CharsText cs t) :
    LooseString (t ++ [ascii '"']) := by
  induction h with
  | nil => exact .close
  | cons h _ ih =>
    rw [List.append_assoc]
    exact looseString_char h ih

theorem StringText.loose {text : String} (h : StringText text s) :
    ∃ k, s = ascii '"' :: k ∧ LooseString k := by
  cases h with
  | quoted h => exact ⟨_, rfl, looseString_chars h⟩

/-- What the grammar has in the place of a form. -/
def Form.shape : Form → Shape
  | .value _ => .value
  | .items first _ => .inside .array first
  | .members first _ => .inside .object first

/-- Every text follows the grammar. -/
theorem Text.loose {form : Form} (h : Text form n t) : Loose form.shape t := by
  induction h with
  | blank hb _ ih => exact .blank hb ih
  | null => exact .word (by simp [words])
  | @bool b => exact .word (by cases b <;> simp [words])
  | int =>
    rw [encode_int]
    exact .number (wholeText_digitsOf _).1.numeral
  | double ht => exact .number ht
  | string h =>
    obtain ⟨k, rfl, hk⟩ := h.loose
    exact .string hk
  | array _ ih => exact @Loose.bracket .array _ ih
  | object _ ih => exact @Loose.bracket .object _ ih
  | noItems => exact @Loose.close .array _
  | item _ _ ih ihrest => exact .element .array ih ihrest
  | noMembers => exact @Loose.close .object _
  | @member first _ _ _ _ _ _ _ _ _ _ hbefore hkey hafter _ _ ih ihrest =>
    -- A member is an element like any other once its key has been taken off.
    obtain ⟨k, rfl, hk⟩ := hkey.loose
    have helement : Loose (.inside .object first) _ :=
      .element (.object hbefore hk hafter) ih ihrest
    simp only [List.append_assoc, List.cons_append, List.nil_append] at helement
    exact helement

end EventSandbox.Json
