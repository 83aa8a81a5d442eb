import Mathlib
import EventSandbox.Proofs.Json.Float
import EventSandbox.Proofs.Json.Printer

/-!
# EventSandbox.Proofs.Json.Reread — what becomes of the doubles of a value

A value with doubles in it is read back as the value that has each of them as it is read from its
own text (`ofJson_toJson_reread`).
-/

namespace EventSandbox

namespace Value

mutual

/-- The value with each double as it is read from its text. -/
def reread : Value → Value
  | .number (.float x) => .number (.float x.reread)
  | .array items => .array (rereadItems items)
  | .object fields => .object (rereadFields fields)
  | v => v

/-- The items of an array, each reread. -/
def rereadItems : List Value → List Value
  | [] => []
  | v :: vs => reread v :: rereadItems vs

/-- The fields of an object, each reread. -/
def rereadFields : List (String × Value) → List (String × Value)
  | [] => []
  | (k, v) :: rest => (k, reread v) :: rereadFields rest

end

theorem rereadFields_keys (fields : Fields) :
    Fields.keys (rereadFields fields) = Fields.keys fields := by
  induction fields with
  | nil => rfl
  | cons field rest ih =>
    obtain ⟨k, v⟩ := field
    rw [rereadFields]
    simp only [Fields.keys, List.map_cons] at ih ⊢
    rw [ih]

end Value

namespace Json

variable {limit depth n : ℕ} {b : UInt8} {rest : Bytes}

/-! ## Doubles -/

theorem beginsWithDigit_unsigned (x : Double) :
    BeginsWithDigit (Utf8.encode (unsigned x)) := by
  obtain ⟨c, cs, htext, hc⟩ : ∃ c cs, unsigned x = c :: cs ∧ c.isDigit := by
    obtain ⟨d, ds, hdigits⟩ : ∃ d ds, Double.digitsOf x.shortest.digits = d :: ds :=
      List.exists_cons_of_ne_nil Nat.toDigits_ne_nil
    have hd : d.isDigit := isDigit_digitsOf x.shortest.digits d (by rw [hdigits]; simp)
    unfold unsigned
    dsimp only
    rw [hdigits]
    unfold Double.plain Double.scientific
    dsimp only
    split_ifs
    -- Zero, and numbers below one in plain notation.
    · exact ⟨'0', _, rfl, rfl⟩
    · exact ⟨'0', _, rfl, rfl⟩
    all_goals exact ⟨d, _, rfl, hd⟩
  obtain ⟨hencode, hbyte, -⟩ := encodeChar_digit hc
  exact ⟨ascii c, _, by rw [htext, Utf8.encode_cons, hencode]; rfl, hbyte⟩

/-- The text of a double is its digits after its sign. -/
theorem encode_double (x : Double) :
    Utf8.encode x.render = sign x.negative ++ Utf8.encode (unsigned x) := by
  rw [render_eq]
  cases x.negative <;> rfl

theorem begins_float (x : Double) : Begins (Utf8.encode x.render) := by
  rw [encode_double]
  exact begins_number (beginsWithDigit_unsigned x)

theorem reads_float (x : Double) :
    Reads (.value (.number (.float x.reread))) 0 (Utf8.encode x.render) := by
  rw [encode_double]
  refine reads_number (beginsWithDigit_unsigned x) fun rest hrest => ?_
  have hscale := x.scale_written
  rw [gathers_unsigned x _ _ hrest]
  -- The scale of the digits written ends in a double, so the error is no case.
  cases hresult : scale x.written.digits x.written.exponent with
  | error fault =>
    rw [hresult] at hscale
    cases hscale
  | ok y =>
    rw [hresult] at hscale
    change Except.ok (signed x.negative y) = Except.ok _ at hscale
    change Except.ok (signed x.negative y, rest) = Except.ok _
    rw [Except.ok.inj hscale]

/-! ## Values -/

open Value

theorem begins_render (v : Value) : Begins (Utf8.encode (render v)) := by
  -- A number begins with its sign or a digit, every other value with a byte of its own.
  cases v with
  | null => exact begins_cons rfl (by decide) _
  | bool b => cases b <;> exact begins_cons rfl (by decide) _
  | number n =>
    cases n with
    | int n lower upper =>
      change Begins (Utf8.encode (Number.int n lower upper).render)
      rw [encode_int]
      exact begins_number (beginsWithDigit_digitsOf _)
    | float x => exact begins_float x
  | string | array | object => exact begins_cons rfl (by decide) _

theorem ends_items (vs : List Value) (rest : Bytes) :
    Ends (gap false vs ++ (Utf8.encode (renderItems vs) ++ [ascii ']']) ++ rest) := by
  cases vs with
  | nil => exact ends_cons (.inr (.inr (.inl rfl))) _
  | cons v vs => exact ends_cons (.inr (.inl rfl)) _

theorem ends_fields (fields : List (String × Value)) (rest : Bytes) :
    Ends (gap false fields ++ (Utf8.encode (renderFields fields) ++ [ascii '}']) ++ rest) := by
  cases fields with
  | nil => exact ends_cons (.inr (.inr (.inr rfl))) _
  | cons field fields => exact ends_cons (.inr (.inl rfl)) _

mutual

/-- The text of a value is read as the value reread. -/
theorem reads_render : (v : Value) → v.Canonical →
    Reads (.value v.reread) v.nesting (Utf8.encode (render v))
  | .null, _ => reads_null
  | .bool true, _ => reads_bool true
  | .bool false, _ => reads_bool false
  | .number (.int _ lower upper), _ => reads_int lower upper
  | .number (.float x), _ => reads_float x
  | .string s, _ => reads_string (stringText_quoted s)
  | .array items, hcanonical => by
    have h := reads_array (reads_renderItems items true hcanonical)
    rw [render, encode_between (by decide) (by decide)]
    rw [gap_true, List.nil_append] at h
    exact h
  | .object fields, hcanonical => by
    have h := reads_object (reads_renderFields fields true hcanonical.2)
    -- Rereading keeps the keys, so the fields stay in order and building them anew changes nothing.
    have hsorted : Fields.Sorted (rereadFields fields) := by
      unfold Fields.Sorted
      rw [rereadFields_keys]
      exact hcanonical.1
    rw [Fields.ofList_of_sorted hsorted, gap_true, List.nil_append] at h
    rw [render, encode_between (by decide) (by decide)]
    exact h

theorem reads_renderItems : (vs : List Value) → (first : Bool) → CanonicalItems vs →
    Reads (.items first (rereadItems vs)) (nestingItems vs)
      (gap first vs ++ (Utf8.encode (renderItems vs) ++ [ascii ']']))
  | [], first, _ => reads_noItems first
  | v :: vs, first, hcanonical => by
    have h := reads_render v hcanonical.1
    have hrest := reads_renderItems vs false hcanonical.2
    rw [encode_renderItems]
    exact reads_item (begins_render v) (ends_items vs) h hrest

theorem reads_renderFields : (fields : List (String × Value)) → (first : Bool) →
    CanonicalFields fields →
    Reads (.members first (rereadFields fields)) (nestingFields fields)
      (gap first fields ++ (Utf8.encode (renderFields fields) ++ [ascii '}']))
  | [], first, _ => reads_noMembers first
  | (k, v) :: rest, first, hcanonical => by
    have h := reads_render v hcanonical.1
    have hrest := reads_renderFields rest false hcanonical.2
    have hnone : ∀ b ∈ ([] : Bytes), isBlank b := by simp
    rw [encode_renderFields]
    exact reads_member hnone (stringText_quoted k) hnone (ends_fields rest) h hrest

end

end Json

namespace Value

variable {v : Value}

/-- A value that was printed is read back with each of its doubles reread, unless it is nested too
deep. -/
theorem ofJson_toJson_reread (hcanonical : v.Canonical) :
    ofJson v.toJson = if v.nesting ≤ Json.maxNesting then .ok v.reread else .error .malformed := by
  have h := Json.ofJson_of_reads (Json.reads_render v hcanonical) (s := []) (by simp)
  rw [List.append_nil, ← Utf8.utf8_ofList] at h
  exact h

end Value

end EventSandbox
