import EventSandbox.Json.Printer
import EventSandbox.Proofs.Json.Fields
import EventSandbox.Proofs.Json.Parser

/-!
# EventSandbox.Proofs.Json.Printer — what was printed is read back

The printer writes a tight text of a value, with brackets as deep as the value is nested
(`tight_toJson`). So a printed value is read back unless it is nested too deep (`ofJson_toJson`).
This is about integers; a value with doubles in it is not `Integral`.
-/

namespace EventSandbox

namespace Value

mutual

/-- All numbers inside a value are integers. -/
def Integral : Value → Prop
  | .number (.float _) => False
  | .array items => IntegralItems items
  | .object fields => IntegralFields fields
  | _ => True

/-- `Integral` for every item of an array. -/
def IntegralItems : List Value → Prop
  | [] => True
  | v :: vs => Integral v ∧ IntegralItems vs

/-- `Integral` for every field of an object. -/
def IntegralFields : List (String × Value) → Prop
  | [] => True
  | (_, v) :: rest => Integral v ∧ IntegralFields rest

end

end Value

namespace Json

/-! ## Strings -/

theorem hexFour?_control :
    ∀ n < 0x20, hexFour? (ascii '0') (ascii '0') (ascii (hexDigit (n / 16)))
      (ascii (hexDigit (n % 16))) = some n := by
  decide

theorem encode_control :
    ∀ n < 0x20, Utf8.encode ['\\', 'u', '0', '0', hexDigit (n / 16), hexDigit (n % 16)] =
      [ascii '\\', ascii 'u', ascii '0', ascii '0', ascii (hexDigit (n / 16)),
        ascii (hexDigit (n % 16))] := by
  decide

theorem charText_escape (c : Char) : CharText c (Utf8.encode (escape c)) := by
  unfold escape
  split_ifs with hquote hbackslash hb hf hn hr ht hcontrol
  · subst hquote
    exact .short rfl
  · subst hbackslash
    exact .short rfl
  · subst hb
    exact .short rfl
  · subst hf
    exact .short rfl
  · subst hn
    exact .short rfl
  · subst hr
    exact .short rfl
  · subst ht
    exact .short rfl
  · have hlt : c.toNat < 0x20 := hcontrol
    rw [encode_control _ hlt]
    exact .hex (hexFour?_control _ hlt)
  · rw [Utf8.encode_cons, Utf8.encode_nil, List.append_nil]
    exact .plain hquote hbackslash (Nat.le_of_not_lt hcontrol)

theorem charsText_escape (cs : List Char) : CharsText cs (Utf8.encode (cs.flatMap escape)) := by
  induction cs with
  | nil => exact .nil
  | cons c cs ih =>
    rw [List.flatMap_cons, Utf8.encode_append]
    exact .cons (charText_escape c) ih

/-- The encoding of what stands between two characters of ASCII. -/
theorem encode_between {first last : Char} (hfirst : first.toNat ≤ 0x7F)
    (hlast : last.toNat ≤ 0x7F) (cs : List Char) :
    Utf8.encode (first :: (cs ++ [last])) = ascii first :: (Utf8.encode cs ++ [ascii last]) := by
  rw [Utf8.encode_cons, Utf8.encode_append, Utf8.encodeChar_of_le hfirst, Utf8.encode_cons,
    Utf8.encodeChar_of_le hlast]
  simp

theorem stringText_quoted (s : String) : StringText s (Utf8.encode (quoted s)) := by
  have h := StringText.quoted (charsText_escape s.toList)
  rw [String.ofList_toList] at h
  unfold quoted
  rw [encode_between (by decide) (by decide)]
  exact h

/-! ## Values -/

/-- The comma before the rest of a bracket's contents, if there is any. -/
def gap {α : Type} (first : Bool) (rest : List α) : Bytes :=
  if rest.isEmpty then [] else separator first

@[simp] theorem gap_true {α : Type} (rest : List α) : gap true rest = [] := by
  simp [gap, separator]

theorem encode_renderItems (v : Value) (vs : List Value) :
    Utf8.encode (renderItems (v :: vs)) ++ [ascii ']'] =
      Utf8.encode (render v) ++
        (gap false vs ++ (Utf8.encode (renderItems vs) ++ [ascii ']'])) := by
  cases vs with
  | nil => rfl
  | cons w rest =>
    rw [renderItems, Utf8.encode_append, Utf8.encode_cons]
    simp [gap, separator, Utf8.encodeChar_of_le (c := ',') (by decide)]

theorem encode_renderFields (k : String) (v : Value) (rest : List (String × Value)) :
    Utf8.encode (renderFields ((k, v) :: rest)) ++ [ascii '}'] =
      Utf8.encode (quoted k) ++ ascii ':' :: (Utf8.encode (render v) ++
        (gap false rest ++ (Utf8.encode (renderFields rest) ++ [ascii '}']))) := by
  have hcolon := Utf8.encodeChar_of_le (c := ':') (by decide)
  cases rest with
  | nil =>
    change Utf8.encode (quoted k ++ ':' :: render v) ++ _ = _
    rw [Utf8.encode_append, Utf8.encode_cons, hcolon]
    simp [gap, renderFields]
  | cons field rest =>
    rw [renderFields, Utf8.encode_append, Utf8.encode_cons, Utf8.encode_append,
      Utf8.encode_cons, hcolon, Utf8.encodeChar_of_le (c := ',') (by decide)]
    simp [gap, separator]

theorem sorted_iff_utf8 {fields : Fields} :
    fields.Sorted ↔ (fields.map fun field => utf8 field.1).Pairwise (· < ·) := by
  unfold Fields.Sorted Fields.keys
  rw [List.pairwise_map, List.pairwise_map]
  exact List.Pairwise.iff fun _ _ => Utf8.utf8_lt_iff.symm

/-- A tight text is a text. -/
theorem Tight.text {form : Form} {n : Nat} {t : Bytes} (h : Tight form n t) : Text form n t := by
  induction h with
  | null => exact .null
  | bool => exact .bool
  | int => exact .int
  | string h => exact .string h
  | array _ ih => exact .array ih
  | object hkeys _ ih =>
    -- The keys are in order, so that setting the fields one by one gives the same object.
    have h := Text.object ih
    rw [Fields.ofList_of_sorted (sorted_iff_utf8.2 hkeys)] at h
    exact h
  | noItems => exact .noItems
  | item _ _ ih ihrest => exact .item ih ihrest
  | noMembers => exact .noMembers
  | member hkey _ _ ih ihrest =>
    have hnone : ∀ b ∈ ([] : Bytes), isBlank b := by simp
    exact .member hnone hkey hnone ih ihrest

open Value in
mutual

/-- The text of a value is a tight one. -/
theorem tight_render : (v : Value) → v.Canonical → v.Integral →
    Tight (.value v) v.nesting (Utf8.encode (render v))
  | .null, _, _ => .null
  | .bool true, _, _ => Tight.bool
  | .bool false, _, _ => Tight.bool
  | .number (.int _ _ _), _, _ => .int
  | .string s, _, _ => .string (stringText_quoted s)
  | .array items, hcanonical, hintegral => by
    have h := Tight.array (tight_renderItems items true hcanonical hintegral)
    rw [render, encode_between (by decide) (by decide)]
    rw [gap_true, List.nil_append] at h
    exact h
  | .object fields, hcanonical, hintegral => by
    have h := Tight.object (sorted_iff_utf8.1 hcanonical.1)
      (tight_renderFields fields true hcanonical.2 hintegral)
    rw [render, encode_between (by decide) (by decide)]
    rw [gap_true, List.nil_append] at h
    exact h

theorem tight_renderItems : (vs : List Value) → (first : Bool) → CanonicalItems vs →
    IntegralItems vs →
    Tight (.items first vs) (nestingItems vs)
      (gap first vs ++ (Utf8.encode (renderItems vs) ++ [ascii ']']))
  | [], _, _, _ => .noItems
  | v :: vs, first, hcanonical, hintegral => by
    have h := tight_render v hcanonical.1 hintegral.1
    have hrest := tight_renderItems vs false hcanonical.2 hintegral.2
    rw [encode_renderItems]
    exact .item h hrest

theorem tight_renderFields : (fields : List (String × Value)) → (first : Bool) →
    CanonicalFields fields → IntegralFields fields →
    Tight (.members first fields) (nestingFields fields)
      (gap first fields ++ (Utf8.encode (renderFields fields) ++ [ascii '}']))
  | [], _, _, _ => .noMembers
  | (k, v) :: rest, first, hcanonical, hintegral => by
    have h := tight_render v hcanonical.1 hintegral.1
    have hrest := tight_renderFields rest false hcanonical.2 hintegral.2
    rw [encode_renderFields]
    exact .member (stringText_quoted k) h hrest

end

end Json

namespace Value

variable {v : Value}

theorem canonical_of_get? {fields : Fields} {key : String} (hcanonical : (object fields).Canonical)
    (hfound : fields.get? key = some v) : v.Canonical := by
  obtain ⟨-, hfields⟩ := hcanonical
  induction fields with
  | nil => cases hfound
  | cons field rest ih =>
    obtain ⟨name, old⟩ := field
    rw [Fields.get?_cons] at hfound
    split at hfound
    · cases hfound
      exact hfields.1
    · exact ih hfound hfields.2

/-- What a guest is given for a value is a tight text of the value. -/
theorem tight_toJson (hcanonical : v.Canonical) (hintegral : v.Integral) :
    Json.Tight (.value v) v.nesting v.toJson := by
  unfold toJson toText
  rw [Utf8.utf8_ofList]
  exact Json.tight_render v hcanonical hintegral

/-- A value that was printed is read back, unless it is nested too deep. -/
theorem ofJson_toJson (hcanonical : v.Canonical) (hintegral : v.Integral) :
    ofJson v.toJson = if v.nesting ≤ Json.maxNesting then .ok v else .error .malformed := by
  have h := Json.ofJson_of_text (tight_toJson hcanonical hintegral).text (s := []) (by simp)
  rwa [List.append_nil] at h

end Value

end EventSandbox
