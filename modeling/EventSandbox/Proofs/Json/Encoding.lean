import EventSandbox.Proofs.Json.Printer

/-!
# EventSandbox.Proofs.Json.Encoding — what the bytes of a value are like

1. Nothing that stands outside the strings of a tight text is a blank (`Tight.bare`).
2. A text has one value (`Text.unique`), so that different values have different bytes, also those
   that are nested too deep to be read back.

`toJson_canonical` says all there is to say of the bytes that `Value.toJson` gives.
-/

namespace EventSandbox

namespace Json

variable {b : UInt8} {s t u : Bytes}

/-! ## Outside of strings -/

/-- Where a byte of a text stands. -/
inductive Spot
  | outside
  | inside
  /-- Inside a string, after a backslash. -/
  | escaped

/-- The bytes of a text that stand outside its strings. -/
def unquoted : Spot → Bytes → Bytes
  | _, [] => []
  | .outside, b :: s =>
    if b = ascii '"' then unquoted .inside s else b :: unquoted .outside s
  | .inside, b :: s =>
    if b = ascii '"' then unquoted .outside s
    else if b = ascii '\\' then unquoted .escaped s
    else unquoted .inside s
  | .escaped, _ :: s => unquoted .inside s

theorem unquoted_outside (h : ∀ b ∈ t, b ≠ ascii '"') (s : Bytes) :
    unquoted .outside (t ++ s) = t ++ unquoted .outside s := by
  induction t with
  | nil => rfl
  | cons b t ih =>
    obtain ⟨hb, ht⟩ := List.forall_mem_cons.1 h
    rw [List.cons_append, unquoted, if_neg hb, ih ht, List.cons_append]

theorem unquoted_inside (h : ∀ b ∈ t, b ≠ ascii '"' ∧ b ≠ ascii '\\') (s : Bytes) :
    unquoted .inside (t ++ s) = unquoted .inside s := by
  induction t with
  | nil => rfl
  | cons b t ih =>
    obtain ⟨⟨hquote, hbackslash⟩, ht⟩ := List.forall_mem_cons.1 h
    rw [List.cons_append, unquoted, if_neg hquote, if_neg hbackslash, ih ht]

theorem hexFour?_plain {h₁ h₂ h₃ h₄ : UInt8} {n : Nat} (h : hexFour? h₁ h₂ h₃ h₄ = some n) :
    ∀ b ∈ [h₁, h₂, h₃, h₄], b ≠ ascii '"' ∧ b ≠ ascii '\\' := by
  have hdigit : ∀ {b n}, hexValue? b = some n → b ≠ ascii '"' ∧ b ≠ ascii '\\' := by
    intro b n hb
    constructor
    · rintro rfl
      cases hb
    · rintro rfl
      cases hb
  simp only [hexFour?, Option.bind_eq_bind, Option.bind_eq_some_iff] at h
  obtain ⟨_, h₁, _, h₂, _, h₃, _, h₄, -⟩ := h
  simpa using ⟨hdigit h₁, hdigit h₂, hdigit h₃, hdigit h₄⟩

/-- No character of a string ends it. -/
theorem unquoted_charText {c : Char} (h : CharText c t) (s : Bytes) :
    unquoted .inside (t ++ s) = unquoted .inside s := by
  cases h with
  | plain hquote hbackslash hcontrol =>
    refine unquoted_inside (fun b hb => ?_) s
    obtain ⟨hquote, -, hbackslash⟩ := ne_of_mem_encodeChar hquote hbackslash hcontrol hb
    exact ⟨hquote, hbackslash⟩
  | short => rfl
  | hex h => exact unquoted_inside (hexFour?_plain h) s
  | pair hlead htrail =>
    exact (unquoted_inside (hexFour?_plain hlead) _).trans
      (unquoted_inside (hexFour?_plain htrail) s)

theorem unquoted_stringText {text : String} (h : StringText text t) (s : Bytes) :
    unquoted .outside (t ++ s) = unquoted .outside s := by
  cases h with
  | @quoted cs t h =>
    show unquoted .inside (t ++ [ascii '"'] ++ s) = _
    rw [List.append_assoc]
    induction h with
    | nil => rfl
    | cons hc _ ih => rw [List.append_assoc, unquoted_charText hc, ih]

/-! ## No blanks -/

/-- A text, or a part of one, with no blank outside its strings. -/
def Bare (t : Bytes) : Prop :=
  ∃ u, (∀ s, unquoted .outside (t ++ s) = u ++ unquoted .outside s) ∧ ∀ b ∈ u, isBlank b = false

theorem Bare.append (ht : Bare t) (hu : Bare u) : Bare (t ++ u) := by
  obtain ⟨t', ht, hblank⟩ := ht
  obtain ⟨u', hu, hblank'⟩ := hu
  refine ⟨t' ++ u', fun s => ?_, List.forall_mem_append.2 ⟨hblank, hblank'⟩⟩
  rw [List.append_assoc, ht, hu, List.append_assoc]

theorem bare_of_plain (h : ∀ b ∈ t, b ≠ ascii '"' ∧ isBlank b = false) : Bare t :=
  ⟨t, unquoted_outside fun b hb => (h b hb).1, fun b hb => (h b hb).2⟩

/-- A fixed word has none. -/
theorem bare_word (h : t.all (fun b => b != ascii '"' && !isBlank b)) : Bare t :=
  bare_of_plain fun b hb => by simpa using List.all_eq_true.1 h b hb

theorem bare_cons (hquote : b ≠ ascii '"') (hblank : isBlank b = false) (ht : Bare t) :
    Bare (b :: t) :=
  Bare.append (bare_of_plain (t := [b]) (by simpa using ⟨hquote, hblank⟩)) ht

theorem bare_separator (first : Bool) : Bare (separator first) := by
  cases first <;> exact bare_word rfl

theorem StringText.bare {text : String} (h : StringText text t) : Bare t :=
  ⟨[], unquoted_stringText h, List.forall_mem_nil _⟩

theorem bare_digits (n : Nat) : Bare (Utf8.encode (Double.digitsOf n)) := by
  refine bare_of_plain fun b hb => ?_
  obtain ⟨c, hc, hb⟩ := List.mem_flatMap.1 hb
  obtain ⟨hencode, hdigit, -⟩ :=
    encodeChar_digit (Nat.isDigit_of_mem_toDigits (by decide) (by decide) hc)
  rw [hencode, List.mem_singleton] at hb
  subst hb
  refine ⟨?_, isBlank_of_isDigit hdigit⟩
  intro hquote
  rw [hquote] at hdigit
  cases hdigit

theorem bare_int {n : Int} {lower upper} :
    Bare (Utf8.encode (Number.int n lower upper).render) := by
  simp only [Number.render]
  split_ifs
  · exact bare_cons (by decide) rfl (bare_digits _)
  · exact bare_digits _

/-- A tight text has no blank outside its strings. -/
theorem Tight.bare {form : Form} {n : Nat} (h : Tight form n t) : Bare t := by
  induction h with
  | null => exact bare_word rfl
  | @bool b => cases b <;> exact bare_word rfl
  | int => exact bare_int
  | string h => exact h.bare
  | array _ ih | object _ _ ih => exact bare_cons (by decide) rfl ih
  | noItems | noMembers => exact bare_word rfl
  | item _ _ ih ihrest => exact (bare_separator _).append (ih.append ihrest)
  | member hkey _ _ ih ihrest =>
    exact (bare_separator _).append
      (hkey.bare.append (bare_cons (by decide) rfl (ih.append ihrest)))

/-! ## One value -/

/-- A text has one value. -/
theorem Text.unique {v w : Value} {n k : Nat} (hv : Text (.value v) n t)
    (hw : Text (.value w) k t) : v = w := by
  -- With room for brackets as deep as either says, the text is read as both.
  have hends : Ends [] := nofun
  have hread : ∀ {v n}, Text (.value v) n t → ∀ depth, n ≤ depth →
      value t.length depth (t ++ []) = .ok (v, []) := by
    intro v n h depth hn
    exact (h.reads (le_refl _) hends).trans (if_pos hn)
  have hboth := (hread hv _ (le_max_left n k)).symm.trans (hread hw _ (le_max_right n k))
  cases hboth
  rfl

end Json

/-! ## The bytes of a value -/

namespace Value

/-- The bytes of a value with integers only are UTF-8. No blank stands outside of their strings,
and the keys of every object are in the order of their bytes. They are read back as the value,
unless it is nested too deep, and no other value has the same. -/
theorem toJson_canonical {v : Value} (hcanonical : v.Canonical) (hintegral : v.Integral) :
    Utf8.decode v.toJson = .ok v.toText.toList ∧
    (∀ b ∈ Json.unquoted .outside v.toJson, Json.isBlank b = false) ∧
    Json.Tight (.value v) v.nesting v.toJson ∧
    ofJson v.toJson = (if v.nesting ≤ 127 then .ok v else .error .malformed) ∧
    ∀ w : Value, w.Canonical → w.Integral → w.toJson = v.toJson → w = v := by
  have htight := tight_toJson hcanonical hintegral
  refine ⟨?_, ?_, htight, ofJson_toJson hcanonical hintegral, ?_⟩
  · unfold toJson
    rw [Utf8.utf8_toList]
    exact Utf8.decode_encode _
  · -- Outside of its strings the text has no byte that is blank.
    obtain ⟨u, hu, hblank⟩ := htight.bare
    have houtside := hu []
    rw [List.append_nil, Json.unquoted, List.append_nil] at houtside
    rw [houtside]
    exact hblank
  · -- A text has one meaning at most, so a value with the same text is the same.
    intro w hw hwintegral hsame
    have hwtight := tight_toJson hw hwintegral
    rw [hsame] at hwtight
    exact hwtight.text.unique htight.text

/-- The largest and the smallest integer, and strings that need more than one byte for a character
or an escape. -/
theorem toJson_canonical_bounds :
    let v := object
      [("max", .number (.int 0xFFFFFFFFFFFFFFFF (by decide) (by decide))),
        ("min", .array [.number (.int (-0x8000000000000000) (by decide) (by decide))]),
        ("é \n", .string "\t😀")]
    Utf8.decode v.toJson = .ok v.toText.toList ∧ ofJson v.toJson = .ok v := by
  intro v
  have hcanonical : v.Canonical := ⟨by decide, trivial, ⟨trivial, trivial⟩, trivial, trivial⟩
  have hintegral : v.Integral := ⟨trivial, ⟨trivial, trivial⟩, trivial, trivial⟩
  obtain ⟨hdecode, -, -, hread, -⟩ := toJson_canonical hcanonical hintegral
  exact ⟨hdecode, hread⟩

end Value

end EventSandbox
