import EventSandbox.Proofs.Json.Depth
import EventSandbox.Proofs.Json.Encoding

/-!
# EventSandbox.Proofs.Json.Meaning — one value, many texts

What is read depends on nothing but the value that a text writes: not on its blanks, the order of
its members, the settings that later ones replace, or the spelling of its strings. The one limit is
on the brackets of the text. A value that is replaced must be readable too, so the limit covers
brackets that the value read does not have (`ofJson_replaced`).
-/

namespace EventSandbox

namespace Json

variable {v : Value} {n : Nat} {s t : Bytes}

/-- No value is nested deeper than its texts are. -/
theorem Text.nesting_le (h : Text (.value v) n t) : v.nesting ≤ n := by
  have hread : value t.length n (t ++ []) = within n n (v, []) := h.reads (le_refl _) ends_nil
  exact nesting_of_value (hread.trans (if_pos (le_refl n)))

end Json

namespace Value

/-- A text that writes a value is read as that value, unless its brackets are nested too deep. So
all texts of a value are read alike and printed alike again. An event is read from a text exactly
if the object that it is would be read as a value. -/
theorem ofJson_written {v : Value} {n : ℕ} {t s : Bytes} (h : Json.Text (.value v) n t)
    (hs : ∀ b ∈ s, Json.isBlank b) :
    (ofJson (t ++ s) = if n ≤ 127 then .ok v else .error .malformed) ∧ v.nesting ≤ n ∧
    (∀ {k u r}, Json.Text (.value v) k u → (∀ b ∈ r, Json.isBlank b) → n ≤ 127 → k ≤ 127 →
      ofJson (u ++ r) = ofJson (t ++ s) ∧ (ofJson (u ++ r)).map toJson = .ok v.toJson) ∧
    (∀ {settings fields : Fields}, fields.Sorted → (Fields.ofList settings = fields ↔
      ∀ key, fields.get? key = settings.reverse.lookup key)) ∧
    ∀ text event, Fields.ofJson text = .ok event ↔ ofJson text = .ok (.object event) := by
  have hread : ofJson (t ++ s) = if n ≤ 127 then .ok v else .error .malformed :=
    Json.ofJson_of_text h hs
  refine ⟨hread, h.nesting_le, ?_, Fields.ofList_eq_iff, fun _ _ => Fields.ofJson_eq_ok⟩
  intro k u r hu hr hn hk
  have hother : ofJson (u ++ r) = if k ≤ 127 then .ok v else .error .malformed :=
    Json.ofJson_of_text hu hr
  rw [if_pos hk] at hother
  rw [if_pos hn] at hread
  rw [hother, hread]
  exact ⟨rfl, rfl⟩

/-- An object with blanks, escapes and a double that is replaced. -/
theorem ofJson_written_spelled :
    ofJson (utf8 "\x7b\"b\" :1.5e3,\n\"\\u0061\":\"\\uD83d\\uDE00\", \"b\":null\x7d" ++ utf8 "\n") =
      .ok (.object [("a", .string "😀"), ("b", .null)]) := by
  have ha : Json.StringText "a" (utf8 "\"\\u0061\"") := .quoted (.cons (.hex rfl) .nil)
  have hb : Json.StringText "b" (utf8 "\"b\"") :=
    .quoted (.cons (.plain (by decide) (by decide) (by decide)) .nil)
  have hface : Json.StringText "😀" (utf8 "\"\\uD83d\\uDE00\"") :=
    .quoted (.cons (@Json.CharText.pair _ _ _ _ _ _ _ _ _ 0xD83D 0xDE00 rfl rfl rfl rfl rfl) .nil)
  have hnumeral : Json.Numeral (utf8 "1.5e3") :=
    .mk (.digits (b := ascii '1') (t := []) rfl (by decide) (by simp))
      (.some (t := [ascii '5']) ⟨by simp, List.all_eq_true.1 rfl⟩)
      (@Json.ExponentText.some (ascii 'e') [] [ascii '3'] rfl (by decide)
        ⟨by simp, List.all_eq_true.1 rfl⟩)
  obtain ⟨x, hread⟩ : ∃ x, Json.number false (utf8 "1.5e3") = .ok (.float x, []) := ⟨_, rfl⟩
  have hdouble : Json.Text (.value (.number (.float x))) 0 (Json.sign false ++ utf8 "1.5e3") :=
    .double hnumeral hread
  -- The members are put together from the last to the first.
  have hlast := @Json.Text.member false "b" _ _ _ _ (utf8 " ") _ [] _ _
    (List.all_eq_true.1 rfl) hb (by simp) .null .noMembers
  have hmiddle := @Json.Text.member false "a" _ _ _ _ (utf8 "\n") _ [] _ _
    (List.all_eq_true.1 rfl) ha (by simp) (.string hface) hlast
  have hfirst := @Json.Text.member true "b" _ _ _ _ [] _ (utf8 " ") _ _ (by simp) hb
    (List.all_eq_true.1 rfl) hdouble hmiddle
  have hall := ofJson_written (.object hfirst) (s := utf8 "\n") (List.all_eq_true.1 rfl)
  exact hall.1

end Value

namespace Json

/-! ## Replaced values -/

/-- Arrays, one inside the other. -/
theorem text_brackets (n : ℕ) :
    ∃ v, Text (.value v) (n + 1)
      (List.replicate (n + 1) (ascii '[') ++ List.replicate (n + 1) (ascii ']')) := by
  induction n with
  | zero => exact ⟨_, .array .noItems⟩
  | succ n ih =>
    obtain ⟨v, hv⟩ := ih
    -- The array is one deeper than its item; the end of the array does not count.
    have hitem : Text (.items true [v]) (max (n + 1) 0) _ := .item hv .noItems
    have h := Text.array hitem
    rw [Nat.max_zero] at h
    refine ⟨.array [v], ?_⟩
    rw [List.replicate_succ, List.replicate_succ' (n := n + 1)]
    simpa [separator] using h

/-- A field is set to 127 arrays, one inside the other, and then to 1. -/
def replaced : Bytes :=
  utf8 "\x7b\"a\":" ++ (List.replicate 127 (ascii '[') ++ List.replicate 127 (ascii ']') ++
    utf8 ",\"a\":1\x7d")

/-- The text writes an object that is nested one deep, and is refused. -/
theorem ofJson_replaced :
    let v := Value.object [("a", .number (.int 1 (by decide) (by decide)))]
    v.Canonical ∧ v.Integral ∧ v.nesting ≤ 127 ∧ (∃ n, Text (.value v) n replaced) ∧
      Value.ofJson replaced = .error .malformed := by
  intro v
  obtain ⟨_, hdeep⟩ := text_brackets 126
  have hkey : StringText "a" (utf8 "\"a\"") :=
    .quoted (.cons (.plain (by decide) (by decide) (by decide)) .nil)
  have hone : Text (.value (.number (.int 1 (by decide) (by decide)))) 0 (utf8 "1") := .int
  have hlast := @Text.member false "a" _ _ _ _ [] _ [] _ _ (by simp) hkey (by simp) hone .noMembers
  -- The value that is replaced is read like any other, and is nested too deep for that.
  have hfirst := @Text.member true "a" _ _ _ _ [] _ [] _ _ (by simp) hkey (by simp)
    hdeep hlast
  have htext : Text (.value v) 128 replaced := Text.object hfirst
  have hread := ofJson_of_text htext (s := []) (by simp)
  rw [List.append_nil] at hread
  exact ⟨⟨by simp, trivial, trivial⟩, ⟨trivial, trivial⟩, by decide, ⟨_, htext⟩, hread⟩

end Json

end EventSandbox
