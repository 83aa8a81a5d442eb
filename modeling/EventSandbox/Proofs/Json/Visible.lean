import EventSandbox.Json.Printer
import EventSandbox.Proofs.Text.Utf8

/-!
# EventSandbox.Proofs.Json.Visible — the text of a value has no control characters

Whatever is in the strings of a value, and whatever its numbers are, no character of its text is
below U+0020 (`Visible.render`), and so no byte is (`Value.le_of_mem_toJson`): the text stands on
one line.
-/

namespace EventSandbox

/-- Text without control characters. -/
def Visible (cs : List Char) : Prop := ∀ c ∈ cs, ' ' ≤ c

variable {cs ds digits : List Char}

namespace Visible

theorem nil : Visible [] := List.forall_mem_nil _

theorem append (hcs : Visible cs) (hds : Visible ds) : Visible (cs ++ ds) :=
  List.forall_mem_append.2 ⟨hcs, hds⟩

theorem cons {c : Char} (hc : ' ' ≤ c) (hcs : Visible cs) : Visible (c :: cs) :=
  List.forall_mem_cons.2 ⟨hc, hcs⟩

/-- A part of a visible text is visible. -/
theorem subset (h : Visible ds) (hsub : cs ⊆ ds) : Visible cs := fun c hc => h c (hsub hc)

/-- A fixed text. -/
theorem word (h : cs.all fun c => decide (' ' ≤ c)) : Visible cs := by
  intro c hc
  have hvisible := List.all_eq_true.1 h c hc
  exact of_decide_eq_true hvisible

/-! ## Numbers -/

theorem zeros (n : Nat) : Visible (List.replicate n '0') := by
  intro c hc
  rw [List.eq_of_mem_replicate hc]
  decide

theorem digitsOf (n : Nat) : Visible (Double.digitsOf n) := by
  intro c hc
  have hdigit := Nat.isDigit_of_mem_toDigits (by decide) (by decide) hc
  simp only [Char.isDigit, Bool.and_eq_true, decide_eq_true_eq] at hdigit
  have hzero : ' ' ≤ '0' := by decide
  exact le_trans hzero hdigit.1

theorem plain (h : Visible digits) (lead : Int) : Visible (Double.plain digits lead) := by
  have htake : ∀ n, Visible (digits.take n) := fun n => h.subset (List.take_subset n digits)
  have hdrop : ∀ n, Visible (digits.drop n) := fun n => h.subset (List.drop_subset n digits)
  unfold Double.plain
  dsimp only
  split_ifs
  · exact .cons (by decide) (.cons (by decide) (.append (zeros _) h))
  · exact .append (.append h (zeros _)) (word rfl)
  · exact .append (htake _) (.cons (by decide) (hdrop _))

theorem scientific (h : Visible digits) (lead : Int) : Visible (Double.scientific digits lead) := by
  have hfirst : Visible (digits.take 1) := h.subset (List.take_subset 1 digits)
  have hdrop : Visible (digits.drop 1) := h.subset (List.drop_subset 1 digits)
  have hfraction :
      Visible (if (digits.drop 1).isEmpty then [] else '.' :: digits.drop 1) := by
    split
    · exact nil
    · exact .cons (by decide) hdrop
  have hsign : ' ' ≤ if lead < 0 then '-' else '+' := by
    split <;> decide
  exact .append (.append hfirst hfraction) (.cons (by decide) (.cons hsign (digitsOf _)))

theorem double (x : Double) : Visible x.render := by
  have hdigits := digitsOf x.shortest.digits
  -- The sign is put before a body whose shape depends on its leading exponent alone.
  have hbody : ∀ lead : Int, Visible
      (if x.isZero then ['0', '.', '0']
      else if -5 ≤ lead ∧ lead ≤ 15 then Double.plain (Double.digitsOf x.shortest.digits) lead
      else Double.scientific (Double.digitsOf x.shortest.digits) lead) := by
    intro lead
    split_ifs
    · exact word rfl
    · exact hdigits.plain lead
    · exact hdigits.scientific lead
  unfold Double.render
  dsimp only
  split
  · exact .cons (by decide) (hbody _)
  · exact hbody _

theorem number (n : Number) : Visible n.render := by
  cases n with
  | float x => exact double x
  | int n lower upper =>
    unfold Number.render
    dsimp only
    split
    · exact .cons (by decide) (digitsOf _)
    · exact digitsOf _

/-! ## Strings -/

theorem hexDigits : ∀ n < 0x20, ' ' ≤ Json.hexDigit (n / 16) ∧ ' ' ≤ Json.hexDigit (n % 16) := by
  decide

/-- A control character is escaped, so that no character stands for itself but visible ones. -/
theorem escape (c : Char) : Visible (Json.escape c) := by
  unfold Json.escape
  -- Two letters stand for a character that has a short escape, and they are visible.
  split_ifs with hquote hbackslash hb hf hn hr ht hcontrol
  · exact word rfl
  · exact word rfl
  · exact word rfl
  · exact word rfl
  · exact word rfl
  · exact word rfl
  · exact word rfl
  · obtain ⟨hhigh, hlow⟩ := hexDigits c.toNat hcontrol
    have hprefix : Visible ['\\', 'u', '0', '0'] := word rfl
    exact hprefix.append (.cons hhigh (.cons hlow .nil))
  · exact .cons (not_lt.1 hcontrol) .nil

theorem quoted (s : String) : Visible (Json.quoted s) := by
  refine .cons (by decide) (.append ?_ (word rfl))
  intro c hc
  obtain ⟨d, -, hd⟩ := List.mem_flatMap.1 hc
  exact escape d c hd

/-! ## Values -/

mutual

theorem render : (v : Value) → Visible (Json.render v)
  | .null => word rfl
  | .bool true => word rfl
  | .bool false => word rfl
  | .number n => number n
  | .string s => quoted s
  | .array items => .cons (by decide) (.append (renderItems items) (word rfl))
  | .object fields => .cons (by decide) (.append (renderFields fields) (word rfl))

theorem renderItems : (items : List Value) → Visible (Json.renderItems items)
  | [] => nil
  | [v] => render v
  | v :: w :: rest => .append (render v) (.cons (by decide) (renderItems (w :: rest)))

theorem renderFields : (fields : List (String × Value)) → Visible (Json.renderFields fields)
  | [] => nil
  | [(k, v)] => .append (quoted k) (.cons (by decide) (render v))
  | (k, v) :: f :: rest =>
    .append (quoted k)
      (.cons (by decide) (.append (render v) (.cons (by decide) (renderFields (f :: rest)))))

end

end Visible

/-- The bytes of a value's text are no control characters either. -/
theorem Value.le_of_mem_toJson {v : Value} {b : UInt8} (hb : b ∈ v.toJson) : 0x20 ≤ b.toNat := by
  unfold toJson toText at hb
  rw [Utf8.utf8_ofList] at hb
  obtain ⟨c, hc, hb⟩ := List.mem_flatMap.1 hb
  have hvisible : 0x20 ≤ c.toNat := Visible.render v c hc
  by_cases hascii : c.toNat ≤ 0x7F
  · rw [Utf8.encodeChar_of_le hascii, List.mem_singleton] at hb
    rw [hb, ascii, Utf8.toNat_ofNat (by omega)]
    exact hvisible
  · have hhigh := Utf8.le_of_mem_encodeChar (not_le.1 hascii) hb
    omega

end EventSandbox
