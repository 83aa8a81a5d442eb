import EventSandbox.Proofs.Json.Fields
import EventSandbox.Proofs.Json.Parser

/-!
# EventSandbox.Proofs.Json.Canonical — what is read has its keys in order

Objects are built by setting one field after another, which keeps their keys in order; and what
holds of the state of a bracket when it is opened and is kept by every item or field holds when it
is closed (`elements_invariant`, `members_invariant`). So every value that is read is canonical
(`canonical_ofJson`).
-/

namespace EventSandbox

namespace Value

theorem canonicalFields_iff {fields : Fields} :
    CanonicalFields fields ↔ ∀ field ∈ fields, field.2.Canonical := by
  induction fields with
  | nil => simp [CanonicalFields]
  | cons field rest ih => simp [CanonicalFields, ih]

/-- Setting a field to a canonical value keeps an object canonical. -/
theorem canonical_insert {fields : Fields} {key : String} {value : Value}
    (hfields : (object fields).Canonical) (hvalue : value.Canonical) :
    (object (fields.insert key value)).Canonical := by
  obtain ⟨hsorted, hvalues⟩ := hfields
  refine ⟨Fields.sorted_insert hsorted key value, canonicalFields_iff.2 ?_⟩
  intro field hfield
  rcases Fields.mem_insert hfield with rfl | hold
  · exact hvalue
  · exact canonicalFields_iff.1 hvalues field hold

/-- A value without brackets has no keys. -/
theorem canonical_of_plain {v : Value} (h : v.nesting = 0) : v.Canonical := by
  cases v with
  | array | object => cases h
  | _ => trivial

theorem canonicalItems_iff {items : List Value} :
    CanonicalItems items ↔ ∀ v ∈ items, v.Canonical := by
  induction items with
  | nil => simp [CanonicalItems]
  | cons v vs ih => simp [CanonicalItems, ih]

end Value

namespace Json

variable {σ : Type} {limit depth : Nat} {s rest : Bytes}

theorem ok_of_bind {α β : Type} {first : Except Fault α} {f : α → Except Fault β} {b : β}
    (h : (first >>= f) = .ok b) : ∃ a, first = .ok a ∧ f a = .ok b := by
  cases first with
  | error fault => cases h
  | ok a => exact ⟨a, rfl, h⟩

theorem finish_eq_ok {α : Type} {result : α × Bytes} {a : α} :
    finish result = .ok a ↔ (skipBlank result.2).isEmpty ∧ result.1 = a := by
  unfold finish
  split_ifs with h
  · simp [h]
  · simp [h]

theorem elements_invariant {item : σ → Bytes → Except Fault (σ × Bytes)} {P : σ → Prop}
    (hitem : ∀ state s state' rest, P state → item state s = .ok (state', rest) → P state')
    {first : Bool} {state state' : σ} (hstate : P state)
    (h : elements item limit first state s = .ok (state', rest)) : P state' := by
  -- Each turn reads one element, or ends with the bracket, or fails.
  induction limit generalizing first state s with
  | zero => cases h
  | succ limit ih =>
    unfold elements at h
    split at h
    · cases h
    split_ifs at h
    · cases h
      exact hstate
    split at h
    · cases h
    · cases h
    split_ifs at h
    obtain ⟨⟨next, after⟩, hnext, hrest⟩ := ok_of_bind h
    exact ih (hitem _ _ _ _ hstate hnext) hrest

theorem members_invariant {field : String → σ → Bytes → Except Fault (σ × Bytes)} {P : σ → Prop}
    (hfield : ∀ name state s state' rest, P state → field name state s = .ok (state', rest) →
      P state')
    {first : Bool} {state state' : σ} (hstate : P state)
    (h : members field limit first state s = .ok (state', rest)) : P state' := by
  induction limit generalizing first state s with
  | zero => cases h
  | succ limit ih =>
    unfold members at h
    split at h
    · cases h
    split_ifs at h
    · cases h
      exact hstate
    obtain ⟨_, -, h⟩ := ok_of_bind h
    obtain ⟨⟨name, after⟩, -, h⟩ := ok_of_bind h
    obtain ⟨⟨next, after'⟩, hnext, hrest⟩ := ok_of_bind h
    exact ih (hfield _ _ _ _ _ hstate hnext) hrest

/-- How a value that is read has come about: without a bracket, or from what the bracket that it
opens holds. -/
inductive Source (limit : Nat) (s : Bytes) : (depth : Nat) → Value → Bytes → Prop
  | plain {depth : Nat} {v : Value} {rest : Bytes} (h : v.nesting = 0) : Source limit s depth v rest
  | object {depth : Nat} {fields : Fields} {t rest : Bytes} (hs : skipBlank s = ascii '{' :: t)
      (h : members (readMember limit depth) limit true [] t = .ok (fields, rest)) :
      Source limit s (depth + 1) (.object fields) rest
  | array {depth : Nat} {items : List Value} {t rest : Bytes} (hs : skipBlank s = ascii '[' :: t)
      (h : elements (readItem limit depth) limit true [] t = .ok (items, rest)) :
      Source limit s (depth + 1) (.array items.reverse) rest

theorem value_source {v : Value} (h : value limit depth s = .ok (v, rest)) :
    Source limit s depth v rest := by
  rw [value] at h
  split at h
  · cases h
  rename_i b t hs
  -- Only after an opening bracket is there anything to be known of what was read.
  split_ifs at h with hobject harray
  · subst hobject
    cases depth with
    | zero => cases h
    | succ depth =>
      obtain ⟨⟨fields, after⟩, hfields, hend⟩ := ok_of_bind h
      cases hend
      exact .object hs hfields
  · subst harray
    cases depth with
    | zero => cases h
    | succ depth =>
      obtain ⟨⟨items, after⟩, hitems, hend⟩ := ok_of_bind h
      cases hend
      exact .array hs hitems
  all_goals
    obtain ⟨_, -, hend⟩ := ok_of_bind h
    cases hend
    exact .plain rfl

theorem canonical_of_value {v : Value} (h : value limit depth s = .ok (v, rest)) :
    v.Canonical := by
  induction depth generalizing s v rest with
  | zero =>
    cases value_source h with
    | plain hplain => exact Value.canonical_of_plain hplain
  | succ depth ih =>
    cases value_source h with
    | plain hplain => exact Value.canonical_of_plain hplain
    | @object _ fields _ _ _ hfields =>
      -- The invariant is that the fields set so far are in order and their values canonical.
      have hempty : (Value.object []).Canonical := ⟨.nil, trivial⟩
      refine members_invariant (P := fun fields => (Value.object fields).Canonical) ?_ hempty
        hfields
      intro name fields s fields' rest hcanonical hfield
      obtain ⟨_, -, hfield⟩ := ok_of_bind hfield
      obtain ⟨⟨v, after⟩, hvalue, hend⟩ := ok_of_bind hfield
      cases hend
      exact Value.canonical_insert hcanonical (ih hvalue)
    | @array _ items _ _ _ hitems =>
      have hall : ∀ v ∈ items, v.Canonical := by
        refine elements_invariant (P := fun items => ∀ v ∈ items, v.Canonical) ?_ (by simp) hitems
        intro items s items' rest hcanonical hitem
        obtain ⟨⟨v, after⟩, hvalue, hend⟩ := ok_of_bind hitem
        cases hend
        exact List.forall_mem_cons.2 ⟨ih hvalue, hcanonical⟩
      exact Value.canonicalItems_iff.2 fun v hv => hall v (List.mem_reverse.1 hv)

end Json

namespace Value

/-- Whatever is read is canonical. -/
theorem canonical_ofJson {text : Bytes} {v : Value} (h : ofJson text = .ok v) : v.Canonical := by
  obtain ⟨⟨v', rest⟩, hvalue, hfinish⟩ := Json.ok_of_bind h
  obtain ⟨-, rfl⟩ := Json.finish_eq_ok.1 hfinish
  exact Json.canonical_of_value hvalue

end Value

end EventSandbox
