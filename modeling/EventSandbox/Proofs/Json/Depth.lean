import EventSandbox.Proofs.Json.Canonical
import EventSandbox.Proofs.Json.Printer

/-!
# EventSandbox.Proofs.Json.Depth — how deep values go

Reading opens so many brackets and no more, so no value that is read is nested deeper than that
(`nesting_ofJson`). Events are objects that are read like any other value (`ofJson_eq_ok`).

An object is nested one level deeper than its values (`nesting_object_le`). So an event whose fields
are set to values that were read can become nested one level deeper than any of them, and no more.
-/

namespace EventSandbox

/-! ## Field by field -/

namespace Value

theorem integralFields_iff {fields : Fields} :
    IntegralFields fields ↔ ∀ field ∈ fields, field.2.Integral := by
  induction fields with
  | nil => simp [IntegralFields]
  | cons field rest ih => simp [IntegralFields, ih]

theorem nestingItems_le {items : List Value} {n : Nat} :
    nestingItems items ≤ n ↔ ∀ v ∈ items, v.nesting ≤ n := by
  induction items with
  | nil => simp [nestingItems]
  | cons v vs ih => simp [nestingItems, ih]

theorem nestingFields_le {fields : Fields} {n : Nat} :
    nestingFields fields ≤ n ↔ ∀ field ∈ fields, field.2.nesting ≤ n := by
  induction fields with
  | nil => simp [nestingFields]
  | cons field rest ih => simp [nestingFields, ih]

/-- An object is nested deeper than each of its values. -/
theorem nesting_object_le {fields : Fields} {n : Nat} (hn : 1 ≤ n) :
    (object fields).nesting ≤ n ↔ ∀ field ∈ fields, field.2.nesting < n := by
  obtain ⟨n, rfl⟩ := Nat.exists_eq_succ_of_ne_zero (Nat.ne_of_gt hn)
  simp only [nesting, Nat.succ_le_succ_iff, nestingFields_le, Nat.lt_succ_iff]

end Value

/-! ## Reading -/

namespace Json

variable {limit depth : Nat} {s rest : Bytes}

/-- What is read is nested no deeper than brackets may be opened. -/
theorem nesting_of_value {v : Value} (h : value limit depth s = .ok (v, rest)) :
    v.nesting ≤ depth := by
  induction depth generalizing s v rest with
  | zero =>
    cases value_source h with
    | plain hplain => exact Nat.le_of_eq hplain
  | succ depth ih =>
    cases value_source h with
    | plain hplain => exact hplain.trans_le (Nat.zero_le _)
    | @object _ fields _ _ _ hfields =>
      -- The invariant is that what the bracket holds so far is nested at most `depth` deep.
      have hinvariant : Value.nestingFields fields ≤ depth := by
        refine members_invariant (P := fun fields => Value.nestingFields fields ≤ depth) ?_
          (Nat.zero_le _) hfields
        intro name fields s fields' rest hfields hfield
        obtain ⟨_, -, hfield⟩ := ok_of_bind hfield
        obtain ⟨⟨v, after⟩, hvalue, hend⟩ := ok_of_bind hfield
        cases hend
        refine Value.nestingFields_le.2 fun field hmem => ?_
        rcases Fields.mem_insert hmem with rfl | hold
        · exact ih hvalue
        · exact Value.nestingFields_le.1 hfields field hold
      exact Nat.succ_le_succ hinvariant
    | @array _ items _ _ _ hitems =>
      have hinvariant : ∀ v ∈ items, v.nesting ≤ depth := by
        refine elements_invariant (P := fun items => ∀ v ∈ items, v.nesting ≤ depth) ?_ (by simp)
          hitems
        intro items s items' rest hall hitem
        obtain ⟨⟨v, after⟩, hvalue, hend⟩ := ok_of_bind hitem
        cases hend
        exact List.forall_mem_cons.2 ⟨ih hvalue, hall⟩
      refine Nat.succ_le_succ (Value.nestingItems_le.2 fun v hv => ?_)
      exact hinvariant v (List.mem_reverse.1 hv)

/-- An event is read as the object that it is. -/
theorem fields_eq_ok {event : Fields} :
    fields limit depth s = .ok (event, rest) ↔
      value limit depth s = .ok (.object event, rest) := by
  constructor
  · -- Both readers look at the same first byte, and the fields only at an opening brace.
    intro h
    unfold fields at h
    rw [value]
    split at h
    · cases h
    split_ifs at h with hopen
    rw [if_pos hopen]
    cases depth with
    | zero => cases h
    | succ depth =>
      dsimp only at h ⊢
      rw [h]
      rfl
  · intro h
    -- An object has been read after a brace, as a list of members.
    cases value_source h with
    | plain hplain => cases hplain
    | object hs hmembers =>
      unfold fields
      rw [hs]
      exact hmembers

end Json

namespace Value

/-- No value that is read is nested deeper than reading goes. -/
theorem nesting_ofJson {text : Bytes} {v : Value} (h : ofJson text = .ok v) :
    v.nesting ≤ Json.maxNesting := by
  obtain ⟨⟨v', rest⟩, hvalue, hfinish⟩ := Json.ok_of_bind h
  obtain ⟨-, rfl⟩ := Json.finish_eq_ok.1 hfinish
  exact Json.nesting_of_value hvalue

end Value

namespace Fields

variable {text : Bytes} {event : Fields}

/-- A line holds an event if it holds an object. -/
theorem ofJson_eq_ok : ofJson text = .ok event ↔ Value.ofJson text = .ok (.object event) := by
  constructor
  · intro h
    obtain ⟨⟨event', rest⟩, hfields, hfinish⟩ := Json.ok_of_bind h
    obtain ⟨hblank, rfl⟩ := Json.finish_eq_ok.1 hfinish
    have hvalue := Json.fields_eq_ok.1 hfields
    unfold Value.ofJson
    rw [hvalue]
    exact Json.finish_eq_ok.2 ⟨hblank, rfl⟩
  · intro h
    obtain ⟨⟨v, rest⟩, hvalue, hfinish⟩ := Json.ok_of_bind h
    obtain ⟨hblank, rfl⟩ := Json.finish_eq_ok.1 hfinish
    have hfields := Json.fields_eq_ok.2 hvalue
    unfold ofJson
    rw [hfields]
    exact Json.finish_eq_ok.2 ⟨hblank, rfl⟩

/-- Which event a line holds, if any, is known from the value that it holds. -/
theorem toOption_ofJson {p : Prop} [Decidable p] {fault : Json.Fault}
    (h : Value.ofJson text = if p then .ok (.object event) else .error fault) :
    (ofJson text).toOption = if p then some event else none := by
  split_ifs with hp
  · rw [if_pos hp] at h
    rw [ofJson_eq_ok.2 h]
    rfl
  · rw [if_neg hp] at h
    cases hfields : ofJson text with
    | error fault => rfl
    | ok event' =>
      rw [ofJson_eq_ok.1 hfields] at h
      cases h

/-- An event is read back from its line, if it is not nested too deep. -/
theorem ofJson_toJson (hcanonical : (Value.object event).Canonical)
    (hintegral : (Value.object event).Integral) :
    (ofJson (Value.object event).toJson).toOption =
      if (Value.object event).nesting ≤ Json.maxNesting then some event else none :=
  toOption_ofJson (Value.ofJson_toJson hcanonical hintegral)

end Fields

end EventSandbox
