import EventSandbox.Proofs.Json.Loose

/-!
# EventSandbox.Proofs.Json.Parser — every text of a value is read as that value

A text is read completely, whatever follows it, unless its brackets are nested too deep; then it is
malformed (`Text.reads`). So it does not matter in which of its texts a value comes
(`ofJson_of_text`).
-/

namespace EventSandbox.Json

variable {limit depth n : Nat} {b : UInt8} {s t u rest : Bytes}

/-! ## Depth -/

section Within

variable {α β : Type} {k : Nat}

/-- The result of reading something whose brackets are nested `n` deep. -/
def within (n depth : Nat) (result : α) : Except Fault α :=
  if n ≤ depth then .ok result else .error .malformed

theorem within_zero (depth : Nat) (result : α) : within 0 depth result = .ok result :=
  if_pos (Nat.zero_le _)

theorem within_succ (n depth : Nat) (result : α) :
    within (n + 1) (depth + 1) result = within n depth result := by
  simp only [within, Nat.add_le_add_iff_right]

theorem within_bind {a : α} {c : β} {f : α → Except Fault β} (h : f a = within k depth c) :
    (within n depth a >>= f) = within (max n k) depth c := by
  unfold within at h ⊢
  by_cases hn : n ≤ depth
  · rw [if_pos hn]
    refine Eq.trans h ?_
    by_cases hk : k ≤ depth
    · rw [if_pos hk, if_pos (by omega)]
    · rw [if_neg hk, if_neg (by omega)]
  -- The first part is malformed already, whatever follows it.
  · rw [if_neg hn, if_neg (by omega)]
    rfl

theorem within_map {a : α} (f : α → β) :
    (within n depth a >>= fun a => pure (f a)) = within n depth (f a) := by
  unfold within
  split <;> rfl

end Within

/-! ## Blanks inside brackets -/

theorem elements_blank {σ : Type} {item : σ → Bytes → Except Fault (σ × Bytes)} {first : Bool}
    {state : σ} (hb : isBlank b) :
    elements item limit first state (b :: s) = elements item limit first state s := by
  cases limit with
  | zero => rfl
  | succ limit => rw [elements, elements, skipBlank_blank hb]

theorem members_congr {σ : Type} {field : String → σ → Bytes → Except Fault (σ × Bytes)}
    {first : Bool} {state : σ} (h : skipBlank s = skipBlank t) :
    members field limit first state s = members field limit first state t := by
  cases limit with
  | zero => rfl
  | succ limit => rw [members, members, h]

/-! ## Reading -/

/-- How an array reads its next item. -/
def readItem (limit depth : Nat) (items : List Value) (s : Bytes) :
    Except Fault (List Value × Bytes) := do
  let (v, s) ← value limit depth s
  pure (v :: items, s)

/-- How an object reads what follows a key. -/
def readMember (limit depth : Nat) (name : String) (fields : Fields) (s : Bytes) :
    Except Fault (Fields × Bytes) := do
  let (v, s) ← value limit depth (← colon s)
  pure (fields.insert name v, s)

/-- The fields after some settings. -/
def setAll (fields : Fields) (settings : List (String × Value)) : Fields :=
  settings.foldl (fun fields (key, value) => fields.insert key value) fields

/-- What a reader makes of a text and leaves of what follows it. The bounds on its loops are
enough. -/
def Reads : Form → Nat → Bytes → Prop
  | .value v, n, t => ∀ ⦃limit depth rest⦄, t.length ≤ limit → Ends rest →
      value limit depth (t ++ rest) = within n depth (v, rest)
  | .items first vs, n, t => ∀ ⦃limit depth turns before rest⦄, t.length ≤ limit →
      t.length ≤ turns → elements (readItem limit depth) turns first before (t ++ rest) =
        within n depth (vs.reverse ++ before, rest)
  | .members first settings, n, t => ∀ ⦃limit depth turns before rest⦄, t.length ≤ limit →
      t.length ≤ turns → members (readMember limit depth) turns first before (t ++ rest) =
        within n depth (setAll before settings, rest)

theorem reads_blank {form : Form} (hb : isBlank b) (h : Reads form n t) :
    Reads form n (b :: t) := by
  -- One statement per form: each skips blanks before it looks at the first byte.
  cases form with
  | value v =>
    intro limit depth rest hlimit hrest
    rw [List.cons_append, value_congr (skipBlank_blank hb _)]
    exact h (Nat.le_of_succ_le hlimit) hrest
  | items first vs =>
    intro limit depth turns before rest hlimit hturns
    rw [List.cons_append, elements_blank hb]
    exact h (Nat.le_of_succ_le hlimit) (Nat.le_of_succ_le hturns)
  | members first settings =>
    intro limit depth turns before rest hlimit hturns
    rw [List.cons_append, members_congr (skipBlank_blank hb _)]
    exact h (Nat.le_of_succ_le hlimit) (Nat.le_of_succ_le hturns)

theorem expect_append (word s : Bytes) : expect word (word ++ s) = .ok s := by
  induction word with
  | nil => rfl
  | cons w ws ih =>
    rw [List.cons_append, expect, if_pos rfl]
    exact ih

theorem reads_null : Reads (.value .null) 0 (utf8 "null") := by
  intro limit depth rest _ _
  change value limit depth (ascii 'n' :: (utf8 "ull" ++ rest)) = _
  rw [value, skipBlank_of_not rfl, within_zero]
  dsimp only
  rw [expect_append]
  rfl

theorem reads_bool (b : Bool) :
    Reads (.value (.bool b)) 0 (utf8 (if b then "true" else "false")) := by
  intro limit depth rest _ _
  rw [within_zero]
  -- The two words begin with different letters, so the reader meets them in different branches.
  cases b with
  | false =>
    change value limit depth (ascii 'f' :: (utf8 "alse" ++ rest)) = _
    rw [value, skipBlank_of_not rfl]
    dsimp only
    rw [expect_append]
    rfl
  | true =>
    change value limit depth (ascii 't' :: (utf8 "rue" ++ rest)) = _
    rw [value, skipBlank_of_not rfl]
    dsimp only
    rw [expect_append]
    rfl

theorem value_minus (t : Bytes) :
    value limit depth (ascii '-' :: t) =
      number true t >>= fun (k, s) => pure (Value.number k, s) := by
  rw [value, skipBlank_of_not rfl]
  rfl

theorem value_digit (hb : isDigit b) (t : Bytes) :
    value limit depth (b :: t) =
      number false (b :: t) >>= fun (k, s) => pure (Value.number k, s) := by
  have hne {c : UInt8} (hc : isDigit c = false) : b ≠ c := ne_of_isDigit hb hc
  rw [value, skipBlank_of_not (isBlank_of_isDigit hb)]
  dsimp only
  rw [if_neg (hne rfl), if_neg (hne rfl), if_neg (hne rfl), if_neg (hne rfl), if_pos hb]

/-- A minus sign is taken off before the digits of a number are read. -/
theorem reads_number {negative : Bool} {k : Number} (ht : BeginsWithDigit t)
    (hread : ∀ rest, Ends rest → number negative (t ++ rest) = .ok (k, rest)) :
    Reads (.value (.number k)) 0 (sign negative ++ t) := by
  intro limit depth rest _ hrest
  have hnumber := hread rest hrest
  rw [within_zero, List.append_assoc]
  -- A sign sends the reader to `number` directly, a digit through the branch for digits.
  cases negative with
  | true =>
    change value limit depth (ascii '-' :: (t ++ rest)) = _
    rw [value_minus, hnumber]
    rfl
  | false =>
    obtain ⟨b, u, rfl, hb⟩ := ht
    change value limit depth (b :: (u ++ rest)) = _
    rw [List.cons_append] at hnumber
    rw [value_digit hb, hnumber]
    rfl

theorem reads_int {k : Int} (lower upper) :
    Reads (.value (.number (.int k lower upper))) 0
      (Utf8.encode (Number.int k lower upper).render) := by
  have hmax : k.natAbs ≤ maxSignificand := by
    unfold maxSignificand
    omega
  rw [encode_int]
  refine reads_number (beginsWithDigit_digitsOf _) fun rest hrest => ?_
  rw [number_digits hmax hrest, integer_natAbs lower upper]

theorem reads_double {negative : Bool} {x : Double} (ht : Numeral t)
    (hread : number negative t = .ok (.float x, [])) :
    Reads (.value (.number (.float x))) 0 (sign negative ++ t) :=
  reads_number ht.beginsWithDigit fun _ hrest => number_append hrest hread

theorem reads_string {text : String} (h : StringText text t) :
    Reads (.value (.string text)) 0 t := by
  intro limit depth rest _ _
  rw [within_zero]
  obtain ⟨s, rfl⟩ : ∃ s, t = ascii '"' :: s := by
    cases h with
    | quoted => exact ⟨_, rfl⟩
  rw [List.cons_append, value, skipBlank_of_not rfl]
  dsimp only
  rw [stringBody_text h]
  rfl

theorem reads_array {vs : List Value} (h : Reads (.items true vs) n t) :
    Reads (.value (.array vs)) (n + 1) (ascii '[' :: t) := by
  intro limit depth rest hlimit _
  rw [List.cons_append, value, skipBlank_of_not rfl]
  -- At depth `0` both sides refuse the bracket.
  cases depth with
  | zero => rfl
  | succ depth =>
    have hread : elements (readItem limit depth) limit true [] (t ++ rest) =
        within n depth (vs.reverse ++ [], rest) :=
      h (Nat.le_of_succ_le hlimit) (Nat.le_of_succ_le hlimit)
    change (elements (readItem limit depth) limit true [] (t ++ rest) >>= fun p =>
      pure (Value.array p.1.reverse, p.2)) = _
    rw [hread, within_map, within_succ]
    simp

theorem reads_object {settings : List (String × Value)} (h : Reads (.members true settings) n t) :
    Reads (.value (.object (Fields.ofList settings))) (n + 1) (ascii '{' :: t) := by
  intro limit depth rest hlimit _
  rw [List.cons_append, value, skipBlank_of_not rfl]
  -- At depth `0` both sides refuse the brace.
  cases depth with
  | zero => rfl
  | succ depth =>
    have hread : members (readMember limit depth) limit true [] (t ++ rest) =
        within n depth (setAll [] settings, rest) :=
      h (Nat.le_of_succ_le hlimit) (Nat.le_of_succ_le hlimit)
    change (members (readMember limit depth) limit true [] (t ++ rest) >>= fun p =>
      pure (Value.object p.1, p.2)) = _
    rw [hread, within_map, within_succ]
    rfl

theorem reads_noItems (first : Bool) : Reads (.items first []) 0 [ascii ']'] := by
  intro limit depth turns before rest _ hturns
  obtain ⟨turns, rfl⟩ : ∃ k, turns = k + 1 := Nat.exists_eq_add_of_le' hturns
  rw [within_zero, List.singleton_append, elements, skipBlank_of_not rfl]
  exact if_pos rfl

theorem reads_noMembers (first : Bool) : Reads (.members first []) 0 [ascii '}'] := by
  intro limit depth turns before rest _ hturns
  obtain ⟨turns, rfl⟩ : ∃ k, turns = k + 1 := Nat.exists_eq_add_of_le' hturns
  rw [within_zero, List.singleton_append, members, skipBlank_of_not rfl]
  exact if_pos rfl

/-- An array reads an item, whether or not a comma precedes it, and goes on. -/
theorem elements_item {first : Bool} {turns : Nat} {before : List Value} (ht : Begins t)
    (rest : Bytes) :
    elements (readItem limit depth) (turns + 1) first before (separator first ++ (t ++ rest)) =
      value limit depth (t ++ rest) >>= fun p =>
        elements (readItem limit depth) turns false (p.1 :: before) p.2 := by
  obtain ⟨b, u, hb, hskip⟩ := ht
  -- The array has passed over the blanks before the item; `value` would have done so itself.
  have hvalue : value limit depth (b :: (u ++ rest)) = value limit depth (t ++ rest) := by
    apply value_congr
    rw [← hskip, skipBlank_skipBlank]
  have hitem : readItem limit depth before (b :: (u ++ rest)) =
      value limit depth (t ++ rest) >>= fun p => pure (p.1 :: before, p.2) := by
    rw [← hvalue]
    rfl
  cases first with
  | true =>
    change elements _ _ _ _ (t ++ rest) = _
    rw [elements, hskip]
    dsimp only
    rw [if_neg hb, nextItem, if_pos rfl]
    dsimp only
    rw [if_neg hb, hitem]
    cases value limit depth (t ++ rest) <;> rfl
  | false =>
    change elements _ _ _ _ (ascii ',' :: (t ++ rest)) = _
    rw [elements, skipBlank_of_not rfl]
    dsimp only
    rw [if_neg (by decide), nextItem, if_neg (by decide), if_pos rfl, hskip]
    dsimp only
    rw [if_neg hb, hitem]
    cases value limit depth (t ++ rest) <;> rfl

theorem reads_item {first : Bool} {v : Value} {vs : List Value} {k : Nat} (ht : Begins t)
    (hends : ∀ rest, Ends (u ++ rest)) (h : Reads (.value v) n t)
    (hrest : Reads (.items false vs) k u) :
    Reads (.items first (v :: vs)) (max n k) (separator first ++ (t ++ u)) := by
  intro limit depth turns before rest hlimit hturns
  simp only [List.length_append] at hlimit hturns
  -- The text of an item is not empty, so that the rest of the array gets by with a turn less.
  have hpos := ht.length_pos
  obtain ⟨turns, rfl⟩ : ∃ k, turns = k + 1 := Nat.exists_eq_add_of_le' (by omega)
  rw [List.append_assoc, List.append_assoc, elements_item ht, h (by omega) (hends rest)]
  apply within_bind
  rw [hrest (by omega) (by omega)]
  simp

/-- An object reads a key, whether or not a comma precedes it, and goes on after its member. -/
theorem members_next {σ : Type} {field : String → σ → Bytes → Except Fault (σ × Bytes)}
    {first : Bool} {turns : Nat} {state : σ} {name : String} {before : Bytes}
    (hbefore : ∀ b ∈ before, isBlank b) (hkey : StringText name s) (t : Bytes) :
    members field (turns + 1) first state (separator first ++ (before ++ (s ++ t))) =
      field name state t >>= fun p => members field turns false p.1 p.2 := by
  obtain ⟨body, rfl⟩ : ∃ body, s = ascii '"' :: body := by
    cases hkey with
    | quoted => exact ⟨_, rfl⟩
  have hskip : skipBlank (before ++ (ascii '"' :: body ++ t)) = ascii '"' :: (body ++ t) := by
    rw [skipBlank_blanks hbefore, List.cons_append, skipBlank_of_not rfl]
  have hread : Json.key (ascii '"' :: (body ++ t)) = .ok (name, t) := by
    rw [Json.key, if_pos rfl, stringBody_text hkey]
  -- Only the first key has no comma before it.
  cases first with
  | true =>
    change members _ _ _ _ (before ++ _) = _
    rw [members, hskip]
    dsimp only
    rw [if_neg (by decide), nextItem, if_pos rfl]
    change (Json.key _ >>= fun p => field p.1 state p.2 >>= _) = _
    rw [hread]
    rfl
  | false =>
    change members _ _ _ _ (ascii ',' :: (before ++ _)) = _
    rw [members, skipBlank_of_not rfl]
    dsimp only
    rw [if_neg (by decide), nextItem, if_neg (by decide), if_pos rfl, hskip]
    change (Json.key _ >>= fun p => field p.1 state p.2 >>= _) = _
    rw [hread]
    rfl

theorem colon_text {after : Bytes} (hafter : ∀ b ∈ after, isBlank b) (t : Bytes) :
    colon (after ++ ascii ':' :: t) = .ok t := by
  rw [colon, skipBlank_blanks hafter, skipBlank_of_not rfl]
  exact if_pos rfl

theorem members_member {first : Bool} {turns : Nat} {fields : Fields} {key : String}
    {before after : Bytes} (hbefore : ∀ b ∈ before, isBlank b) (hkey : StringText key s)
    (hafter : ∀ b ∈ after, isBlank b) (t : Bytes) :
    members (readMember limit depth) (turns + 1) first fields
        (separator first ++ (before ++ (s ++ (after ++ ascii ':' :: t)))) =
      value limit depth t >>= fun p =>
        members (readMember limit depth) turns false (fields.insert key p.1) p.2 := by
  rw [members_next hbefore hkey, readMember, colon_text hafter]
  change ((value limit depth t >>= fun p => pure (fields.insert key p.1, p.2)) >>= _) = _
  cases value limit depth t <;> rfl

theorem reads_member {first : Bool} {key : String} {v : Value}
    {settings : List (String × Value)} {k : Nat} {before after : Bytes}
    (hbefore : ∀ b ∈ before, isBlank b) (hkey : StringText key s) (hafter : ∀ b ∈ after, isBlank b)
    (hends : ∀ rest, Ends (u ++ rest)) (h : Reads (.value v) n t)
    (hrest : Reads (.members false settings) k u) :
    Reads (.members first ((key, v) :: settings)) (max n k)
      (separator first ++ (before ++ (s ++ (after ++ ascii ':' :: (t ++ u))))) := by
  intro limit depth turns fields rest hlimit hturns
  simp only [List.length_append, List.length_cons] at hlimit hturns
  obtain ⟨turns, rfl⟩ : ∃ k, turns = k + 1 := Nat.exists_eq_add_of_le' (by omega)
  simp only [List.append_assoc, List.cons_append]
  rw [members_member hbefore hkey hafter, h (by omega) (hends rest)]
  apply within_bind
  exact hrest (by omega) (by omega)

/-- Every text is read as what it is a text of. -/
theorem Text.reads {form : Form} (h : Text form n t) : Reads form n t := by
  -- One case per rule of the grammar, each a lemma above.
  induction h with
  | blank hb _ ih => exact reads_blank hb ih
  | null => exact reads_null
  | bool => exact reads_bool _
  | int => exact reads_int _ _
  | double ht hread => exact reads_double ht hread
  | string h => exact reads_string h
  | array _ ih => exact reads_array ih
  | object _ ih => exact reads_object ih
  | noItems => exact reads_noItems _
  | item h hrest ih ihrest => exact reads_item h.loose.begins hrest.loose.ends ih ihrest
  | noMembers => exact reads_noMembers _
  | member hbefore hkey hafter _ hrest ih ihrest =>
    exact reads_member hbefore hkey hafter hrest.loose.ends ih ihrest

/-! ## Whole texts -/

theorem finish_blanks {α : Type} (a : α) (hs : ∀ b ∈ s, isBlank b) : finish (a, s) = .ok a := by
  have hblank : skipBlank s = [] := by
    rw [← List.append_nil s, skipBlank_blanks hs]
    rfl
  rw [finish, hblank]
  rfl

theorem ofJson_of_reads {v : Value} (h : Reads (.value v) n t) (hs : ∀ b ∈ s, isBlank b) :
    Value.ofJson (t ++ s) = if n ≤ maxNesting then .ok v else .error .malformed := by
  have hends : Ends s := fun b hb => .inl (hs b (List.mem_of_mem_head? hb))
  unfold Value.ofJson
  rw [h (by simp; omega) hends]
  unfold within
  split
  · exact finish_blanks v hs
  · rfl

/-- A text, with blanks after it or not, is read as its value, unless its brackets are nested too
deep. -/
theorem ofJson_of_text {v : Value} (h : Text (.value v) n t) (hs : ∀ b ∈ s, isBlank b) :
    Value.ofJson (t ++ s) = if n ≤ maxNesting then .ok v else .error .malformed :=
  ofJson_of_reads h.reads hs

end EventSandbox.Json
