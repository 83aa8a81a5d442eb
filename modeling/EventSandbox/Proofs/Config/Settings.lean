import EventSandbox.Proofs.Config.Record
import EventSandbox.Proofs.Json.Depth

/-!
# EventSandbox.Proofs.Config.Settings — the slots of a configuration

A flag is written by its word, a natural number by its digits and nothing else: every other number,
out of range, negative, with a point or with an exponent, is refused. The parameters are written by
any text of their object that is not nested too deep. The engine and the limits are records inside
the record.
-/

namespace EventSandbox.Json

variable {σ : Type} {limit depth : Nat} {s t v rest : Bytes} {name : String}

/-! ## Flags -/

def flagSlot (name : String) (get : σ → Bool) (set : σ → Bool → σ) : Slot σ where
  name := name
  Content := Bool
  get := get
  set := set
  Writes b t := t = utf8 (if b then "true" else "false")
  Refuses _ := False

theorem readBy_flag {get : σ → Bool} {set : σ → Bool → σ} :
    (flagSlot name get set).ReadBy limit boolean where
  begins := by
    rintro (_ | _) _ rfl
    · exact begins_cons rfl (by decide) (utf8 "alse")
    · exact begins_cons rfl (by decide) (utf8 "rue")
  begins_refused := nofun
  blank h := by rw [boolean, boolean, h]
  written := by
    rintro (_ | _) _ rest rfl - -
    · change boolean (ascii 'f' :: (utf8 "alse" ++ rest)) = _
      rw [boolean, skipBlank_of_not rfl]
      dsimp only
      rw [expect_append]
      rfl
    · change boolean (ascii 't' :: (utf8 "rue" ++ rest)) = _
      rw [boolean, skipBlank_of_not rfl]
      dsimp only
      rw [expect_append]
      rfl
  refused := nofun

/-! ## Natural numbers -/

/-- The digits of a natural number. -/
def WritesNat (n : Nat) (t : Bytes) : Prop := WholeText t ∧ decimal 0 t = n

/-- A natural number of a kind. Any number that is none of that kind is refused. -/
def numberSlot {α : Type} (toNat : α → Nat) (name : String) (get : σ → α) (set : σ → α → σ) :
    Slot σ where
  name := name
  Content := α
  get := get
  set := set
  Writes x t := WritesNat (toNat x) t
  Refuses t := (∃ negative u, Numeral u ∧ t = sign negative ++ u) ∧ ∀ x, ¬ WritesNat (toNat x) t

/-- What a natural number below a bound is made from. -/
def acceptNatural (bound : Nat) : Number × Bytes → Except Fault (Nat × Bytes)
  | (.int n _ _, s) => if 0 ≤ n ∧ n < bound then .ok (n.toNat, s) else .error .mismatched
  | (.float _, _) => .error .mismatched

theorem natural_number {bound : Nat} (negative : Bool) (h : BeginsWithDigit t) :
    natural bound (sign negative ++ t) = number negative t >>= acceptNatural bound := by
  cases negative with
  | true =>
    change natural bound (ascii '-' :: t) = _
    rw [natural, skipBlank_of_not rfl]
    rfl
  | false =>
    obtain ⟨b, u, rfl, hb⟩ := h
    change natural bound (b :: u) = _
    rw [natural, skipBlank_of_not (isBlank_of_isDigit hb)]
    dsimp only
    rw [if_neg (ne_of_isDigit hb rfl), if_pos hb]
    rfl

theorem natural_written {bound n : Nat} (h : WritesNat n v) (hn : n < bound)
    (hbound : bound ≤ maxSignificand + 1) (hrest : Ends rest) :
    natural bound (v ++ rest) = .ok (n, rest) := by
  obtain ⟨hwhole, rfl⟩ := h
  have hmax : decimal 0 v ≤ maxSignificand := by omega
  have hupper : (decimal 0 v : Int) < 0x10000000000000000 := by
    unfold maxSignificand at hmax
    omega
  have hint : integer false (decimal 0 v) = .int (decimal 0 v) (by omega) hupper := by
    rw [integer, if_neg Bool.false_ne_true, Number.ofInt?, dif_pos ⟨by omega, hupper⟩]
  refine (natural_number false (hwhole.beginsWithDigit rest)).trans ?_
  rw [number_wholeText hwhole hmax hrest.startsWithDigit, numberTail_of_ends hrest, hint]
  exact if_pos ⟨Int.natCast_nonneg _, Int.ofNat_lt.2 hn⟩

/-- Every number that does not write a natural number below the bound is refused. -/
theorem natural_refused {bound : Nat} {negative : Bool} (h : Numeral t)
    (hnone : ∀ n < bound, ¬ WritesNat n (sign negative ++ t)) (hrest : Ends rest) :
    ∃ fault, natural bound (sign negative ++ t ++ rest) = .error fault := by
  have hdigit : BeginsWithDigit (t ++ rest) := by
    obtain ⟨b, u, rfl, hb⟩ := h.beginsWithDigit
    exact ⟨b, u ++ rest, rfl, hb⟩
  rw [List.append_assoc, natural_number negative hdigit]
  cases hread : number negative (t ++ rest) with
  | error fault => exact ⟨fault, rfl⟩
  | ok result =>
    obtain ⟨_ | _, s⟩ := result
    swap
    · exact ⟨.mismatched, rfl⟩
    refine ⟨.mismatched, if_neg ?_⟩
    rintro ⟨hnonneg, hlt⟩
    -- What is read as an integer has been written by its digits alone, so `hnone` is about it.
    obtain ⟨hwhole, hvalue⟩ := number_eq_int h hrest hread
    cases negative with
    | true =>
      rw [if_pos rfl] at hvalue
      omega
    | false =>
      rw [if_neg Bool.false_ne_true] at hvalue
      exact hnone (decimal 0 t) (by omega) ⟨hwhole, rfl⟩

/-- A kind of natural numbers that are those below a bound. -/
theorem readBy_number {α : Type} {toNat : α → Nat} {ofNat : Nat → α} {bound : Nat}
    {get : σ → α} {set : σ → α → σ} (hlt : ∀ x, toNat x < bound) (hof : ∀ x, ofNat (toNat x) = x)
    (hto : ∀ n < bound, toNat (ofNat n) = n) (hbound : bound ≤ maxSignificand + 1) :
    (numberSlot toNat name get set).ReadBy limit
      fun s => natural bound s >>= fun p => pure (ofNat p.1, p.2) where
  begins h := h.1.numeral.beginsWithDigit.begins
  begins_refused := by
    rintro _ ⟨⟨negative, u, h, rfl⟩, -⟩
    exact begins_number h.beginsWithDigit
  blank h := by rw [natural, natural, h]
  written := by
    intro x v rest h _ hrest
    change (natural bound (v ++ rest) >>= fun p => pure (ofNat p.1, p.2)) = _
    rw [natural_written h (hlt x) hbound hrest]
    exact congrArg (fun y => Except.ok (y, rest)) (hof x)
  refused := by
    rintro _ rest ⟨⟨negative, u, h, rfl⟩, hnone⟩ - hrest
    -- A number in the record's own type would be a natural number below the bound.
    have hnone' : ∀ n < bound, ¬ WritesNat n (sign negative ++ u) := by
      intro n hn hwrites
      rw [← hto n hn] at hwrites
      exact hnone (ofNat n) hwrites
    obtain ⟨fault, hfault⟩ := natural_refused h hnone' hrest
    exact ⟨fault, by rw [hfault]; rfl⟩

theorem readBy_word64 {get : σ → UInt64} {set : σ → UInt64 → σ} :
    (numberSlot UInt64.toNat name get set).ReadBy limit word64 :=
  readBy_number UInt64.toNat_lt (fun _ => UInt64.ofNat_toNat) (fun _ => UInt64.toNat_ofNat_of_lt)
    (by decide)

theorem readBy_word32 {get : σ → UInt32} {set : σ → UInt32 → σ} :
    (numberSlot UInt32.toNat name get set).ReadBy limit word32 :=
  readBy_number UInt32.toNat_lt (fun _ => UInt32.ofNat_toNat) (fun _ => UInt32.toNat_ofNat_of_lt)
    (by decide)

/-! ## Parameters -/

/-- An object, in any text that is not nested too deep. -/
def objectSlot (depth : Nat) (name : String) (get : σ → Fields) (set : σ → Fields → σ) :
    Slot σ where
  name := name
  Content := Fields
  get := get
  set := set
  Writes params t := ∃ n ≤ depth, Text (.value (.object params)) n t
  Refuses _ := False

theorem readBy_fields {get : σ → Fields} {set : σ → Fields → σ} :
    (objectSlot depth name get set).ReadBy limit (fields limit depth) where
  begins := by
    rintro _ _ ⟨_, -, h⟩
    exact h.loose.begins
  begins_refused := nofun
  blank h := by rw [fields, fields, h]
  written := by
    rintro params v rest ⟨n, hn, h⟩ hlimit hrest
    have hvalue : value limit depth (v ++ rest) = within n depth (.object params, rest) :=
      h.reads hlimit hrest
    rw [within, if_pos hn] at hvalue
    exact fields_eq_ok.2 hvalue
  refused := nofun

/-! ## Levels -/

def engineSlots : List (Slot EngineConfig) :=
  [ flagSlot "fuel_metering" (·.fuelMetering) fun c v => { c with fuelMetering := v },
    flagSlot "epoch_interruption" (·.epochInterruption) fun c v =>
      { c with epochInterruption := v },
    numberSlot UInt64.toNat "epoch_tick_ms" (·.epochTickMs) fun c v =>
      { c with epochTickMs := v } ]

def executionSlots : List (Slot ExecutionConfig) :=
  [ numberSlot UInt64.toNat "max_fuel" (·.maxFuel) fun c v => { c with maxFuel := v },
    numberSlot UInt64.toNat "timeout_ms" (·.timeoutMs) fun c v => { c with timeoutMs := v },
    numberSlot UInt32.toNat "max_memory_mb" (·.maxMemoryMb) fun c v =>
      { c with maxMemoryMb := v } ]

/-- The slots of a processor, whose parameters are nested no deeper than is left inside it. -/
def processorSlots : List (Slot ProcessorConfig) :=
  [ numberSlot UInt64.toNat "max_cached_sessions" (·.maxCachedSessions) fun c v =>
      { c with maxCachedSessions := v },
    objectSlot (maxNesting - 1) "params" (·.params) fun c v => { c with params := v },
    recordSlot "engine" (·.engine) (fun c v => { c with engine := v }) engineSlots
      EngineConfig.default,
    recordSlot "execution" (·.execution) (fun c v => { c with execution := v }) executionSlots
      ExecutionConfig.default ]

theorem kept_engine : List.Forall₂ (Slot.KeptBy limit) engineSlots engineSettings :=
  .cons ⟨_, rfl, readBy_flag⟩ (.cons ⟨_, rfl, readBy_flag⟩ (.cons ⟨_, rfl, readBy_word64⟩ .nil))

theorem kept_execution : List.Forall₂ (Slot.KeptBy limit) executionSlots executionSettings :=
  .cons ⟨_, rfl, readBy_word64⟩
    (.cons ⟨_, rfl, readBy_word64⟩ (.cons ⟨_, rfl, readBy_word32⟩ .nil))

theorem kept_processor :
    List.Forall₂ (Slot.KeptBy limit) processorSlots (processorSettings limit (maxNesting - 1)) :=
  .cons ⟨_, rfl, readBy_word64⟩ <| .cons ⟨_, rfl, readBy_fields⟩ <|
    .cons ⟨_, rfl, readBy_record kept_engine (by decide)⟩ <|
    .cons ⟨_, rfl, readBy_record kept_execution (by decide)⟩ .nil

end EventSandbox.Json
