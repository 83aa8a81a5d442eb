import EventSandbox.Json.Token

/-!
# EventSandbox.Json.Parser — reading values and events

Texts are read left to right and the first fault counts. Reading descends into at most 127 open
arrays and objects; the next opening bracket is malformed. Of repeated keys the last wins.

1. `members` and `elements` walk the brackets and leave what happens at each field or item to
   their caller, so that values, events and records share one grammar.
2. `value` reads any value, `fields` the fields of an event.
3. `skipValue` passes over a value of which only the grammar matters, to any depth.

The loops are bounded by `limit`, for which the length of the whole text is always enough: every
turn reads at least one byte.
-/

namespace EventSandbox.Json

/-- How many brackets may be open at once. -/
def maxNesting : Nat := 127

/-! ## Brackets -/

/-- The text at the next item of a bracket, after its comma unless it is the first: blanks are
passed over, and something has to follow. -/
def nextItem (first : Bool) (b : UInt8) (t : Bytes) : Except Fault Bytes :=
  if first then .ok (b :: t)
  else if b = ascii ',' then
    match skipBlank t with
    | [] => .error .truncated
    | s => .ok s
  else .error .malformed

/-- Reads a key. -/
def key (s : Bytes) : Except Fault (String × Bytes) :=
  match s with
  | [] => .error .truncated
  | b :: t => if b = ascii '"' then stringBody [] t else .error .malformed

/-- Reads the colon between a key and its value. -/
def colon (s : Bytes) : Except Fault Bytes :=
  match skipBlank s with
  | [] => .error .truncated
  | c :: u => if c = ascii ':' then .ok u else .error .malformed

/-- Reads the members of an object after its opening brace. What follows a key, its colon and its
value, is read by `field`. -/
def members {σ : Type} (field : String → σ → Bytes → Except Fault (σ × Bytes)) :
    (limit : Nat) → (first : Bool) → σ → Bytes → Except Fault (σ × Bytes)
  | 0, _, _, _ => .error .truncated
  | limit + 1, first, state, s =>
    match skipBlank s with
    | [] => .error .truncated
    | b :: t =>
      if b = ascii '}' then .ok (state, t)
      else do
        let (name, s) ← key (← nextItem first b t)
        let (state, s) ← field name state s
        members field limit false state s

/-- Reads the items of an array after its opening bracket. -/
def elements {σ : Type} (item : σ → Bytes → Except Fault (σ × Bytes)) :
    (limit : Nat) → (first : Bool) → σ → Bytes → Except Fault (σ × Bytes)
  | 0, _, _, _ => .error .truncated
  | limit + 1, first, state, s =>
    match skipBlank s with
    | [] => .error .truncated
    | b :: t =>
      if b = ascii ']' then .ok (state, t)
      else
        match nextItem first b t with
        | .error fault => .error fault
        | .ok [] => .error .truncated
        | .ok (c :: u) =>
          if c = ascii ']' then .error .malformed
          else do
            let (state, s) ← item state (c :: u)
            elements item limit false state s

/-! ## Values -/

/-- Reads a value; `depth` more brackets may be opened. -/
def value (limit : Nat) (depth : Nat) (s : Bytes) : Except Fault (Value × Bytes) :=
  match skipBlank s with
  | [] => .error .truncated
  | b :: t =>
    if b = ascii '{' then
      match depth with
      | 0 => .error .malformed
      | depth + 1 => do
        let (fields, s) ← members
          (fun name fields s => do
            let (v, s) ← value limit depth (← colon s)
            pure (Fields.insert fields name v, s))
          limit true [] t
        pure (.object fields, s)
    else if b = ascii '[' then
      match depth with
      | 0 => .error .malformed
      | depth + 1 => do
        let (items, s) ← elements
          (fun items s => do
            let (v, s) ← value limit depth s
            pure (v :: items, s))
          limit true [] t
        pure (.array items.reverse, s)
    else if b = ascii '"' then do
      let (text, s) ← stringBody [] t
      pure (.string text, s)
    else if b = ascii '-' then do
      let (n, s) ← number true t
      pure (.number n, s)
    else if isDigit b then do
      let (n, s) ← number false (b :: t)
      pure (.number n, s)
    else if b = ascii 'n' then do
      let s ← expect (utf8 "ull") t
      pure (.null, s)
    else if b = ascii 't' then do
      let s ← expect (utf8 "rue") t
      pure (.bool true, s)
    else if b = ascii 'f' then do
      let s ← expect (utf8 "alse") t
      pure (.bool false, s)
    else .error .malformed

/-- The blanks before a value mean nothing. -/
theorem value_congr {limit depth : Nat} {s t : Bytes} (h : skipBlank s = skipBlank t) :
    value limit depth s = value limit depth t := by
  rw [value, value, h]

/-- Only blanks may follow a text's value. -/
def finish {α : Type} (result : α × Bytes) : Except Fault α :=
  if (skipBlank result.2).isEmpty then .ok result.1 else .error .malformed

/-- The fault of a value that is not of the wanted type. Words, numbers and strings are read
first and may be faulty themselves. -/
def mismatch (s : Bytes) : Fault :=
  let after {α : Type} : Except Fault α → Fault
    | .error fault => fault
    | .ok _ => .mismatched
  match skipBlank s with
  | [] => .truncated
  | b :: t =>
    if b = ascii '{' ∨ b = ascii '[' then .mismatched
    else if b = ascii '"' then after (stringBody [] t)
    else if b = ascii '-' then after (number true t)
    else if isDigit b then after (number false (b :: t))
    else if b = ascii 'n' then after (expect (utf8 "ull") t)
    else if b = ascii 't' then after (expect (utf8 "rue") t)
    else if b = ascii 'f' then after (expect (utf8 "alse") t)
    else .malformed

/-- Reads an object as fields; `depth` more brackets may be opened. -/
def fields (limit : Nat) (depth : Nat) (s : Bytes) : Except Fault (Fields × Bytes) :=
  match skipBlank s with
  | [] => .error .truncated
  | b :: t =>
    if b = ascii '{' then
      match depth with
      | 0 => .error .malformed
      | depth + 1 =>
        members
          (fun name fields s => do
            let (v, s) ← value limit depth (← colon s)
            pure (Fields.insert fields name v, s))
          limit true [] t
    else .error (mismatch (b :: t))

/-! ## Skipping -/

/-- The brackets. -/
inductive Bracket
  | array
  | object
deriving DecidableEq, Repr

/-- The byte that closes a bracket. -/
def Bracket.closing : Bracket → UInt8
  | .array => ascii ']'
  | .object => ascii '}'

/-- Where a text that is passed over has been left. -/
inductive Place
  /-- A value has to follow. -/
  | before
  /-- A bracket has just been opened. -/
  | opened
  /-- A value has just ended. -/
  | after
deriving DecidableEq, Repr

/-- Passes over what precedes a value in a bracket: in an object, a key and its colon. -/
def skipKey (bracket : Bracket) (s : Bytes) : Except Fault Bytes :=
  match bracket with
  | .array => .ok s
  | .object =>
    match skipBlank s with
    | [] => .error .truncated
    | b :: t =>
      if b = ascii '"' then skipString t >>= colon else .error .malformed

/-- Passes over the rest of a value inside the open brackets, innermost first. -/
def skipFrom : (limit : Nat) → Place → List Bracket → Bytes → Except Fault Bytes
  | 0, _, _, _ => .error .truncated
  | _ + 1, .after, [], s => .ok s
  | limit + 1, .after, top :: outer, s =>
    match skipBlank s with
    | [] => .error .truncated
    | b :: t =>
      if b = ascii ',' then do skipFrom limit .before (top :: outer) (← skipKey top t)
      else if b = top.closing then skipFrom limit .after outer t
      else .error .malformed
  | _ + 1, .opened, [], s => .ok s
  | limit + 1, .opened, top :: outer, s =>
    match skipBlank s with
    | [] => .error .truncated
    | b :: t =>
      if b = top.closing then skipFrom limit .after outer t
      else do skipFrom limit .before (top :: outer) (← skipKey top (b :: t))
  | limit + 1, .before, stack, s =>
    match skipBlank s with
    | [] => .error .truncated
    | b :: t =>
      if b = ascii '{' then skipFrom limit .opened (.object :: stack) t
      else if b = ascii '[' then skipFrom limit .opened (.array :: stack) t
      else if b = ascii '"' then do skipFrom limit .after stack (← skipString t)
      else if b = ascii '-' then do skipFrom limit .after stack (← skipNumber t)
      else if isDigit b then do skipFrom limit .after stack (← skipNumber (b :: t))
      else if b = ascii 'n' then do skipFrom limit .after stack (← expect (utf8 "ull") t)
      else if b = ascii 't' then do skipFrom limit .after stack (← expect (utf8 "rue") t)
      else if b = ascii 'f' then do skipFrom limit .after stack (← expect (utf8 "alse") t)
      else .error .malformed

/-- Passes over a value. Twice the length is enough: a turn that reads nothing follows one that
does. -/
def skipValue (limit : Nat) (s : Bytes) : Except Fault Bytes :=
  skipFrom (2 * limit + 2) .before [] s

end EventSandbox.Json

namespace EventSandbox

/-- The value that a text holds. -/
def Value.ofJson (text : Bytes) : Except Json.Fault Value := do
  Json.finish (← Json.value (text.length + 1) Json.maxNesting text)

/-- The fields that a text holds, which has to be an object. -/
def Fields.ofJson (text : Bytes) : Except Json.Fault Fields := do
  Json.finish (← Json.fields (text.length + 1) Json.maxNesting text)

end EventSandbox
