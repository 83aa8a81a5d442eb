import EventSandbox.Number.Shortest

/-!
# EventSandbox.Json.Value — the values an event is made of

Numbers are of two variants, integers and doubles, and never equal across them. The fields of an
object are a list of pairs without repeated keys, in increasing order of the keys; `Fields.insert`
keeps both. Strings are compared by their characters, which orders them as their UTF-8 bytes do.

`Value.Canonical` states the order for all objects inside a value, and `Value.nesting` counts how
deep its brackets go.
-/

namespace EventSandbox

/-! ## Numbers -/

/-- A number of an event: an integer that fits 64 bits, signed or unsigned, or a double. -/
inductive Number
  | int (n : Int) (lower : -0x8000000000000000 ≤ n) (upper : n < 0x10000000000000000)
  | float (x : Double)
deriving DecidableEq, Repr

namespace Number

/-- The integer as a number, if it fits. -/
def ofInt? (n : Int) : Option Number :=
  if h : -0x8000000000000000 ≤ n ∧ n < 0x10000000000000000 then some (.int n h.1 h.2) else none

/-- Equality by variant; the two zeros among the doubles are equal. -/
def same : Number → Number → Bool
  | .int n _ _, .int m _ _ => n = m
  | .float x, .float y => x.same y
  | _, _ => false

/-- The integer, if it is one and fits 64 signed bits. -/
def toInt64? : Number → Option Int
  | .int n _ _ => if n < 0x8000000000000000 then some n else none
  | .float _ => none

/-- The nearest double. -/
def toDouble : Number → Double
  | .int n _ _ => Double.ofInt n
  | .float x => x

/-- The text of a number. -/
def render : Number → List Char
  | .int n _ _ => if n < 0 then '-' :: Double.digitsOf n.natAbs else Double.digitsOf n.natAbs
  | .float x => x.render

end Number

/-! ## Values -/

/-- A value of an event. -/
inductive Value
  | null
  | bool (b : Bool)
  | number (n : Number)
  | string (s : String)
  | array (items : List Value)
  | object (fields : List (String × Value))
deriving Inhabited, Repr

/-- The fields of an object, in increasing order of their keys. -/
abbrev Fields := List (String × Value)

namespace Fields

/-- The value under a key. -/
def get? (fields : Fields) (key : String) : Option Value := fields.lookup key

/-- The fields with one set: in place of the old value of its key, or where the order puts it. -/
def insert : Fields → String → Value → Fields
  | [], key, value => [(key, value)]
  | (k, v) :: rest, key, value =>
    if key < k then (key, value) :: (k, v) :: rest
    else if key = k then (key, value) :: rest
    else (k, v) :: insert rest key value

/-- The fields that a list of settings leaves, made one after another. -/
def ofList (settings : List (String × Value)) : Fields :=
  settings.foldl (fun fields (key, value) => fields.insert key value) []

/-- The keys, in order. -/
def keys (fields : Fields) : List String := fields.map (·.1)

end Fields

namespace Value

/-- The value under a key of an object. -/
def get? (v : Value) (key : String) : Option Value :=
  match v with
  | .object fields => Fields.get? fields key
  | _ => none

mutual

/-- Equality of values, with numbers compared by `Number.same`. -/
def same : Value → Value → Bool
  | .null, .null => true
  | .bool a, .bool b => a = b
  | .number n, .number m => n.same m
  | .string s, .string t => s = t
  | .array xs, .array ys => sameItems xs ys
  | .object xs, .object ys => sameFields xs ys
  | _, _ => false

/-- Equality of arrays, item by item. -/
def sameItems : List Value → List Value → Bool
  | [], [] => true
  | x :: xs, y :: ys => same x y && sameItems xs ys
  | _, _ => false

/-- Equality of objects, field by field. -/
def sameFields : List (String × Value) → List (String × Value) → Bool
  | [], [] => true
  | (k, x) :: xs, (l, y) :: ys => k = l && same x y && sameFields xs ys
  | _, _ => false

end

mutual

/-- How many arrays and objects are open at the deepest place of a value. -/
def nesting : Value → Nat
  | .array items => nestingItems items + 1
  | .object fields => nestingFields fields + 1
  | _ => 0

/-- The deepest nesting among the items of an array. -/
def nestingItems : List Value → Nat
  | [] => 0
  | v :: vs => max (nesting v) (nestingItems vs)

/-- The deepest nesting among the fields of an object. -/
def nestingFields : List (String × Value) → Nat
  | [] => 0
  | (_, v) :: rest => max (nesting v) (nestingFields rest)

end

mutual

/-- All objects inside a value list their keys in strictly increasing order. -/
def Canonical : Value → Prop
  | .array items => CanonicalItems items
  | .object fields => (fields.map (·.1)).Pairwise (· < ·) ∧ CanonicalFields fields
  | _ => True

/-- `Canonical` for every item of an array. -/
def CanonicalItems : List Value → Prop
  | [] => True
  | v :: vs => Canonical v ∧ CanonicalItems vs

/-- `Canonical` for every field of an object. -/
def CanonicalFields : List (String × Value) → Prop
  | [] => True
  | (_, v) :: rest => Canonical v ∧ CanonicalFields rest

end

end Value

end EventSandbox
