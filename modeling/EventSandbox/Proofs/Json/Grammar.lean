import EventSandbox.Json.Token
import EventSandbox.Proofs.Text.Utf8

/-!
# EventSandbox.Proofs.Json.Grammar — which texts write a value

`Text (.value v) n t` says that `t` is a text of `v` whose brackets are nested `n` deep. A value
has many texts: blanks may stand before every token, the fields of an object may be set in any
order and more than once, and each character of a string may be escaped. Only integers are written
in one way. A double is written by any number that the reader takes for it.

One relation covers values, the rest of an array after an item and the rest of an object after a
field, so that one induction covers all three.

`Tight` is the part of it without blanks and with the keys of every object in the order of their
bytes.
-/

namespace EventSandbox.Json

/-! ## Strings -/

/-- The ways to write a character between quotes. -/
inductive CharText (c : Char) : Bytes → Prop
  /-- The character stands for itself. -/
  | plain (hquote : c ≠ '"') (hbackslash : c ≠ '\\') (hcontrol : 0x20 ≤ c.toNat) :
      CharText c (String.utf8EncodeChar c)
  | short {letter : UInt8} (h : shortEscape? letter = some c) :
      CharText c [ascii '\\', letter]
  | hex {h₁ h₂ h₃ h₄ : UInt8} (h : hexFour? h₁ h₂ h₃ h₄ = some c.toNat) :
      CharText c [ascii '\\', ascii 'u', h₁, h₂, h₃, h₄]
  | pair {h₁ h₂ h₃ h₄ k₁ k₂ k₃ k₄ : UInt8} {lead trail : Nat}
      (hlead : hexFour? h₁ h₂ h₃ h₄ = some lead) (htrail : hexFour? k₁ k₂ k₃ k₄ = some trail)
      (hleading : isLeading lead) (htrailing : isTrailing trail)
      (h : joinSurrogates lead trail = c.toNat) :
      CharText c
        [ascii '\\', ascii 'u', h₁, h₂, h₃, h₄, ascii '\\', ascii 'u', k₁, k₂, k₃, k₄]

/-- The texts of some characters, one after another. -/
inductive CharsText : List Char → Bytes → Prop
  | nil : CharsText [] []
  | cons {c cs t u} (h : CharText c t) (hrest : CharsText cs u) : CharsText (c :: cs) (t ++ u)

/-- A string in quotes. -/
inductive StringText : String → Bytes → Prop
  | quoted {cs t} (h : CharsText cs t) :
      StringText (String.ofList cs) (ascii '"' :: (t ++ [ascii '"']))

/-! ## Numbers -/

/-- One digit or more. -/
def Digits (t : Bytes) : Prop := t ≠ [] ∧ ∀ b ∈ t, isDigit b

/-- The number that decimal digits stand for, given what the digits before them stand for. -/
def decimal (n : Nat) (t : Bytes) : Nat := t.foldl (fun n b => n * 10 + digitValue b) n

/-- The digits before a point: a single zero, or digits that begin with no zero. -/
inductive WholeText : Bytes → Prop
  | zero : WholeText [ascii '0']
  | digits {b t} (hb : isDigit b) (hzero : b ≠ ascii '0') (ht : ∀ c ∈ t, isDigit c) :
      WholeText (b :: t)

/-- A point with the digits after it, or nothing. -/
inductive FractionText : Bytes → Prop
  | none : FractionText []
  | some {t} (h : Digits t) : FractionText (ascii '.' :: t)

/-- The sign of an exponent, or nothing. -/
def exponentSigns : List Bytes := [[], [ascii '+'], [ascii '-']]

/-- An exponent with its mark, or nothing. -/
inductive ExponentText : Bytes → Prop
  | none : ExponentText []
  | some {mark sign t} (hmark : isExponentMark mark) (hsign : sign ∈ exponentSigns) (h : Digits t) :
      ExponentText (mark :: (sign ++ t))

/-- A number after its sign. -/
inductive Numeral : Bytes → Prop
  | mk {w f e} (hw : WholeText w) (hf : FractionText f) (he : ExponentText e) :
      Numeral (w ++ (f ++ e))

/-- The sign of a number. -/
def sign (negative : Bool) : Bytes := if negative then [ascii '-'] else []

/-! ## Values -/

/-- What a text, or a part of one, is about. -/
inductive Form
  | value (v : Value)
  /-- The items that an open array still gets. A comma precedes each but the first. -/
  | items (first : Bool) (vs : List Value)
  /-- The settings that an open object still gets. -/
  | members (first : Bool) (settings : List (String × Value))

/-- What precedes an item or a setting. -/
def separator (first : Bool) : Bytes := if first then [] else [ascii ',']

/-- A form, how deep its brackets are nested, and a text of it. -/
inductive Text : Form → Nat → Bytes → Prop
  | blank {form n b t} (hb : isBlank b) (h : Text form n t) : Text form n (b :: t)
  | null : Text (.value .null) 0 (utf8 "null")
  | bool {b} : Text (.value (.bool b)) 0 (utf8 (if b then "true" else "false"))
  | int {n lower upper} :
      Text (.value (.number (.int n lower upper))) 0
        (Utf8.encode (Number.int n lower upper).render)
  | double {negative t x} (ht : Numeral t) (hread : number negative t = .ok (.float x, [])) :
      Text (.value (.number (.float x))) 0 (sign negative ++ t)
  | string {s t} (h : StringText s t) : Text (.value (.string s)) 0 t
  | array {vs n t} (h : Text (.items true vs) n t) :
      Text (.value (.array vs)) (n + 1) (ascii '[' :: t)
  /-- Of several settings of a key the last one counts. -/
  | object {settings n t} (h : Text (.members true settings) n t) :
      Text (.value (.object (Fields.ofList settings))) (n + 1) (ascii '{' :: t)
  | noItems {first} : Text (.items first []) 0 [ascii ']']
  | item {first v vs n k t u} (h : Text (.value v) n t) (hrest : Text (.items false vs) k u) :
      Text (.items first (v :: vs)) (max n k) (separator first ++ (t ++ u))
  | noMembers {first} : Text (.members first []) 0 [ascii '}']
  | member {first key v settings n k before s after t u} (hbefore : ∀ b ∈ before, isBlank b)
      (hkey : StringText key s) (hafter : ∀ b ∈ after, isBlank b) (h : Text (.value v) n t)
      (hrest : Text (.members false settings) k u) :
      Text (.members first ((key, v) :: settings)) (max n k)
        (separator first ++ (before ++ (s ++ (after ++ ascii ':' :: (t ++ u)))))

/-! ## Tight texts -/

/-- A form, how deep its brackets are nested, and a text of it without blanks, where the keys of
every object strictly increase in the order of their bytes. -/
inductive Tight : Form → Nat → Bytes → Prop
  | null : Tight (.value .null) 0 (utf8 "null")
  | bool {b} : Tight (.value (.bool b)) 0 (utf8 (if b then "true" else "false"))
  | int {n lower upper} :
      Tight (.value (.number (.int n lower upper))) 0
        (Utf8.encode (Number.int n lower upper).render)
  | string {s t} (h : StringText s t) : Tight (.value (.string s)) 0 t
  | array {vs n t} (h : Tight (.items true vs) n t) :
      Tight (.value (.array vs)) (n + 1) (ascii '[' :: t)
  | object {settings n t} (hkeys : (settings.map fun setting => utf8 setting.1).Pairwise (· < ·))
      (h : Tight (.members true settings) n t) :
      Tight (.value (.object settings)) (n + 1) (ascii '{' :: t)
  | noItems {first} : Tight (.items first []) 0 [ascii ']']
  | item {first v vs n k t u} (h : Tight (.value v) n t) (hrest : Tight (.items false vs) k u) :
      Tight (.items first (v :: vs)) (max n k) (separator first ++ (t ++ u))
  | noMembers {first} : Tight (.members first []) 0 [ascii '}']
  | member {first key v settings n k s t u} (hkey : StringText key s) (h : Tight (.value v) n t)
      (hrest : Tight (.members false settings) k u) :
      Tight (.members first ((key, v) :: settings)) (max n k)
        (separator first ++ (s ++ ascii ':' :: (t ++ u)))

end EventSandbox.Json
