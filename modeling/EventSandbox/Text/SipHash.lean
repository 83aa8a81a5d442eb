import EventSandbox.Text.Utf8

/-!
# EventSandbox.Text.SipHash — a short hash of a byte string

SipHash with one compression round per word, three finalization rounds and a key of zeros. A
string is hashed as its length, in eight bytes, followed by its bytes; all words are little-endian.
-/

namespace EventSandbox.SipHash

/-- The four words of the hash's state. -/
structure State where
  v0 : UInt64
  v1 : UInt64
  v2 : UInt64
  v3 : UInt64
deriving DecidableEq, Repr

/-- The state for a key of zeros. -/
def initial : State :=
  ⟨0x736f6d6570736575, 0x646f72616e646f6d, 0x6c7967656e657261, 0x7465646279746573⟩

/-- A word rotated to the left. -/
def rotate (x : UInt64) (n : UInt64) : UInt64 := (x <<< n) ||| (x >>> (64 - n))

/-- One round. -/
def round (s : State) : State :=
  let v0 := s.v0 + s.v1
  let v2 := s.v2 + s.v3
  let v1 := rotate s.v1 13 ^^^ v0
  let v3 := rotate s.v3 16 ^^^ v2
  let v0 := rotate v0 32
  let v2 := v2 + v1
  let v0 := v0 + v3
  let v1 := rotate v1 17 ^^^ v2
  let v3 := rotate v3 21 ^^^ v0
  let v2 := rotate v2 32
  ⟨v0, v1, v2, v3⟩

/-- Takes in a word. -/
def absorb (s : State) (word : UInt64) : State :=
  let s := round { s with v3 := s.v3 ^^^ word }
  { s with v0 := s.v0 ^^^ word }

/-- The word of up to eight bytes, least significant first. -/
def wordOf (bytes : Bytes) : UInt64 :=
  bytes.foldr (fun b acc => (acc <<< 8) ||| b.toUInt64) 0

/-- Takes in a byte string of known length, the last word being padded with zeros below the length;
`pending` holds the bytes of an unfinished word, last first, and `missing` how many it lacks. -/
def absorbBytes (length : Nat) (s : State) (pending : Bytes) (missing : Nat) : Bytes → State
  | [] => absorb s (wordOf pending.reverse ||| (UInt64.ofNat (length % 256) <<< 56))
  | b :: rest =>
    if missing = 1 then absorbBytes length (absorb s (wordOf (b :: pending).reverse)) [] 8 rest
    else absorbBytes length s (b :: pending) (missing - 1) rest

/-- The hash of a byte stream. -/
def ofStream (bytes : Bytes) : UInt64 :=
  let s := absorbBytes bytes.length initial [] 8 bytes
  let s := round (round (round { s with v2 := s.v2 ^^^ 0xff }))
  s.v0 ^^^ s.v1 ^^^ s.v2 ^^^ s.v3

/-- The hash of a byte string together with its length. -/
def ofBytes (bytes : Bytes) : UInt64 :=
  let length := (List.range 8).map fun i =>
    (UInt64.ofNat bytes.length >>> (UInt64.ofNat (8 * i))).toUInt8
  ofStream (length ++ bytes)

/-- A word in sixteen hexadecimal digits. -/
def hexWord (word : Nat) : String :=
  String.ofList ((List.range 16).map fun i => Nat.digitChar (word / Nat.pow 16 (15 - i) % 16))

end EventSandbox.SipHash
