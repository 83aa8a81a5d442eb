import EventSandbox.Text.Utf8
import Mathlib.Data.String.Basic
import Mathlib.Tactic.Common

/-!
# EventSandbox.Proofs.Text.Utf8 — what was encoded is decoded

`Sequence` lists the byte strings that encode a character by the classes of their bytes, as the scan
knows them. So the encoding of a character is one piece, whatever follows it (`scan_encode`), and
strict decoding gives back every sequence of characters from its encoding (`decode_encode`).
Encoding also keeps the order of strings (`utf8_lt_iff`).
-/

namespace EventSandbox.Utf8

variable {a b c d : UInt8} {s t : Bytes} {acc : List Piece}

/-! ## Classes of bytes -/

theorem width_eq_one (h : a.toNat ≤ 0x7F) : width a = 1 := by
  unfold width
  rw [if_pos (UInt8.le_iff_toNat_le.2 h)]

theorem width_eq_two (h : 0xC2 ≤ a.toNat) (h' : a.toNat ≤ 0xDF) : width a = 2 := by
  unfold width
  simp only [UInt8.le_iff_toNat_le]
  rw [if_neg (by simp; omega), if_pos (by simp; omega)]

theorem width_eq_three (h : 0xE0 ≤ a.toNat) (h' : a.toNat ≤ 0xEF) : width a = 3 := by
  unfold width
  simp only [UInt8.le_iff_toNat_le]
  rw [if_neg (by simp; omega), if_neg (by simp; omega), if_pos (by simp; omega)]

theorem width_eq_four (h : 0xF0 ≤ a.toNat) (h' : a.toNat ≤ 0xF4) : width a = 4 := by
  unfold width
  simp only [UInt8.le_iff_toNat_le]
  rw [if_neg (by simp; omega), if_neg (by simp; omega), if_neg (by simp; omega),
    if_pos (by simp; omega)]

theorem continues_iff : continues b ↔ 0x80 ≤ b.toNat ∧ b.toNat ≤ 0xBF := by
  simp [continues, UInt8.le_iff_toNat_le]

theorem seconds_iff :
    seconds a b ↔ 0x80 ≤ b.toNat ∧ b.toNat ≤ 0xBF ∧
      (a.toNat = 0xE0 → 0xA0 ≤ b.toNat) ∧ (a.toNat = 0xED → b.toNat ≤ 0x9F) ∧
      (a.toNat = 0xF0 → 0x90 ≤ b.toNat) ∧ (a.toNat = 0xF4 → b.toNat ≤ 0x8F) := by
  simp only [seconds, ← UInt8.toNat_inj]
  split_ifs with h1 h2 h3 h4 <;> simp_all [continues_iff, UInt8.le_iff_toNat_le] <;> omega

theorem width_range (a : UInt8) :
    (width a = 1 → a.toNat ≤ 0x7F) ∧ (width a = 2 → 0xC2 ≤ a.toNat ∧ a.toNat ≤ 0xDF) ∧
      (width a = 3 → 0xE0 ≤ a.toNat ∧ a.toNat ≤ 0xEF) ∧
      (width a = 4 → 0xF0 ≤ a.toNat ∧ a.toNat ≤ 0xF4) := by
  unfold width
  simp only [UInt8.le_iff_toNat_le]
  split_ifs <;> simp_all

/-! ## The bytes of a character -/

theorem toNat_ofNat {n : Nat} (h : n < 256) : (UInt8.ofNat n).toNat = n :=
  UInt8.toNat_ofNat_of_lt' h

/-- A scalar value lies below or above the surrogates. -/
theorem toNat_cases (c : Char) : c.toNat < 0xD800 ∨ (0xDFFF < c.toNat ∧ c.toNat < 0x110000) :=
  c.valid

theorem encodeChar_of_le {c : Char} (h : c.toNat ≤ 0x7F) : String.utf8EncodeChar c = [ascii c] :=
  if_pos h

/-- Only the characters of ASCII have bytes of ASCII. -/
theorem le_of_mem_encodeChar {c : Char} {b : UInt8} (h : 0x7F < c.toNat)
    (hb : b ∈ String.utf8EncodeChar c) : 0x80 ≤ b.toNat := by
  unfold String.utf8EncodeChar at hb
  have hc : c.val.toNat = c.toNat := rfl
  simp only [hc] at hb
  rw [if_neg (by omega)] at hb
  -- Every byte of a longer sequence has its highest bit set.
  split_ifs at hb
  all_goals
    simp only [List.mem_cons, List.not_mem_nil, or_false] at hb
    rcases hb with rfl | rfl | rfl | rfl <;> rw [toNat_ofNat (by omega)] <;> omega

/-- The encoding of a character with a number. -/
theorem encodeChar_eq {c : Char} {n : Nat} (h : c.val.toNat = n) :
    String.utf8EncodeChar c =
      if n ≤ 0x7f then [UInt8.ofNat n]
      else if n ≤ 0x7ff then [UInt8.ofNat (n / 64 % 0x20 + 0xc0), UInt8.ofNat (n % 0x40 + 0x80)]
      else if n ≤ 0xffff then
        [UInt8.ofNat (n / 4096 % 0x10 + 0xe0), UInt8.ofNat (n / 64 % 0x40 + 0x80),
          UInt8.ofNat (n % 0x40 + 0x80)]
      else
        [UInt8.ofNat (n / 262144 % 0x08 + 0xf0), UInt8.ofNat (n / 4096 % 0x40 + 0x80),
          UInt8.ofNat (n / 64 % 0x40 + 0x80), UInt8.ofNat (n % 0x40 + 0x80)] := by
  subst h
  rfl

theorem toNat_char {n : Nat} (h : n < 0xD800 ∨ (0xDFFF < n ∧ n < 0x110000)) :
    (Char.ofNat n).val.toNat = n := by
  have hvalid : n.isValidChar := h
  unfold Char.ofNat
  rw [dif_pos hvalid]
  rfl

theorem ofNat_eq {n : Nat} (h : n = a.toNat) : UInt8.ofNat n = a := by
  subst h
  exact UInt8.ofNat_toNat

theorem encode_one (ha : width a = 1) : String.utf8EncodeChar (assemble a.toNat []) = [a] := by
  have hrange := (width_range a).1 ha
  have hchar : (assemble a.toNat []).val.toNat = a.toNat :=
    toNat_char (n := a.toNat) (by omega)
  rw [encodeChar_eq hchar, if_pos hrange, UInt8.ofNat_toNat]

theorem encode_two (ha : width a = 2) (hb : seconds a b) :
    String.utf8EncodeChar (assemble (a.toNat % 32) [b]) = [a, b] := by
  have hrange := (width_range a).2.1 ha
  have hb := seconds_iff.1 hb
  have hchar : (assemble (a.toNat % 32) [b]).val.toNat = a.toNat % 32 * 64 + b.toNat % 64 :=
    toNat_char (n := a.toNat % 32 * 64 + b.toNat % 64) (by omega)
  rw [encodeChar_eq hchar, if_neg (by omega), if_pos (by omega),
    ofNat_eq (a := a) (by omega), ofNat_eq (a := b) (by omega)]

theorem encode_three (ha : width a = 3) (hb : seconds a b) (hc : continues c) :
    String.utf8EncodeChar (assemble (a.toNat % 16) [b, c]) = [a, b, c] := by
  have hrange := (width_range a).2.2.1 ha
  have hb := seconds_iff.1 hb
  have hc := continues_iff.1 hc
  have hchar : (assemble (a.toNat % 16) [b, c]).val.toNat =
      (a.toNat % 16 * 64 + b.toNat % 64) * 64 + c.toNat % 64 :=
    toNat_char (n := (a.toNat % 16 * 64 + b.toNat % 64) * 64 + c.toNat % 64) (by omega)
  rw [encodeChar_eq hchar, if_neg (by omega), if_neg (by omega), if_pos (by omega),
    ofNat_eq (a := a) (by omega), ofNat_eq (a := b) (by omega), ofNat_eq (a := c) (by omega)]

theorem encode_four (ha : width a = 4) (hb : seconds a b) (hc : continues c) (hd : continues d) :
    String.utf8EncodeChar (assemble (a.toNat % 8) [b, c, d]) = [a, b, c, d] := by
  have hrange := (width_range a).2.2.2 ha
  have hb := seconds_iff.1 hb
  have hc := continues_iff.1 hc
  have hd := continues_iff.1 hd
  have hchar : (assemble (a.toNat % 8) [b, c, d]).val.toNat =
      ((a.toNat % 8 * 64 + b.toNat % 64) * 64 + c.toNat % 64) * 64 + d.toNat % 64 :=
    toNat_char (n := ((a.toNat % 8 * 64 + b.toNat % 64) * 64 + c.toNat % 64) * 64 + d.toNat % 64)
      (by omega)
  -- The value needs four bytes, and each byte is computed from it again.
  rw [encodeChar_eq hchar, if_neg (by omega), if_neg (by omega), if_neg (by omega),
    ofNat_eq (a := a) (by omega), ofNat_eq (a := b) (by omega), ofNat_eq (a := c) (by omega),
    ofNat_eq (a := d) (by omega)]

/-! ## Sequences -/

/-- The byte strings that encode a character, by the classes of their bytes. -/
inductive Sequence : Bytes → Prop
  | one {a : UInt8} (ha : width a = 1) : Sequence [a]
  | two {a b : UInt8} (ha : width a = 2) (hb : seconds a b) : Sequence [a, b]
  | three {a b c : UInt8} (ha : width a = 3) (hb : seconds a b) (hc : continues c) :
      Sequence [a, b, c]
  | four {a b c d : UInt8} (ha : width a = 4) (hb : seconds a b) (hc : continues c)
      (hd : continues d) : Sequence [a, b, c, d]

theorem sequence_encodeChar (ch : Char) : Sequence (String.utf8EncodeChar ch) := by
  have hvalid := toNat_cases ch
  have hch : ch.val.toNat = ch.toNat := rfl
  rw [encodeChar_eq hch]
  generalize ch.toNat = v at hvalid
  have hlow := toNat_ofNat (n := v % 0x40 + 0x80) (by omega)
  have hmiddle := toNat_ofNat (n := v / 64 % 0x40 + 0x80) (by omega)
  have hhigh := toNat_ofNat (n := v / 4096 % 0x40 + 0x80) (by omega)
  -- The bounds on the value in each branch are those of the ranges of `width` and `seconds`.
  split_ifs with h1 h2 h3
  · have ha := toNat_ofNat (n := v) (by omega)
    exact .one (width_eq_one (by omega))
  · have ha := toNat_ofNat (n := v / 64 % 0x20 + 0xc0) (by omega)
    exact .two (width_eq_two (by omega) (by omega)) (seconds_iff.2 (by omega))
  · have ha := toNat_ofNat (n := v / 4096 % 0x10 + 0xe0) (by omega)
    exact .three (width_eq_three (by omega) (by omega)) (seconds_iff.2 (by omega))
      (continues_iff.2 (by omega))
  · have ha := toNat_ofNat (n := v / 262144 % 0x08 + 0xf0) (by omega)
    exact .four (width_eq_four (by omega) (by omega)) (seconds_iff.2 (by omega))
      (continues_iff.2 (by omega)) (continues_iff.2 (by omega))

/-- The sequences are the encodings of characters. -/
theorem sequence_iff : Sequence s ↔ ∃ ch, String.utf8EncodeChar ch = s := by
  constructor
  · intro h
    cases h with
    | one ha => exact ⟨_, encode_one ha⟩
    | two ha hb => exact ⟨_, encode_two ha hb⟩
    | three ha hb hc => exact ⟨_, encode_three ha hb hc⟩
    | four ha hb hc hd => exact ⟨_, encode_four ha hb hc hd⟩
  · rintro ⟨ch, rfl⟩
    exact sequence_encodeChar ch

/-! ## Scanning -/

theorem scan_one (h : width a = 1) :
    scan acc (a :: s) = scan (.scalar (assemble a.toNat []) :: acc) s := by
  rw [scan]
  simp only [h]

theorem scan_two (h : width a = 2) (hb : seconds a b) :
    scan acc (a :: b :: s) = scan (.scalar (assemble (a.toNat % 32) [b]) :: acc) s := by
  rw [scan.eq_def]
  dsimp only
  rw [h]
  exact if_pos hb

theorem scan_three (h : width a = 3) (hb : seconds a b) (hc : continues c) :
    scan acc (a :: b :: c :: s) = scan (.scalar (assemble (a.toNat % 16) [b, c]) :: acc) s := by
  rw [scan.eq_def]
  dsimp only
  rw [h]
  exact (if_pos hb).trans (if_pos hc)

theorem scan_four (h : width a = 4) (hb : seconds a b) (hc : continues c) (hd : continues d) :
    scan acc (a :: b :: c :: d :: s) =
      scan (.scalar (assemble (a.toNat % 8) [b, c, d]) :: acc) s := by
  rw [scan.eq_def]
  dsimp only
  rw [h]
  exact (if_pos hb).trans ((if_pos hc).trans (if_pos hd))

theorem encodeChar_inj {ch dh : Char} (h : String.utf8EncodeChar ch = String.utf8EncodeChar dh) :
    ch = dh := by
  have hfirst := @ByteArray.utf8DecodeChar?_utf8EncodeChar_append ByteArray.empty ch
  rw [h, ByteArray.utf8DecodeChar?_utf8EncodeChar_append] at hfirst
  exact (Option.some.inj hfirst).symm

/-- The encoding of a character is one piece. -/
theorem scan_encode (ch : Char) (acc : List Piece) (s : Bytes) :
    scan acc (String.utf8EncodeChar ch ++ s) = scan (.scalar ch :: acc) s := by
  have hsequence := sequence_encodeChar ch
  generalize hw : String.utf8EncodeChar ch = w at hsequence
  -- The scan puts a character together, and it is the one with these bytes.
  cases hsequence with
  | one ha =>
    rw [encodeChar_inj (hw.trans (encode_one ha).symm)]
    exact scan_one ha
  | two ha hb =>
    rw [encodeChar_inj (hw.trans (encode_two ha hb).symm)]
    exact scan_two ha hb
  | three ha hb hc =>
    rw [encodeChar_inj (hw.trans (encode_three ha hb hc).symm)]
    exact scan_three ha hb hc
  | four ha hb hc hd =>
    rw [encodeChar_inj (hw.trans (encode_four ha hb hc hd).symm)]
    exact scan_four ha hb hc hd

/-! ## Texts -/

/-- The encoding of some characters. -/
def encode (cs : List Char) : Bytes := cs.flatMap String.utf8EncodeChar

@[simp] theorem encode_nil : encode [] = [] := rfl

@[simp] theorem encode_cons (c : Char) (cs : List Char) :
    encode (c :: cs) = String.utf8EncodeChar c ++ encode cs := List.flatMap_cons

@[simp] theorem encode_append (cs ds : List Char) : encode (cs ++ ds) = encode cs ++ encode ds :=
  List.flatMap_append

theorem utf8_ofList (cs : List Char) : utf8 (String.ofList cs) = encode cs := by
  unfold utf8 encode
  rw [String.toByteArray_ofList, List.utf8Encode, List.data_toByteArray]

theorem scan_encode_all (cs : List Char) (acc : List Piece) :
    scan acc (encode cs) = acc.reverse ++ cs.map .scalar := by
  induction cs generalizing acc with
  | nil => simp [scan]
  | cons c cs ih =>
    rw [encode_cons, scan_encode, ih]
    simp

theorem collect_scalars (cs acc : List Char) (offset : Nat) :
    collect acc offset (cs.map .scalar) = .ok (acc.reverse ++ cs) := by
  induction cs generalizing acc offset with
  | nil => simp [collect]
  | cons c cs ih => simp [collect, ih]

/-- Strict decoding gives back what was encoded. -/
theorem decode_encode (cs : List Char) : decode (encode cs) = .ok cs := by
  unfold decode pieces
  rw [scan_encode_all]
  exact collect_scalars cs [] 0

theorem decode?_encode (cs : List Char) : decode? (encode cs) = some (String.ofList cs) := by
  simp only [decode?, decode_encode]

theorem utf8_toList (s : String) : utf8 s = encode s.toList := by
  rw [← utf8_ofList, String.ofList_toList]

/-! ## Order -/

/-- The low digits of a number to base 64, each in a byte that continues a character. -/
def continued : (count : Nat) → Nat → Bytes
  | 0, _ => []
  | count + 1, n => UInt8.ofNat (n / 64 ^ count % 64 + 0x80) :: continued count n

/-- The first byte of a character, as a number, and how many bytes continue it. -/
def lead (n : Nat) : Nat × Nat :=
  if n ≤ 0x7f then (n, 0)
  else if n ≤ 0x7ff then (n / 64 + 0xc0, 1)
  else if n ≤ 0xffff then (n / 4096 + 0xe0, 2)
  else (n / 262144 + 0xf0, 3)

theorem encodeChar_lead {c : Char} {n : Nat} (h : c.val.toNat = n) (hn : n < 0x110000) :
    String.utf8EncodeChar c = UInt8.ofNat (lead n).1 :: continued (lead n).2 n := by
  have hone (k : Nat) : k / 64 ^ 0 = k := Nat.div_one k
  rw [encodeChar_eq h]
  unfold lead
  -- One case per number of bytes; only the first byte has to be compared.
  split_ifs with h₁ h₂ h₃
  · rfl
  · have hfirst : n / 64 % 0x20 = n / 64 := Nat.mod_eq_of_lt (by omega)
    rw [hfirst]
    simp only [continued, hone]
  · have hfirst : n / 4096 % 0x10 = n / 4096 := Nat.mod_eq_of_lt (by omega)
    rw [hfirst]
    simp only [continued, hone]
    rfl
  · have hfirst : n / 262144 % 0x08 = n / 262144 := Nat.mod_eq_of_lt (by omega)
    rw [hfirst]
    simp only [continued, hone]
    rfl

/-- Numbers are in the order of their quotients, or of their remainders if these are equal. -/
theorem div_lt_or_mod_lt {m n : Nat} (k : Nat) (h : m < n) :
    m / k < n / k ∨ m / k = n / k ∧ m % k < n % k := by
  rcases (Nat.div_le_div_right (c := k) h.le).lt_or_eq with hlt | heq
  · exact .inl hlt
  · refine .inr ⟨heq, ?_⟩
    have hm := Nat.div_add_mod m k
    have hn := Nat.div_add_mod n k
    rw [heq] at hm
    omega

/-- Bytes are compared one after another. -/
theorem ofNat_cons_lt {a b : Nat} {s t : Bytes} (ha : a < 256) (hb : b < 256)
    (h : a < b ∨ a = b ∧ s < t) : UInt8.ofNat a :: s < UInt8.ofNat b :: t := by
  rw [List.cons_lt_cons_iff, UInt8.lt_iff_toNat_lt, toNat_ofNat ha, toNat_ofNat hb]
  exact h.imp_right fun ⟨heq, hrest⟩ => ⟨congrArg UInt8.ofNat heq, hrest⟩

theorem continued_lt {m n count : Nat} (h : m % 64 ^ count < n % 64 ^ count) (s t : Bytes) :
    continued count m ++ s < continued count n ++ t := by
  induction count with
  | zero => omega
  | succ count ih =>
    have hdigits := div_lt_or_mod_lt (64 ^ count) h
    rw [Nat.pow_succ, Nat.mod_mul_right_div_self, Nat.mod_mul_right_div_self,
      Nat.mod_mul_right_mod, Nat.mod_mul_right_mod] at hdigits
    refine ofNat_cons_lt (by omega) (by omega) ?_
    rcases hdigits with hlt | ⟨heq, hrest⟩
    · exact .inl (Nat.add_lt_add_right hlt _)
    · exact .inr ⟨congrArg (· + 0x80) heq, ih hrest⟩

theorem lead_lt_256 {n : Nat} (hn : n < 0x110000) : (lead n).1 < 256 := by
  unfold lead
  split_ifs <;> dsimp only <;> omega

/-- The first bytes differ, or the bytes that follow them are as many and differ. -/
theorem lead_lt {m n : Nat} (h : m < n) :
    (lead m).1 < (lead n).1 ∨ (lead m).1 = (lead n).1 ∧ (lead m).2 = (lead n).2 ∧
      m % 64 ^ (lead m).2 < n % 64 ^ (lead m).2 := by
  unfold lead
  split_ifs <;> simp only [Nat.reducePow, true_and] <;> omega

/-- The first byte in which two characters differ has their order. -/
theorem encodeChar_lt {c d : Char} (h : c < d) (s t : Bytes) :
    String.utf8EncodeChar c ++ s < String.utf8EncodeChar d ++ t := by
  have hd : d.val.toNat < 0x110000 := (toNat_cases d).elim (·.trans (by decide)) And.right
  have hlt : c.val.toNat < d.val.toNat := h
  have hc := hlt.trans hd
  rw [encodeChar_lead rfl hc, encodeChar_lead rfl hd]
  refine ofNat_cons_lt (lead_lt_256 hc) (lead_lt_256 hd) ?_
  rcases lead_lt hlt with hfirst | ⟨hfirst, hcount, hrest⟩
  · exact .inl hfirst
  · rw [← hcount]
    exact .inr ⟨hfirst, continued_lt hrest s t⟩

theorem encode_lt {cs ds : List Char} (h : cs < ds) : encode cs < encode ds := by
  induction h with
  | @nil d ds =>
    rw [encode_cons]
    unfold String.utf8EncodeChar
    dsimp only
    split_ifs <;> exact List.nil_lt_cons _ _
  | cons h ih =>
    rw [encode_cons, encode_cons]
    exact List.append_left_lt ih
  | rel h => exact encodeChar_lt h _ _

/-- Strings are ordered as their bytes are. -/
theorem utf8_lt_iff {s t : String} : utf8 s < utf8 t ↔ s < t := by
  have hlt : ∀ {s t : String}, s < t → utf8 s < utf8 t := by
    intro s t h
    rw [utf8_toList, utf8_toList]
    exact encode_lt (String.lt_iff_toList_lt.1 h)
  refine ⟨fun h => ?_, hlt⟩
  rcases lt_trichotomy s t with hst | rfl | hts
  · exact hst
  · exact absurd h (List.lt_irrefl _)
  · exact absurd h (List.lt_asymm (hlt hts))

end EventSandbox.Utf8
