import EventSandbox.Proofs.Text.Utf8

/-!
# EventSandbox.Proofs.Text.Malformed — where bytes stop being text

A byte string that is no text is read up to its longest start that is one. What follows is no
character: either the bytes end inside one (`Starts`), or there is a first piece that no character
starts with in full (`IllFormed`). Strict decoding reports exactly this (`Malformed.Fits`), and
lossy decoding puts one U+FFFD for the piece and goes on behind it (`decode_eq_error`).

None of these notions mentions how the bytes are scanned: they are about the encodings of
characters. `Sequence` is the one place where the two meet. So what can be decoded are the encodings
(`decode_eq_ok`).
-/

namespace EventSandbox.Utf8

variable {a b c d : UInt8} {s t : Bytes} {n : Nat}

/-! ## Starts -/

/-- Bytes that some character's encoding starts with, and goes on after. -/
def Starts (s : Bytes) : Prop := ∃ ch more, more ≠ [] ∧ String.utf8EncodeChar ch = s ++ more

theorem starts_iff : Starts s ↔ ∃ more, more ≠ [] ∧ Sequence (s ++ more) := by
  constructor
  · rintro ⟨ch, more, hmore, h⟩
    exact ⟨more, hmore, sequence_iff.2 ⟨ch, h⟩⟩
  · rintro ⟨more, hmore, h⟩
    obtain ⟨ch, hch⟩ := sequence_iff.1 h
    exact ⟨ch, more, hmore, hch⟩

/-- Fewer bytes of a start are a start. -/
theorem Starts.of_append (h : Starts (s ++ t)) : Starts s := by
  obtain ⟨ch, more, hmore, hch⟩ := h
  rw [List.append_assoc] at hch
  exact ⟨ch, t ++ more, List.append_ne_nil_of_right_ne_nil t hmore, hch⟩

theorem Starts.take (h : Starts s) (k : Nat) : Starts (s.take k) := by
  rw [← List.take_append_drop k s] at h
  exact h.of_append

theorem Starts.lead (h : Starts (a :: s)) : 2 ≤ width a := by
  obtain ⟨more, hmore, hsequence⟩ := starts_iff.1 h
  rw [List.cons_append] at hsequence
  generalize hrest : s ++ more = rest at hsequence
  cases hsequence with
  | one => exact absurd (List.append_eq_nil_iff.1 hrest).2 hmore
  | two ha | three ha | four ha => omega

theorem Starts.second (h : Starts (a :: b :: s)) : 3 ≤ width a ∧ seconds a b := by
  obtain ⟨more, hmore, hsequence⟩ := starts_iff.1 h
  rw [List.cons_append, List.cons_append] at hsequence
  generalize hrest : s ++ more = rest at hsequence
  cases hsequence with
  | two => exact absurd (List.append_eq_nil_iff.1 hrest).2 hmore
  | three ha hb | four ha hb => exact ⟨by omega, hb⟩

theorem Starts.third (h : Starts (a :: b :: c :: s)) : width a = 4 ∧ continues c ∧ s = [] := by
  obtain ⟨more, hmore, hsequence⟩ := starts_iff.1 h
  rw [List.cons_append, List.cons_append, List.cons_append] at hsequence
  generalize hrest : s ++ more = rest at hsequence
  -- A start leaves out a byte at least, so three bytes belong to a character of four.
  cases hsequence with
  | three => exact absurd (List.append_eq_nil_iff.1 hrest).2 hmore
  | four ha _ hc =>
    refine ⟨ha, hc, ?_⟩
    rcases s with _ | ⟨x, s⟩
    · rfl
    · obtain ⟨-, hnil⟩ := List.cons.inj hrest
      exact absurd (List.append_eq_nil_iff.1 hnil).2 hmore

theorem width_le (a : UInt8) : width a ≤ 4 := by
  unfold width
  split_ifs <;> omega

/-- Every first byte of a longer sequence has a second one. -/
theorem exists_second (a : UInt8) : ∃ b, seconds a b := by
  by_cases h0 : a.toNat = 0xE0
  · exact ⟨0xA0, seconds_iff.2 (by simp; omega)⟩
  by_cases h1 : a.toNat = 0xF0
  · exact ⟨0x90, seconds_iff.2 (by simp; omega)⟩
  · exact ⟨0x80, seconds_iff.2 (by simp; omega)⟩

theorem continues_least : continues 0x80 := rfl

theorem starts_three (ha : width a = 4) (hb : seconds a b) (hc : continues c) :
    Starts [a, b, c] :=
  starts_iff.2 ⟨[0x80], by simp, .four ha hb hc continues_least⟩

theorem starts_two (ha : 3 ≤ width a) (hb : seconds a b) : Starts [a, b] := by
  have hle := width_le a
  rcases Nat.lt_or_ge (width a) 4 with hlt | hge
  · exact starts_iff.2 ⟨[0x80], by simp, .three (by omega) hb continues_least⟩
  · exact (starts_three (by omega) hb continues_least).of_append (s := [a, b])

theorem starts_one (ha : 2 ≤ width a) : Starts [a] := by
  obtain ⟨b, hb⟩ := exists_second a
  rcases Nat.lt_or_ge (width a) 3 with hlt | hge
  · exact starts_iff.2 ⟨[b], by simp, .two (by omega) hb⟩
  · exact (starts_two hge hb).of_append (s := [a])

/-! ## Pieces -/

/-- The first `n` bytes are as much of a character as there is, or one byte that starts none, and
the bytes do not end there. -/
structure IllFormed (s : Bytes) (n : Nat) : Prop where
  pos : 1 ≤ n
  le_three : n ≤ 3
  le_length : n ≤ s.length
  starts : n = 1 ∨ Starts (s.take n)
  longest : ¬ Starts (s.take (n + 1))

/-- No character stands at the beginning. -/
def Stuck (s : Bytes) : Prop := ∀ ch t, s ≠ String.utf8EncodeChar ch ++ t

/-- The first piece of a byte string and what follows it. -/
inductive Next : Bytes → Piece → Bytes → Prop
  | scalar (ch : Char) (t : Bytes) : Next (String.utf8EncodeChar ch ++ t) (.scalar ch) t
  | illFormed {s : Bytes} {n : Nat} (hstuck : Stuck s) (h : IllFormed s n) :
      Next s (.illFormed n) (s.drop n)
  | unfinished {s : Bytes} {n : Nat} (hstuck : Stuck s) (h : Starts s) : Next s (.unfinished n) []

/-- The scan finds a first piece, and goes on behind it. -/
def Finds (s : Bytes) : Prop :=
  ∃ p rest, Next s p rest ∧ rest.length < s.length ∧ ∀ acc, scan acc s = scan (p :: acc) rest

theorem finds_sequence (h : Sequence s) (t : Bytes) : Finds (s ++ t) := by
  obtain ⟨ch, rfl⟩ := sequence_iff.1 h
  refine ⟨_, t, .scalar ch t, ?_, fun acc => scan_encode ch acc t⟩
  have hpos := Char.utf8Size_pos ch
  rw [List.length_append, String.length_utf8EncodeChar]
  omega

theorem finds_illFormed (hstuck : Stuck s) (h : IllFormed s n)
    (hscan : ∀ acc, scan acc s = scan (.illFormed n :: acc) (s.drop n)) : Finds s := by
  refine ⟨_, _, .illFormed hstuck h, ?_, hscan⟩
  have hpos := h.pos
  have hle := h.le_length
  rw [List.length_drop]
  omega

theorem finds_unfinished (hstuck : Stuck (a :: s)) (h : Starts (a :: s))
    (hscan : ∀ acc, scan acc (a :: s) = scan (.unfinished n :: acc) []) : Finds (a :: s) :=
  ⟨_, [], .unfinished hstuck h, Nat.succ_pos _, hscan⟩

/-- The bytes of a character are as many as the first one says, and each fits. -/
theorem bytes_of_encodeChar {ch : Char} (h : a :: s = String.utf8EncodeChar ch ++ t) :
    1 ≤ width a ∧ (2 ≤ width a → ∃ b u, s = b :: u ∧ seconds a b ∧
      (3 ≤ width a → ∃ c v, u = c :: v ∧ continues c ∧
        (4 ≤ width a → ∃ d w, v = d :: w ∧ continues d))) := by
  have hsequence := sequence_encodeChar ch
  generalize String.utf8EncodeChar ch = bytes at h hsequence
  -- One case per width: the bytes of a character are as many as its first one announces.
  cases hsequence with
  | one ha =>
    obtain ⟨rfl, rfl⟩ := List.cons.inj h
    exact ⟨by omega, fun h => absurd h (by omega)⟩
  | two ha hb =>
    obtain ⟨rfl, rfl⟩ := List.cons.inj h
    exact ⟨by omega, fun _ => ⟨_, _, rfl, hb, fun h => absurd h (by omega)⟩⟩
  | three ha hb hc =>
    obtain ⟨rfl, rfl⟩ := List.cons.inj h
    exact ⟨by omega, fun _ => ⟨_, _, rfl, hb, fun _ => ⟨_, _, rfl, hc,
      fun h => absurd h (by omega)⟩⟩⟩
  | four ha hb hc hd =>
    obtain ⟨rfl, rfl⟩ := List.cons.inj h
    exact ⟨by omega, fun _ => ⟨_, _, rfl, hb, fun _ => ⟨_, _, rfl, hc, fun _ => ⟨_, _, rfl, hd⟩⟩⟩⟩

/-! ## Finding a piece -/

theorem illFormed_one (h : ¬ Starts ((a :: s).take 2)) : IllFormed (a :: s) 1 :=
  ⟨le_refl 1, by decide, Nat.succ_le_succ (Nat.zero_le _), .inl rfl, h⟩

theorem finds_bare (ha : width a = 0) (s : Bytes) : Finds (a :: s) := by
  have hstuck : Stuck (a :: s) := fun ch t h => by
    have hpos := (bytes_of_encodeChar h).1
    omega
  refine finds_illFormed (n := 1) hstuck (illFormed_one fun h => ?_) fun acc => ?_
  · have hlead := h.lead
    omega
  · rw [scan.eq_def]
    simp only [ha]
    rfl

theorem finds_alone (ha : 2 ≤ width a) : Finds [a] := by
  have hstuck : Stuck [a] := fun ch t h => by
    obtain ⟨b, u, ⟨⟩, -⟩ := (bytes_of_encodeChar h).2 ha
  refine finds_unfinished (n := 1) hstuck (starts_one ha) fun acc => ?_
  have hle := width_le a
  obtain h | h | h : width a = 2 ∨ width a = 3 ∨ width a = 4 := by omega
  all_goals
    rw [scan.eq_def]
    simp only [h, scan]

theorem finds_broken (ha : 2 ≤ width a) (hb : ¬ seconds a b) (s : Bytes) :
    Finds (a :: b :: s) := by
  have hstuck : Stuck (a :: b :: s) := fun ch t h => by
    obtain ⟨_, _, ⟨⟩, hfits, -⟩ := (bytes_of_encodeChar h).2 ha
    exact hb hfits
  refine finds_illFormed (n := 1) hstuck (illFormed_one fun h => hb h.second.2) fun acc => ?_
  have hle := width_le a
  obtain h | h | h : width a = 2 ∨ width a = 3 ∨ width a = 4 := by omega
  all_goals
    rw [scan.eq_def]
    simp only [h, if_neg hb]
    rfl

theorem finds_two (ha : 3 ≤ width a) (hb : seconds a b) : Finds [a, b] := by
  have hstuck : Stuck [a, b] := fun ch t h => by
    obtain ⟨_, _, ⟨⟩, -, hmore⟩ := (bytes_of_encodeChar h).2 (by omega)
    obtain ⟨_, _, ⟨⟩, -⟩ := hmore ha
  refine finds_unfinished (n := 2) hstuck (starts_two ha hb) fun acc => ?_
  have hle := width_le a
  obtain h | h : width a = 3 ∨ width a = 4 := by omega
  all_goals
    rw [scan.eq_def]
    simp only [h, if_pos hb, scan]

theorem finds_broken_two (ha : 3 ≤ width a) (hb : seconds a b) (hc : ¬ continues c) (s : Bytes) :
    Finds (a :: b :: c :: s) := by
  -- A character would need a third byte that continues it.
  have hstuck : Stuck (a :: b :: c :: s) := fun ch t h => by
    obtain ⟨_, _, ⟨⟩, -, hmore⟩ := (bytes_of_encodeChar h).2 (by omega)
    obtain ⟨_, _, ⟨⟩, hfits, -⟩ := hmore ha
    exact hc hfits
  have hpiece : IllFormed (a :: b :: c :: s) 2 :=
    ⟨by decide, by decide, by simp, .inr (starts_two ha hb), fun h => hc h.third.2.1⟩
  refine finds_illFormed hstuck hpiece fun acc => ?_
  have hle := width_le a
  -- Widths three and four differ only in what the scan would read next.
  obtain h | h : width a = 3 ∨ width a = 4 := by omega
  all_goals
    rw [scan.eq_def]
    simp only [h, if_pos hb, if_neg hc]
    rfl

theorem finds_three (ha : width a = 4) (hb : seconds a b) (hc : continues c) :
    Finds [a, b, c] := by
  have hstuck : Stuck [a, b, c] := fun ch t h => by
    obtain ⟨_, _, ⟨⟩, -, hmore⟩ := (bytes_of_encodeChar h).2 (by omega)
    obtain ⟨_, _, ⟨⟩, -, hlast⟩ := hmore (by omega)
    obtain ⟨_, _, ⟨⟩, -⟩ := hlast (by omega)
  refine finds_unfinished (n := 3) hstuck (starts_three ha hb hc) fun acc => ?_
  rw [scan.eq_def]
  simp only [ha, if_pos hb, if_pos hc, scan]

theorem finds_broken_three (ha : width a = 4) (hb : seconds a b) (hc : continues c)
    (hd : ¬ continues d) (s : Bytes) : Finds (a :: b :: c :: d :: s) := by
  -- A character would need a fourth byte that continues it.
  have hstuck : Stuck (a :: b :: c :: d :: s) := fun ch t h => by
    obtain ⟨_, _, ⟨⟩, -, hmore⟩ := (bytes_of_encodeChar h).2 (by omega)
    obtain ⟨_, _, ⟨⟩, -, hlast⟩ := hmore (by omega)
    obtain ⟨_, _, ⟨⟩, hfits⟩ := hlast (by omega)
    exact hd hfits
  have hpiece : IllFormed (a :: b :: c :: d :: s) 3 := by
    refine ⟨by decide, by decide, by simp, .inr (starts_three ha hb hc), fun h => ?_⟩
    cases h.third.2.2
  refine finds_illFormed hstuck hpiece fun acc => ?_
  rw [scan.eq_def]
  simp only [ha, if_pos hb, if_pos hc, if_neg hd]
  rfl

/-- A byte string that is not empty has a first piece. -/
theorem finds_cons (a : UInt8) (s : Bytes) : Finds (a :: s) := by
  have hle := width_le a
  obtain ha | ha | ha | ha | ha :
      width a = 0 ∨ width a = 1 ∨ width a = 2 ∨ width a = 3 ∨ width a = 4 := by omega
  · exact finds_bare ha s
  · exact finds_sequence (.one ha) s
  -- As many bytes are looked at as the first one says, until one of them does not fit.
  · rcases s with _ | ⟨b, t⟩
    · exact finds_alone (by omega)
    by_cases hb : seconds a b
    · exact finds_sequence (.two ha hb) t
    · exact finds_broken (by omega) hb t
  · rcases s with _ | ⟨b, t⟩
    · exact finds_alone (by omega)
    by_cases hb : seconds a b
    swap
    · exact finds_broken (by omega) hb t
    rcases t with _ | ⟨c, u⟩
    · exact finds_two (by omega) hb
    by_cases hc : continues c
    · exact finds_sequence (.three ha hb hc) u
    · exact finds_broken_two (by omega) hb hc u
  · rcases s with _ | ⟨b, t⟩
    · exact finds_alone (by omega)
    by_cases hb : seconds a b
    swap
    · exact finds_broken (by omega) hb t
    rcases t with _ | ⟨c, u⟩
    · exact finds_two (by omega) hb
    by_cases hc : continues c
    swap
    · exact finds_broken_two (by omega) hb hc u
    rcases u with _ | ⟨d, v⟩
    · exact finds_three ha hb hc
    by_cases hd : continues d
    · exact finds_sequence (.four ha hb hc hd) v
    · exact finds_broken_three ha hb hc hd v

/-! ## All pieces -/

/-- What was found before does not matter to what is found. -/
theorem scan_eq (acc : List Piece) (s : Bytes) : scan acc s = acc.reverse ++ pieces s := by
  induction hlength : s.length using Nat.strong_induction_on generalizing acc s with
  | _ k ih =>
    rcases s with _ | ⟨a, s⟩
    · simp [pieces, scan]
    · obtain ⟨p, rest, -, hlt, hscan⟩ := finds_cons a s
      unfold pieces
      rw [hlength] at hlt
      rw [hscan, hscan, ih _ hlt _ _ rfl, ih _ hlt [p] _ rfl]
      simp

theorem pieces_encodeChar (ch : Char) (t : Bytes) :
    pieces (String.utf8EncodeChar ch ++ t) = .scalar ch :: pieces t := by
  unfold pieces
  rw [scan_encode, scan_eq]
  rfl

theorem pieces_encode (cs : List Char) (t : Bytes) :
    pieces (encode cs ++ t) = cs.map .scalar ++ pieces t := by
  induction cs with
  | nil => rfl
  | cons ch cs ih =>
    rw [encode_cons, List.append_assoc, pieces_encodeChar, ih, List.map_cons, List.cons_append]

/-- A byte string is read piece by piece. -/
theorem exists_next (hs : s ≠ []) :
    ∃ p rest, Next s p rest ∧ rest.length < s.length ∧ pieces s = p :: pieces rest := by
  obtain ⟨a, s, rfl⟩ := List.exists_cons_of_ne_nil hs
  obtain ⟨p, rest, hnext, hlt, hscan⟩ := finds_cons a s
  refine ⟨p, rest, hnext, hlt, ?_⟩
  rw [pieces, hscan, scan_eq]
  rfl

/-- A byte string begins with one character at most. -/
theorem encodeChar_append_inj {ch dh : Char}
    (h : String.utf8EncodeChar ch ++ s = String.utf8EncodeChar dh ++ t) : ch = dh ∧ s = t := by
  have hpieces := congrArg pieces h
  rw [pieces_encodeChar, pieces_encodeChar] at hpieces
  obtain rfl := Piece.scalar.inj (List.cons.inj hpieces).1
  exact ⟨rfl, List.append_cancel_left h⟩

/-! ## The longest text at the beginning -/

/-- A byte string is a text, or it is a text followed by bytes that begin with no character. -/
theorem text_or_stuck (s : Bytes) :
    (∃ cs, s = encode cs) ∨ ∃ good bad, s = encode good ++ bad ∧ bad ≠ [] ∧ Stuck bad := by
  -- Induction on the length: the pieces are characters up to the first one that is not.
  induction hlength : s.length using Nat.strong_induction_on generalizing s with
  | _ k ih =>
    by_cases hs : s = []
    · exact .inl ⟨[], hs⟩
    obtain ⟨p, rest, hnext, hlt, -⟩ := exists_next hs
    cases hnext with
    | illFormed hstuck | unfinished hstuck => exact .inr ⟨[], s, rfl, hs, hstuck⟩
    | scalar ch =>
      rcases ih _ (hlength ▸ hlt) rest rfl with ⟨cs, rfl⟩ | ⟨good, bad, rfl, hbad, hstuck⟩
      · exact .inl ⟨ch :: cs, (encode_cons ch cs).symm⟩
      · refine .inr ⟨ch :: good, bad, ?_, hbad, hstuck⟩
        rw [encode_cons, List.append_assoc]

/-- No text at the beginning is longer than the one before the bytes that begin with no
character. -/
theorem length_encode_le {cs good : List Char} {bad : Bytes} (hbad : Stuck bad)
    (h : encode cs ++ t = encode good ++ bad) : (encode cs).length ≤ (encode good).length := by
  -- Both texts begin with the same characters until `good` is used up; the stuck bytes begin with
  -- none.
  induction cs generalizing good with
  | nil => exact Nat.zero_le _
  | cons ch cs ih =>
    rw [encode_cons, List.append_assoc] at h
    cases good with
    | nil => exact absurd h.symm (hbad ch _)
    | cons dh good =>
      rw [encode_cons, List.append_assoc] at h
      obtain ⟨rfl, hrest⟩ := encodeChar_append_inj h
      rw [encode_cons, encode_cons, List.length_append, List.length_append]
      exact Nat.add_le_add_left (ih hrest) _

/-! ## The fault -/

/-- The place and the length of a fault, by what the bytes could encode: the bytes before it are
the longest text that they begin with, and behind these they end inside a character or there is an
ill-formed piece. -/
structure Malformed.Fits (fault : Malformed) (s : Bytes) : Prop where
  lt : fault.validUpTo < s.length
  text : ∃ good, s.take fault.validUpTo = encode good
  longest : ∀ k cs, s.take k = encode cs → k ≤ fault.validUpTo
  unfinished : fault.length? = none ↔ Starts (s.drop fault.validUpTo)
  illFormed : ∀ n, fault.length? = some n → IllFormed (s.drop fault.validUpTo) n

/-- What lossy decoding makes of the bytes behind a fault. -/
def Malformed.tail (fault : Malformed) (s : Bytes) : List Char :=
  match fault.length? with
  | some n => decodeLossy (s.drop (fault.validUpTo + n))
  | none => []

theorem IllFormed.not_starts (h : IllFormed s n) : ¬ Starts s :=
  fun hstarts => h.longest (hstarts.take _)

theorem fits_of_stuck {fault : Malformed} {good : List Char} {bad : Bytes} (hne : bad ≠ [])
    (hstuck : Stuck bad) (hlength : fault.validUpTo = (encode good).length)
    (hunfinished : fault.length? = none ↔ Starts bad)
    (hillFormed : ∀ n, fault.length? = some n → IllFormed bad n) :
    fault.Fits (encode good ++ bad) := by
  have hdrop : (encode good ++ bad).drop fault.validUpTo = bad := by
    rw [hlength, List.drop_left]
  have hlt : fault.validUpTo < (encode good ++ bad).length := by
    rw [hlength, List.length_append]
    exact Nat.lt_add_of_pos_right (List.length_pos_iff.2 hne)
  have htext : (encode good ++ bad).take fault.validUpTo = encode good := by
    rw [hlength, List.take_left]
  refine ⟨hlt, ⟨good, htext⟩, ?_, by rwa [hdrop], by rwa [hdrop]⟩
  -- A longer text would go on into the stuck bytes, which begin with no character.
  intro k cs hcs
  by_contra hk
  have hsplit := List.take_append_drop k (encode good ++ bad)
  rw [hcs] at hsplit
  have hle := length_encode_le hstuck hsplit
  rw [← hcs, List.length_take] at hle
  omega

theorem collect_fault {p : Piece} (hp : ∀ ch, p ≠ .scalar ch) (cs acc : List Char) (offset : Nat)
    (ps : List Piece) : collect acc offset (cs.map .scalar ++ p :: ps) =
      .error ⟨offset + (encode cs).length, match p with | .illFormed n => some n | _ => none⟩ := by
  induction cs generalizing acc offset with
  | nil =>
    cases p with
    | scalar ch => exact absurd rfl (hp ch)
    | illFormed n | unfinished n => rfl
  | cons ch cs ih =>
    rw [List.map_cons, List.cons_append, collect, ih, encode_cons, List.length_append,
      String.length_utf8EncodeChar, Nat.add_assoc]

theorem decodeLossy_encode (cs : List Char) (t : Bytes) :
    decodeLossy (encode cs ++ t) = cs ++ decodeLossy t := by
  unfold decodeLossy
  rw [pieces_encode, List.map_append, List.map_map]
  congr 1
  exact List.map_id cs

/-- Lossy decoding gives back what was encoded. -/
theorem decodeLossy_text (cs : List Char) : decodeLossy (encode cs) = cs := by
  have hempty : decodeLossy [] = [] := rfl
  have happend := decodeLossy_encode cs []
  rwa [hempty, List.append_nil, List.append_nil] at happend

theorem decodeLossy_cons {p : Piece} (h : pieces s = p :: pieces t) :
    decodeLossy s = p.char :: decodeLossy t :=
  congrArg (List.map Piece.char) h

/-- Strict decoding refuses every byte string that is no text, and names its fault. Lossy decoding
reads the text before the fault, puts one U+FFFD for it and goes on behind it. -/
theorem decode_eq_error (hs : ∀ cs, s ≠ encode cs) :
    ∃ fault good, decode s = .error fault ∧ fault.Fits s ∧
      s.take fault.validUpTo = encode good ∧
      decodeLossy s = good ++ '\ufffd' :: fault.tail s := by
  rcases text_or_stuck s with ⟨cs, hcs⟩ | ⟨good, bad, rfl, hne, hstuck⟩
  · exact absurd hcs (hs cs)
  obtain ⟨p, rest, hnext, -, hpieces⟩ := exists_next hne
  have hstart : 0 + (encode good).length = (encode good).length := Nat.zero_add _
  have htake : (encode good ++ bad).take (0 + (encode good).length) = encode good := by
    rw [hstart, List.take_left]
  rw [decode, pieces_encode, decodeLossy_encode, decodeLossy_cons hpieces, hpieces]
  -- The next piece decides which fault it is, and it is no character since the bytes are stuck.
  cases hnext with
  | scalar ch => exact absurd rfl (hstuck ch rest)
  | @illFormed _ n _ h =>
    refine ⟨_, good, collect_fault (fun _ h => by cases h) _ _ _ _, ?_, htake, ?_⟩
    · refine fits_of_stuck hne hstuck hstart (iff_of_false (by simp) h.not_starts) ?_
      rintro _ ⟨⟩
      exact h
    · simp only [Malformed.tail, hstart, List.drop_length_add_append, Piece.char]
  | @unfinished _ n _ h =>
    refine ⟨_, good, collect_fault (fun _ h => by cases h) _ _ _ _, ?_, htake, rfl⟩
    refine fits_of_stuck hne hstuck hstart (iff_of_true rfl h) ?_
    rintro _ ⟨⟩

/-- Only encodings can be decoded. -/
theorem decode_eq_ok {cs : List Char} : decode s = .ok cs ↔ s = encode cs := by
  constructor
  · intro h
    by_cases hs : ∃ cs, s = encode cs
    · obtain ⟨cs', rfl⟩ := hs
      rw [decode_encode] at h
      rw [Except.ok.inj h]
    · obtain ⟨fault, -, herror, -⟩ := decode_eq_error (not_exists.1 hs)
      cases herror.symm.trans h
  · rintro rfl
    exact decode_encode cs

end EventSandbox.Utf8
