import EventSandbox.Config.Json
import EventSandbox.Proofs.Json.Skipping
import Mathlib.Data.List.Nodup

/-!
# EventSandbox.Proofs.Config.Record — which texts write a record

A *slot* is what the grammar of texts knows of a setting: its name, what it replaces, the texts of
its values and the texts it has to refuse. An *entry* is a slot with a value.

`RecordText slots written t` says that `t` writes these entries and no others, as an object with any
unknown members in between or as an array that may stop early. `Spoiled slots t` says that `t` is
such a text up to an entry that is refused or comes a second time.

A reader whose settings keep to their slots overlays its defaults with what a text writes
(`record_written`) and refuses the spoiled ones (`record_spoiled`).
-/

namespace EventSandbox.Json

variable {σ : Type} {limit n : Nat} {b : UInt8} {s t v gap rest : Bytes}

/-! ## Entries -/

/-- What the texts of a record know of one of its settings. -/
structure Slot (σ : Type) where
  name : String
  Content : Type
  get : σ → Content
  set : σ → Content → σ
  /-- The texts of its values. -/
  Writes : Content → Bytes → Prop
  /-- Texts that it has to refuse. -/
  Refuses : Bytes → Prop

/-- A slot with a value. -/
structure Entry (σ : Type) where
  slot : Slot σ
  content : slot.Content

namespace Entry

def name (entry : Entry σ) : String := entry.slot.name

/-- A record with an entry in place of what it had. -/
def apply (record : σ) (entry : Entry σ) : σ := entry.slot.set record entry.content

end Entry

/-- A record with the written entries in place of what it had. -/
def overlay (record : σ) (written : List (Entry σ)) : σ := written.foldl Entry.apply record

/-! ## Texts -/

/-- A key with its colon, and the blanks around both. -/
inductive MemberKey (name : String) : Bytes → Prop
  | mk {before k between after : Bytes} (hbefore : ∀ b ∈ before, isBlank b)
      (hk : StringText name k) (hbetween : ∀ b ∈ between, isBlank b)
      (hafter : ∀ b ∈ after, isBlank b) :
      MemberKey name (before ++ (k ++ (between ++ ascii ':' :: after)))

/-- The members at the start of an object, the entries they write, and whether the object still has
its first member to come, as it had before. A member that nobody knows holds any value. -/
inductive MemberList (slots : List (Slot σ)) :
    (first : Bool) → List (Entry σ) → Bytes → (next : Bool) → Prop
  | nil {first : Bool} : MemberList slots first [] [] first
  | blank {first next : Bool} {written : List (Entry σ)} {b : UInt8} {t : Bytes} (hb : isBlank b)
      (h : MemberList slots first written t next) : MemberList slots first written (b :: t) next
  | known {first next : Bool} {entry : Entry σ} {written : List (Entry σ)} {k v t : Bytes}
      (hslot : entry.slot ∈ slots) (hk : MemberKey entry.name k)
      (hv : entry.slot.Writes entry.content v) (h : MemberList slots false written t next) :
      MemberList slots first (entry :: written) (separator first ++ (k ++ (v ++ t))) next
  | unknown {first next : Bool} {name : String} {written : List (Entry σ)} {k v t : Bytes}
      (hname : name ∉ slots.map Slot.name) (hk : MemberKey name k) (hv : Loose .value v)
      (h : MemberList slots false written t next) :
      MemberList slots first written (separator first ++ (k ++ (v ++ t))) next

/-- The items at the start of an array, which write the slots in order, and the slots that are
left. -/
inductive ItemList :
    List (Slot σ) → (first : Bool) → List (Entry σ) → Bytes → (next : Bool) → List (Slot σ) → Prop
  | nil {slots : List (Slot σ)} {first : Bool} : ItemList slots first [] [] first slots
  | blank {slots left : List (Slot σ)} {first next : Bool} {written : List (Entry σ)} {b : UInt8}
      {t : Bytes} (hb : isBlank b) (h : ItemList slots first written t next left) :
      ItemList slots first written (b :: t) next left
  | item {slot : Slot σ} {slots left : List (Slot σ)} {first next : Bool} {content : slot.Content}
      {written : List (Entry σ)} {gap v t : Bytes} (hgap : ∀ b ∈ gap, isBlank b)
      (hv : slot.Writes content v) (h : ItemList slots false written t next left) :
      ItemList (slot :: slots) first (⟨slot, content⟩ :: written)
        (separator first ++ (gap ++ (v ++ t))) next left

/-- A text of a record that writes some entries. -/
inductive RecordText (slots : List (Slot σ)) : List (Entry σ) → Bytes → Prop
  | object {written : List (Entry σ)} {t : Bytes} {next : Bool}
      (hnames : (written.map Entry.name).Nodup) (h : MemberList slots true written t next) :
      RecordText slots written (ascii '{' :: (t ++ [ascii '}']))
  | array {written : List (Entry σ)} {t : Bytes} {next : Bool} {left : List (Slot σ)}
      (h : ItemList slots true written t next left) :
      RecordText slots written (ascii '[' :: (t ++ [ascii ']']))

/-- A text of a record up to what must not come next. What comes then is of no account. -/
inductive Spoiled (slots : List (Slot σ)) : Bytes → Prop
  /-- The key of a known member comes again. -/
  | twice {written : List (Entry σ)} {t : Bytes} {next : Bool} {name : String}
      {before k rest : Bytes} (hnames : (written.map Entry.name).Nodup)
      (h : MemberList slots true written t next) (hname : name ∈ written.map Entry.name)
      (hbefore : ∀ b ∈ before, isBlank b) (hk : StringText name k) :
      Spoiled slots (ascii '{' :: (t ++ (separator next ++ (before ++ (k ++ rest)))))
  | member {written : List (Entry σ)} {t : Bytes} {next : Bool} {slot : Slot σ} {k v rest : Bytes}
      (hnames : (written.map Entry.name).Nodup) (h : MemberList slots true written t next)
      (hslot : slot ∈ slots) (hnew : slot.name ∉ written.map Entry.name)
      (hk : MemberKey slot.name k) (hv : slot.Refuses v) (hrest : Ends rest) :
      Spoiled slots (ascii '{' :: (t ++ (separator next ++ (k ++ (v ++ rest)))))
  | item {written : List (Entry σ)} {t : Bytes} {next : Bool} {slot : Slot σ}
      {left : List (Slot σ)} {gap v rest : Bytes}
      (h : ItemList slots true written t next (slot :: left)) (hgap : ∀ b ∈ gap, isBlank b)
      (hv : slot.Refuses v) (hrest : Ends rest) :
      Spoiled slots (ascii '[' :: (t ++ (separator next ++ (gap ++ (v ++ rest)))))

/-! ## Readers -/

/-- A reader that keeps to a slot. It is not given the blanks before a value in every case, so they
must not matter. -/
structure Slot.ReadBy (slot : Slot σ) (limit : Nat)
    (read : Bytes → Except Fault (slot.Content × Bytes)) : Prop where
  begins {content : slot.Content} {v : Bytes} : slot.Writes content v → Begins v
  begins_refused {v : Bytes} : slot.Refuses v → Begins v
  blank {s t : Bytes} : skipBlank s = skipBlank t → read s = read t
  written {content : slot.Content} {v rest : Bytes} : slot.Writes content v → v.length ≤ limit →
    Ends rest → read (v ++ rest) = .ok (content, rest)
  refused {v rest : Bytes} : slot.Refuses v → v.length ≤ limit → Ends rest →
    ∃ fault, read (v ++ rest) = .error fault

/-- A setting that keeps to a slot. -/
def Slot.KeptBy (limit : Nat) (slot : Slot σ) (which : Setting σ) : Prop :=
  ∃ read, which = setting slot.name read slot.set ∧ slot.ReadBy limit read

section Reading

variable {slots left : List (Slot σ)} {settings : List (Setting σ)} {slot : Slot σ}
  {first next : Bool} {turns : Nat} {name : String} {names : List String} {k : Bytes}
  {record : σ} {entry : Entry σ} {written : List (Entry σ)}

theorem find_known (hkept : List.Forall₂ (Slot.KeptBy limit) slots settings)
    (hnames : (slots.map Slot.name).Nodup) (hslot : slot ∈ slots) :
    ∃ read, (settings.find? fun which => which.name = slot.name) =
      some (setting slot.name read slot.set) ∧ slot.ReadBy limit read := by
  induction hkept with
  | nil => cases hslot
  | @cons other which slots settings hkept _ ih =>
    obtain ⟨read, rfl, hread⟩ := hkept
    obtain ⟨hnew, hnames⟩ := List.nodup_cons.1 hnames
    rcases List.mem_cons.1 hslot with rfl | hslot
    · exact ⟨read, List.find?_cons_of_pos (decide_eq_true rfl), hread⟩
    · -- The names are different, so the search goes past this setting to the one it is for.
      have hne : other.name ≠ slot.name := fun heq =>
        hnew (heq ▸ List.mem_map_of_mem hslot)
      obtain ⟨read', hfind, hread'⟩ := ih hnames hslot
      refine ⟨read', ?_, hread'⟩
      rw [List.find?_cons_of_neg (by simpa [setting] using hne), hfind]

theorem find_unknown (hkept : List.Forall₂ (Slot.KeptBy limit) slots settings)
    (hname : name ∉ slots.map Slot.name) :
    (settings.find? fun which => which.name = name) = none := by
  induction hkept with
  | nil => rfl
  | cons hkept _ ih =>
    obtain ⟨read, rfl, -⟩ := hkept
    rw [List.map_cons, List.mem_cons, not_or] at hname
    rw [List.find?_cons_of_neg (by simpa [setting] using Ne.symm hname.1), ih hname.2]

/-! ## Objects -/

/-- What is read after the colon of a member whose key may come. -/
def memberContent (settings : List (Setting σ)) (limit : Nat) (name : String)
    (state : σ × List String) (s : Bytes) : Except Fault ((σ × List String) × Bytes) :=
  match settings.find? fun which => which.name = name with
  | none => skipValue limit s >>= fun s => pure (state, s)
  | some which => which.read state.1 s >>= fun p => pure ((p.1, name :: state.2), p.2)

theorem members_key (hk : MemberKey name k)
    (hnew : name ∈ names → (settings.find? fun which => which.name = name) = none) (t : Bytes) :
    ∃ after, (∀ b ∈ after, isBlank b) ∧
      members (recordMember settings limit) (turns + 1) first (record, names)
          (separator first ++ (k ++ t)) =
        memberContent settings limit name (record, names) (after ++ t) >>= fun p =>
          members (recordMember settings limit) turns false p.1 p.2 := by
  obtain @⟨before, k, between, after, hbefore, hk, hbetween, hafter⟩ := hk
  refine ⟨after, hafter, ?_⟩
  simp only [List.append_assoc, List.cons_append]
  rw [members_next hbefore hk, recordMember, memberContent, colon_text hbetween]
  -- A name that nobody knows is skipped; one that is known must not have been seen before.
  cases hfind : settings.find? fun which => which.name = name with
  | none => rfl
  | some which =>
    have hname : name ∉ names := fun hname => nomatch hfind.symm.trans (hnew hname)
    dsimp only
    rw [if_neg hname]
    rfl

theorem members_known (hkept : List.Forall₂ (Slot.KeptBy limit) slots settings)
    (hnames : (slots.map Slot.name).Nodup) (hslot : entry.slot ∈ slots)
    (hk : MemberKey entry.name k) (hv : entry.slot.Writes entry.content v)
    (hlimit : v.length ≤ limit) (hnew : entry.name ∉ names) (hs : Ends s) :
    members (recordMember settings limit) (turns + 1) first (record, names)
        (separator first ++ (k ++ (v ++ s))) =
      members (recordMember settings limit) turns false
        (entry.apply record, entry.name :: names) s := by
  obtain ⟨read, hfind, hread⟩ := find_known hkept hnames hslot
  obtain ⟨after, hafter, hkey⟩ := members_key hk (absurd · hnew) (v ++ s)
  have hvalue : read (after ++ (v ++ s)) = .ok (entry.content, s) := by
    rw [hread.blank (skipBlank_blanks hafter _), hread.written hv hlimit hs]
  rw [hkey, memberContent, Entry.name, hfind]
  dsimp only [setting]
  rw [hvalue]
  rfl

theorem members_refused (turns : Nat) (first : Bool) (record : σ)
    (hkept : List.Forall₂ (Slot.KeptBy limit) slots settings)
    (hnames : (slots.map Slot.name).Nodup) (hslot : slot ∈ slots) (hk : MemberKey slot.name k)
    (hv : slot.Refuses v) (hlimit : v.length ≤ limit) (hnew : slot.name ∉ names) (hs : Ends s) :
    ∃ fault, members (recordMember settings limit) (turns + 1) first (record, names)
      (separator first ++ (k ++ (v ++ s))) = .error fault := by
  obtain ⟨read, hfind, hread⟩ := find_known hkept hnames hslot
  obtain ⟨after, hafter, hkey⟩ := members_key hk (absurd · hnew) (v ++ s)
  obtain ⟨fault, hfault⟩ := hread.refused hv hlimit hs
  refine ⟨fault, ?_⟩
  rw [hkey, memberContent, hfind]
  dsimp only [setting]
  rw [hread.blank (skipBlank_blanks hafter _), hfault]
  rfl

theorem members_unknown (hkept : List.Forall₂ (Slot.KeptBy limit) slots settings)
    (hname : name ∉ slots.map Slot.name) (hk : MemberKey name k) (hv : Loose .value v)
    (hlimit : v.length ≤ limit) (hs : Ends s) :
    members (recordMember settings limit) (turns + 1) first (record, names)
        (separator first ++ (k ++ (v ++ s))) =
      members (recordMember settings limit) turns false (record, names) s := by
  have hfind := find_unknown hkept hname
  obtain ⟨after, hafter, hkey⟩ := members_key hk (fun _ => hfind) (v ++ s)
  have hskip : skipValue limit (after ++ (v ++ s)) = .ok s := by
    rw [← skipValue_loose hv hlimit hs]
    exact skipFrom_congr (.inl rfl) (skipBlank_blanks hafter _)
  rw [hkey, memberContent, hfind]
  dsimp only
  rw [hskip]
  rfl

/-- A known key that comes again is refused before its colon. -/
theorem members_twice (hkept : List.Forall₂ (Slot.KeptBy limit) slots settings)
    (hnames : (slots.map Slot.name).Nodup) (hslot : slot ∈ slots) {before : Bytes}
    (hbefore : ∀ b ∈ before, isBlank b) (hk : StringText slot.name k) (hname : slot.name ∈ names)
    (s : Bytes) :
    members (recordMember settings limit) (turns + 1) first (record, names)
      (separator first ++ (before ++ (k ++ s))) = .error .mismatched := by
  obtain ⟨read, hfind, -⟩ := find_known hkept hnames hslot
  rw [members_next hbefore hk, recordMember, hfind]
  dsimp only
  rw [if_pos hname]
  rfl

theorem MemberList.ends (h : MemberList slots false written t next) (hs : next = false → Ends s) :
    Ends (t ++ s) := by
  generalize hfirst : false = first at h
  cases h with
  | nil => exact hs hfirst.symm
  | blank hb => exact ends_cons (.inl hb) _
  | known | unknown =>
    cases hfirst
    exact ends_cons (.inr (.inl rfl)) _

/-- The members at the start of an object are overlaid one after another. -/
theorem MemberList.read (hkept : List.Forall₂ (Slot.KeptBy limit) slots settings)
    (hnames : (slots.map Slot.name).Nodup) (h : MemberList slots first written t next)
    (hlimit : t.length ≤ limit) :
    ∃ n ≤ t.length, ∀ turns record names s, ((written.map Entry.name).reverse ++ names).Nodup →
      (next = false → Ends s) →
      members (recordMember settings limit) (turns + n) first (record, names) (t ++ s) =
        members (recordMember settings limit) turns next
          (overlay record written, (written.map Entry.name).reverse ++ names) s := by
  -- `names` are the known keys so far. As long as they stay distinct from those to come, none is
  -- refused.
  induction h with
  | nil => exact ⟨0, Nat.zero_le _, fun _ _ _ _ _ _ => rfl⟩
  | blank hb _ ih =>
    rw [List.length_cons] at hlimit
    obtain ⟨n, hn, hread⟩ := ih (by omega)
    refine ⟨n, by rw [List.length_cons]; omega, fun turns record names s hnew hs => ?_⟩
    rw [← hread turns record names s hnew hs]
    exact members_congr (skipBlank_blank hb _)
  | @known first next entry written k v t hslot hk hv h ih =>
    simp only [List.length_append] at hlimit ⊢
    obtain ⟨n, hn, hread⟩ := ih (by omega)
    obtain ⟨_, -, hkeeps⟩ := find_known hkept hnames hslot
    have hpos := (hkeeps.begins hv).length_pos
    refine ⟨n + 1, by omega, fun turns record names s hnew hs => ?_⟩
    have hshift : ((entry :: written).map Entry.name).reverse ++ names =
        (written.map Entry.name).reverse ++ entry.name :: names := by simp
    rw [hshift] at hnew ⊢
    have hfresh := (List.nodup_cons.1 (List.nodup_append.1 hnew).2.1).1
    simp only [List.append_assoc]
    rw [← Nat.add_assoc, members_known hkept hnames hslot hk hv (by omega) hfresh (h.ends hs)]
    exact hread turns (entry.apply record) _ s hnew hs
  | @unknown first next name written k v t hname hk hv h ih =>
    simp only [List.length_append] at hlimit ⊢
    obtain ⟨n, hn, hread⟩ := ih (by omega)
    have hpos := hv.begins.length_pos
    refine ⟨n + 1, by omega, fun turns record names s hnew hs => ?_⟩
    simp only [List.append_assoc]
    rw [← Nat.add_assoc, members_unknown hkept hname hk hv (by omega) (h.ends hs)]
    exact hread turns record names s hnew hs

/-! ## Arrays -/

theorem recordItems_congr (h : skipBlank s = skipBlank t) :
    recordItems settings first record s = recordItems settings first record t := by
  cases settings <;> rw [recordItems, recordItems, h]

/-- An array reads its next setting, whether or not a comma precedes it, and goes on. -/
theorem recordItems_next {read : Bytes → Except Fault (slot.Content × Bytes)}
    (hread : ∀ {s t}, skipBlank s = skipBlank t → read s = read t) (hv : Begins v)
    (hgap : ∀ b ∈ gap, isBlank b) (s : Bytes) :
    recordItems (setting slot.name read slot.set :: settings) first record
        (separator first ++ (gap ++ (v ++ s))) =
      read (v ++ s) >>= fun p => recordItems settings false (slot.set record p.1) p.2 := by
  obtain ⟨b, u, hb, hskip⟩ := hv
  have hvalue : read (b :: (u ++ s)) = read (v ++ s) := by
    apply hread
    rw [← hskip, skipBlank_skipBlank]
  have hseen : skipBlank (gap ++ (v ++ s)) = b :: (u ++ s) := by
    rw [skipBlank_blanks hgap, hskip]
  -- Only the first item is not preceded by a comma.
  cases first with
  | true =>
    change recordItems _ true record (gap ++ (v ++ s)) = _
    rw [recordItems, hseen]
    dsimp only [setting]
    rw [if_neg hb, nextItem, if_pos rfl]
    dsimp only
    rw [if_neg hb, hvalue]
    cases read (v ++ s) <;> rfl
  | false =>
    change recordItems _ false record (ascii ',' :: (gap ++ (v ++ s))) = _
    rw [recordItems, skipBlank_of_not rfl]
    dsimp only [setting]
    rw [if_neg (by decide), nextItem, if_neg (by decide), if_pos rfl, hseen]
    dsimp only
    rw [if_neg hb, hvalue]
    cases read (v ++ s) <;> rfl

theorem recordItems_close (rest : Bytes) :
    recordItems settings first record (ascii ']' :: rest) = .ok (record, rest) := by
  cases settings <;> rfl

theorem ItemList.ends (h : ItemList slots false written t next left)
    (hs : next = false → Ends s) : Ends (t ++ s) := by
  generalize hfirst : false = first at h
  cases h with
  | nil => exact hs hfirst.symm
  | blank hb => exact ends_cons (.inl hb) _
  | item =>
    cases hfirst
    exact ends_cons (.inr (.inl rfl)) _

/-- The items at the start of an array are overlaid one after another. -/
theorem ItemList.read (hkept : List.Forall₂ (Slot.KeptBy limit) slots settings)
    (h : ItemList slots first written t next left) (hlimit : t.length ≤ limit) :
    ∃ settings', List.Forall₂ (Slot.KeptBy limit) left settings' ∧
      ∀ record s, (next = false → Ends s) →
        recordItems settings first record (t ++ s) =
          recordItems settings' next (overlay record written) s := by
  -- Each item uses up a slot and the setting that keeps to it.
  induction h generalizing settings with
  | nil => exact ⟨settings, hkept, fun _ _ _ => rfl⟩
  | blank hb _ ih =>
    obtain ⟨settings', hkept', hread⟩ := ih hkept (Nat.le_of_succ_le hlimit)
    refine ⟨settings', hkept', fun record s hs => ?_⟩
    rw [← hread record s hs]
    exact recordItems_congr (skipBlank_blank hb _)
  | item hgap hv h ih =>
    simp only [List.length_append] at hlimit
    cases hkept with
    | cons hfirst hkept =>
      obtain ⟨read, rfl, hkeeps⟩ := hfirst
      obtain ⟨settings', hkept', hread⟩ := ih hkept (by omega)
      refine ⟨settings', hkept', fun record s hs => ?_⟩
      simp only [List.append_assoc]
      rw [recordItems_next hkeeps.blank (hkeeps.begins hv) hgap,
        hkeeps.written hv (by omega) (h.ends hs)]
      exact hread _ s hs

/-! ## Records -/

variable {settingsAt : Nat → List (Setting σ)} {depth : Nat} {defaults : σ}

theorem record_object (t : Bytes) :
    Json.record settingsAt limit (depth + 1) defaults (ascii '{' :: t) =
      members (recordMember (settingsAt depth) limit) limit true (defaults, []) t >>= fun p =>
        pure (p.1.1, p.2) := by
  rw [Json.record, skipBlank_of_not rfl]
  rfl

theorem record_array (t : Bytes) :
    Json.record settingsAt limit (depth + 1) defaults (ascii '[' :: t) =
      recordItems (settingsAt depth) true defaults t := by
  rw [Json.record, skipBlank_of_not rfl]
  rfl

/-- The members at the start of an object leave at least one turn. -/
theorem record_members (defaults : σ)
    (hkept : List.Forall₂ (Slot.KeptBy limit) slots (settingsAt depth))
    (hnames : (slots.map Slot.name).Nodup) (hnew : (written.map Entry.name).Nodup)
    (h : MemberList slots true written t next) (hlimit : t.length < limit)
    (hs : next = false → Ends s) :
    ∃ turns, Json.record settingsAt limit (depth + 1) defaults (ascii '{' :: (t ++ s)) =
      members (recordMember (settingsAt depth) limit) (turns + 1) next
          (overlay defaults written, (written.map Entry.name).reverse) s >>= fun p =>
        pure (p.1.1, p.2) := by
  obtain ⟨n, hn, hread⟩ := h.read hkept hnames (Nat.le_of_lt hlimit)
  obtain ⟨turns, rfl⟩ : ∃ turns, limit = turns + 1 + n := ⟨limit - 1 - n, by omega⟩
  refine ⟨turns, ?_⟩
  rw [record_object, hread _ _ _ _ (by simpa using List.nodup_reverse.2 hnew) hs, List.append_nil]

/-- A record is overlaid with what a text of it writes. -/
theorem record_written (settingsAt : Nat → List (Setting σ))
    (hkept : List.Forall₂ (Slot.KeptBy limit) slots (settingsAt depth))
    (hnames : (slots.map Slot.name).Nodup) (h : RecordText slots written t)
    (hlimit : t.length ≤ limit) (rest : Bytes) :
    Json.record settingsAt limit (depth + 1) defaults (t ++ rest) =
      .ok (overlay defaults written, rest) := by
  -- The text is an object or an array, and both end with their bracket.
  cases h with
  | @object t next hnew h =>
    simp only [List.length_cons, List.length_append] at hlimit
    have hends : Ends (ascii '}' :: rest) := ends_cons (.inr (.inr (.inr rfl))) _
    obtain ⟨turns, hread⟩ := record_members defaults hkept hnames hnew h (by omega)
      fun _ => hends
    rw [List.cons_append, List.append_assoc]
    refine hread.trans ?_
    rw [members, skipBlank_of_not rfl]
    rfl
  | @array t next left h =>
    simp only [List.length_cons, List.length_append] at hlimit
    obtain ⟨settings', -, hread⟩ := h.read hkept (by omega)
    rw [List.cons_append, List.append_assoc, List.singleton_append, record_array,
      hread _ _ fun _ => ends_cons (.inr (.inr (.inl rfl))) _]
    exact recordItems_close rest

theorem Ends.append (h : Ends s) (ht : Ends t) : Ends (s ++ t) := by
  cases s with
  | nil => exact ht
  | cons b s => exact h

theorem ends_separator (h : next = false) (t : Bytes) : Ends (separator next ++ t) := by
  subst h
  exact ends_cons (.inr (.inl rfl)) t

theorem MemberList.slot_mem (h : MemberList slots first written t next) :
    ∀ entry ∈ written, entry.slot ∈ slots := by
  induction h with
  | nil => exact List.forall_mem_nil _
  | blank _ _ ih => exact ih
  | known hslot _ _ _ ih => exact List.forall_mem_cons.2 ⟨hslot, ih⟩
  | unknown _ _ _ _ ih => exact ih

/-- Nothing comes out of a spoiled text. -/
theorem record_spoiled (defaults : σ) (settingsAt : Nat → List (Setting σ))
    (hkept : List.Forall₂ (Slot.KeptBy limit) slots (settingsAt depth))
    (hnames : (slots.map Slot.name).Nodup) (h : Spoiled slots t) (hlimit : t.length ≤ limit)
    (hrest : Ends rest) :
    ∃ fault, Json.record settingsAt limit (depth + 1) defaults (t ++ rest) = .error fault := by
  -- Up to the place where it is spoiled the text is one of a record, so that the reader gets there.
  cases h with
  | @twice written t next name before k u hwritten h hname hbefore hk =>
    simp only [List.length_cons, List.length_append] at hlimit
    obtain ⟨turns, hread⟩ := record_members defaults hkept hnames hwritten h
      (by omega) fun hnext => ends_separator hnext (before ++ (k ++ (u ++ rest)))
    obtain ⟨entry, hentry, rfl⟩ := List.mem_map.1 hname
    refine ⟨.mismatched, ?_⟩
    simp only [List.cons_append, List.append_assoc]
    rw [hread, members_twice hkept hnames (h.slot_mem entry hentry) hbefore hk
      (List.mem_reverse.2 hname)]
    rfl
  | @member written t next slot k v u hwritten h hslot hnew hk hv hu =>
    simp only [List.length_cons, List.length_append] at hlimit
    obtain ⟨turns, hread⟩ := record_members defaults hkept hnames hwritten h
      (by omega) fun hnext => ends_separator hnext (k ++ (v ++ (u ++ rest)))
    have hnew' := mt List.mem_reverse.1 hnew
    obtain ⟨fault, hfault⟩ := members_refused turns next (overlay defaults written) hkept hnames
      hslot hk hv (by omega) hnew' (hu.append hrest)
    refine ⟨fault, ?_⟩
    simp only [List.cons_append, List.append_assoc]
    rw [hread, hfault]
    rfl
  | @item written t next slot left gap v u h hgap hv hu =>
    simp only [List.length_cons, List.length_append] at hlimit
    obtain ⟨settings', hkept', hread⟩ := h.read hkept (by omega)
    cases hkept' with
    | cons hfirst _ =>
      obtain ⟨read, rfl, hkeeps⟩ := hfirst
      obtain ⟨fault, hfault⟩ := hkeeps.refused hv (by omega) (hu.append hrest)
      refine ⟨fault, ?_⟩
      simp only [List.cons_append, List.append_assoc]
      rw [record_array, hread _ _ fun hnext => ends_separator hnext _,
        recordItems_next hkeeps.blank (hkeeps.begins_refused hv) hgap, hfault]
      rfl

/-! ## Records inside records -/

/-- A setting that is a record itself. -/
def recordSlot {ρ : Type} (name : String) (get : σ → ρ) (set : σ → ρ → σ) (slots : List (Slot ρ))
    (defaults : ρ) : Slot σ where
  name := name
  Content := ρ
  get := get
  set := set
  Writes content t := ∃ written, RecordText slots written t ∧ content = overlay defaults written
  Refuses := Spoiled slots

theorem RecordText.begins (h : RecordText slots written t) : Begins t := by
  cases h with
  | object => exact begins_cons rfl (by decide) _
  | array => exact begins_cons rfl (by decide) _

theorem Spoiled.begins (h : Spoiled slots t) : Begins t := by
  cases h with
  | twice | member => exact begins_cons rfl (by decide) _
  | item => exact begins_cons rfl (by decide) _

theorem record_congr (h : skipBlank s = skipBlank t) :
    Json.record settingsAt limit depth defaults s =
      Json.record settingsAt limit depth defaults t := by
  rw [Json.record, Json.record, h]

theorem readBy_record {ρ : Type} {name : String} {get : σ → ρ} {set : σ → ρ → σ}
    {slots : List (Slot ρ)} {settings : List (Setting ρ)} {defaults : ρ}
    (hkept : List.Forall₂ (Slot.KeptBy limit) slots settings)
    (hnames : (slots.map Slot.name).Nodup) :
    (recordSlot name get set slots defaults).ReadBy limit
      (Json.record (fun _ => settings) limit (depth + 1) defaults) where
  begins := by
    rintro content v ⟨written, h, -⟩
    exact h.begins
  begins_refused := Spoiled.begins
  blank := record_congr
  written := by
    rintro content v rest ⟨written, h, rfl⟩ hlimit -
    exact record_written (fun _ => settings) hkept hnames h hlimit rest
  refused := record_spoiled defaults (fun _ => settings) hkept hnames

end Reading

end EventSandbox.Json
