import EventSandbox.Proofs.Config.Settings
import Mathlib.Data.List.Pairwise

/-!
# EventSandbox.Proofs.Config.Decoding — what a text says about a configuration

A configuration is the default one with exactly those settings replaced that its text writes. At
each of the three levels it does not matter whether they are written as an object or as an array,
nor in which order an object has them. The text that a configuration is printed as is such a text,
and writes all of its settings (`ProcessorConfig.decoding`).
-/

namespace EventSandbox

namespace Json

variable {σ : Type} {slots left : List (Slot σ)} {settings : List (String × List Char)}
  {entries written : List (Entry σ)} {first next : Bool} {t : Bytes}

/-! ## Order -/

/-- Two settings that do not get in each other's way. -/
def Slot.Apart (a b : Slot σ) : Prop :=
  ∀ record x y, b.set (a.set record x) y = a.set (b.set record y) x

instance : Std.Symm (@Slot.Apart σ) := ⟨fun _ _ h record x y => (h record y x).symm⟩

theorem apart_engine : engineSlots.Pairwise Slot.Apart := by
  simp [Slot.Apart, engineSlots, flagSlot, numberSlot]

theorem apart_execution : executionSlots.Pairwise Slot.Apart := by
  simp [Slot.Apart, executionSlots, numberSlot]

theorem apart_processor : processorSlots.Pairwise Slot.Apart := by
  simp [Slot.Apart, processorSlots, numberSlot, objectSlot, recordSlot]

/-- Entries with different names may be overlaid in any order. -/
theorem overlay_perm (hslots : slots.Pairwise Slot.Apart)
    (hmem : ∀ entry ∈ entries, entry.slot ∈ slots) (hnames : (entries.map Entry.name).Nodup)
    (h : entries.Perm written) (record : σ) :
    overlay record entries = overlay record written := by
  refine h.foldl_eq' (fun a ha b hb record => ?_) record
  by_cases heq : a = b
  · rw [heq]
  -- Two entries of one slot would have one name.
  have hne : a.slot ≠ b.slot := fun hslot =>
    heq (List.inj_on_of_nodup_map hnames ha hb (congrArg Slot.name hslot))
  exact hslots.forall (hmem a ha) (hmem b hb) hne record a.content b.content

/-- An array writes the slots that it has not left over. -/
theorem ItemList.slots_eq (h : ItemList slots first written t next left) :
    slots = written.map Entry.slot ++ left := by
  induction h with
  | nil => rfl
  | blank _ _ ih => exact ih
  | item _ _ _ ih => rw [ih]; rfl

/-- The entries of a text are of the level's slots, each at most once. -/
theorem RecordText.wellFormed (hnames : (slots.map Slot.name).Nodup)
    (h : RecordText slots written t) :
    (∀ entry ∈ written, entry.slot ∈ slots) ∧ (written.map Entry.name).Nodup := by
  cases h with
  | object hwritten h => exact ⟨h.slot_mem, hwritten⟩
  | array h =>
    have hslots := h.slots_eq
    refine ⟨fun entry hentry => ?_, ?_⟩
    · rw [hslots]
      exact List.mem_append_left _ (List.mem_map_of_mem hentry)
    · rw [hslots, List.map_append, List.map_map] at hnames
      exact (List.nodup_append.1 hnames).1

/-- What the two forms of a level's texts have to do with each other. -/
structure FormFree (slots : List (Slot σ)) : Prop where
  /-- An array writes the first slots, in their order. -/
  items {written : List (Entry σ)} {t : Bytes} : RecordText slots written (ascii '[' :: t) →
    ∃ left, slots = written.map Entry.slot ++ left
  /-- Texts that write the same entries mean the same, in either form and any order. -/
  order {written written' : List (Entry σ)} {t t' : Bytes} : RecordText slots written t →
    RecordText slots written' t' → written.Perm written' →
    ∀ record, overlay record written = overlay record written'

theorem formFree_of_apart (hslots : slots.Pairwise Slot.Apart)
    (hnames : (slots.map Slot.name).Nodup) : FormFree slots where
  items {written t} h := by
    generalize htext : ascii '[' :: t = text at h
    cases h with
    | object => cases htext
    | array h => exact ⟨_, h.slots_eq⟩
  order h _ hperm record := by
    obtain ⟨hmem, hwritten⟩ := h.wellFormed hnames
    exact overlay_perm hslots hmem hwritten hperm record

/-! ## Printing -/

/-- All settings of a record. -/
def allEntries (slots : List (Slot σ)) (record : σ) : List (Entry σ) :=
  slots.map fun slot => ⟨slot, slot.get record⟩

/-- A member as it is printed. -/
def memberText (field : String × List Char) : List Char := quoted field.1 ++ ':' :: field.2

/-- A printed setting and the entry it writes. -/
def Prints (field : String × List Char) (entry : Entry σ) : Prop :=
  field.1 = entry.name ∧ entry.slot.Writes entry.content (Utf8.encode field.2)

theorem flatten_intersperse {α : Type} (between x : List α) (xs : List (List α)) :
    ((x :: xs).intersperse between).flatten = x ++ xs.flatMap (between ++ ·) := by
  induction xs generalizing x with
  | nil => simp
  | cons y ys ih =>
    rw [List.intersperse_cons_cons, List.flatten_cons, List.flatten_cons, ih, List.flatMap_cons]
    simp only [List.append_assoc]

theorem encode_memberText (field : String × List Char) :
    Utf8.encode (memberText field) =
      Utf8.encode (quoted field.1) ++ [ascii ':'] ++ Utf8.encode field.2 := by
  rw [memberText, Utf8.encode_append, Utf8.encode_cons, Utf8.encodeChar_of_le (by decide),
    List.append_assoc]

theorem memberKey_quoted (name : String) :
    MemberKey name (Utf8.encode (quoted name) ++ [ascii ':']) :=
  .mk (List.forall_mem_nil _) (stringText_quoted name) (List.forall_mem_nil _)
    (List.forall_mem_nil _)

/-- Printed members that follow others, each with its comma. -/
theorem memberList_printed (h : List.Forall₂ Prints settings entries)
    (hslots : ∀ entry ∈ entries, entry.slot ∈ slots) :
    MemberList slots false entries
      (Utf8.encode ((settings.map memberText).flatMap ([','] ++ ·))) false := by
  induction h with
  | nil => exact .nil
  | @cons field entry settings entries hfield _ ih =>
    obtain ⟨hslot, hslots⟩ := List.forall_mem_cons.1 hslots
    obtain ⟨name, text⟩ := field
    obtain ⟨rfl, hv⟩ := hfield
    have h : MemberList slots false (entry :: entries) _ false :=
      .known hslot (memberKey_quoted entry.name) hv (ih hslots)
    rw [List.map_cons, List.flatMap_cons, Utf8.encode_append, Utf8.encode_append,
      encode_memberText, List.append_assoc, List.append_assoc]
    exact h

/-- A printed record is a text of it. -/
theorem recordText_printed (h : List.Forall₂ Prints settings entries)
    (hslots : ∀ entry ∈ entries, entry.slot ∈ slots) (hnames : (entries.map Entry.name).Nodup) :
    RecordText slots entries (Utf8.encode (renderRecord settings)) := by
  -- The first member has no comma before it. Without members the object still waits for its first.
  obtain ⟨next, hlist⟩ : ∃ next, MemberList slots true entries
      (Utf8.encode ((settings.map memberText).intersperse [',']).flatten) next := by
    cases h with
    | nil => exact ⟨true, .nil⟩
    | @cons field entry settings entries hfield h =>
      obtain ⟨hslot, hslots⟩ := List.forall_mem_cons.1 hslots
      obtain ⟨name, text⟩ := field
      obtain ⟨rfl, hv⟩ := hfield
      have hlist : MemberList slots true (entry :: entries) _ false :=
        .known hslot (memberKey_quoted entry.name) hv (memberList_printed h hslots)
      rw [List.map_cons, flatten_intersperse, Utf8.encode_append, encode_memberText,
        List.append_assoc]
      exact ⟨false, hlist⟩
  have htext := RecordText.object hnames hlist
  rw [← encode_between (by decide) (by decide)] at htext
  exact htext

theorem recordText_all {record : σ} (hnames : (slots.map Slot.name).Nodup)
    (h : List.Forall₂ Prints settings (allEntries slots record)) :
    RecordText slots (allEntries slots record) (Utf8.encode (renderRecord settings)) := by
  refine recordText_printed h (fun entry hentry => ?_) ?_
  · obtain ⟨slot, hslot, rfl⟩ := List.mem_map.1 hentry
    exact hslot
  · rw [allEntries, List.map_map]
    exact hnames

theorem encode_renderBool (b : Bool) :
    Utf8.encode (renderBool b) = utf8 (if b then "true" else "false") := by
  cases b <;> rfl

theorem recordText_engine (c : EngineConfig) :
    RecordText engineSlots (allEntries engineSlots c) (Utf8.encode c.render) :=
  recordText_all (by decide)
    (.cons ⟨rfl, encode_renderBool _⟩ <| .cons ⟨rfl, encode_renderBool _⟩ <|
      .cons ⟨rfl, wholeText_digitsOf _⟩ .nil)

theorem recordText_execution (c : ExecutionConfig) :
    RecordText executionSlots (allEntries executionSlots c) (Utf8.encode c.render) :=
  recordText_all (by decide)
    (.cons ⟨rfl, wholeText_digitsOf _⟩ <| .cons ⟨rfl, wholeText_digitsOf _⟩ <|
      .cons ⟨rfl, wholeText_digitsOf _⟩ .nil)

theorem recordText_processor (c : ProcessorConfig) (hcanonical : (Value.object c.params).Canonical)
    (hintegral : (Value.object c.params).Integral)
    (hnesting : 1 + (Value.object c.params).nesting ≤ maxNesting) :
    RecordText processorSlots (allEntries processorSlots c) (Utf8.encode c.render) := by
  have hparams := (tight_render (.object c.params) hcanonical hintegral).text
  have hdepth : (Value.object c.params).nesting ≤ maxNesting - 1 := Nat.le_sub_of_add_le' hnesting
  exact recordText_all (by decide)
    (.cons ⟨rfl, wholeText_digitsOf _⟩ <| .cons ⟨rfl, _, hdepth, hparams⟩ <|
      .cons ⟨rfl, _, recordText_engine c.engine, rfl⟩ <|
      .cons ⟨rfl, _, recordText_execution c.execution, rfl⟩ .nil)

end Json

namespace ProcessorConfig

open Json

variable {units : UInt64} {written : List (Entry ProcessorConfig)} {t before after : Bytes}

/-- Blanks before a configuration mean nothing. -/
theorem ofJson_blanks (units : UInt64) (t : Bytes) (hbefore : ∀ b ∈ before, isBlank b) :
    ∃ limit, t.length ≤ limit ∧ ofJson units (before ++ t) =
      record (processorSettings limit) limit (maxNesting - 1 + 1) (default units) t >>= finish := by
  refine ⟨(before ++ t).length + 1, by simp; omega, ?_⟩
  unfold ofJson
  dsimp only
  rw [record_congr (skipBlank_blanks hbefore t)]
  rfl

theorem ofJson_recordText (h : RecordText processorSlots written t)
    (hbefore : ∀ b ∈ before, isBlank b) (hafter : ∀ b ∈ after, isBlank b) :
    ofJson units (before ++ (t ++ after)) = .ok (overlay (default units) written) := by
  obtain ⟨limit, hlimit, hread⟩ := ofJson_blanks units (t ++ after) hbefore
  rw [List.length_append] at hlimit
  rw [hread, record_written _ kept_processor (by decide) h (by omega)]
  exact finish_blanks _ hafter

theorem ofJson_spoiled (h : Spoiled processorSlots t) (hbefore : ∀ b ∈ before, isBlank b) :
    ∃ fault, ofJson units (before ++ t) = .error fault := by
  obtain ⟨limit, hlimit, hread⟩ := ofJson_blanks units t hbefore
  obtain ⟨fault, hfault⟩ :=
    record_spoiled (default units) _ kept_processor (by decide) h hlimit ends_nil
  rw [List.append_nil] at hfault
  exact ⟨fault, by rw [hread, hfault]; rfl⟩

/-- What a text says about a configuration, with this default. -/
structure Decoding (units : UInt64) : Prop where
  /-- A configuration is read back from its own text in every setting. -/
  render {c : ProcessorConfig} : (Value.object c.params).Canonical →
    (Value.object c.params).Integral → 1 + (Value.object c.params).nesting ≤ maxNesting →
    ofJson units (Utf8.encode c.render) = .ok c
  /-- Any text of a configuration replaces what it writes and nothing else. -/
  written {written : List (Entry ProcessorConfig)} {before t after : Bytes} :
    RecordText processorSlots written t → (∀ b ∈ before, isBlank b) → (∀ b ∈ after, isBlank b) →
    ofJson units (before ++ (t ++ after)) = .ok (overlay (default units) written)
  processor : FormFree processorSlots
  engine : FormFree engineSlots
  execution : FormFree executionSlots
  spoiled {before t : Bytes} : Spoiled processorSlots t → (∀ b ∈ before, isBlank b) →
    ∃ fault, ofJson units (before ++ t) = .error fault

theorem decoding (units : UInt64) : Decoding units where
  -- A rendering is one of the texts of its configuration, with nothing around it.
  render {c} hcanonical hintegral hnesting := by
    have htext := recordText_processor c hcanonical hintegral hnesting
    have hread : ofJson units ([] ++ (Utf8.encode c.render ++ [])) = .ok c :=
      ofJson_recordText htext (List.forall_mem_nil _) (List.forall_mem_nil _)
    rw [List.nil_append, List.append_nil] at hread
    exact hread
  written h hbefore hafter := ofJson_recordText h hbefore hafter
  processor := formFree_of_apart apart_processor (by decide)
  engine := formFree_of_apart apart_engine (by decide)
  execution := formFree_of_apart apart_execution (by decide)
  spoiled h hbefore := ofJson_spoiled h hbefore

/-- Every setting differs from its default. -/
def sample : ProcessorConfig where
  maxCachedSessions := 3
  params := [("a", .array [.number (.int (-1) (by decide) (by decide))])]
  engine := ⟨false, false, 0xFFFFFFFFFFFFFFFF⟩
  execution := ⟨0, 1, 0xFFFFFFFF⟩

/-- An unknown field, and beside it a level that is an array. -/
theorem recordText_mixed :
    RecordText processorSlots
      [⟨processorSlots[3], { ExecutionConfig.default with maxFuel := 7 }⟩]
      (utf8 "\x7b\"x\":1e999,\"execution\":[7]\x7d") := by
  have hseven : WritesNat 7 (utf8 "7") := ⟨.digits (by decide) (by decide) (by simp), rfl⟩
  have hitem := @ItemList.item _ executionSlots[0] executionSlots.tail _ true _ (7 : UInt64) _ []
    _ _ (by simp) hseven .nil
  have hlimits : RecordText executionSlots _ (utf8 "[7]") := .array hitem
  have hexecution : MemberKey "execution" (utf8 "\"execution\":") := memberKey_quoted "execution"
  have hknown := @MemberList.known _ processorSlots false _
    ⟨processorSlots[3], { ExecutionConfig.default with maxFuel := 7 }⟩ _ _ _ _
    (List.getElem_mem _) hexecution ⟨_, hlimits, rfl⟩ .nil
  -- A numeral that no double can hold is still a numeral, and may stand under a name nobody knows.
  have hlarge : Numeral (utf8 "1e999") :=
    .mk (.digits (b := ascii '1') (t := []) rfl (by decide) (by simp)) .none
      (@ExponentText.some (ascii 'e') [] (utf8 "999") rfl (by decide)
        ⟨by decide, List.all_eq_true.1 rfl⟩)
  have hx : MemberKey "x" (utf8 "\"x\":") := memberKey_quoted "x"
  have hlist := @MemberList.unknown _ processorSlots true _ _ _ _ _ _ (by decide)
    hx (@Loose.number false _ hlarge) hknown
  exact .object (by decide) hlist

theorem spoiled_negative : Spoiled processorSlots (utf8 "[-1]") := by
  have hone : Numeral (utf8 "1") :=
    .mk (.digits (b := ascii '1') (t := []) rfl (by decide) (by simp)) .none .none
  -- A natural number begins with a digit.
  have hnone : ∀ n, ¬ WritesNat n (utf8 "-1") := by
    rintro n ⟨hwhole, -⟩
    obtain ⟨_, _, ⟨⟩, hdigit⟩ := hwhole.numeral.beginsWithDigit
    cases hdigit
  have hrefuses : processorSlots[0].Refuses (utf8 "-1") :=
    ⟨⟨true, _, hone, rfl⟩, fun _ => hnone _⟩
  have hends : Ends (utf8 "]") := ends_cons (.inr (.inr (.inl rfl))) []
  exact @Spoiled.item _ processorSlots [] [] true _ processorSlots.tail [] _ _ .nil (by simp)
    hrefuses hends

theorem decoding_sample :
    ofJson 4 (Utf8.encode sample.render) = .ok sample ∧
      ofJson 4 (utf8 " " ++ (utf8 "\x7b\"x\":1e999,\"execution\":[7]\x7d" ++ utf8 "\n")) =
        .ok { default 4 with execution := { ExecutionConfig.default with maxFuel := 7 } } ∧
      ∃ fault, ofJson 4 (utf8 " " ++ utf8 "[-1]") = .error fault := by
  refine ⟨(decoding 4).render ⟨by simp [sample], ?_⟩ ?_ (by decide), ?_, ?_⟩
  · exact ⟨⟨trivial, trivial⟩, trivial⟩
  · exact ⟨⟨trivial, trivial⟩, trivial⟩
  · exact (decoding 4).written recordText_mixed (List.all_eq_true.1 rfl) (List.all_eq_true.1 rfl)
  · exact (decoding 4).spoiled spoiled_negative (List.all_eq_true.1 rfl)

end ProcessorConfig

end EventSandbox
