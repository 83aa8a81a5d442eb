import EventSandbox.Cli.Records
import EventSandbox.Proofs.Json.Visible
import EventSandbox.Proofs.Text.Malformed

/-!
# EventSandbox.Proofs.Cli.Lines — what is read from a stream, and what is written to one

`Lines` says what the lines of a stream are, without saying how they are found; every stream has
its lines and no others (`lines_iff`). If all of them are text, each that is not blank becomes a
record (`readRecords_text`); the first that is not spoils all (`readRecords_spoiled`).

What is written for an event is one line, whatever the event holds: the text of a value has no
control characters. So the lines of the output are the texts of the events (`splitLines_output`).
-/

namespace EventSandbox.Cli

/-! ## Lines -/

/-- A stream and its lines. -/
inductive Lines : Bytes → List Bytes → Prop
  | nil : Lines [] []
  /-- The last line may lack its line feed, unless it is empty. -/
  | last {line : Bytes} (hline : line ≠ []) (hfeed : ascii '\n' ∉ line) : Lines line [line]
  | feed {line rest : Bytes} {lines : List Bytes} (hfeed : ascii '\n' ∉ line)
      (hreturn : line.getLast? ≠ some (ascii '\r')) (h : Lines rest lines) :
      Lines (line ++ ascii '\n' :: rest) (line :: lines)
  /-- A carriage return before a line feed does not belong to the line. -/
  | returnFeed {line rest : Bytes} {lines : List Bytes} (hfeed : ascii '\n' ∉ line)
      (h : Lines rest lines) :
      Lines (line ++ ascii '\r' :: ascii '\n' :: rest) (line :: lines)

theorem linesFrom_last {line : Bytes} (hfeed : ascii '\n' ∉ line) (begun : Bytes) :
    linesFrom begun line =
      if (line.reverse ++ begun).isEmpty then [] else [(line.reverse ++ begun).reverse] := by
  induction line generalizing begun with
  | nil => rfl
  | cons b line ih =>
    obtain ⟨hb, hline⟩ := not_or.1 (mt List.mem_cons.2 hfeed)
    rw [linesFrom, if_neg (Ne.symm hb), ih hline]
    simp

theorem linesFrom_feed {line : Bytes} (hfeed : ascii '\n' ∉ line) (begun rest : Bytes) :
    linesFrom begun (line ++ ascii '\n' :: rest) =
      (dropReturn (line.reverse ++ begun)).reverse :: splitLines rest := by
  induction line generalizing begun with
  | nil => rfl
  | cons b line ih =>
    obtain ⟨hb, hline⟩ := not_or.1 (mt List.mem_cons.2 hfeed)
    rw [List.cons_append, linesFrom, if_neg (Ne.symm hb), ih hline]
    simp

theorem dropReturn_reverse {line : Bytes} (h : line.getLast? ≠ some (ascii '\r')) :
    dropReturn line.reverse = line.reverse := by
  cases hreverse : line.reverse with
  | nil => rfl
  | cons b rest =>
    have hlast : line.getLast? = some b := by
      rw [← List.head?_reverse, hreverse]
      rfl
    refine if_neg ?_
    rintro rfl
    exact h hlast

theorem Lines.splitLines_eq {s : Bytes} {lines : List Bytes} (h : Lines s lines) :
    splitLines s = lines := by
  induction h with
  | nil => rfl
  | @last line hline hfeed =>
    unfold splitLines
    rw [linesFrom_last hfeed, List.append_nil, if_neg (by simpa using hline), List.reverse_reverse]
  | feed hfeed hreturn _ ih =>
    unfold splitLines
    rw [linesFrom_feed hfeed, List.append_nil, dropReturn_reverse hreturn, List.reverse_reverse, ih]
  -- The carriage return belongs to the break, so the line that is cut off ends with it.
  | @returnFeed line rest lines hfeed _ ih =>
    have hfeed' : ascii '\n' ∉ line ++ [ascii '\r'] := by
      intro hmem
      rcases List.mem_append.1 hmem with hmem | hmem
      · exact hfeed hmem
      · exact absurd (List.mem_singleton.1 hmem) (by decide)
    have hcut : line ++ ascii '\r' :: ascii '\n' :: rest =
        (line ++ [ascii '\r']) ++ ascii '\n' :: rest := by
      simp
    unfold splitLines
    rw [hcut, linesFrom_feed hfeed', ih]
    simp [dropReturn]

/-- Every stream has lines. -/
theorem exists_lines (s : Bytes) : ∃ lines, Lines s lines := by
  -- By the length of the stream, since what follows a line feed is shorter.
  induction hn : s.length using Nat.strong_induction_on generalizing s with
  | _ n ih =>
    subst hn
    by_cases hfeed : ascii '\n' ∈ s
    · obtain ⟨line, rest, rfl, hline⟩ := List.eq_append_cons_of_mem hfeed
      have hshorter : rest.length < (line ++ ascii '\n' :: rest).length := by
        simp
        omega
      obtain ⟨lines, hrest⟩ := ih _ hshorter rest rfl
      by_cases hreturn : line.getLast? = some (ascii '\r')
      · obtain ⟨front, rfl⟩ := List.getLast?_eq_some_iff.1 hreturn
        have hfront : ascii '\n' ∉ front := fun hmem => hline (List.mem_append_left _ hmem)
        refine ⟨front :: lines, ?_⟩
        rw [List.append_assoc]
        exact .returnFeed hfront hrest
      · exact ⟨line :: lines, .feed hline hreturn hrest⟩
    · cases s with
      | nil => exact ⟨[], .nil⟩
      | cons b s => exact ⟨[b :: s], .last (List.cons_ne_nil b s) hfeed⟩

/-- A stream has just the lines that it is cut into. -/
theorem lines_iff {s : Bytes} {lines : List Bytes} : Lines s lines ↔ splitLines s = lines := by
  constructor
  · intro h
    exact h.splitLines_eq
  · rintro rfl
    obtain ⟨lines, h⟩ := exists_lines s
    rw [h.splitLines_eq]
    exact h

/-! ## Records -/

/-- A line that is text. -/
def IsText (line : Bytes) : Prop := ∃ chars, line = Utf8.encode chars

theorem isText_iff {line : Bytes} : IsText line ↔ (Utf8.decode line).toOption.isSome := by
  constructor
  · rintro ⟨chars, rfl⟩
    rw [Utf8.decode_encode]
    rfl
  · intro h
    cases hdecode : Utf8.decode line with
    | error fault =>
      rw [hdecode] at h
      cases h
    | ok chars => exact ⟨chars, Utf8.decode_eq_ok.1 hdecode⟩

instance : DecidablePred IsText := fun _ => decidable_of_iff' _ isText_iff

/-- A line of white space only, or of nothing. -/
def isBlankLine (line : Bytes) : Bool :=
  match Utf8.decode line with
  | .ok chars => chars.all isWhite
  | .error _ => false

theorem isBlankLine_encode (chars : List Char) :
    isBlankLine (Utf8.encode chars) = chars.all isWhite := by
  unfold isBlankLine
  rw [Utf8.decode_encode]

/-- The lines that are not blank with their numbers; the first of all has the given number. -/
def numbered (number : Nat) (lines : List Bytes) : List (Bytes × Nat) :=
  (lines.zipIdx number).filter fun (line, _) => !isBlankLine line

/-- The records of lines, the first of which has the given number: one for each that is not
blank. -/
def recordsFrom (number : Nat) (lines : List Bytes) : List Record :=
  (numbered number lines).map fun (line, n) => ⟨n, eventOf? line⟩

theorem recordsFrom_cons (number : Nat) (line : Bytes) (rest : List Bytes) :
    recordsFrom number (line :: rest) =
      if isBlankLine line then recordsFrom (number + 1) rest
      else ⟨number, eventOf? line⟩ :: recordsFrom (number + 1) rest := by
  unfold recordsFrom numbered
  rw [List.zipIdx_cons]
  by_cases hblank : isBlankLine line
  · rw [if_pos hblank, List.filter_cons_of_neg (by simp [hblank])]
  · rw [if_neg hblank, List.filter_cons_of_pos (by simp [hblank]), List.map_cons]

theorem readRecords_cons {number : Nat} {line : Bytes} (h : IsText line) (rest : List Bytes) :
    readRecords number (line :: rest) =
      { readRecords (number + 1) rest with
        records :=
          if isBlankLine line then (readRecords (number + 1) rest).records
          else ⟨number, eventOf? line⟩ :: (readRecords (number + 1) rest).records } := by
  obtain ⟨chars, rfl⟩ := h
  rw [readRecords, Utf8.decode_encode, isBlankLine_encode]
  dsimp only
  split_ifs <;> rfl

/-- If all lines are text, each that is not blank becomes a record. -/
theorem readRecords_text {lines : List Bytes} (h : ∀ line ∈ lines, IsText line) (number : Nat) :
    readRecords number lines = ⟨recordsFrom number lines, none⟩ := by
  induction lines generalizing number with
  | nil => rfl
  | cons line rest ih =>
    obtain ⟨hline, hrest⟩ := List.forall_mem_cons.1 h
    rw [readRecords_cons hline, ih hrest, recordsFrom_cons]

/-- The first line that is not text ends the reading. -/
theorem readRecords_spoiled {before : List Bytes} {line : Bytes}
    (hbefore : ∀ line ∈ before, IsText line) (hline : ¬ IsText line) (rest : List Bytes)
    (number : Nat) :
    readRecords number (before ++ line :: rest) =
      ⟨recordsFrom number before, some (number + before.length)⟩ := by
  induction before generalizing number with
  | nil =>
    rw [List.nil_append, readRecords]
    cases hdecode : Utf8.decode line with
    | error fault => rfl
    | ok chars => exact absurd ⟨chars, Utf8.decode_eq_ok.1 hdecode⟩ hline
  | cons first before ih =>
    obtain ⟨hfirst, hbefore⟩ := List.forall_mem_cons.1 hbefore
    have hnumber : number + 1 + before.length = number + (before.length + 1) := by omega
    rw [List.cons_append, readRecords_cons hfirst, ih hbefore, recordsFrom_cons, List.length_cons,
      hnumber]

/-- All lines are text, or there is a first that is not. -/
theorem text_or_spoiled (lines : List Bytes) :
    (∀ line ∈ lines, IsText line) ∨
    ∃ before line rest, lines = before ++ line :: rest ∧ (∀ line ∈ before, IsText line) ∧
      ¬ IsText line := by
  induction lines with
  | nil => exact .inl (List.forall_mem_nil _)
  | cons line rest ih =>
    by_cases hline : IsText line
    · rcases ih with hrest | ⟨before, bad, rest, rfl, hbefore, hbad⟩
      · exact .inl (List.forall_mem_cons.2 ⟨hline, hrest⟩)
      · refine .inr ⟨line :: before, bad, rest, rfl, ?_, hbad⟩
        exact List.forall_mem_cons.2 ⟨hline, hbefore⟩
    · exact .inr ⟨[], line, rest, rfl, List.forall_mem_nil _, hline⟩

/-! ## Events -/

/-- The text of a value neither holds a line feed nor ends in a carriage return. -/
theorem lines_toJson (v : Value) {rest : Bytes} {lines : List Bytes} (h : Lines rest lines) :
    Lines (v.toJson ++ ascii '\n' :: rest) (v.toJson :: lines) := by
  -- A printed value has no control characters, so nothing in it ends the line.
  have hcontrol : ∀ b ∈ v.toJson, b ≠ ascii '\n' ∧ b ≠ ascii '\r' := by
    intro b hb
    have hvisible := Value.le_of_mem_toJson hb
    constructor
    · rintro rfl
      exact absurd hvisible (by decide)
    · rintro rfl
      exact absurd hvisible (by decide)
  refine .feed ?_ ?_ h
  · intro hmem
    exact (hcontrol _ hmem).1 rfl
  · intro hlast
    exact (hcontrol _ (List.mem_of_getLast? hlast)).2 rfl

/-- The events that are written for records, in order. -/
def written (records : List Record) : List Fields := records.filterMap Record.event?

theorem output_eq (records : List Record) :
    output records = (written records).flatMap outputLine := by
  unfold output written
  rw [List.flatMap_def, List.map_filterMap]

/-- The lines of what is written: one for each event, its text. -/
theorem splitLines_output (records : List Record) :
    splitLines (output records) =
      (written records).map fun event => (Value.object event).toJson := by
  rw [output_eq]
  refine Lines.splitLines_eq ?_
  induction written records with
  | nil => exact .nil
  | cons event events ih =>
    rw [List.flatMap_cons, List.map_cons]
    unfold outputLine at ih ⊢
    rw [List.append_assoc]
    exact lines_toJson (.object event) ih

/-- Every record is written or counted as failed. -/
theorem written_add_failures (records : List Record) :
    (written records).length + failures records = records.length := by
  unfold written failures
  rw [List.length_filterMap_eq_countP,
    List.length_eq_countP_add_countP (fun r : Record => r.event?.isSome) (l := records)]
  congr 2
  funext r
  cases r.event? <;> rfl

end EventSandbox.Cli
