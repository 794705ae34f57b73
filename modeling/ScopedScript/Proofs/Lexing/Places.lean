import Mathlib.Data.List.DropRight
import ScopedScript.Proofs.Lexing.Munch

/-!
# Places in a source

A place is counted in lines and characters, while a source is held in bytes. A reader keeps only
byte offsets: that of what is left to read, and that of the start of its line, which it moves on at
a line feed, behind a comment and behind a text in quotes. The column comes from a look at the
source between the two. This finds the same tokens at the same places as a cursor, which counts
every character, however often it is asked and whatever it found before.
-/

namespace ScopedScript

namespace Text

/-! ## Lines -/

/-- All lines but the last, with the line feeds that end them. -/
def lines (text : List Char) : List Char := text.rdropWhile (· ≠ '\n')

/-- The last line, up to the end of the text. -/
def lastLine (text : List Char) : List Char := text.rtakeWhile (· ≠ '\n')

section Lines

variable {before text : List Char}

theorem lines_append_lastLine (text : List Char) : lines text ++ lastLine text = text :=
  List.rdropWhile_append_rtakeWhile

theorem forall_mem_reverse (h : '\n' ∉ text) : ∀ c ∈ text.reverse, decide (c ≠ '\n') := by
  intro c hc
  rw [decide_eq_true_eq]
  rintro rfl
  exact h (List.mem_reverse.mp hc)

/-- A text without line feeds leaves the lines before it as they are. -/
theorem lines_append_of_not_mem (h : '\n' ∉ text) : lines (before ++ text) = lines before := by
  rw [lines, List.rdropWhile, List.reverse_append,
    List.dropWhile_append_of_pos (forall_mem_reverse h)]
  rfl

/-- A text with line feeds ends all lines before it. -/
theorem lines_append_of_mem (h : '\n' ∈ text) : lines (before ++ text) = before ++ lines text := by
  have hne : (text.reverse.dropWhile (· ≠ '\n')).isEmpty = false := by
    rw [List.isEmpty_eq_false_iff, Ne, List.dropWhile_eq_nil_iff]
    intro hall
    exact absurd (hall '\n' (List.mem_reverse.mpr h)) (by decide)
  rw [lines, List.rdropWhile, List.reverse_append, List.dropWhile_append, hne]
  simp [lines, List.rdropWhile]

theorem lastLine_append_of_not_mem (h : '\n' ∉ text) :
    lastLine (before ++ text) = lastLine before ++ text := by
  have hsplit := lines_append_lastLine (before ++ text)
  rw [lines_append_of_not_mem h] at hsplit
  have hwhole : lines before ++ (lastLine before ++ text) = before ++ text := by
    rw [← List.append_assoc, lines_append_lastLine]
  exact List.append_cancel_left (hsplit.trans hwhole.symm)

end Lines

/-! ## Bytes -/

/-- The number of bytes of a text. -/
def bytes (text : List Char) : Nat := (String.ofList text).utf8ByteSize

@[simp] theorem bytes_nil : bytes [] = 0 := rfl

@[simp] theorem bytes_cons (c : Char) (text : List Char) :
    bytes (c :: text) = c.utf8Size + bytes text := by
  simp [bytes, String.ofList_cons]

@[simp] theorem bytes_append (text rest : List Char) :
    bytes (text ++ rest) = bytes text + bytes rest := by
  simp [bytes, String.ofList_append, String.utf8ByteSize_append]

/-- The byte offset of the last line feed. -/
def lastFeed? : List Char → Option Nat
  | [] => none
  | c :: rest =>
    match lastFeed? rest with
    | some offset => some (c.utf8Size + offset)
    | none => if c = '\n' then some 0 else none

/-- The characters between two byte offsets, if these stand between characters and in this
order. -/
def between? (text : String) (first last : Nat) : Option String :=
  if h : String.Pos.Raw.IsValid text ⟨first⟩ ∧ String.Pos.Raw.IsValid text ⟨last⟩ then
    (text.slice? (text.pos ⟨first⟩ h.1) (text.pos ⟨last⟩ h.2)).map String.Slice.copy
  else none

theorem lastFeed?_eq_none_iff {text : List Char} : lastFeed? text = none ↔ '\n' ∉ text := by
  induction text with
  | nil => simp [lastFeed?]
  | cons c rest ih =>
    rw [lastFeed?, List.mem_cons, not_or, ← ih]
    cases lastFeed? rest with
    | none => simp [eq_comm]
    | some offset => simp

theorem mem_of_lastFeed? {text : List Char} {offset : Nat} (h : lastFeed? text = some offset) :
    '\n' ∈ text := by
  by_contra hnot
  rw [lastFeed?_eq_none_iff.mpr hnot] at h
  cases h

/-- The last line starts behind the last line feed. -/
theorem bytes_lines {text : List Char} {offset : Nat} (h : lastFeed? text = some offset) :
    bytes (lines text) = offset + 1 := by
  induction text generalizing offset with
  | nil => cases h
  | cons c rest ih =>
    rw [lastFeed?] at h
    cases hrest : lastFeed? rest with
    | some inner =>
      rw [hrest] at h
      obtain rfl := Option.some.inj h
      rw [← List.singleton_append, lines_append_of_mem (mem_of_lastFeed? hrest), bytes_append,
        ih hrest]
      simp [Nat.add_assoc]
    | none =>
      have hnot := lastFeed?_eq_none_iff.mp hrest
      simp only [hrest] at h
      split at h
      next hc =>
        cases h
        subst hc
        rw [← List.singleton_append, lines_append_of_not_mem hnot]
        rfl
      next => cases h

theorem isValid_bytes {text : String} {before rest : List Char}
    (h : text.toList = before ++ rest) : String.Pos.Raw.IsValid text ⟨bytes before⟩ := by
  refine String.Pos.Raw.isValid_iff_exists_append.mpr
    ⟨String.ofList before, String.ofList rest, ?_, rfl⟩
  rw [← String.ofList_append, ← h, String.ofList_toList]

/-- What stands between the offsets of two places is found. -/
theorem between?_eq {text : String} {before piece rest : List Char}
    (h : text.toList = before ++ (piece ++ rest)) :
    between? text (bytes before) (bytes (before ++ piece)) = some (String.ofList piece) := by
  have hfirst := isValid_bytes h
  have hlast : String.Pos.Raw.IsValid text ⟨bytes (before ++ piece)⟩ :=
    isValid_bytes (h.trans (List.append_assoc _ _ _).symm)
  have hle : text.pos _ hfirst ≤ text.pos _ hlast := by
    rw [String.Pos.le_iff, String.Pos.Raw.le_iff]
    simp
  have htext : text = String.ofList before ++ (String.ofList piece ++ String.ofList rest) := by
    rw [← String.ofList_append, ← String.ofList_append, ← h, String.ofList_toList]
  rw [between?, dif_pos ⟨hfirst, hlast⟩, String.slice?, dif_pos hle, Option.map_some]
  refine congrArg some ?_
  rw [← String.toByteArray_inj, String.toByteArray_copy_slice]
  change text.toByteArray.extract (bytes before) (bytes (before ++ piece)) = _
  rw [htext, String.toByteArray_append, String.toByteArray_append, bytes_append]
  calc
    _ = ((String.ofList piece).toByteArray ++ (String.ofList rest).toByteArray).extract 0
        (bytes piece) := ByteArray.extract_append_size_add' rfl
    _ = (String.ofList piece).toByteArray := ByteArray.extract_append_eq_left rfl

end Text

/-! ## Places -/

namespace Position

/-- The place behind a text: a line for every line feed, and a column for every character behind
the last of them. -/
def behind (text : List Char) : Position :=
  ⟨1 + text.count '\n', 1 + (Text.lastLine text).length⟩

/-- Counting every character of a text leads to the place behind it. -/
theorem advanceBy_start (text : List Char) : start.advanceBy text = behind text := by
  induction text using List.reverseRecOn with
  | nil => rfl
  | append_singleton text c ih =>
    rw [advanceBy_append, ih, advanceBy_cons, advanceBy_nil, advance]
    split
    next hc =>
      subst hc
      simp [behind, Text.lastLine, Nat.add_assoc]
    next hc =>
      have hnot : '\n' ∉ [c] := by simpa [eq_comm] using hc
      simp [behind, Text.lastLine_append_of_not_mem hnot, hc, Nat.add_assoc]

end Position

/-! ## Readers -/

/-- A place in a source, in bytes. -/
structure Reader (source : String) where
  rest : List Char
  offset : Nat
  line : Nat
  /-- Where the line starts in the source. -/
  lineStart : Nat

namespace Reader

variable {source : String}

/-- The place before a source. -/
def start (source : String) : Reader source := ⟨source.toList, 0, 1, 0⟩

/-- The place behind a text, still on the line of the place before it. -/
def move (reader : Reader source) (text rest : List Char) : Reader source :=
  { reader with rest := rest, offset := reader.offset + Text.bytes text }

/-- A text from an offset on counts as its line feeds do, and the line starts behind the last of
them. -/
def feed (reader : Reader source) (first : Nat) (text : List Char) : Reader source :=
  match Text.lastFeed? text with
  | some offset =>
    { reader with line := reader.line + text.count '\n', lineStart := first + offset + 1 }
  | none => reader

/-- The place behind a blank or a comment. -/
def pass (reader : Reader source) (item rest : List Char) : Reader source :=
  let after := reader.move item rest
  match item with
  | ['\n'] => { after with line := after.line + 1, lineStart := after.offset }
  | '/' :: _ => after.feed reader.offset item
  | _ => after

/-- The place behind the blanks and comments ahead. There are no more of them than characters
ahead. -/
def skipItems : List Char → Reader source → Reader source
  | [], reader => reader
  | _ :: ahead, reader =>
    match Lexer.gapItem? reader.rest with
    | none => reader
    | some (item, rest) => skipItems ahead (reader.pass item rest)

/-- The place behind the blanks and comments ahead. -/
def skip (reader : Reader source) : Reader source := skipItems reader.rest reader

/-- The offset that is reported: behind the last character that of the end of the source. -/
def target (reader : Reader source) : Nat :=
  if reader.rest.isEmpty then source.utf8ByteSize else reader.offset

/-- The line up to the offset that is reported, if the source has it. -/
def line? (reader : Reader source) : Option String :=
  Text.between? source reader.lineStart reader.target

/-- The line and the column that are reported. -/
def position (reader : Reader source) : Position :=
  ⟨reader.line, reader.line?.elim 0 String.length + 1⟩

/-- The token or the fault found next, and the place behind it. The place is taken before a text in
quotes moves the line on. -/
def next (reader : Reader source) : Except (Diagnostic LexFault) Token × Reader source :=
  let reader := reader.skip
  let position := reader.position
  match Lexer.lexeme? reader.rest with
  | none => (.ok ⟨.endOfInput, "", position⟩, reader)
  | some lexeme =>
    let after := reader.move lexeme.text lexeme.rest
    match lexeme.kind with
    | .ok (.literal (.str s)) =>
      (.ok ⟨.literal (.str s), String.ofList lexeme.text, position⟩,
        after.feed reader.offset lexeme.text)
    | .ok kind => (.ok ⟨kind, String.ofList lexeme.text, position⟩, after)
    | .error fault => (.error ⟨fault, position⟩, after)

/-- The place after some calls, whatever they found. -/
def afterCalls (source : String) (calls : Nat) : Reader source :=
  (fun reader => reader.next.2)^[calls] (start source)

/-! ## What a reader has behind it -/

/-- The text that a reader has behind it. -/
structure StandsBehind (reader : Reader source) (before : List Char) : Prop where
  source_eq : source.toList = before ++ reader.rest
  offset_eq : reader.offset = Text.bytes before
  line_eq : reader.line = 1 + before.count '\n'
  /-- The line starts behind the last line feed. -/
  lineStart_eq : reader.lineStart = Text.bytes (Text.lines before)

section Steps

variable {reader : Reader source} {before text rest : List Char}

theorem standsBehind_start (source : String) : (start source).StandsBehind [] :=
  ⟨rfl, rfl, rfl, rfl⟩

theorem feed_of_not_mem (first : Nat) (h : '\n' ∉ text) : reader.feed first text = reader := by
  rw [feed, Text.lastFeed?_eq_none_iff.mpr h]

@[simp] theorem feed_rest (first : Nat) (text : List Char) :
    (reader.feed first text).rest = reader.rest := by
  unfold feed
  split <;> rfl

/-- Behind a text the line is moved on by its line feeds. -/
theorem StandsBehind.feed (h : reader.StandsBehind before) (hrest : reader.rest = text ++ rest) :
    ((reader.move text rest).feed reader.offset text).StandsBehind (before ++ text) := by
  have hsource : source.toList = before ++ text ++ rest := by
    rw [h.source_eq, hrest, List.append_assoc]
  have hoffset : reader.offset + Text.bytes text = Text.bytes (before ++ text) := by
    rw [h.offset_eq, Text.bytes_append]
  rw [Reader.feed]
  cases hfeed : Text.lastFeed? text with
  | none =>
    have hnot := Text.lastFeed?_eq_none_iff.mp hfeed
    refine ⟨hsource, hoffset, ?_, ?_⟩
    · rw [List.count_append, List.count_eq_zero.mpr hnot]
      exact h.line_eq
    · rw [Text.lines_append_of_not_mem hnot]
      exact h.lineStart_eq
  | some offset =>
    have hmem := Text.mem_of_lastFeed? hfeed
    refine ⟨hsource, hoffset, ?_, ?_⟩
    · rw [List.count_append, ← Nat.add_assoc, ← h.line_eq]
      rfl
    · rw [Text.lines_append_of_mem hmem, Text.bytes_append, Text.bytes_lines hfeed, ← h.offset_eq]
      rfl

/-- A blank or a comment moves the line on by its line feeds. -/
theorem pass_eq {item : List Char} (h : Lexer.gapItem? text = some (item, rest)) :
    reader.pass item rest = (reader.move item rest).feed reader.offset item := by
  unfold Lexer.gapItem? at h
  split at h
  next tail =>
    obtain ⟨⟨closed, after⟩, _, heq⟩ := Option.map_eq_some_iff.mp h
    cases heq
    rfl
  next c tail hcomment =>
    split at h
    next hgap =>
      cases h
      by_cases hc : c = '\n'
      · subst hc
        rfl
      · rw [feed_of_not_mem _ (by simpa [eq_comm] using hc), pass]
        · exact fun heq => hc (List.cons.inj heq).1
        · intro tail heq
          cases heq
          exact absurd hgap (by decide)
    next => cases h
  next => cases h

theorem StandsBehind.skip (h : reader.StandsBehind before) :
    reader.skip.StandsBehind (before ++ (Lexer.gap reader.rest).1) ∧
      reader.skip.rest = (Lexer.gap reader.rest).2 := by
  suffices ∀ (ahead before : List Char) (reader : Reader source), reader.StandsBehind before →
      (skipItems ahead reader).StandsBehind
          (before ++ (Lexer.gapItems ahead reader.rest).1) ∧
        (skipItems ahead reader).rest = (Lexer.gapItems ahead reader.rest).2 from
    this _ _ _ h
  intro ahead
  induction ahead with
  | nil =>
    intro before reader h
    rw [Lexer.gapItems, List.append_nil]
    exact ⟨h, rfl⟩
  | cons _ ahead ih =>
    intro before reader h
    unfold skipItems Lexer.gapItems
    cases hitem : Lexer.gapItem? reader.rest with
    | none =>
      rw [List.append_nil]
      exact ⟨h, rfl⟩
    | some found =>
      obtain ⟨item, rest⟩ := found
      have hpass := h.feed (Lexer.gapItem?_append hitem).symm
      rw [← pass_eq hitem] at hpass
      have hrest : (reader.pass item rest).rest = rest := by
        rw [pass_eq hitem, feed_rest]
        rfl
      obtain ⟨hskip, hskiprest⟩ := ih _ _ hpass
      rw [hrest, List.append_assoc] at hskip
      rw [hrest] at hskiprest
      exact ⟨hskip, hskiprest⟩

/-- The line up to the reported offset is found, and it is the last line behind the reader. -/
theorem StandsBehind.line?_eq (h : reader.StandsBehind before) :
    reader.line? = some (String.ofList (Text.lastLine before)) := by
  have htarget : reader.target = Text.bytes before := by
    rw [target]
    split
    next hempty =>
      have hsource := h.source_eq
      rw [List.isEmpty_iff.mp hempty, List.append_nil] at hsource
      rw [Text.bytes, ← hsource, String.ofList_toList]
    next => exact h.offset_eq
  have hsource := h.source_eq
  rw [← Text.lines_append_lastLine before, List.append_assoc] at hsource
  have hbetween := Text.between?_eq hsource
  rwa [Text.lines_append_lastLine, ← h.lineStart_eq, ← htarget] at hbetween

theorem StandsBehind.position_eq (h : reader.StandsBehind before) :
    reader.position = Position.behind before := by
  rw [position, h.line?_eq, h.line_eq, Position.behind, Nat.add_comm _ 1]
  simp

end Steps

end Reader

namespace Lexer

/-- What is read as anything but a text in quotes holds no line feed. -/
theorem not_mem_of_lexeme? {text : List Char} {lexeme : Lexeme} (hgap : gapItem? text = none)
    (h : lexeme? text = some lexeme) (hkind : ∀ s, lexeme.kind ≠ .ok (.literal (.str s))) :
    '\n' ∉ lexeme.text := by
  have hall : ∀ {p : Char → Bool} {piece : List Char}, p '\n' = false → piece.all p →
      '\n' ∉ piece := by
    intro p piece hp hpiece hmem
    rw [List.all_eq_true.mp hpiece _ hmem] at hp
    cases hp
  cases reads_of_lexeme? h with
  | string rest =>
    unfold string at hkind ⊢
    split
    next inside after hclose =>
      simp only [hclose] at hkind
      exact absurd rfl (hkind _)
    next => simp
  | openComment rest => simp
  | number rest hdigit =>
    unfold number
    split
    next =>
      rw [List.mem_append, List.mem_cons, not_or, not_or]
      exact ⟨hall (by decide) List.all_takeWhile, by decide,
        hall (by decide) List.all_takeWhile⟩
    next => exact hall (by decide) List.all_takeWhile
  | word rest hname => exact hall (by decide) List.all_takeWhile
  | @sign c rest =>
    unfold sign
    split
    next found _ =>
      have hspelling : ∀ sign : Mark, '\n' ∉ sign.spelling.toList := by
        intro sign
        cases sign <;> decide
      exact hspelling found
    next =>
      have hc : c ≠ '\n' := by
        rintro rfl
        cases hgap
      simpa [eq_comm] using hc

end Lexer

/-! ## Readers and cursors -/

namespace Reader

variable {source : String}

/-- Whatever is found, its line feeds are counted behind it. -/
theorem next_of_lexeme? {reader : Reader source} {lexeme : Lexer.Lexeme}
    (hgap : Lexer.gapItem? reader.skip.rest = none)
    (hlexeme : Lexer.lexeme? reader.skip.rest = some lexeme) :
    reader.next =
      (match lexeme.kind with
        | .ok kind => .ok ⟨kind, String.ofList lexeme.text, reader.skip.position⟩
        | .error fault => .error ⟨fault, reader.skip.position⟩,
        (reader.skip.move lexeme.text lexeme.rest).feed reader.skip.offset lexeme.text) := by
  have hfree := Lexer.not_mem_of_lexeme? hgap hlexeme
  simp only [next, hlexeme]
  split
  next s hkind => rw [hkind]
  next kind hstring hkind =>
    rw [hkind] at hfree ⊢
    rw [feed_of_not_mem _ (hfree fun s heq => hstring s (Except.ok.inj heq))]
  next fault hkind =>
    rw [hkind] at hfree ⊢
    rw [feed_of_not_mem _ (hfree fun _ heq => by cases heq)]

/-- A reader and a cursor stand at the same place. -/
def Follows (reader : Reader source) (cursor : Cursor) : Prop :=
  ∃ before, reader.StandsBehind before ∧ cursor = ⟨reader.rest, Position.behind before⟩

/-- A reader and a cursor that stand at the same place find the same, and go on to the same
place. -/
theorem Follows.next {reader : Reader source} {cursor : Cursor} (h : reader.Follows cursor) :
    reader.next.1 = cursor.next.1 ∧ reader.next.2.Follows cursor.next.2 := by
  obtain ⟨before, hstands, rfl⟩ := h
  obtain ⟨hskip, hrest⟩ := hstands.skip
  have hposition : Position.advanceBy (Position.behind before) (Lexer.gap reader.rest).1 =
      reader.skip.position := by
    rw [hskip.position_eq, ← Position.advanceBy_start, ← Position.advanceBy_start,
      Position.advanceBy_append]
  cases hlexeme : Lexer.lexeme? (Lexer.gap reader.rest).2 with
  | none =>
    simp only [Reader.next, Cursor.next, hrest, hlexeme, hposition]
    refine ⟨trivial, _, hskip, ?_⟩
    rw [hrest, hskip.position_eq]
  | some lexeme =>
    have htext : reader.skip.rest = lexeme.text ++ lexeme.rest := by
      rw [hrest, Lexer.lexeme?_append hlexeme]
    have hgap : Lexer.gapItem? reader.skip.rest = none := by rw [hrest, Lexer.gapItem?_gap]
    rw [next_of_lexeme? hgap (by rw [hrest, hlexeme])]
    refine ⟨?_, _, hskip.feed htext, ?_⟩
    · cases hkind : lexeme.kind <;> simp only [Cursor.next, hlexeme, hkind, hposition]
    · simp only [Cursor.next, hlexeme, hposition]
      rw [feed_rest, hskip.position_eq, ← Position.advanceBy_start, ← Position.advanceBy_start,
        ← Position.advanceBy_append]
      rfl

end Reader

/-! ## Findings -/

/-- The text of a fault. -/
def LexFault.text : LexFault → List Char
  | unexpectedCharacter c => [c]
  | unterminatedString => ['"']
  | unterminatedComment => ['/', '*']
  | integerTooLarge literal | floatTooLarge literal => literal.toList

/-- The text that a token or a fault was read from. -/
def foundText : Except (Diagnostic LexFault) Token → List Char
  | .ok token => token.literal.toList
  | .error fault => fault.cause.text

/-- The place that a token or a fault is reported at. -/
def foundPosition : Except (Diagnostic LexFault) Token → Position
  | .ok token => token.position
  | .error fault => fault.position

namespace Lexer

theorem text_fault_of_digits {digits : List Char} (h : digits.all Char.isDigit) :
    (fault digits).text = digits := by
  rw [fault_of_digits h]
  exact String.toList_ofList

theorem text_fault_of_point {whole fraction : List Char} (hwhole : whole.all Char.isDigit)
    (hfraction : fraction.all Char.isDigit) :
    (fault (whole ++ '.' :: fraction)).text = whole ++ '.' :: fraction := by
  rw [fault_of_point hwhole hfraction]
  exact String.toList_ofList

theorem text_fault_of_character (c : Char) : (fault [c]).text = [c] := by
  unfold fault
  split_ifs
  · exact String.toList_ofList
  · exact String.toList_ofList
  · rfl

/-- A fault names the text it was read from. -/
theorem text_of_lexeme? {text : List Char} {lexeme : Lexeme} {fault : LexFault}
    (h : lexeme? text = some lexeme) (hkind : lexeme.kind = .error fault) :
    fault.text = lexeme.text := by
  cases reads_of_lexeme? h with
  | string rest =>
    unfold string at hkind ⊢
    split at hkind <;> cases hkind
    rfl
  | openComment rest =>
    cases hkind
    rfl
  | number rest hdigit =>
    unfold number at hkind ⊢
    split at hkind
    all_goals
      dsimp only at hkind ⊢
      split at hkind <;> cases hkind
    · exact text_fault_of_point List.all_takeWhile List.all_takeWhile
    · exact text_fault_of_digits List.all_takeWhile
  | word rest hname => cases hkind
  | @sign c rest =>
    unfold sign at hkind ⊢
    split at hkind
    next => cases hkind
    next =>
      cases hkind
      exact text_fault_of_character c

end Lexer

namespace Cursor

/-- The place after some calls, whatever they found. -/
def afterCalls (source : String) (calls : Nat) : Cursor :=
  (fun cursor => cursor.next.2)^[calls] (start source)

/-- What a call at a cursor finds: behind the text before the cursor and a gap, the text of a token
or a fault, which is reported at its start. -/
structure FindsAt (source : String) (cursor : Cursor) (before gap : List Char) : Prop where
  source_eq : source.toList = before ++ cursor.rest
  isGap : IsGap gap
  /-- The text that is found follows, and reading goes on behind it. -/
  rest_eq : cursor.rest = gap ++ (foundText cursor.next.1 ++ cursor.next.2.rest)
  /-- It is reported at the place of its first character. -/
  position_eq : foundPosition cursor.next.1 = Position.behind (before ++ gap)
  eq_of_end : ∀ token, cursor.next.1 = .ok token → token.kind = .endOfInput →
    before ++ gap = source.toList

theorem findsAt {source : String} {cursor : Cursor} {before : List Char}
    (hsource : source.toList = before ++ cursor.rest)
    (hposition : cursor.position = Position.behind before) :
    ∃ gap, cursor.FindsAt source before gap := by
  have happend := Lexer.gap_append cursor.rest
  have hplace : cursor.position.advanceBy (Lexer.gap cursor.rest).1 =
      Position.behind (before ++ (Lexer.gap cursor.rest).1) := by
    rw [hposition, ← Position.advanceBy_start, ← Position.advanceBy_start,
      Position.advanceBy_append]
  have hgap := Lexer.isGap_gap cursor.rest
  cases hlexeme : Lexer.lexeme? (Lexer.gap cursor.rest).2 with
  | none =>
    have hnext : cursor.next = (.ok ⟨.endOfInput, "", cursor.position.advanceBy
        (Lexer.gap cursor.rest).1⟩, ⟨(Lexer.gap cursor.rest).2, cursor.position.advanceBy
        (Lexer.gap cursor.rest).1⟩) := by
      simp only [next, hlexeme]
    have hend := Lexer.eq_nil_of_lexeme?_eq_none hlexeme
    refine ⟨_, hsource, hgap, ?_, ?_, ?_⟩
    · rw [hnext]
      exact happend.symm
    · rw [hnext]
      exact hplace
    · rw [hend, List.append_nil] at happend
      rw [happend]
      exact fun _ _ _ => hsource.symm
  | some lexeme =>
    have htext := Lexer.lexeme?_append hlexeme
    have hrest : cursor.next.2.rest = lexeme.rest := by simp only [next, hlexeme]
    cases hkind : lexeme.kind with
    | ok kind =>
      have hfound : cursor.next.1 = .ok ⟨kind, String.ofList lexeme.text,
          cursor.position.advanceBy (Lexer.gap cursor.rest).1⟩ := by
        simp only [next, hlexeme, hkind]
      have htoken := (Lexer.isLongest_of_lexeme? (Lexer.gapItem?_gap _) hlexeme hkind).2
      refine ⟨_, hsource, hgap, ?_, ?_, ?_⟩
      · rw [hfound, hrest, foundText, String.toList_ofList, htext, happend]
      · rw [hfound]
        exact hplace
      · rw [hfound]
        intro _ heq hend
        cases heq
        exact absurd hend htoken.ne_endOfInput
    | error fault =>
      have hfound : cursor.next.1 =
          .error ⟨fault, cursor.position.advanceBy (Lexer.gap cursor.rest).1⟩ := by
        simp only [next, hlexeme, hkind]
      refine ⟨_, hsource, hgap, ?_, ?_, ?_⟩
      · rw [hfound, hrest, foundText, Lexer.text_of_lexeme? hlexeme hkind, htext, happend]
      · rw [hfound]
        exact hplace
      · rw [hfound]
        intro _ htoken
        cases htoken

end Cursor

/-- A reader follows a cursor through all calls. -/
theorem Reader.follows_afterCalls (source : String) (calls : Nat) :
    (afterCalls source calls).Follows (Cursor.afterCalls source calls) := by
  induction calls with
  | zero => exact ⟨[], standsBehind_start source, rfl⟩
  | succ calls ih =>
    rw [afterCalls, Cursor.afterCalls, Function.iterate_succ_apply', Function.iterate_succ_apply']
    exact ih.next.2

/-- However often tokens are asked for, and whatever was found before, a token or a fault is
reported at the line and the column of the first character of its text, and the line that the
column is counted on is found in the source. -/
theorem positions_exact (source : String) (calls : Nat) :
    (Reader.afterCalls source calls).next.1 = (Cursor.afterCalls source calls).next.1 ∧
      (Reader.afterCalls source calls).skip.line?.isSome ∧
        ∃ before gap, (Cursor.afterCalls source calls).FindsAt source before gap := by
  have hfollows := Reader.follows_afterCalls source calls
  refine ⟨hfollows.next.1, ?_, ?_⟩
  · obtain ⟨before, hstands, _⟩ := hfollows
    rw [hstands.skip.1.line?_eq]
    rfl
  · obtain ⟨before, hstands, hcursor⟩ := hfollows
    refine ⟨before, Cursor.findsAt ?_ ?_⟩
    · rw [hcursor]
      exact hstands.source_eq
    · rw [hcursor]

example : (Reader.afterCalls "\"ä\n€\" § \"" 1).next.1 =
    .error ⟨.unexpectedCharacter '§', ⟨2, 4⟩⟩ := by decide +kernel

end ScopedScript
