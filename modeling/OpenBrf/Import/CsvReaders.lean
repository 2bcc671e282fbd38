import OpenBrf.Import.CsvRoundTrip

/-!
# Import.CsvReaders — a written file under the separator a spreadsheet chose

A reader with the writer's own separator finds the cells again.  One that splits on commas or tabs
takes a row of several cells as one field: the quote of its later cells stands within the field, so
it is a character like any other, and quotes nothing.
-/

namespace OpenBrf.Import

open Lang

/-- The text behind the byte order mark. -/
def textOf (input : String) : List Char :=
  match input.toList with
  | c :: rest => if c = BYTE_ORDER_MARK then rest else c :: rest
  | [] => []

/-- The records of a document as the reader keeps them, neither trimmed nor filled up: one of blank
cells alone is no record. -/
def readRows (separator : CsvDelimiter) (input : String) :
    Except ImportShapeError (List (List String)) := do
  let st ← parseLoop none separator.char false (textOf input) {}
  if st.quoted then
    .error ⟨"The quoted cell opened on line " ++ toString st.quoteLine ++ " is never closed.",
      .unterminatedQuote⟩
  else
    let st ← if st.cell ≠ [] ∨ st.row ≠ [] then endRow none st else .ok st
    return st.populated

/-- A field a spreadsheet shows rather than runs. -/
def Shown (field : String) : Prop :=
  isPlainNumber field.toList = true ∨ isFormulaLead field.toList = false

instance (field : String) : Decidable (Shown field) := instDecidableOr

theorem toList_neutralise (cell : String) : (neutralise cell).toList = cell.toList ∨
    (neutralise cell).toList = '\'' :: cell.toList := by
  unfold neutralise
  by_cases h : isFormulaLead cell.toList = false ∨ isPlainNumber cell.toList = true
  · exact .inl (by rw [if_pos h])
  · refine .inr ?_
    rw [if_neg h, String.toList_append]
    rfl

theorem shown_neutralise (cell : String) : Shown (neutralise cell) := by
  unfold Shown neutralise
  by_cases h : isFormulaLead cell.toList = false ∨ isPlainNumber cell.toList = true
  · rw [if_pos h]
    exact h.symm
  · rw [if_neg h, String.toList_append]
    exact .inr rfl

theorem shown_cellsOf {row : List String} {field : String} (h : field ∈ cellsOf row) :
    Shown field := by
  unfold cellsOf at h
  by_cases hrow : row = []
  · rw [if_pos hrow, List.mem_singleton] at h
    subst h
    exact .inr rfl
  · rw [if_neg hrow] at h
    obtain ⟨cell, -, rfl⟩ := List.mem_map.mp h
    exact shown_neutralise cell

/-! ### A row under another separator -/

/-- The one field of a row of several cells, or the cells of a row that is no wider. -/
def joinedCells : List String → List String
  | cell :: next :: row =>
    [String.ofList ((neutralise cell).toList ++ ';' :: writeRow (next :: row))]
  | row => cellsOf row

/-- What the reader would split a cell on. -/
def isCut (separator : Char) (c : Char) : Bool := c = separator || c = '\n' || c = '\r'

/-- No cell but the first of its row is split. -/
def Whole (separator : Char) (row : List String) : Prop :=
  ∀ cell ∈ row.tail, ∀ c ∈ cell.toList, isCut separator c = false

theorem mem_quoteCell {value : List Char} {c : Char} (h : c ∈ quoteCell value) :
    c = '"' ∨ c ∈ value := by
  unfold quoteCell doubleQuotes at h
  by_cases hspecial : value.any isSpecial = true
  · rw [if_pos hspecial] at h
    simp only [List.cons_append, List.mem_cons, List.mem_append, List.mem_flatMap,
      List.not_mem_nil, or_false] at h
    rcases h with h | ⟨a, ha, h⟩ | h
    · exact .inl h
    · by_cases hquote : a = '"'
      · rw [if_pos hquote] at h
        exact .inl (by simpa using h)
      · rw [if_neg hquote, List.mem_singleton] at h
        exact .inr (h ▸ ha)
    · exact .inl h
  · rw [if_neg hspecial] at h
    exact .inr h

theorem mem_written {cell : String} {c : Char} (h : c ∈ quoteCell (neutralise cell).toList) :
    c = '"' ∨ c = '\'' ∨ c ∈ cell.toList := by
  rcases mem_quoteCell h with h | h
  · exact .inl h
  · rcases toList_neutralise cell with heq | heq <;> rw [heq] at h
    · exact .inr (.inr h)
    · exact .inr (List.mem_cons.mp h)

theorem mem_writeRow : ∀ {row : List String} {c : Char}, c ∈ writeRow row →
    c = ';' ∨ c = '"' ∨ c = '\'' ∨ ∃ cell ∈ row, c ∈ cell.toList
  | [], c, h => by
    rw [writeRow_nil] at h
    cases h
  | [cell], c, h => by
    rw [writeRow_singleton] at h
    rcases mem_written h with h | h | h
    · exact .inr (.inl h)
    · exact .inr (.inr (.inl h))
    · exact .inr (.inr (.inr ⟨cell, List.mem_cons_self, h⟩))
  | cell :: next :: row, c, h => by
    rw [writeRow_cons_cons, List.mem_append, List.mem_cons] at h
    rcases h with h | h | h
    · rcases mem_written h with h | h | h
      · exact .inr (.inl h)
      · exact .inr (.inr (.inl h))
      · exact .inr (.inr (.inr ⟨cell, List.mem_cons_self, h⟩))
    · exact .inl h
    · rcases mem_writeRow h with h | h | h | ⟨cell', hcell, h⟩
      · exact .inl h
      · exact .inr (.inl h)
      · exact .inr (.inr (.inl h))
      · exact .inr (.inr (.inr ⟨cell', List.mem_cons_of_mem _ hcell, h⟩))

/-- Where the later cells are whole, so is what is written of them. -/
theorem writeRow_whole {separator : Char} (hseparator : separator = ',' ∨ separator = '\t')
    {row : List String} (hwhole : ∀ cell ∈ row, ∀ c ∈ cell.toList, isCut separator c = false) :
    ∀ c ∈ writeRow row, isCut separator c = false := by
  intro c hc
  rcases mem_writeRow hc with rfl | rfl | rfl | ⟨cell, hcell, hmem⟩
  · rcases hseparator with rfl | rfl <;> decide
  · rcases hseparator with rfl | rfl <;> decide
  · rcases hseparator with rfl | rfl <;> decide
  · exact hwhole cell hcell c hmem

/-- A field with a character in it that is no white space is not blank. -/
theorem not_blank_of_mem {cell : List Char} {c : Char} (hmem : c ∈ cell)
    (hc : isWhiteSpace c = false) : isBlank (String.ofList cell) = false := by
  have hdrop : ∀ {l : List Char}, c ∈ l → c ∈ l.dropWhile isWhiteSpace := by
    intro l
    induction l with
    | nil => exact id
    | cons d l ih =>
      intro h
      rw [List.dropWhile_cons]
      by_cases hd : isWhiteSpace d = true
      · rw [if_pos hd]
        refine ih ((List.mem_cons.mp h).resolve_left ?_)
        rintro rfl
        rw [hc] at hd
        cases hd
      · rwa [if_neg hd]
  have hkept : c ∈ (trim (String.ofList cell)).toList := by
    unfold trim
    rw [String.toList_ofList, String.toList_ofList]
    exact List.mem_reverse.mpr (hdrop (List.mem_reverse.mpr (hdrop hmem)))
  refine decide_eq_false fun heq => ?_
  rw [heq] at hkept
  cases hkept

section Tokens

variable {separator : Char} {rest : List Char}

/-- Behind a semicolon a quote opens nothing, and the characters up to the cut are the field's. -/
theorem parseLoop_whole : ∀ {text : List Char} {st : ParseState},
    (∀ c ∈ text, isCut separator c = false) → st.quoted = false → ';' ∈ st.cell →
      parseLoop none separator false (text ++ rest) st =
        parseLoop none separator false rest { st with cell := st.cell ++ text }
  | [], st, _, _, _ => by simp
  | c :: text, st, h, hq, hcell => by
    obtain ⟨hc, htext⟩ := List.forall_mem_cons.mp h
    have hblank : isBlank (String.ofList st.cell) = false := not_blank_of_mem hcell (by decide)
    obtain ⟨hsep, hlf, hcr⟩ : c ≠ separator ∧ c ≠ '\n' ∧ c ≠ '\r' := by
      unfold isCut at hc
      simpa [and_assoc] using hc
    have ih : parseLoop none separator false (text ++ rest) { st with cell := st.cell ++ [c] } =
        _ := parseLoop_whole htext hq (List.mem_append_left _ hcell)
    rw [List.cons_append, parseLoop_cons, if_neg (by simp [hq]), if_neg (by simp [hblank]),
      if_neg hsep, if_neg (by simp [hlf, hcr]), ih]
    simp

end Tokens

/-! ### The records -/

section Records

variable {separator : Char}

/-- **A row of several cells** is read as one field. -/
theorem parseLoop_joined (hseparator : separator = ',' ∨ separator = '\t') (rest : List Char)
    (cell next : String) (row : List String) (hwhole : Whole separator (cell :: next :: row))
    (st : ParseState) (hq : st.quoted = false) (hcell : st.cell = []) (hrow : st.row = []) :
    ∃ st', Ended (joinedCells (cell :: next :: row)) st st' ∧
      parseLoop none separator false (writeRow (cell :: next :: row) ++ '\r' :: '\n' :: rest) st =
        parseLoop none separator false rest st' := by
  have hspecial : isSpecial separator = true := by
    rcases hseparator with rfl | rfl <;> decide
  have hsemicolon : ';' ≠ separator := by
    rcases hseparator with rfl | rfl <;> decide
  have hcr : '\r' ≠ separator := by
    rcases hseparator with rfl | rfl <;> decide
  have hlater : ∀ st : ParseState, st.quoted = false → ';' ∈ st.cell →
      parseLoop none separator false (writeRow (next :: row) ++ '\r' :: '\n' :: rest) st =
        parseLoop none separator false ('\r' :: '\n' :: rest)
          { st with cell := st.cell ++ writeRow (next :: row) } :=
    fun _ => parseLoop_whole (writeRow_whole hseparator hwhole)
  obtain ⟨line, quoteLine, hread⟩ : ∃ line quoteLine, parseLoop none separator false
      (quoteCell (neutralise cell).toList ++
        ';' :: (writeRow (next :: row) ++ '\r' :: '\n' :: rest)) st = _ :=
    parseLoop_quoteCell hspecial (by simp) _ hq hcell
  obtain ⟨st', hend, hended⟩ := endRow_none { st with
    cell := (neutralise cell).toList ++ ';' :: writeRow (next :: row)
    line := line + 1, quoteLine := quoteLine } hq
  refine ⟨st', ?_, ?_⟩
  · rw [hrow] at hended
    exact ⟨hended.quoted, hended.cell, hended.row, hended.records, hended.populated,
      hended.sourceRows⟩
  · rw [writeRow_cons_cons, List.append_assoc, List.cons_append, hread, parseLoop_cons,
      if_neg (by simp [hq]), if_neg (by simp), if_neg hsemicolon, if_neg (by simp),
      hlater]
    · rw [parseLoop_cons, if_neg (by simp [hq]), if_neg (by simp), if_neg hcr, if_pos (by simp)]
      simp only [List.append_assoc, List.cons_append, List.nil_append]
      rw [hend]
      rfl
    · exact hq
    · simp

/-- **A written row** under a separator that splits none of its later cells. -/
theorem parseLoop_row (hseparator : separator = ',' ∨ separator = '\t') (row : List String)
    (hwhole : Whole separator row) (rest : List Char) (st : ParseState) (hq : st.quoted = false)
    (hcell : st.cell = []) (hrow : st.row = []) :
    ∃ st', Ended (joinedCells row) st st' ∧
      parseLoop none separator false (writeRow row ++ '\r' :: '\n' :: rest) st =
        parseLoop none separator false rest st' := by
  match row with
  | [] => exact parseLoop_record (.inr hseparator) rest [] st (by simp) hq hcell hrow
  | [cell] => exact parseLoop_record (.inr hseparator) rest [cell] st (by simp) hq hcell hrow
  | cell :: next :: row =>
    exact parseLoop_joined hseparator rest cell next row hwhole st hq hcell hrow

end Records

theorem textOf_writeCsv (rows : List (List String)) :
    textOf (writeCsv rows) = linesOf (writtenRows rows) := by
  unfold textOf
  rw [toList_writeCsv]
  exact if_pos rfl

theorem readRows_of_read {separator : CsvDelimiter} {rows : List (List String)} {st : ParseState}
    (hread : parseLoop none separator.char false (linesOf (writtenRows rows)) {} = .ok st)
    (hclean : st.quoted = false ∧ st.cell = [] ∧ st.row = []) :
    readRows separator (writeCsv rows) = .ok st.populated := by
  obtain ⟨hq, hcell, hrow⟩ := hclean
  unfold readRows
  rw [textOf_writeCsv, hread]
  show (if st.quoted = true then _ else _) = _
  rw [hq, if_neg Bool.false_ne_true, hcell, hrow, if_neg (by simp)]
  rfl

/-- **Under the writer's own separator** the records are the written cells. -/
theorem readRows_semicolon (rows : List (List String)) :
    readRows .semicolon (writeCsv rows) =
      .ok (((writtenRows rows).map cellsOf).filter fun row => !row.all isBlank) := by
  obtain ⟨st, hread, hclean, hpopulated, -⟩ := parseLoop_records cellsOf (writtenRows rows) {}
    (fun row _ rest st hq hcell hrow =>
      parseLoop_record (.inl rfl) rest row st (fun _ => rfl) hq hcell hrow) rfl rfl rfl
  have hrows : readRows .semicolon (writeCsv rows) = .ok st.populated :=
    readRows_of_read hread hclean
  rw [hrows, hpopulated]
  rfl

/-- **Under another separator** each row of several cells is one field, as long as no later cell is
split. -/
theorem readRows_joined {separator : CsvDelimiter} (hother : separator ≠ .semicolon)
    {rows : List (List String)} (hwhole : ∀ row ∈ rows, Whole separator.char row) :
    readRows separator (writeCsv rows) =
      .ok (((writtenRows rows).map joinedCells).filter fun row => !row.all isBlank) := by
  have hseparator : separator.char = ',' ∨ separator.char = '\t' := by
    cases separator with
    | semicolon => exact absurd rfl hother
    | comma => exact .inl rfl
    | tab => exact .inr rfl
  have hwritten : ∀ row ∈ writtenRows rows, Whole separator.char row := by
    intro row hmem
    unfold writtenRows at hmem
    by_cases h : rows = []
    · rw [if_pos h, List.mem_singleton] at hmem
      subst hmem
      exact fun cell hcell => nomatch hcell
    · rw [if_neg h] at hmem
      exact hwhole row hmem
  obtain ⟨st, hread, hclean, hpopulated, -⟩ := parseLoop_records joinedCells (writtenRows rows) {}
    (fun row hmem => parseLoop_row hseparator row (hwritten row hmem)) rfl rfl rfl
  rw [readRows_of_read hread hclean, hpopulated]
  rfl

/-! ### What leads a field -/

/-- A row of several cells that begins with a number and its sign. -/
def opensSigned : List String → Bool
  | cell :: _ :: _ => isFormulaLead cell.toList && isPlainNumber cell.toList
  | _ => false

theorem isDigit_of_mem_takeWhile : ∀ {value : List Char} {c : Char},
    c ∈ value.takeWhile Char.isDigit → c.isDigit = true
  | [], _, h => nomatch h
  | d :: value, c, h => by
    rw [List.takeWhile_cons] at h
    by_cases hd : d.isDigit = true
    · rw [if_pos hd] at h
      rcases List.mem_cons.mp h with rfl | h
      · exact hd
      · exact isDigit_of_mem_takeWhile h
    · rw [if_neg hd] at h
      cases h

theorem no_semicolon_of_number {value : List Char} (h : isPlainNumber value = true) :
    ';' ∉ value := by
  unfold isPlainNumber at h
  extract_lets unsigned whole at h
  intro hmem
  -- a sign is no semicolon
  have hunsigned : ';' ∈ unsigned := by
    dsimp only [unsigned]
    split
    · exact (List.mem_cons.mp hmem).resolve_left (by decide)
    · exact (List.mem_cons.mp hmem).resolve_left (by decide)
    · exact hmem
  have hsplit : unsigned = whole ++ unsigned.drop whole.length :=
    (List.prefix_iff_eq_append.mp (List.takeWhile_prefix _)).symm
  rw [hsplit, List.mem_append] at hunsigned
  rcases hunsigned with hdigit | hrest
  · cases isDigit_of_mem_takeWhile hdigit
  · generalize unsigned.drop whole.length = rest at h hrest
    cases rest with
    | nil => cases hrest
    | cons point fraction =>
      simp only [Bool.and_eq_true, Bool.or_eq_true, decide_eq_true_eq] at h
      obtain ⟨-, ⟨hpoint, -⟩, hfraction⟩ := h
      rcases List.mem_cons.mp hrest with rfl | hmem
      · rcases hpoint with hpoint | hpoint <;> cases hpoint
      · cases List.all_eq_true.mp hfraction _ hmem

/-- What the writer leaves in front as a sign is the sign of a number. -/
theorem lead_neutralise {cell : String} (h : isFormulaLead (neutralise cell).toList = true) :
    neutralise cell = cell ∧ isFormulaLead cell.toList = true ∧ isPlainNumber cell.toList = true := by
  unfold neutralise at h ⊢
  by_cases hkept : isFormulaLead cell.toList = false ∨ isPlainNumber cell.toList = true
  · rw [if_pos hkept] at h ⊢
    refine ⟨rfl, h, hkept.resolve_left ?_⟩
    rw [h]
    exact Bool.noConfusion
  · rw [if_neg hkept, String.toList_append] at h
    cases h

theorem isFormulaLead_append (value : List Char) {c : Char} (hc : isFormulaLead [c] = false)
    (rest : List Char) : isFormulaLead (value ++ c :: rest) = isFormulaLead value := by
  cases value with
  | nil => exact hc
  | cons d value => rfl

/-- **A joined field** is shown unless its row begins with a number and its sign. -/
theorem shown_joinedCells (row : List String) :
    (∀ field ∈ joinedCells row, Shown field) ↔ opensSigned row = false := by
  match row with
  | [] => exact ⟨fun _ => rfl, fun _ _ => shown_cellsOf⟩
  | [cell] => exact ⟨fun _ => rfl, fun _ _ => shown_cellsOf⟩
  | cell :: next :: row =>
    unfold joinedCells opensSigned Shown
    have hnumber : isPlainNumber ((neutralise cell).toList ++ ';' :: writeRow (next :: row)) =
        false := by
      refine Bool.eq_false_iff.mpr fun h => no_semicolon_of_number h ?_
      simp
    rw [List.forall_mem_singleton, String.toList_ofList, hnumber,
      isFormulaLead_append _ (by decide)]
    constructor
    · intro h
      have hlead := h.resolve_left Bool.false_ne_true
      refine Bool.eq_false_iff.mpr fun hsigned => ?_
      obtain ⟨hformula, hplain⟩ := Bool.and_eq_true_iff.mp hsigned
      have hkept : neutralise cell = cell := if_pos (.inr hplain)
      rw [hkept, hformula] at hlead
      cases hlead
    · intro h
      refine .inr (Bool.eq_false_iff.mpr fun hlead => ?_)
      obtain ⟨-, hformula, hplain⟩ := lead_neutralise hlead
      have hsigned : (isFormulaLead cell.toList && isPlainNumber cell.toList) = true :=
        Bool.and_eq_true_iff.mpr ⟨hformula, hplain⟩
      exact Bool.noConfusion (hsigned.symm.trans h)

/-- A joined field is not blank. -/
theorem joinedCells_kept {row : List String} (h : opensSigned row = true) :
    (joinedCells row).all isBlank = false := by
  match row, h with
  | cell :: next :: row, _ =>
    unfold joinedCells
    rw [List.all_cons, not_blank_of_mem (by simp : ';' ∈ _) (by decide), Bool.false_and]

/-! ### The fields of a written file -/

/-- No later cell of a row is split. -/
def StaysWhole (separator : CsvDelimiter) (rows : List (List String)) : Prop :=
  separator = .semicolon ∨ ∀ row ∈ rows, Whole separator.char row

/-- No row that is read as one field begins with a signed number. -/
def Unsigned (separator : CsvDelimiter) (rows : List (List String)) : Prop :=
  separator = .semicolon ∨ ∀ row ∈ rows, opensSigned row = false

/-- The file is read, and every field of it is shown. -/
def ReadShown (separator : CsvDelimiter) (rows : List (List String)) : Prop :=
  ∃ read, readRows separator (writeCsv rows) = .ok read ∧
    ∀ row ∈ read, ∀ field ∈ row, Shown field

theorem readShown_semicolon (rows : List (List String)) : ReadShown .semicolon rows := by
  refine ⟨_, readRows_semicolon rows, fun row hrow field hfield => ?_⟩
  obtain ⟨written, -, rfl⟩ := List.mem_map.mp (List.mem_filter.mp hrow).1
  exact shown_cellsOf hfield

theorem readShown_joined {separator : CsvDelimiter} (hother : separator ≠ .semicolon)
    {rows : List (List String)} (hwhole : ∀ row ∈ rows, Whole separator.char row) :
    ReadShown separator rows ↔ ∀ row ∈ rows, opensSigned row = false := by
  have hread := readRows_joined hother hwhole
  constructor
  · rintro ⟨read, heq, hshown⟩ row hrow
    rw [hread] at heq
    obtain rfl := Except.ok.inj heq
    refine Bool.eq_false_iff.mpr fun hsigned => ?_
    have hwritten : row ∈ writtenRows rows := by
      unfold writtenRows
      rwa [if_neg (List.ne_nil_of_mem hrow)]
    have hmem : joinedCells row ∈ ((writtenRows rows).map joinedCells).filter
        fun row => !row.all isBlank := by
      refine List.mem_filter.mpr ⟨List.mem_map_of_mem hwritten, ?_⟩
      rw [joinedCells_kept hsigned]
      rfl
    rw [(shown_joinedCells row).mp (hshown _ hmem)] at hsigned
    cases hsigned
  · intro h
    refine ⟨_, hread, fun row hrow field hfield => ?_⟩
    obtain ⟨written, hwritten, rfl⟩ := List.mem_map.mp (List.mem_filter.mp hrow).1
    refine (shown_joinedCells written).mpr ?_ field hfield
    unfold writtenRows at hwritten
    by_cases hrows : rows = []
    · rw [if_pos hrows, List.mem_singleton] at hwritten
      subst hwritten
      rfl
    · rw [if_neg hrows] at hwritten
      exact h written hwritten

/-- **What a spreadsheet is shown**: with the writer's own separator every field, and with another
every field as long as no later cell is split and no row of several begins with a signed number;
where no cell is split, exactly then. -/
theorem fields_shown (separator : CsvDelimiter) (rows : List (List String)) :
    (StaysWhole separator rows ∧ Unsigned separator rows → ReadShown separator rows) ∧
      (StaysWhole separator rows → (ReadShown separator rows ↔ Unsigned separator rows)) := by
  have hexact : StaysWhole separator rows →
      (ReadShown separator rows ↔ Unsigned separator rows) := by
    intro hwhole
    by_cases h : separator = .semicolon
    · subst h
      exact ⟨fun _ => .inl rfl, fun _ => readShown_semicolon rows⟩
    · unfold Unsigned
      rw [or_iff_right h]
      exact readShown_joined h (hwhole.resolve_left h)
  exact ⟨fun h => (hexact h.1).mpr h.2, hexact⟩

/-- Two rows read by comma, one of them a formula the writer put an apostrophe in front of; and an
amount with its sign, read by tab. -/
theorem fields_shown_joined : ReadShown .comma [["=1+1", "2"], ["x", "@b"]] ∧
    ¬ ReadShown .tab [["-450.00", "text"]] := by
  have hcomma : StaysWhole .comma [["=1+1", "2"], ["x", "@b"]] := by
    unfold StaysWhole Whole
    simp [isCut, CsvDelimiter.char]
  have htab : StaysWhole .tab [["-450.00", "text"]] := by
    unfold StaysWhole Whole
    simp [isCut, CsvDelimiter.char]
  have hunsigned : Unsigned .comma [["=1+1", "2"], ["x", "@b"]] := .inr (by decide)
  have hsigned : ¬ Unsigned .tab [["-450.00", "text"]] := by
    rintro (htab | hrows)
    · cases htab
    · cases hrows _ List.mem_cons_self
  exact ⟨(fields_shown .comma _).1 ⟨hcomma, hunsigned⟩,
    fun h => hsigned (((fields_shown .tab _).2 htab).mp h)⟩

/-- A later cell with a comma in it, read by the comma. -/
theorem formula_behind_a_comma :
    readRows .comma (writeCsv [["a", "b,=1+1"]]) = .ok [["a;\"b", "=1+1\""]] ∧
      ¬ Shown "=1+1\"" := by
  refine ⟨?_, ?_⟩
  · decide +kernel
  · decide

end OpenBrf.Import
