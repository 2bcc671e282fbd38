import Mathlib.Data.List.Basic
import OpenBrf.Import.Csv

/-!
# Import.CsvRoundTrip — what is written is read back

A written cell is read back whole: nothing the writer leaves unquoted ends a cell or opens a quote,
and within quotes only a quote that stands alone does.
-/

namespace OpenBrf.Import

open Lang

/-! ### Written cells -/

theorem doubleQuotes_cons (c : Char) (value : List Char) :
    doubleQuotes (c :: value) = (if c = '"' then ['"', '"'] else [c]) ++ doubleQuotes value := rfl

theorem quoteCell_of_special {value : List Char} (h : value.any isSpecial = true) :
    quoteCell value = '"' :: (doubleQuotes value ++ ['"']) := by
  unfold quoteCell
  rw [if_pos h, List.cons_append]

theorem quoteCell_of_plain {value : List Char} (h : value.any isSpecial = false) :
    quoteCell value = value := by
  unfold quoteCell
  rw [h, if_neg Bool.false_ne_true]

/-- What is left unquoted holds nothing that ends a cell. -/
theorem plain_cons {c : Char} {value : List Char} (h : (c :: value).any isSpecial = false) :
    (c ≠ '"' ∧ c ≠ ';' ∧ c ≠ ',' ∧ c ≠ '\t' ∧ c ≠ '\r' ∧ c ≠ '\n') ∧
      value.any isSpecial = false := by
  rw [List.any_cons, Bool.or_eq_false_iff] at h
  refine ⟨?_, h.2⟩
  have hc := h.1
  unfold isSpecial at hc
  simpa using hc

theorem writeRow_nil : writeRow [] = [] := rfl

theorem writeRow_singleton (cell : String) :
    writeRow [cell] = quoteCell (neutralise cell).toList := by
  simp [writeRow]

theorem writeRow_cons_cons (cell next : String) (row : List String) :
    writeRow (cell :: next :: row) =
      quoteCell (neutralise cell).toList ++ ';' :: writeRow (next :: row) := by
  simp [writeRow]

/-- A row of no cells is written as one of an empty cell. -/
theorem writeRow_empty : writeRow [""] = [] := by decide

/-! ### The first record -/

section FirstLine

variable {rest : List Char}

theorem readFirstLine_plain : ∀ {value : List Char}, value.any isSpecial = false →
    readFirstLine false (value ++ rest) = value ++ readFirstLine false rest
  | [], _ => rfl
  | c :: value, h => by
    obtain ⟨⟨hquote, -, -, -, hcr, hlf⟩, hvalue⟩ := plain_cons h
    simp [readFirstLine, hquote, hcr, hlf, readFirstLine_plain hvalue]

/-- Within quotes a doubled quote leaves the reader where it was. -/
theorem readFirstLine_doubled : ∀ value : List Char,
    readFirstLine true (doubleQuotes value ++ rest) = doubleQuotes value ++ readFirstLine true rest
  | [] => rfl
  | c :: value => by
    have ih := readFirstLine_doubled value
    rw [doubleQuotes_cons]
    by_cases h : c = '"'
    · simp [h, readFirstLine, ih]
    · simp [h, readFirstLine, ih]

theorem readFirstLine_quoteCell (value : List Char) :
    readFirstLine false (quoteCell value ++ rest) = quoteCell value ++ readFirstLine false rest := by
  cases h : value.any isSpecial with
  | false =>
    rw [quoteCell_of_plain h]
    exact readFirstLine_plain h
  | true =>
    rw [quoteCell_of_special h]
    simp [readFirstLine, readFirstLine_doubled]

/-- **The first record** ends where its row does. -/
theorem readFirstLine_writeRow : ∀ row : List String,
    readFirstLine false (writeRow row ++ '\r' :: rest) = writeRow row
  | [] => by simp [writeRow_nil, readFirstLine]
  | [cell] => by
    rw [writeRow_singleton, readFirstLine_quoteCell]
    simp [readFirstLine]
  | cell :: next :: row => by
    have ih := readFirstLine_writeRow (next :: row)
    rw [writeRow_cons_cons, List.append_assoc, readFirstLine_quoteCell, List.cons_append]
    simp [readFirstLine, ih]

end FirstLine

/-! ### Delimiters counted -/

section Count

variable {delimiter : Char} {rest : List Char}

theorem count_plain (hspecial : isSpecial delimiter = true) : ∀ {value : List Char},
    value.any isSpecial = false →
    countOutsideQuotes delimiter false (value ++ rest) = countOutsideQuotes delimiter false rest
  | [], _ => rfl
  | c :: value, h => by
    have hc : c ≠ delimiter := by
      rintro rfl
      rw [List.any_cons, hspecial] at h
      cases h
    obtain ⟨⟨hquote, -⟩, hvalue⟩ := plain_cons h
    rw [List.cons_append]
    simp [countOutsideQuotes, hquote, hc, count_plain hspecial hvalue]

theorem count_doubled : ∀ value : List Char,
    countOutsideQuotes delimiter true (doubleQuotes value ++ rest) =
      countOutsideQuotes delimiter true rest
  | [] => rfl
  | c :: value => by
    have ih := count_doubled value
    rw [doubleQuotes_cons]
    by_cases h : c = '"'
    · simp [h, countOutsideQuotes, ih]
    · simp [h, countOutsideQuotes, ih]

/-- Nothing is counted within a written cell. -/
theorem count_quoteCell (hspecial : isSpecial delimiter = true)
    (hrest : rest.head? ≠ some '"') (value : List Char) :
    countOutsideQuotes delimiter false (quoteCell value ++ rest) =
      countOutsideQuotes delimiter false rest := by
  cases h : value.any isSpecial with
  | false =>
    rw [quoteCell_of_plain h]
    exact count_plain hspecial h
  | true =>
    rw [quoteCell_of_special h]
    -- the quote that closes stands alone
    have hclose : countOutsideQuotes delimiter true ('"' :: rest) =
        countOutsideQuotes delimiter false rest := by
      cases rest with
      | nil => rfl
      | cons c rest =>
        have hc : c ≠ '"' := by simpa using hrest
        simp [countOutsideQuotes, hc]
    simp [countOutsideQuotes, count_doubled, hclose]

/-- **Delimiters of a row**: the semicolons between its cells. -/
theorem count_writeRow (hspecial : isSpecial delimiter = true) :
    ∀ row : List String, countOutsideQuotes delimiter false (writeRow row) =
      if delimiter = ';' then row.length - 1 else 0
  | [] => by simp [writeRow_nil, countOutsideQuotes]
  | [cell] => by
    have h : countOutsideQuotes delimiter false (quoteCell (neutralise cell).toList ++ []) = _ :=
      count_quoteCell hspecial (by simp) _
    rw [List.append_nil] at h
    simp [writeRow_singleton, h, countOutsideQuotes]
  | cell :: next :: row => by
    have ih := count_writeRow hspecial (next :: row)
    rw [writeRow_cons_cons, count_quoteCell hspecial (by simp)]
    by_cases h : delimiter = ';'
    · subst h
      simp [countOutsideQuotes] at ih ⊢
      omega
    · simp [countOutsideQuotes, h, Ne.symm h] at ih ⊢
      exact ih

end Count

/-- **The delimiter found** is the one the writer writes, where it writes any. -/
theorem detectDelimiter_writeRow (row : List String) (rest : List Char) :
    detectDelimiter (writeRow row ++ '\r' :: rest) =
      if 2 ≤ row.length then .semicolon else .comma := by
  have hcount : ∀ candidate : CsvDelimiter,
      countOutsideQuotes candidate.char false (writeRow row) =
        if candidate.char = ';' then row.length - 1 else 0 := by
    intro candidate
    apply count_writeRow
    cases candidate <;> decide
  unfold detectDelimiter CANDIDATE_DELIMITERS
  rw [readFirstLine_writeRow]
  simp only [List.foldl_cons, List.foldl_nil, hcount]
  have hcomma : CsvDelimiter.comma.char ≠ ';' := by decide
  have htab : CsvDelimiter.tab.char ≠ ';' := by decide
  have hsemicolon : CsvDelimiter.semicolon.char = ';' := rfl
  rw [if_pos hsemicolon, if_neg hcomma, if_neg htab]
  by_cases h : 2 ≤ row.length
  · have hpos : 0 < row.length - 1 := by omega
    simp [h, hpos]
  · have hzero : row.length - 1 = 0 := by omega
    simp [h, hzero]

/-! ### Tokens -/

section Tokens

variable {separator : Char} {rest : List Char} {st : ParseState}

theorem parseLoop_cons (c : Char) : parseLoop none separator false (c :: rest) st =
    if st.quoted then
      if c ≠ '"' then
        parseLoop none separator false rest
          { (if c = '\n' then { st with line := st.line + 1 } else st) with cell := st.cell ++ [c] }
      else if rest.head? = some '"' then
        parseLoop none separator true rest { st with cell := st.cell ++ ['"'] }
      else parseLoop none separator false rest { st with quoted := false }
    else if c = '"' ∧ isBlank (String.ofList st.cell) then
      parseLoop none separator false rest
        { st with quoted := true, quoteLine := st.line, cell := [] }
    else if c = separator then
      parseLoop none separator false rest
        { st with row := st.row ++ [String.ofList st.cell], cell := [] }
    else if c = '\n' ∨ c = '\r' then
      endRow none { st with line := st.line + 1 } >>=
        parseLoop none separator (c = '\r' ∧ rest.head? = some '\n') rest
    else parseLoop none separator false rest { st with cell := st.cell ++ [c] } := by
  rw [parseLoop]
  by_cases hquote : c = '"'
  · subst hquote
    rfl
  · by_cases hlf : c = '\n'
    · subst hlf
      rfl
    · simp [hquote, hlf, append, endCell]
      rfl

theorem parseLoop_plain (hseparator : isSpecial separator = true) : ∀ {value : List Char}
    {st : ParseState}, value.any isSpecial = false → st.quoted = false →
      parseLoop none separator false (value ++ rest) st =
        parseLoop none separator false rest { st with cell := st.cell ++ value }
  | [], st, _, _ => by simp
  | c :: value, st, h, hq => by
    have hc : c ≠ separator := by
      rintro rfl
      rw [List.any_cons, hseparator] at h
      cases h
    obtain ⟨⟨hquote, -, -, -, hcr, hlf⟩, hvalue⟩ := plain_cons h
    have ih : parseLoop none separator false (value ++ rest) { st with cell := st.cell ++ [c] } =
        _ := parseLoop_plain hseparator hvalue hq
    rw [List.cons_append, parseLoop_cons, if_neg (by simp [hq]), if_neg (by simp [hquote]),
      if_neg hc, if_neg (by simp [hcr, hlf]), ih]
    simp

/-- Within quotes the characters are those of the cell, up to the quote that stands alone. -/
theorem parseLoop_doubled : ∀ {value : List Char} {st : ParseState}, st.quoted = true →
    ∃ line, parseLoop none separator false (doubleQuotes value ++ '"' :: rest) st =
      parseLoop none separator false ('"' :: rest)
        { st with cell := st.cell ++ value, line := line }
  | [], st, _ => ⟨st.line, by simp [doubleQuotes]⟩
  | c :: value, st, hq => by
    rw [doubleQuotes_cons]
    by_cases hquote : c = '"'
    · subst hquote
      obtain ⟨line, ih⟩ : ∃ line, parseLoop none separator false (doubleQuotes value ++ '"' :: rest)
          { st with cell := st.cell ++ ['"'] } = _ := parseLoop_doubled hq
      refine ⟨line, ?_⟩
      rw [if_pos rfl, List.append_assoc, List.cons_append, List.cons_append, List.nil_append,
        parseLoop_cons, if_pos hq, if_neg (by simp), if_pos (by simp)]
      show parseLoop none separator false _ _ = _
      rw [ih]
      simp
    · obtain ⟨line, ih⟩ : ∃ line, parseLoop none separator false (doubleQuotes value ++ '"' :: rest)
          { (if c = '\n' then { st with line := st.line + 1 } else st) with
            cell := st.cell ++ [c] } = _ := parseLoop_doubled (by split_ifs <;> exact hq)
      refine ⟨line, ?_⟩
      rw [if_neg hquote, List.append_assoc, List.cons_append, List.nil_append, parseLoop_cons,
        if_pos hq, if_pos hquote, ih]
      split_ifs <;> simp

/-- **A written cell** is read whole, where what follows is not a quote. -/
theorem parseLoop_quoteCell (hseparator : isSpecial separator = true)
    (hrest : rest.head? ≠ some '"') (value : List Char) (hq : st.quoted = false)
    (hcell : st.cell = []) :
    ∃ line quoteLine, parseLoop none separator false (quoteCell value ++ rest) st =
      parseLoop none separator false rest
        { st with cell := value, line := line, quoteLine := quoteLine } := by
  cases h : value.any isSpecial with
  | false =>
    refine ⟨st.line, st.quoteLine, ?_⟩
    rw [quoteCell_of_plain h, parseLoop_plain hseparator h hq, hcell, List.nil_append]
  | true =>
    have hblank : isBlank (String.ofList st.cell) = true := by
      rw [hcell]
      decide
    obtain ⟨line, hdoubled⟩ : ∃ line, parseLoop none separator false
        (doubleQuotes value ++ '"' :: rest)
        { st with quoted := true, quoteLine := st.line, cell := [] } = _ := parseLoop_doubled rfl
    refine ⟨line, st.line, ?_⟩
    rw [quoteCell_of_special h, List.cons_append, List.append_assoc, parseLoop_cons,
      if_neg (by simp [hq]), if_pos ⟨rfl, hblank⟩, List.cons_append, List.nil_append, hdoubled,
      parseLoop_cons, if_pos rfl, if_neg (by simp), if_neg hrest]
    simp [hq]

end Tokens

/-! ### Records -/

/-- What a record leaves of the state. -/
structure Ended (cells : List String) (st st' : ParseState) : Prop where
  quoted : st'.quoted = false
  cell : st'.cell = []
  row : st'.row = []
  records : st'.records = st.records + 1
  populated : st'.populated =
    st.populated ++ if cells.all isBlank then [] else [cells]
  sourceRows : st'.sourceRows =
    st.sourceRows ++ if cells.all isBlank then [] else [st.records + 1]

theorem endRow_none (st : ParseState) (hq : st.quoted = false) :
    ∃ st', endRow none st = .ok st' ∧ Ended (st.row ++ [String.ofList st.cell]) st st' := by
  unfold endRow keepRow endCell
  by_cases h : (st.row ++ [String.ofList st.cell]).all isBlank = true
  · refine ⟨{ st with row := [], cell := [], records := st.records + 1, rowLine := st.line }, ?_, ?_⟩
    · simp [bind, Except.bind, pure, Except.pure, h]
    · exact ⟨hq, rfl, rfl, rfl, by simp [h], by simp [h]⟩
  · refine ⟨{ st with
      row := [], cell := [], records := st.records + 1, rowLine := st.line
      populated := st.populated ++ [st.row ++ [String.ofList st.cell]]
      sourceRows := st.sourceRows ++ [st.records + 1] }, ?_, ?_⟩
    · simp [bind, Except.bind, pure, Except.pure, h]
    · exact ⟨hq, rfl, rfl, rfl, by simp [h], by simp [h]⟩

section Records

variable {separator : Char}

/-- **A written row** is read as one record. -/
theorem parseLoop_writeRow (hseparator : separator = ';' ∨ separator = ',' ∨ separator = '\t') (rest : List Char) :
    ∀ (row : List String) (st : ParseState), row ≠ [] → (2 ≤ row.length → separator = ';') →
      st.quoted = false → st.cell = [] → ∃ st', Ended (st.row ++ row.map neutralise) st st' ∧
        parseLoop none separator false (writeRow row ++ '\r' :: '\n' :: rest) st =
          parseLoop none separator false rest st'
  | [], _, h, _, _, _ => absurd rfl h
  | [cell], st, _, _, hq, hcell => by
    have hspecial : isSpecial separator = true := by
      rcases hseparator with rfl | rfl | rfl <;> decide
    have hcr : '\r' ≠ separator := by
      rcases hseparator with rfl | rfl | rfl <;> decide
    obtain ⟨line, quoteLine, hread⟩ : ∃ line quoteLine, parseLoop none separator false
        (quoteCell (neutralise cell).toList ++ '\r' :: '\n' :: rest) st = _ :=
      parseLoop_quoteCell hspecial (by simp) _ hq hcell
    obtain ⟨st', hend, hended⟩ := endRow_none { st with
      cell := (neutralise cell).toList, line := line + 1, quoteLine := quoteLine } hq
    refine ⟨st', ?_, ?_⟩
    · rw [String.ofList_toList] at hended
      exact ⟨hended.quoted, hended.cell, hended.row, hended.records, hended.populated,
        hended.sourceRows⟩
    · rw [writeRow_singleton, hread, parseLoop_cons, if_neg (by simp [hq]), if_neg (by simp),
        if_neg hcr, if_pos (by simp), hend]
      rfl
  | cell :: next :: row, st, _, hsemicolon, hq, hcell => by
    have hsep : separator = ';' := hsemicolon (by simp)
    have hspecial : isSpecial separator = true := by
      rw [hsep]
      decide
    obtain ⟨line, quoteLine, hread⟩ : ∃ line quoteLine, parseLoop none separator false
        (quoteCell (neutralise cell).toList ++
          ';' :: (writeRow (next :: row) ++ '\r' :: '\n' :: rest)) st = _ :=
      parseLoop_quoteCell hspecial (by simp) _ hq hcell
    obtain ⟨st', hended, hrest⟩ := parseLoop_writeRow hseparator rest (next :: row)
      { st with
        row := st.row ++ [String.ofList (neutralise cell).toList]
        cell := [], line := line, quoteLine := quoteLine } (by simp) (fun _ => hsep) hq rfl
    refine ⟨st', ?_, ?_⟩
    · rw [String.ofList_toList, List.append_assoc] at hended
      exact ⟨hended.quoted, hended.cell, hended.row, hended.records, hended.populated,
        hended.sourceRows⟩
    · rw [writeRow_cons_cons, List.append_assoc, List.cons_append, hread, parseLoop_cons,
        if_neg (by simp [hq]), if_neg (by simp), if_pos hsep.symm, ← hrest]

/-- The cells a row is read as: a row of no cells is a blank one. -/
def cellsOf (row : List String) : List String := if row = [] then [""] else row.map neutralise

theorem parseLoop_record (hseparator : separator = ';' ∨ separator = ',' ∨ separator = '\t') (rest : List Char)
    (row : List String) (st : ParseState) (hsemicolon : 2 ≤ row.length → separator = ';')
    (hq : st.quoted = false) (hcell : st.cell = []) (hrow : st.row = []) :
    ∃ st', Ended (cellsOf row) st st' ∧
      parseLoop none separator false (writeRow row ++ '\r' :: '\n' :: rest) st =
        parseLoop none separator false rest st' := by
  unfold cellsOf
  by_cases h : row = []
  · have hwritten := parseLoop_writeRow hseparator rest [""] st (by simp) (by simp) hq hcell
    rw [hrow, writeRow_empty] at hwritten
    rw [if_pos h, h]
    exact hwritten
  · have hwritten := parseLoop_writeRow hseparator rest row st h hsemicolon hq hcell
    rw [hrow] at hwritten
    rwa [if_neg h]

/-- **The written rows** are read as the records each of them is read as, in order. -/
theorem parseLoop_records (cells : List String → List String) :
    ∀ (rows : List (List String)) (st : ParseState),
      (∀ row ∈ rows, ∀ (rest : List Char) (st : ParseState), st.quoted = false → st.cell = [] →
        st.row = [] → ∃ st', Ended (cells row) st st' ∧
          parseLoop none separator false (writeRow row ++ '\r' :: '\n' :: rest) st =
            parseLoop none separator false rest st') →
      st.quoted = false → st.cell = [] → st.row = [] →
      ∃ st', parseLoop none separator false
          (rows.flatMap fun row => writeRow row ++ ['\r', '\n']) st = .ok st' ∧
        (st'.quoted = false ∧ st'.cell = [] ∧ st'.row = []) ∧
        st'.populated = st.populated ++ (rows.map cells).filter (fun row => !row.all isBlank) ∧
        st'.sourceRows = st.sourceRows ++ ((rows.zipIdx (st.records + 1)).filter
          fun place => !(cells place.1).all isBlank).map (·.2)
  | [], st, _, hq, hcell, hrow => ⟨st, by simp [parseLoop], ⟨hq, hcell, hrow⟩, by simp, by simp⟩
  | row :: rows, st, hrecord, hq, hcell, hrow => by
    obtain ⟨st₁, hended, hfirst⟩ := hrecord row List.mem_cons_self
      (rows.flatMap fun row => writeRow row ++ ['\r', '\n']) st hq hcell hrow
    obtain ⟨st', hread, hclean, hpopulated, hsource⟩ := parseLoop_records cells rows st₁
      (fun r hr => hrecord r (List.mem_cons_of_mem _ hr)) hended.quoted hended.cell hended.row
    refine ⟨st', ?_, hclean, ?_, ?_⟩
    · rw [List.flatMap_cons, List.append_assoc]
      exact hfirst.trans hread
    · rw [hpopulated, hended.populated, List.map_cons, List.append_assoc]
      cases h : (cells row).all isBlank <;> simp [h]
    · rw [hsource, hended.sourceRows, hended.records, List.zipIdx_cons, List.append_assoc]
      cases h : (cells row).all isBlank <;> simp [h]

end Records

/-! ### The round trip -/

/-- Every row of a document ends in the line break, the last one too. -/
theorem flatten_rows : ∀ {rows : List (List String)}, rows ≠ [] →
    ((rows.map writeRow).intersperse ['\r', '\n']).flatten ++ ['\r', '\n'] =
      rows.flatMap fun row => writeRow row ++ ['\r', '\n']
  | [], h => absurd rfl h
  | [row], _ => by simp
  | row :: next :: rows, _ => by
    have ih : ((List.map writeRow (next :: rows)).intersperse _).flatten ++ _ = _ :=
      flatten_rows (List.cons_ne_nil next rows)
    rw [List.flatMap_cons, ← ih]
    simp

/-- A document of no rows is written as one of a blank row. -/
def writtenRows (rows : List (List String)) : List (List String) := if rows = [] then [[]] else rows

/-- The lines of a document. -/
def linesOf (rows : List (List String)) : List Char :=
  rows.flatMap fun row => writeRow row ++ ['\r', '\n']

theorem toList_writeCsv (rows : List (List String)) :
    (writeCsv rows).toList = BYTE_ORDER_MARK :: linesOf (writtenRows rows) := by
  unfold writeCsv writtenRows linesOf
  rw [String.toList_ofList, List.cons_append]
  by_cases h : rows = []
  · subst h
    rfl
  · rw [if_neg h, ← flatten_rows h]

/-- A row that is written and not a row of the document is blank. -/
theorem filter_writtenRows (rows : List (List String)) :
    ((writtenRows rows).map cellsOf).filter (fun row => !row.all isBlank) =
      (rows.map cellsOf).filter fun row => !row.all isBlank := by
  unfold writtenRows
  by_cases h : rows = []
  · subst h
    decide
  · rw [if_neg h]

theorem filter_zipIdx_writtenRows (rows : List (List String)) (n : ℕ) :
    ((writtenRows rows).zipIdx n).filter (fun place => !(cellsOf place.1).all isBlank) =
      (rows.zipIdx n).filter fun place => !(cellsOf place.1).all isBlank := by
  unfold writtenRows
  by_cases h : rows = []
  · subst h
    simp [cellsOf, isBlank]
    decide
  · rw [if_neg h]

theorem widthOf_le {n : ℕ} {populated : List (List String)} (h : ∀ row ∈ populated, row.length ≤ n) :
    widthOf populated ≤ n := by
  have hfold : ∀ (populated : List (List String)) (widest : ℕ), widest ≤ n →
      (∀ row ∈ populated, row.length ≤ n) →
      populated.foldl (fun widest candidate => max widest candidate.length) widest ≤ n := by
    intro populated
    induction populated with
    | nil => exact fun widest hwidest _ => hwidest
    | cons row populated ih =>
      intro widest hwidest hall
      apply ih
      · exact Nat.max_le.mpr ⟨hwidest, hall row List.mem_cons_self⟩
      · exact fun r hr => hall r (List.mem_cons_of_mem _ hr)
  exact hfold populated 0 (Nat.zero_le n) h

/-- Rows of one width need no filling up. -/
theorem pad_eq {n : ℕ} {populated : List (List String)} (h : ∀ row ∈ populated, row.length = n) :
    (populated.map fun candidate => candidate.map trim ++
      List.replicate (widthOf populated - candidate.length) "") =
      populated.map fun candidate => candidate.map trim := by
  apply List.map_congr_left
  intro candidate hmem
  have hle : widthOf populated ≤ n := widthOf_le fun row hrow => Nat.le_of_eq (h row hrow)
  have hzero : widthOf populated - candidate.length = 0 := by
    rw [h candidate hmem]
    omega
  rw [hzero, List.replicate_zero, List.append_nil]

theorem blank_cellsOf (row : List String) :
    (!(cellsOf row).all isBlank) = row.any fun cell => !isBlank (neutralise cell) := by
  unfold cellsOf
  split_ifs with h
  · subst h
    decide
  · simp only [List.all_map, List.not_all_eq_any_not, Function.comp_apply]

theorem filter_cellsOf : ∀ rows : List (List String),
    ((rows.map cellsOf).filter fun row => !row.all isBlank).map (fun row => row.map trim) =
      (rows.map fun row => row.map fun cell => trim (neutralise cell)).filter
        fun row => row.any (· ≠ "")
  | [] => rfl
  | row :: rows => by
    have ih := filter_cellsOf rows
    have hany : ((row.map fun cell => trim (neutralise cell)).any fun cell => cell ≠ "") =
        row.any fun cell => !isBlank (neutralise cell) := by
      simp [isBlank, Function.comp_def]
    rw [List.map_cons, List.map_cons, List.filter_cons, List.filter_cons, blank_cellsOf, hany]
    cases hrow : row.any fun cell => !isBlank (neutralise cell) with
    | false => simpa using ih
    | true =>
      have hne : row ≠ [] := by
        rintro rfl
        cases hrow
      rw [if_pos rfl, if_pos rfl, List.map_cons, ih, cellsOf, if_neg hne, List.map_map]
      rfl

/-- The delimiter a document of rows of one width is read with. -/
theorem detectDelimiter_linesOf {width : ℕ} {rows : List (List String)}
    (hwidth : ∀ row ∈ rows, row.length = width) :
    detectDelimiter (linesOf (writtenRows rows)) =
      if 2 ≤ width ∧ rows ≠ [] then .semicolon else .comma := by
  cases rows with
  | nil =>
    rw [if_neg fun h => h.2 rfl]
    decide
  | cons first others =>
    have hfirst : first.length = width := hwidth first List.mem_cons_self
    show detectDelimiter (linesOf (first :: others)) = _
    unfold linesOf
    rw [List.flatMap_cons, List.append_assoc, List.cons_append, detectDelimiter_writeRow, hfirst]
    simp

theorem parseCsv_of_read {input : String} {text : List Char} {st : ParseState}
    (htext : input.toList = BYTE_ORDER_MARK :: text)
    (hread : parseLoop none (detectDelimiter text).char false text {} = .ok st)
    (hclean : st.quoted = false ∧ st.cell = [] ∧ st.row = []) :
    parseCsv input none none = .ok ⟨detectDelimiter text,
      st.populated.map fun candidate => candidate.map trim ++
        List.replicate (widthOf st.populated - candidate.length) "", st.sourceRows⟩ := by
  obtain ⟨hq, hcell, hrow⟩ := hclean
  unfold parseCsv
  rw [htext]
  show (parseLoop none (detectDelimiter text).char false text {} >>= _) = _
  rw [hread]
  show (if st.quoted = true then _ else _) = _
  rw [hq, if_neg Bool.false_ne_true, hcell, hrow, if_neg (by simp)]
  rfl

/-- **Round trip**: a written table of rows of one width is read back as its cells, as the writer
neutralised and the reader trims them, and each row with its place in the file. -/
theorem parseCsv_writeCsv (width : ℕ) (rows : List (List String))
    (hwidth : ∀ row ∈ rows, row.length = width) :
    parseCsv (writeCsv rows) none none = .ok
      { delimiter := if 2 ≤ width ∧ rows ≠ [] then .semicolon else .comma
        rows := (rows.map fun row => row.map fun cell => trim (neutralise cell)).filter
          fun row => row.any (· ≠ "")
        sourceRows := ((rows.zipIdx 1).filter fun place =>
          place.1.any fun cell => !isBlank (neutralise cell)).map (·.2) } := by
  have hdetect := detectDelimiter_linesOf hwidth
  have hseparator : (detectDelimiter (linesOf (writtenRows rows))).char = ';' ∨
      (detectDelimiter (linesOf (writtenRows rows))).char = ',' ∨
      (detectDelimiter (linesOf (writtenRows rows))).char = '\t' := by
    rw [hdetect]
    split_ifs
    · exact .inl rfl
    · exact .inr (.inl rfl)
  have hmany : ∀ row ∈ writtenRows rows, 2 ≤ row.length →
      (detectDelimiter (linesOf (writtenRows rows))).char = ';' := by
    intro row hmem htwo
    rw [hdetect]
    unfold writtenRows at hmem
    split_ifs at hmem with h
    · obtain rfl := List.mem_singleton.mp hmem
      cases htwo
    · rw [if_pos ⟨hwidth row hmem ▸ htwo, h⟩]
      rfl
  obtain ⟨st, hread, hclean, hpopulated, hsource⟩ :=
    parseLoop_records cellsOf (writtenRows rows) {} (fun row hmem rest st hq hcell hrow =>
      parseLoop_record hseparator rest row st (hmany row hmem) hq hcell hrow) rfl rfl rfl
  rw [List.nil_append, filter_writtenRows] at hpopulated
  rw [List.nil_append, filter_zipIdx_writtenRows] at hsource
  -- a row that is kept has a cell, so its width is the document's
  have hsame : ∀ row ∈ st.populated, row.length = width := by
    intro row hmem
    rw [hpopulated, List.mem_filter, List.mem_map] at hmem
    obtain ⟨⟨written, hwritten, rfl⟩, hblank⟩ := hmem
    rw [blank_cellsOf] at hblank
    have hne : written ≠ [] := by
      rintro rfl
      cases hblank
    rw [cellsOf, if_neg hne, List.length_map, hwidth written hwritten]
  rw [parseCsv_of_read (toList_writeCsv rows) hread hclean, pad_eq hsame, hpopulated, hsource,
    filter_cellsOf, hdetect]
  simp only [blank_cellsOf]

/-- A cell with a delimiter, a quote and a line break in it. -/
theorem parseCsv_writeCsv_note :
    (∀ row ∈ [["a;b,c", "d\"\r\n"], ["", " "]], row.length = 2) ∧
      parseCsv (writeCsv [["a;b,c", "d\"\r\n"], ["", " "]]) none none =
        .ok ⟨.semicolon, [["a;b,c", "d\""]], [1]⟩ := by
  have hwidth : ∀ row ∈ [["a;b,c", "d\"\r\n"], ["", " "]], row.length = 2 := by decide
  refine ⟨hwidth, (parseCsv_writeCsv 2 _ hwidth).trans ?_⟩
  decide

end OpenBrf.Import
