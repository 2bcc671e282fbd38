import OpenBrf.Lang

/-!
# Import.Csv — reading and writing delimited files (`csv.ts`)

A text is read as its characters; a character beyond the basic plane counts two in a length.  The
bytes of a file and their encodings are left out.
-/

namespace OpenBrf.Import

open Lang

inductive CsvDelimiter where
  | semicolon
  | comma
  | tab
  deriving DecidableEq, Repr

def CsvDelimiter.char : CsvDelimiter → Char
  | semicolon => ';'
  | comma => ','
  | tab => '\t'

/-- Semicolon first: Swedish Excel writes it. -/
def CANDIDATE_DELIMITERS : List CsvDelimiter := [.semicolon, .comma, .tab]

def BYTE_ORDER_MARK : Char := Char.ofNat 0xFEFF

inductive ImportShapeReason where
  | tooManyRows
  | tooManyColumns
  | cellTooLong
  | unterminatedQuote
  deriving DecidableEq, Repr

structure ImportShapeError where
  message : String
  reason : ImportShapeReason
  deriving DecidableEq, Repr

/-! ### Choosing the delimiter -/

/-- The first record, which may span lines. -/
def readFirstLine : Bool → List Char → List Char
  | _, [] => []
  | quoted, c :: rest =>
    if c = '"' then c :: readFirstLine (!quoted) rest
    else if quoted = false ∧ (c = '\n' ∨ c = '\r') then []
    else c :: readFirstLine quoted rest

def countOutsideQuotes (delimiter : Char) : Bool → List Char → ℕ
  | _, [] => 0
  | true, '"' :: '"' :: rest => countOutsideQuotes delimiter true rest
  | quoted, c :: rest =>
    if c = '"' then countOutsideQuotes delimiter (!quoted) rest
    else if quoted = false ∧ c = delimiter then countOutsideQuotes delimiter quoted rest + 1
    else countOutsideQuotes delimiter quoted rest

/-- Picks the delimiter by counting candidates outside quotes in the first line. -/
def detectDelimiter (text : List Char) : CsvDelimiter :=
  let firstLine := readFirstLine false text
  (CANDIDATE_DELIMITERS.foldl (fun (best : CsvDelimiter × ℕ) candidate =>
    let count := countOutsideQuotes candidate.char false firstLine
    if best.2 < count then (candidate, count) else best) (.comma, 0)).1

/-! ### Parsing -/

structure CsvLimits where
  maxDataRows : ℕ
  maxColumns : ℕ
  maxCellLength : ℕ
  deriving DecidableEq, Repr

/-- The state of the tokeniser. -/
structure ParseState where
  populated : List (List String) := []
  sourceRows : List ℕ := []
  records : ℕ := 0
  row : List String := []
  cell : List Char := []
  quoted : Bool := false
  line : ℕ := 1
  rowLine : ℕ := 1
  quoteLine : ℕ := 0
  deriving DecidableEq, Repr

def isBlank (value : String) : Bool := trim value = ""

section Tokens

variable (limits : Option CsvLimits)

def endCell (st : ParseState) : Except ImportShapeError ParseState :=
  if limits.any fun l => l.maxColumns ≤ st.row.length then
    .error ⟨"Line " ++ toString st.rowLine ++ " has more than " ++
      toString ((limits.map (·.maxColumns)).getD 0) ++ " columns.", .tooManyColumns⟩
  else .ok { st with row := st.row ++ [String.ofList st.cell], cell := [] }

/-- Only a row with something in it is kept. -/
def keepRow (st : ParseState) : Except ImportShapeError ParseState :=
  if st.row.all isBlank then .ok st
  else if limits.any fun l => l.maxDataRows < st.populated.length then
    .error ⟨"The file has more than " ++ toString ((limits.map (·.maxDataRows)).getD 0) ++
      " rows below its column titles.", .tooManyRows⟩
  else .ok { st with
    populated := st.populated ++ [st.row]
    sourceRows := st.sourceRows ++ [st.records] }

def endRow (st : ParseState) : Except ImportShapeError ParseState := do
  let st ← endCell limits st
  let st ← keepRow limits { st with records := st.records + 1 }
  return { st with row := [], rowLine := st.line }

def append (c : Char) (st : ParseState) : Except ImportShapeError ParseState :=
  if limits.any fun l => l.maxCellLength < unitLength (st.cell.map Char.toNat) + unitsOf c.toNat then
    .error ⟨"A cell on line " ++ toString st.rowLine ++ " is longer than " ++
      toString ((limits.map (·.maxCellLength)).getD 0) ++ " characters.", .cellTooLong⟩
  else .ok { st with cell := st.cell ++ [c] }

/-- The loop over the characters.  It skips one where the turn before read it already. -/
def parseLoop (separator : Char) :
    Bool → List Char → ParseState → Except ImportShapeError ParseState
  | _, [], st => .ok st
  | true, _ :: rest, st => parseLoop separator false rest st
  | false, c :: rest, st =>
    if st.quoted then
      let st := if c = '\n' then { st with line := st.line + 1 } else st
      if c ≠ '"' then append limits c st >>= parseLoop separator false rest
      else if rest.head? = some '"' then append limits '"' st >>= parseLoop separator true rest
      else parseLoop separator false rest { st with quoted := false }
    else if c = '"' ∧ isBlank (String.ofList st.cell) then
      parseLoop separator false rest { st with quoted := true, quoteLine := st.line, cell := [] }
    else if c = separator then endCell limits st >>= parseLoop separator false rest
    else if c = '\n' ∨ c = '\r' then
      endRow limits { st with line := st.line + 1 } >>=
        parseLoop separator (c = '\r' ∧ rest.head? = some '\n') rest
    else append limits c st >>= parseLoop separator false rest

end Tokens

structure ParsedCsv where
  delimiter : CsvDelimiter
  rows : List (List String)
  sourceRows : List ℕ
  deriving DecidableEq, Repr

/-- The widest row. -/
def widthOf (populated : List (List String)) : ℕ :=
  populated.foldl (fun widest candidate => max widest candidate.length) 0

/-- Parses a document into rows of cells. -/
def parseCsv (input : String) (delimiter : Option CsvDelimiter) (limits : Option CsvLimits) :
    Except ImportShapeError ParsedCsv := do
  let text := match input.toList with
    | c :: rest => if c = BYTE_ORDER_MARK then rest else c :: rest
    | [] => []
  let separator := delimiter.getD (detectDelimiter text)
  let st ← parseLoop limits separator.char false text {}
  if st.quoted then
    .error ⟨"The quoted cell opened on line " ++ toString st.quoteLine ++ " is never closed.",
      .unterminatedQuote⟩
  else
    let st ← if st.cell ≠ [] ∨ st.row ≠ [] then endRow limits st else .ok st
    let width := widthOf st.populated
    return ⟨separator, st.populated.map fun candidate => candidate.map trim ++
      List.replicate (width - candidate.length) "", st.sourceRows⟩

/-! ### Writing -/

/-- What a spreadsheet reads as the start of a formula rather than as text. -/
def isFormulaLead (value : List Char) : Bool :=
  value.head?.any fun c => c ∈ ['=', '+', '-', '@', '\t', '\r']

/-- `[+-]?\d+(?:[.,]\d+)?` -/
def isPlainNumber (value : List Char) : Bool :=
  let unsigned := match value with
    | '+' :: rest => rest
    | '-' :: rest => rest
    | _ => value
  let whole := unsigned.takeWhile Char.isDigit
  whole ≠ [] && match unsigned.drop whole.length with
    | [] => true
    | point :: fraction =>
      (point = '.' || point = ',') && fraction ≠ [] && fraction.all Char.isDigit

/-- Text a spreadsheet would execute, made into text it displays. -/
def neutralise (value : String) : String :=
  if isFormulaLead value.toList = false ∨ isPlainNumber value.toList then value else "'" ++ value

/-- A character some reader splits or ends a field on. -/
def isSpecial (c : Char) : Bool := c ∈ ['"', ';', ',', '\t', '\r', '\n']

def doubleQuotes (value : List Char) : List Char :=
  value.flatMap fun c => if c = '"' then ['"', '"'] else [c]

/-- Quotes a cell that holds a special character. -/
def quoteCell (value : List Char) : List Char :=
  if value.any isSpecial then '"' :: doubleQuotes value ++ ['"'] else value

/-- A row, its cells written and joined. -/
def writeRow (row : List String) : List Char :=
  (row.map fun cell => quoteCell (neutralise cell).toList).intersperse [';'] |>.flatten

/-- Writes a document. -/
def writeCsv (rows : List (List String)) : String :=
  String.ofList (BYTE_ORDER_MARK ::
    ((rows.map writeRow).intersperse ['\r', '\n']).flatten ++ ['\r', '\n'])

example : parseCsv (writeCsv [["a;b", " c\"d "], ["", "=1"]]) none none =
    .ok ⟨.semicolon, [["a;b", "c\"d"], ["", "'=1"]], [1, 2]⟩ := by decide +kernel

end OpenBrf.Import
