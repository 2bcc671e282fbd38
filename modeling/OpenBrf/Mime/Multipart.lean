import OpenBrf.Lang.Buffers
import OpenBrf.Search.Words

/-!
# Mime.Multipart — the parts of a multipart body (`mime.ts`)

How one part is read is a parameter here, as it reads the parts inside it in the same way.
-/

namespace OpenBrf.Mime

open Lang Search

def CR : UInt8 := 0x0D

def LF : UInt8 := 0x0A

def DASH : UInt8 := 0x2D

/-- `--${boundary}` -/
def delimiterOf (boundary : List ℕ) : Bytes := latin1Bytes (0x2D :: 0x2D :: boundary)

/-- The beginning of a buffer, or right behind a line feed. -/
def startsLine (prev : Option UInt8) : Bool := prev.all fun c => c = LF

def findDelimiter (body delimiter : Bytes) (start : ℕ) : Option ℕ :=
  (scan startsLine delimiter (if start = 0 then none else body[start - 1]?) (body.drop start)).map
    fun n => start + n

def skipLineBreak (body : Bytes) (at' : ℕ) : ℕ :=
  if body[at']? = some CR ∧ body[at' + 1]? = some LF then at' + 2
  else if body[at']? = some LF then at' + 1
  else at'

def trimLineBreak (body : Bytes) (at' : ℕ) : ℕ :=
  if 2 ≤ at' ∧ body[at' - 2]? = some CR ∧ body[at' - 1]? = some LF then at' - 2
  else if 1 ≤ at' ∧ body[at' - 1]? = some LF then at' - 1
  else at'

/-- The sections behind a delimiter, within the room that is left. -/
def sectionsFrom (body delimiter : Bytes) : ℕ → ℕ → Option (List Bytes)
  | room, cursor =>
    let start := cursor + delimiter.length
    if subarray body start (start + 2) = [DASH, DASH] then some []
    else
      match room with
      | 0 => none
      | room + 1 =>
        match findDelimiter body delimiter start with
        | none => some [subarray body (skipLineBreak body start) body.length]
        | some next =>
          (sectionsFrom body delimiter room next).map fun sections =>
            subarray body (skipLineBreak body start) (trimLineBreak body next) :: sections

/-- `sections.map((part) => parsePart(part, depth, budget))`, each held to what is left. -/
def readEach {α : Type} (parsePart : Bytes → ℕ → α × ℕ) : List Bytes → ℕ → List α × ℕ
  | [], remaining => ([], remaining)
  | part :: parts, remaining =>
    let (first, left) := parsePart part remaining
    let (rest, left) := readEach parsePart parts left
    (first :: rest, left)

def splitMultipart {α : Type} (parsePart : Bytes → ℕ → α × ℕ) (body : Bytes)
    (boundary : Option (List ℕ)) (remaining : ℕ) : Option (List α × ℕ) :=
  match boundary with
  | none => none
  | some [] => none
  | some boundary =>
    let delimiter := delimiterOf boundary
    match findDelimiter body delimiter 0 with
    | none => none
    | some cursor =>
      match sectionsFrom body delimiter remaining cursor with
      | none => none
      | some [] => none
      | some sections => some (readEach parsePart sections (remaining - sections.length))

/-! ### Composing a multipart body -/

inductive LineBreak where
  | crlf
  | lf
  deriving DecidableEq, Repr

def LineBreak.bytes : LineBreak → Bytes
  | .crlf => [CR, LF]
  | .lf => [LF]

/-- A part between the line break of its delimiter and that of the next. -/
structure BodyPart where
  opening : LineBreak
  bytes : Bytes
  closing : LineBreak

/-- Parts under a delimiter, and what follows the delimiter that closes them. -/
def enclosed (delimiter epilogue : Bytes) : List BodyPart → Bytes
  | [] => delimiter ++ (DASH :: DASH :: epilogue)
  | part :: parts =>
    delimiter ++ (part.opening.bytes ++ (part.bytes ++ (part.closing.bytes ++
      enclosed delimiter epilogue parts)))

/-- What stands in front of the first delimiter, with the line break of its own. -/
def leadOf : Option (Bytes × LineBreak) → Bytes
  | none => []
  | some (preamble, stop) => preamble ++ stop.bytes

def composed (delimiter : Bytes) (preamble : Option (Bytes × LineBreak)) (parts : List BodyPart)
    (epilogue : Bytes) : Bytes := leadOf preamble ++ enclosed delimiter epilogue parts

/-- The delimiter is at the start of no line of a text. -/
def Clear (delimiter : Bytes) (prev : Option UInt8) (text : Bytes) : Prop :=
  ∀ before, ¬ Stands startsLine delimiter prev text before

/-- A part that can be told from what encloses it. -/
structure BodyPart.Enclosable (delimiter : Bytes) (part : BodyPart) : Prop where
  clear : Clear delimiter (some LF) part.bytes
  /-- A carriage return in front of a bare line feed would be one line break with it. -/
  closes : part.closing = .lf → part.bytes.getLast? ≠ some CR

/-- A delimiter of one line. -/
structure OneLine (delimiter : Bytes) : Prop where
  nonempty : delimiter ≠ []
  noBreak : ∀ stop : LineBreak, ∀ c ∈ stop.bytes, c ∉ delimiter

namespace LineBreak

variable (stop : LineBreak)

@[simp] theorem length_crlf : crlf.bytes.length = 2 := rfl

@[simp] theorem length_lf : lf.bytes.length = 1 := rfl

theorem bytes_ne_nil : stop.bytes ≠ [] := by cases stop <;> exact List.cons_ne_nil _ _

theorem charBefore_bytes (prev : Option UInt8) (text : Bytes) :
    charBefore prev (text ++ stop.bytes) = some LF := by
  unfold charBefore
  cases stop <;> simp [bytes, List.getLast?_append]

end LineBreak

variable {delimiter : Bytes}

/-- What is clear behind a line break is clear with it. -/
theorem Clear.behind (hdelimiter : OneLine delimiter) {text : Bytes}
    (hclear : Clear delimiter (some LF) text) (stop : LineBreak) (prev : Option UInt8) :
    Clear delimiter prev (stop.bytes ++ text) := by
  -- the delimiter begins with none of the break's bytes
  have hhead : ∀ {c : UInt8} {prev : Option UInt8} {text : Bytes}, c ∈ stop.bytes →
      ¬ Stands startsLine delimiter prev (c :: text) [] := by
    intro c prev text hc hstands
    obtain ⟨-, hprefix⟩ := stands_nil.mp hstands
    obtain ⟨d, rest, rfl⟩ := List.exists_cons_of_ne_nil hdelimiter.nonempty
    obtain ⟨rfl, -⟩ := List.cons_prefix_cons.mp hprefix
    exact hdelimiter.noBreak stop d hc List.mem_cons_self
  intro before hstands
  cases stop with
  | crlf =>
    match before with
    | [] => exact hhead List.mem_cons_self hstands
    | [c] =>
      have hnext := (stands_cons.mp hstands).2
      exact hhead (List.mem_cons_of_mem _ List.mem_cons_self) hnext
    | c :: d :: before =>
      have hnext := (stands_cons.mp hstands).2
      exact hclear before (stands_cons.mp hnext).2
  | lf =>
    match before with
    | [] => exact hhead List.mem_cons_self hstands
    | c :: before => exact hclear before (stands_cons.mp hstands).2

theorem getElem?_behind (lead rest : Bytes) (i : ℕ) : (lead ++ rest)[lead.length + i]? = rest[i]? := by
  rw [List.getElem?_append_right (Nat.le_add_right _ _), Nat.add_sub_cancel_left]

theorem skipLineBreak_behind (lead rest : Bytes) (stop : LineBreak) :
    skipLineBreak (lead ++ (stop.bytes ++ rest)) lead.length = lead.length + stop.bytes.length := by
  have hfirst := getElem?_behind lead (stop.bytes ++ rest) 0
  have hsecond := getElem?_behind lead (stop.bytes ++ rest) 1
  rw [Nat.add_zero] at hfirst
  unfold skipLineBreak
  rw [hfirst, hsecond]
  cases stop with
  | crlf => rfl
  | lf =>
    rw [if_neg]
    · rfl
    · rintro ⟨hcr, -⟩
      cases hcr

theorem trimLineBreak_behind (lead rest : Bytes) (stop : LineBreak)
    (hlead : stop = .lf → lead.getLast? ≠ some CR) :
    trimLineBreak (lead ++ (stop.bytes ++ rest)) (lead.length + stop.bytes.length) = lead.length := by
  have hfirst := getElem?_behind lead (stop.bytes ++ rest) 0
  have hsecond := getElem?_behind lead (stop.bytes ++ rest) 1
  rw [Nat.add_zero] at hfirst
  unfold trimLineBreak
  cases stop with
  | crlf =>
    rw [LineBreak.length_crlf, Nat.add_sub_cancel, show lead.length + 2 - 1 = lead.length + 1 from rfl,
      hfirst, hsecond, if_pos ⟨Nat.le_add_left _ _, rfl, rfl⟩]
  | lf =>
    rw [LineBreak.length_lf, Nat.add_sub_cancel, hfirst, if_neg, if_pos ⟨Nat.le_add_left _ _, rfl⟩]
    rintro ⟨hlength, hcr, -⟩
    refine hlead rfl ?_
    rw [List.getLast?_eq_getElem?, ← hcr, List.getElem?_append_left (by omega)]
    rfl

theorem subarray_behind (lead rest : Bytes) (n : ℕ) :
    subarray (lead ++ rest) lead.length (lead.length + n) = rest.take n := by
  unfold subarray
  rw [List.take_length_add_append, List.drop_left' rfl]

/-! ### Splitting it -/

theorem enclosed_eq (delimiter epilogue : Bytes) (parts : List BodyPart) :
    ∃ after, enclosed delimiter epilogue parts = delimiter ++ after := by
  cases parts with
  | nil => exact ⟨_, rfl⟩
  | cons part parts => exact ⟨_, rfl⟩

/-- The next delimiter is found behind the part, however the part begins. -/
theorem findDelimiter_behind (hdelimiter : OneLine delimiter) {part : BodyPart}
    (hpart : part.Enclosable delimiter) {lead : Bytes} (hlead : lead ≠ []) (after : Bytes) :
    findDelimiter (lead ++ (part.opening.bytes ++ (part.bytes ++ (part.closing.bytes ++
        (delimiter ++ after))))) delimiter lead.length =
      some ((lead ++ (part.opening.bytes ++ part.bytes)).length + part.closing.bytes.length) := by
  have hpos : lead.length ≠ 0 := fun h => hlead (List.length_eq_zero_iff.mp h)
  have hscan : ∀ prev, scan startsLine delimiter prev
      ((part.opening.bytes ++ part.bytes) ++ (part.closing.bytes ++ (delimiter ++ after))) =
        some ((part.opening.bytes ++ part.bytes).length + part.closing.bytes.length) := by
    intro prev
    refine scan_break (hpart.clear.behind hdelimiter part.opening prev) hdelimiter.nonempty
      part.closing.bytes_ne_nil (hdelimiter.noBreak part.closing) ?_
    rw [part.closing.charBefore_bytes]
    rfl
  unfold findDelimiter
  rw [List.drop_left' rfl, ← List.append_assoc part.opening.bytes, hscan, Option.map_some,
    ← Nat.add_assoc, ← List.length_append]

section Sections

variable {body : Bytes} {cursor room : ℕ}

theorem sectionsFrom_close
    (h : subarray body (cursor + delimiter.length) (cursor + delimiter.length + 2) = [DASH, DASH]) :
    sectionsFrom body delimiter room cursor = some [] := by
  unfold sectionsFrom
  exact if_pos h

theorem sectionsFrom_next {next : ℕ}
    (h : subarray body (cursor + delimiter.length) (cursor + delimiter.length + 2) ≠ [DASH, DASH])
    (hnext : findDelimiter body delimiter (cursor + delimiter.length) = some next) :
    sectionsFrom body delimiter (room + 1) cursor =
      (sectionsFrom body delimiter room next).map fun sections =>
        subarray body (skipLineBreak body (cursor + delimiter.length)) (trimLineBreak body next) ::
          sections := by
  rw [sectionsFrom, if_neg h, hnext]

end Sections

/-- What follows the delimiter of a part does not close the body. -/
theorem take_opening (stop : LineBreak) (rest : Bytes) :
    (stop.bytes ++ rest).take 2 ≠ [DASH, DASH] := by
  intro h
  cases stop with
  | crlf => exact absurd (List.cons.inj h).1 (by decide)
  | lf => exact absurd (List.cons.inj h).1 (by decide)

/-- A part and its opening break end in a carriage return only where the part does. -/
theorem getLast?_opening {part : BodyPart} (hpart : part.Enclosable delimiter) (lead : Bytes) :
    part.closing = .lf → (lead ++ (part.opening.bytes ++ part.bytes)).getLast? ≠ some CR := by
  intro hclosing hlast
  have hcloses := hpart.closes hclosing
  rw [List.getLast?_append, List.getLast?_append] at hlast
  cases hbytes : part.bytes.getLast? with
  | none =>
    rw [hbytes] at hlast
    cases hopening : part.opening with
    | crlf =>
      rw [hopening] at hlast
      exact absurd (Option.some.inj hlast) (by decide)
    | lf =>
      rw [hopening] at hlast
      exact absurd (Option.some.inj hlast) (by decide)
  | some c =>
    rw [hbytes] at hlast hcloses
    exact hcloses hlast

/-- **The sections** of enclosed parts are the parts. -/
theorem sectionsFrom_enclosed (hdelimiter : OneLine delimiter) (epilogue : Bytes) :
    ∀ {parts : List BodyPart} {lead : Bytes} {room : ℕ},
      (∀ part ∈ parts, part.Enclosable delimiter) → parts.length ≤ room →
        sectionsFrom (lead ++ enclosed delimiter epilogue parts) delimiter room lead.length =
          some (parts.map (·.bytes)) := by
  intro parts
  induction parts with
  | nil =>
    intro lead room _ _
    refine sectionsFrom_close ?_
    unfold enclosed
    rw [← List.append_assoc, ← List.length_append, subarray_behind]
    rfl
  | cons part parts ih =>
    intro lead room hparts hroom
    obtain ⟨room, rfl⟩ : ∃ n, room = n + 1 := ⟨room - 1, by
      rw [List.length_cons] at hroom
      omega⟩
    have hpart := hparts part List.mem_cons_self
    have hlead : lead ++ delimiter ≠ [] := by
      intro h
      exact hdelimiter.nonempty (List.append_eq_nil_iff.mp h).2
    obtain ⟨after, hafter⟩ := enclosed_eq delimiter epilogue parts
    have hbody : lead ++ enclosed delimiter epilogue (part :: parts) =
        (lead ++ delimiter) ++ (part.opening.bytes ++ (part.bytes ++ (part.closing.bytes ++
          enclosed delimiter epilogue parts))) := by
      simp only [enclosed, List.append_assoc]
    have hbehind : lead ++ enclosed delimiter epilogue (part :: parts) =
        ((lead ++ delimiter) ++ (part.opening.bytes ++ part.bytes)) ++
          (part.closing.bytes ++ enclosed delimiter epilogue parts) := by
      simp only [enclosed, List.append_assoc]
    have hsection : lead ++ enclosed delimiter epilogue (part :: parts) =
        ((lead ++ delimiter) ++ part.opening.bytes) ++
          (part.bytes ++ (part.closing.bytes ++ enclosed delimiter epilogue parts)) := by
      simp only [enclosed, List.append_assoc]
    have hskip := skipLineBreak_behind (lead ++ delimiter)
      (part.bytes ++ (part.closing.bytes ++ enclosed delimiter epilogue parts)) part.opening
    rw [← hbody] at hskip
    have htrim := trimLineBreak_behind ((lead ++ delimiter) ++ (part.opening.bytes ++ part.bytes))
      (enclosed delimiter epilogue parts) part.closing (getLast?_opening hpart _)
    rw [← hbehind] at htrim
    have hnext := findDelimiter_behind hdelimiter hpart hlead after
    rw [← hafter, ← hbody] at hnext
    have hstart : (lead ++ delimiter).length = lead.length + delimiter.length := List.length_append
    rw [hstart] at hnext hskip
    rw [sectionsFrom_next _ hnext, hskip, htrim]
    · have hnextLength : ((lead ++ delimiter) ++ (part.opening.bytes ++ part.bytes)).length +
          part.closing.bytes.length =
          (((lead ++ delimiter) ++ (part.opening.bytes ++ part.bytes)) ++
            part.closing.bytes).length := List.length_append.symm
      have hrest : sectionsFrom ((((lead ++ delimiter) ++ (part.opening.bytes ++ part.bytes)) ++
          part.closing.bytes) ++ enclosed delimiter epilogue parts) delimiter room
          (((lead ++ delimiter) ++ (part.opening.bytes ++ part.bytes)) ++
            part.closing.bytes).length = some (parts.map (·.bytes)) :=
        ih (fun part hpart => hparts part (List.mem_cons_of_mem _ hpart))
          (Nat.le_of_succ_le_succ hroom)
      rw [List.append_assoc _ part.closing.bytes, ← hbehind] at hrest
      rw [hnextLength, hrest, Option.map_some, List.map_cons, Option.some_inj]
      congr 1
      have hbytes := subarray_append ((lead ++ delimiter) ++ part.opening.bytes) part.bytes
        (part.closing.bytes ++ enclosed delimiter epilogue parts)
      rw [← hsection] at hbytes
      have hstop : ((lead ++ delimiter) ++ (part.opening.bytes ++ part.bytes)).length =
          ((lead ++ delimiter) ++ part.opening.bytes).length + part.bytes.length := by
        rw [← List.append_assoc, List.length_append]
      rw [hstop, ← hstart, ← List.length_append]
      exact hbytes
    · rw [hbody, ← hstart, subarray_behind]
      exact take_opening part.opening _

/-- What stands in front of the first delimiter holds none at the start of a line. -/
def LeadClear (delimiter : Bytes) (preamble : Option (Bytes × LineBreak)) : Prop :=
  ∀ text stop, preamble = some (text, stop) → Clear delimiter none text

theorem findDelimiter_lead (hdelimiter : OneLine delimiter) {preamble : Option (Bytes × LineBreak)}
    (hpreamble : LeadClear delimiter preamble) (after : Bytes) :
    findDelimiter (leadOf preamble ++ (delimiter ++ after)) delimiter 0 =
      some (leadOf preamble).length := by
  unfold findDelimiter
  rw [if_pos rfl, List.drop_zero]
  cases preamble with
  | none =>
    have hstands : Stands startsLine delimiter none (delimiter ++ after) [] := ⟨rfl, after, rfl⟩
    rw [leadOf, List.nil_append, scan_eq_of_first hstands fun _ _ => Nat.zero_le _]
    rfl
  | some lead =>
    obtain ⟨text, stop⟩ := lead
    have hopens : startsLine (charBefore none (text ++ stop.bytes)) = true := by
      rw [stop.charBefore_bytes]
      rfl
    rw [leadOf, List.append_assoc, scan_break (hpreamble text stop rfl) hdelimiter.nonempty
      stop.bytes_ne_nil (hdelimiter.noBreak stop) hopens, List.length_append, Option.map_some,
      Nat.zero_add]

/-- A boundary of one line that is not empty. -/
structure Boundary (boundary : List ℕ) : Prop where
  nonempty : boundary ≠ []
  oneLine : CR ∉ delimiterOf boundary ∧ LF ∉ delimiterOf boundary

theorem Boundary.isOneLine {boundary : List ℕ} (h : Boundary boundary) :
    OneLine (delimiterOf boundary) where
  nonempty := List.cons_ne_nil _ _
  noBreak := by
    intro stop c hc hmem
    cases stop with
    | crlf =>
      rcases List.mem_cons.mp hc with rfl | hc
      · exact h.oneLine.1 hmem
      · obtain rfl := List.mem_singleton.mp hc
        exact h.oneLine.2 hmem
    | lf =>
      obtain rfl := List.mem_singleton.mp hc
      exact h.oneLine.2 hmem

/-- **Splitting what was composed** reads each part as it was put in, whatever reads one. -/
theorem splitMultipart_composed {α : Type} (parsePart : Bytes → ℕ → α × ℕ) {boundary : List ℕ}
    (hboundary : Boundary boundary) {preamble : Option (Bytes × LineBreak)}
    (hpreamble : LeadClear (delimiterOf boundary) preamble) {parts : List BodyPart}
    (hparts : ∀ part ∈ parts, part.Enclosable (delimiterOf boundary)) (hsome : parts ≠ [])
    (epilogue : Bytes) {remaining : ℕ} (hroom : parts.length ≤ remaining) :
    splitMultipart parsePart (composed (delimiterOf boundary) preamble parts epilogue)
        (some boundary) remaining =
      some (readEach parsePart (parts.map (·.bytes)) (remaining - parts.length)) := by
  have hdelimiter := hboundary.isOneLine
  obtain ⟨after, hafter⟩ := enclosed_eq (delimiterOf boundary) epilogue parts
  have hfirst := findDelimiter_lead hdelimiter hpreamble after
  rw [← hafter] at hfirst
  have hsections : sectionsFrom (composed (delimiterOf boundary) preamble parts epilogue)
      (delimiterOf boundary) remaining (leadOf preamble).length = some (parts.map (·.bytes)) :=
    sectionsFrom_enclosed hdelimiter epilogue hparts hroom
  obtain ⟨part, parts, rfl⟩ := List.exists_cons_of_ne_nil hsome
  obtain ⟨c, boundary, rfl⟩ := List.exists_cons_of_ne_nil hboundary.nonempty
  unfold splitMultipart
  dsimp only
  unfold composed at hsections ⊢
  rw [hfirst]
  dsimp only
  rw [hsections, List.map_cons]
  dsimp only
  rw [List.length_cons, List.length_map, List.length_cons]

/-- A part as it is, for what it leaves of the room. -/
def asBytes (raw : Bytes) (remaining : ℕ) : Bytes × ℕ := (raw, remaining)

theorem clear_of_scan {prev : Option UInt8} {text : Bytes}
    (h : scan startsLine delimiter prev text = none) : Clear delimiter prev text := scan_none h

/-- Two parts, one of them empty, under the boundary b behind a preamble. -/
theorem splitMultipart_pair :
    splitMultipart asBytes (composed (delimiterOf [0x62]) (some ([0x61], .crlf))
        [⟨.crlf, [0x61, CR], .crlf⟩, ⟨.lf, [], .lf⟩] [LF]) (some [0x62]) 3 =
      some (readEach asBytes [[0x61, CR], []] 1) := by
  refine splitMultipart_composed asBytes ⟨by decide, by decide, by decide⟩ ?_ ?_ (by decide) [LF]
    (by decide)
  · intro text stop heq
    obtain ⟨rfl, rfl⟩ := Prod.mk.inj (Option.some.inj heq)
    exact clear_of_scan (by decide)
  · intro part hpart
    rcases List.mem_cons.mp hpart with rfl | hpart
    · exact ⟨clear_of_scan (by decide), nofun⟩
    · obtain rfl := List.mem_singleton.mp hpart
      exact ⟨clear_of_scan (by decide), fun _ => by decide⟩

/-- What is composed and not read back: a carriage return at the end of a part between bare line
feeds, a boundary that ends in one, a preamble that holds the delimiter, no part at all, and more
parts than there is room for. -/
theorem splitMultipart_unlike :
    (Clear (delimiterOf [0x62]) (some LF) [0x61, CR] ∧
      splitMultipart asBytes (composed (delimiterOf [0x62]) none [⟨.lf, [0x61, CR], .lf⟩] [])
        (some [0x62]) 1 = some ([[0x61]], 0)) ∧
    (Clear (delimiterOf [0x62, 0x0D]) (some LF) [DASH, DASH, 0x62] ∧
      splitMultipart asBytes (composed (delimiterOf [0x62, 0x0D]) none
        [⟨.crlf, [DASH, DASH, 0x62], .crlf⟩] []) (some [0x62, 0x0D]) 3 = some ([[], []], 1)) ∧
    splitMultipart asBytes (composed (delimiterOf [0x62]) (some ([DASH, DASH, 0x62], .lf))
      [⟨.lf, [0x61], .lf⟩] []) (some [0x62]) 3 = some ([[], [0x61]], 1) ∧
    splitMultipart asBytes (composed (delimiterOf [0x62]) none [] []) (some [0x62]) 3 = none ∧
    splitMultipart asBytes (composed (delimiterOf [0x62]) none
      [⟨.lf, [], .lf⟩, ⟨.lf, [], .lf⟩] []) (some [0x62]) 1 = none := by
  refine ⟨⟨clear_of_scan (by decide), by decide⟩, ⟨clear_of_scan (by decide), by decide⟩, ?_⟩
  decide

end OpenBrf.Mime
