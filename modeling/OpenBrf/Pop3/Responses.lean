import OpenBrf.Pop3.MultilineCommand

/-!
# Pop3.Responses — a response however the socket cuts it
-/

namespace OpenBrf.Pop3

open Lang Search

/-! ### What a server sends -/

/-- A line of a response holds no line break. -/
def Unbroken (line : Bytes) : Prop := ∀ before after, line ≠ before ++ (CRLF ++ after)

/-- A line that begins with the terminator's dot is sent with another in front. -/
def stuffed (line : Bytes) : Bytes := if line.head? = some DOT then DOT :: line else line

def TERMINATOR : Bytes := DOT :: CRLF

/-- The lines of a body, unstuffed. -/
def bodyOf (lines : List Bytes) : Bytes := lines.flatMap fun line => line ++ CRLF

/-- The lines of a body as they are sent. -/
def stuffedLines (lines : List Bytes) : Bytes := lines.flatMap fun line => stuffed line ++ CRLF

structure Response where
  status : Bytes
  lines : List Bytes
  accepted : OK <+: status
  short : status.length < MAX_STATUS_LINE_BYTES
  statusUnbroken : Unbroken status
  linesUnbroken : ∀ line ∈ lines, Unbroken line

namespace Response

variable (response : Response)

def body : Bytes := bodyOf response.lines

/-- The response up to its terminator. -/
def opening : Bytes := response.status ++ CRLF ++ stuffedLines response.lines

def sent : Bytes := response.opening ++ TERMINATOR

end Response

@[simp] theorem bodyOf_cons (line : Bytes) (lines : List Bytes) :
    bodyOf (line :: lines) = line ++ CRLF ++ bodyOf lines := rfl

@[simp] theorem stuffedLines_cons (line : Bytes) (lines : List Bytes) :
    stuffedLines (line :: lines) = stuffed line ++ CRLF ++ stuffedLines lines := rfl

theorem unbroken_stuffed {line : Bytes} (h : Unbroken line) : Unbroken (stuffed line) := by
  unfold stuffed
  split_ifs
  · intro before after heq
    cases before with
    | nil => exact absurd (List.cons.inj heq).1 (by decide)
    | cons c before => exact h before after (List.cons.inj heq).2
  · exact h

/-! ### Finding the end of a line -/

/-- The first line break of a line stands behind it. -/
theorem indexOfCRLF_line {line : Bytes} (h : Unbroken line) (rest : Bytes) :
    indexOfCRLF (line ++ (CRLF ++ rest)) = some line.length := by
  refine scan_eq_of_first ⟨rfl, rest, rfl⟩ fun before hstands => ?_
  obtain ⟨-, after, htext⟩ := hstands
  rcases List.append_eq_append_iff.mp htext with ⟨between, rfl, -⟩ | ⟨between, rfl, hbetween⟩
  · rw [List.length_append]
    exact Nat.le_add_right _ _
  · -- the break would begin inside the line
    match between, hbetween with
    | [], _ => rw [List.append_nil]
    | [c], hbetween =>
      have hsecond := (List.cons.inj (List.cons.inj hbetween).2).1
      exact absurd hsecond (by decide)
    | c :: d :: between, hbetween =>
      obtain ⟨rfl, htail⟩ := List.cons.inj hbetween
      obtain ⟨rfl, -⟩ := List.cons.inj htail
      exact absurd rfl (h before between)

/-- Part of a line holds no line break. -/
theorem indexOfCRLF_part {line part rest : Bytes} (h : Unbroken line) (hrest : rest ≠ [])
    (hpart : part ++ rest = line ++ CRLF) : indexOfCRLF part = none := by
  cases hscan : indexOfCRLF part with
  | none => rfl
  | some n =>
    exfalso
    obtain ⟨before, -, ⟨-, after, rfl⟩, -⟩ := scan_some hscan
    have hfound := indexOfCRLF_line h []
    rw [List.append_nil, ← hpart, List.append_assoc, List.append_assoc] at hfound
    obtain ⟨first, hfirst, -, hleast⟩ := scan_some hfound
    have hle := hleast before ⟨rfl, after ++ rest, rfl⟩
    have hlength := congrArg List.length hpart
    have hpos := List.length_pos_of_ne_nil hrest
    simp only [List.length_append] at hlength
    omega

theorem append_split {b rest u v : Bytes} (h : b ++ rest = u ++ v) :
    (∃ t, b = u ++ t ∧ t ++ rest = v) ∨ ∃ t, t ≠ [] ∧ b ++ t = u ∧ rest = t ++ v := by
  rcases List.append_eq_append_iff.mp h with ⟨t, rfl, hrest⟩ | ⟨t, rfl, hv⟩
  · cases t with
    | nil => exact .inl ⟨[], by rw [List.append_nil, List.append_nil], hrest⟩
    | cons c t => exact .inr ⟨c :: t, List.cons_ne_nil _ _, rfl, hrest⟩
  · exact .inl ⟨t, rfl, hv.symm⟩

/-! ### The whole lines of what has been received -/

section Lines

variable {maxBytes : ℕ} {body : Body} {written : Bytes}

theorem readLines_part {buffered : Bytes} (h : indexOfCRLF buffered = none) (n : ℕ) :
    readLines maxBytes n buffered body = .part buffered body := by
  cases n with
  | zero => rfl
  | succ n =>
    unfold readLines
    rw [h]

theorem readLines_terminator (n : ℕ) (rest : Bytes) :
    readLines maxBytes (n + 1) (TERMINATOR ++ rest) body = .finished body rest := by
  have hdot : Unbroken [DOT] := by
    intro before after heq
    have hlength := congrArg List.length heq
    simp only [List.length_append, List.length_cons, List.length_nil, CRLF] at hlength
    omega
  have hindex : indexOfCRLF (TERMINATOR ++ rest) = some 1 := indexOfCRLF_line hdot rest
  unfold readLines
  rw [hindex]
  exact if_pos ⟨rfl, rfl⟩

theorem readLines_line {line : Bytes} (h : Unbroken line) (n : ℕ) (rest : Bytes) :
    readLines maxBytes (n + 1) (stuffed line ++ CRLF ++ rest) body =
      if maxBytes < body.total + line.length + CRLF.length then .tooLarge
      else readLines maxBytes n rest (body.write maxBytes line) := by
  have hdrop : (stuffed line ++ (CRLF ++ rest)).drop ((stuffed line).length + 2) = rest := by
    rw [← List.append_assoc, List.drop_left' (by rw [List.length_append]; rfl)]
  rw [List.append_assoc, readLines, indexOfCRLF_line (unbroken_stuffed h)]
  dsimp only
  rw [hdrop, List.take_left' rfl]
  by_cases hdot : line.head? = some DOT
  · have hstuffed : stuffed line = DOT :: line := if_pos hdot
    have hhead : (stuffed line ++ (CRLF ++ rest)).head? = some DOT := by rw [hstuffed]; rfl
    have hlength : (stuffed line).length ≠ 1 := by
      rw [hstuffed]
      cases line with
      | nil => cases hdot
      | cons c line => simp
    rw [if_neg fun hterminator => hlength hterminator.1, hhead, if_pos rfl, hstuffed]
    rfl
  · have hstuffed : stuffed line = line := if_neg hdot
    have hhead : (stuffed line ++ (CRLF ++ rest)).head? ≠ some DOT := by
      rw [hstuffed]
      cases line with
      | nil =>
        intro heq
        exact absurd (Option.some.inj heq) (by decide)
      | cons c line => exact hdot
    rw [if_neg fun hterminator => hhead hterminator.2, if_neg hhead, hstuffed]
    rfl

/-- What is left is part of the next line, or of the terminator. -/
def PartOf (buffered : Bytes) : List Bytes → Prop
  | [] => ∃ rest, rest ≠ [] ∧ buffered ++ rest = TERMINATOR
  | line :: _ => ∃ rest, rest ≠ [] ∧ buffered ++ rest = stuffed line ++ CRLF

/-- What the whole lines of a response come to. -/
inductive ReadLines (maxBytes : ℕ) (lines : List Bytes) (written buffered : Bytes) : Lines → Prop where
  | finished {body' : Body} {left : Bytes} : body'.Holds (written ++ bodyOf lines) →
      (written ++ bodyOf lines).length ≤ maxBytes →
      buffered = stuffedLines lines ++ (TERMINATOR ++ left) →
      ReadLines maxBytes lines written buffered (.finished body' left)
  | tooLarge : maxBytes < (written ++ bodyOf lines).length →
      ReadLines maxBytes lines written buffered .tooLarge
  | part {done rest : List Bytes} {left : Bytes} {body' : Body} : lines = done ++ rest →
      buffered = stuffedLines done ++ left → body'.Holds (written ++ bodyOf done) →
      (written ++ bodyOf done).length ≤ maxBytes → PartOf left rest →
      ReadLines maxBytes lines written buffered (.part left body')

theorem readLines_sent : ∀ {lines : List Bytes} {buffered arriving trailing written : Bytes}
    {body : Body} {n : ℕ}, (∀ line ∈ lines, Unbroken line) →
      buffered ++ arriving = stuffedLines lines ++ (TERMINATOR ++ trailing) → buffered.length ≤ n →
      body.Holds written → written.length ≤ maxBytes →
      ReadLines maxBytes lines written buffered (readLines maxBytes n buffered body) := by
  intro lines
  induction lines with
  | nil =>
    intro buffered arriving trailing written body n _ hstream hn hholds hle
    have hdone : written ++ bodyOf [] = written := List.append_nil written
    have hterminator : buffered ++ arriving = TERMINATOR ++ trailing := hstream
    rcases append_split hterminator with ⟨left, rfl, -⟩ | ⟨rest, hrest, hpart, -⟩
    · cases n with
      | zero =>
        rw [List.length_append] at hn
        exact absurd hn (by simp [TERMINATOR])
      | succ n =>
        rw [readLines_terminator]
        refine .finished ?_ ?_ rfl
        · rwa [hdone]
        · rwa [hdone]
    · have hdot : Unbroken [DOT] := by
        intro before after heq
        have hlength := congrArg List.length heq
        simp only [List.length_append, List.length_cons, List.length_nil, CRLF] at hlength
        omega
      rw [readLines_part (indexOfCRLF_part hdot hrest hpart)]
      refine .part (List.nil_append _).symm rfl ?_ ?_ ⟨rest, hrest, hpart⟩
      · rwa [hdone]
      · rwa [hdone]
  | cons line lines ih =>
    intro buffered arriving trailing written body n hlines hstream hn hholds hle
    have hline := hlines line List.mem_cons_self
    have hstream' : buffered ++ arriving =
        (stuffed line ++ CRLF) ++ (stuffedLines lines ++ (TERMINATOR ++ trailing)) := by
      rw [hstream, stuffedLines_cons, List.append_assoc]
    rcases append_split hstream' with ⟨left, rfl, hleft⟩ | ⟨rest, hrest, hpart, -⟩
    · cases n with
      | zero =>
        simp only [List.length_append, CRLF, List.length_cons] at hn
        omega
      | succ n =>
        have hbody : (written ++ bodyOf (line :: lines)) =
            (written ++ (line ++ CRLF)) ++ bodyOf lines := by
          simp only [bodyOf_cons, List.append_assoc]
        rw [readLines_line hline, hholds.total]
        split_ifs with hsize
        · refine .tooLarge ?_
          rw [hbody, List.length_append, List.length_append, List.length_append]
          omega
        · have hsize := Nat.le_of_not_lt hsize
          have hlength : left.length ≤ n := by
            simp only [List.length_append, CRLF, List.length_cons] at hn
            omega
          have hle' : (written ++ (line ++ CRLF)).length ≤ maxBytes := by
            rw [List.length_append, List.length_append]
            omega
          have hnext := ih (fun line hmem => hlines line (List.mem_cons_of_mem _ hmem)) hleft hlength
            (hholds.write hsize) hle'
          revert hnext
          generalize readLines maxBytes n left (body.write maxBytes line) = outcome
          intro hnext
          cases hnext with
          | finished hholds' hle'' hbuffered =>
            rw [← hbody] at hholds' hle''
            refine .finished hholds' hle'' ?_
            rw [hbuffered]
            simp only [stuffedLines_cons, List.append_assoc]
          | tooLarge hlt =>
            rw [← hbody] at hlt
            exact .tooLarge hlt
          | @part done rest left' body' hdone hbuffered hholds' hle'' hpart =>
            have hbody' : (written ++ bodyOf (line :: done)) =
                (written ++ (line ++ CRLF)) ++ bodyOf done := by
              simp only [bodyOf_cons, List.append_assoc]
            rw [← hbody'] at hholds' hle''
            refine .part (by rw [hdone, List.cons_append]) ?_ hholds' hle'' hpart
            rw [hbuffered]
            simp only [stuffedLines_cons, List.append_assoc]
    · have hnone := indexOfCRLF_part (unbroken_stuffed hline) hrest hpart
      have hdone : written ++ bodyOf [] = written := List.append_nil written
      rw [readLines_part hnone]
      refine .part (List.nil_append _).symm rfl ?_ ?_ ⟨rest, hrest, hpart⟩
      · rwa [hdone]
      · rwa [hdone]

end Lines

/-! ### However the socket cuts it -/

/-- What has been received at each read of the socket. -/
def reads : Bytes → List Bytes → List Bytes
  | buffered, [] => [buffered]
  | buffered, chunk :: rest => buffered :: reads (buffered ++ chunk) rest

theorem reads_cons (buffered chunk : Bytes) (rest : List Bytes) :
    reads buffered (chunk :: rest) = buffered :: reads (buffered ++ chunk) rest := rfl

theorem mem_reads_append {lead buffered p : Bytes} {arriving : List Bytes} :
    lead ++ p ∈ reads (lead ++ buffered) arriving ↔ p ∈ reads buffered arriving := by
  induction arriving generalizing buffered with
  | nil =>
    unfold reads
    rw [List.mem_singleton, List.mem_singleton]
    exact List.append_cancel_left_eq lead p buffered ▸ Iff.rfl
  | cons chunk rest ih =>
    unfold reads
    rw [List.mem_cons, List.mem_cons, List.append_assoc, ih, List.append_cancel_left_eq]

theorem length_le_of_mem_reads {p : Bytes} : ∀ {arriving : List Bytes} {buffered : Bytes},
    p ∈ reads buffered arriving → buffered.length ≤ p.length := by
  intro arriving
  induction arriving with
  | nil =>
    intro buffered h
    rw [List.mem_singleton.mp h]
  | cons chunk rest ih =>
    intro buffered h
    rcases List.mem_cons.mp h with rfl | h
    · exact Nat.le_refl _
    · have hle := ih h
      rw [List.length_append] at hle
      omega

/-- A read ends inside the terminator, where what it holds of it would take the body past the
bound. -/
def CutShort (maxBytes size : ℕ) (opening buffered : Bytes) (arriving : List Bytes) : Prop :=
  ∃ k, k < TERMINATOR.length ∧ maxBytes < size + k ∧
    opening ++ TERMINATOR.take k ∈ reads buffered arriving

/-- What a response comes to, from its lines on. -/
structure Comes (maxBytes : ℕ) (body trailing : Bytes) (cut : Prop) (answer : Answer Bytes) : Prop where
  tooLarge : maxBytes < body.length → answer = .refused .tooLarge
  cutShort : body.length ≤ maxBytes → cut → answer = .refused .tooLarge
  whole : body.length ≤ maxBytes → ¬ cut → ∃ left, answer = .given body left ∧
    left.buffered ++ left.arriving.flatten = trailing

theorem mem_reads_self (buffered : Bytes) (arriving : List Bytes) :
    buffered ∈ reads buffered arriving := by
  cases arriving <;> exact List.mem_cons_self

theorem bodyOf_append (done rest : List Bytes) : bodyOf (done ++ rest) = bodyOf done ++ bodyOf rest :=
  List.flatMap_append

theorem stuffedLines_append (done rest : List Bytes) :
    stuffedLines (done ++ rest) = stuffedLines done ++ stuffedLines rest := List.flatMap_append

section Response

variable {maxBytes : ℕ} {lines : List Bytes} {buffered written trailing : Bytes}
  {arriving : List Bytes}

theorem comes_finished {body' : Body} {left : Bytes} (hholds : body'.Holds (written ++ bodyOf lines))
    (hle : (written ++ bodyOf lines).length ≤ maxBytes)
    (hbuffered : buffered = stuffedLines lines ++ (TERMINATOR ++ left))
    (hstream : buffered ++ arriving.flatten = stuffedLines lines ++ (TERMINATOR ++ trailing)) :
    Comes maxBytes (written ++ bodyOf lines) trailing
      (CutShort maxBytes (written ++ bodyOf lines).length (stuffedLines lines) buffered arriving)
      (.given (body'.bytes.take body'.total) ⟨left, arriving⟩) where
  tooLarge := fun hlt => absurd hle (Nat.not_le_of_lt hlt)
  cutShort := by
    rintro - ⟨k, hk, -, hmem⟩
    have hlength := length_le_of_mem_reads hmem
    rw [hbuffered] at hlength
    simp only [List.length_append, List.length_take] at hlength
    omega
  whole := by
    rintro - -
    refine ⟨⟨left, arriving⟩, by rw [hholds.total, hholds.written], ?_⟩
    rw [hbuffered, List.append_assoc, List.append_assoc] at hstream
    exact List.append_cancel_left (List.append_cancel_left hstream)

/-- A line that is still coming takes no more room than it will. -/
theorem length_part_le {left line : Bytes} {rest : List Bytes} (h : PartOf left (line :: rest)) :
    left.length ≤ line.length + CRLF.length ∧ left.length < (stuffed line ++ CRLF).length := by
  obtain ⟨tail, htail, hpart⟩ := h
  have hlength := congrArg List.length hpart
  have hpos := List.length_pos_of_ne_nil htail
  have hstuffed : (stuffed line).length ≤ line.length + 1 := by
    unfold stuffed
    split_ifs
    · exact Nat.le_refl _
    · exact Nat.le_succ _
  rw [List.length_append, List.length_append] at hlength
  rw [List.length_append]
  omega

theorem take_part {left : Bytes} (h : PartOf left []) :
    left.length < TERMINATOR.length ∧ TERMINATOR.take left.length = left := by
  obtain ⟨tail, htail, hpart⟩ := h
  have hlength := congrArg List.length hpart
  have hpos := List.length_pos_of_ne_nil htail
  rw [List.length_append] at hlength
  exact ⟨by omega, by rw [← hpart, List.take_left' rfl]⟩

theorem comes_over {done rest : List Bytes} {left : Bytes} (hlines : lines = done ++ rest)
    (hbuffered : buffered = stuffedLines done ++ left) (hpart : PartOf left rest)
    (hover : maxBytes < (written ++ bodyOf done).length + left.length) :
    Comes maxBytes (written ++ bodyOf lines) trailing
      (CutShort maxBytes (written ++ bodyOf lines).length (stuffedLines lines) buffered arriving)
      (.refused .tooLarge) where
  tooLarge := fun _ => rfl
  cutShort := fun _ _ => rfl
  whole := by
    intro hle hcut
    exfalso
    subst hlines
    cases rest with
    | nil =>
      obtain ⟨hlt, htake⟩ := take_part hpart
      rw [List.append_nil] at hcut
      refine hcut ⟨left.length, hlt, hover, ?_⟩
      rw [htake, ← hbuffered]
      exact mem_reads_self buffered arriving
    | cons line rest =>
      obtain ⟨hpartLength, -⟩ := length_part_le hpart
      rw [bodyOf_append, bodyOf_cons] at hle
      simp only [List.length_append] at hle hover
      omega

/-- What comes behind the part of a line. -/
theorem stream_part {done rest : List Bytes} {left after : Bytes} (hlines : lines = done ++ rest)
    (hbuffered : buffered = stuffedLines done ++ left)
    (hstream : buffered ++ after = stuffedLines lines ++ (TERMINATOR ++ trailing)) :
    left ++ after = stuffedLines rest ++ (TERMINATOR ++ trailing) := by
  subst hlines hbuffered
  rw [stuffedLines_append, List.append_assoc, List.append_assoc] at hstream
  exact List.append_cancel_left hstream

/-- A line is not whole while its part is all that came. -/
theorem part_ne_stream {left : Bytes} {rest : List Bytes} (hpart : PartOf left rest) :
    left ≠ stuffedLines rest ++ (TERMINATOR ++ trailing) := by
  rintro rfl
  cases rest with
  | nil =>
    have hlength := (take_part hpart).1
    simp only [List.length_append] at hlength
    omega
  | cons line rest =>
    have hlength := (length_part_le hpart).2
    simp only [stuffedLines_cons, List.length_append] at hlength
    omega

/-- A read that leaves part of a line within the bound was not cut short. -/
theorem cutShort_part {done rest : List Bytes} {left chunk : Bytes} (hlines : lines = done ++ rest)
    (hbuffered : buffered = stuffedLines done ++ left) (hpart : PartOf left rest)
    (hwithin : (written ++ bodyOf done).length + left.length ≤ maxBytes) :
    CutShort maxBytes (written ++ bodyOf lines).length (stuffedLines lines) buffered
        (chunk :: arriving) ↔
      CutShort maxBytes (written ++ bodyOf lines).length (stuffedLines rest) (left ++ chunk)
        arriving := by
  unfold CutShort
  refine exists_congr fun k => and_congr_right fun hk => and_congr_right fun hlt => ?_
  subst hlines hbuffered
  rw [reads_cons, List.mem_cons, stuffedLines_append, List.append_assoc, List.append_assoc, mem_reads_append,
    List.append_cancel_left_eq]
  refine or_iff_right fun hleft => ?_
  cases rest with
  | nil =>
    have hleft' : TERMINATOR.take k = left := hleft
    have hlength : left.length = k := by
      rw [← hleft', List.length_take]
      omega
    rw [List.append_nil] at hlt
    omega
  | cons line rest =>
    have hlength := (length_part_le hpart).2
    rw [← hleft, stuffedLines_cons] at hlength
    simp only [List.length_append] at hlength
    omega

end Response

theorem readResponse_sent {maxBytes : ℕ} : ∀ {arriving : List Bytes} {lines : List Bytes}
    {buffered trailing written : Bytes} {body : Body}, (∀ line ∈ lines, Unbroken line) →
      buffered ++ arriving.flatten = stuffedLines lines ++ (TERMINATOR ++ trailing) →
      body.Holds written → written.length ≤ maxBytes →
      Comes maxBytes (written ++ bodyOf lines) trailing
        (CutShort maxBytes (written ++ bodyOf lines).length (stuffedLines lines) buffered arriving)
        (readResponse maxBytes buffered body arriving) := by
  intro arriving
  induction arriving with
  | nil =>
    intro lines buffered trailing written body hlines hstream hholds hle
    have hread := readLines_sent hlines hstream (Nat.le_refl _) hholds hle
    unfold readResponse
    revert hread
    generalize readLines maxBytes buffered.length buffered body = outcome
    intro hread
    cases hread with
    | finished hholds' hle' hbuffered => exact comes_finished hholds' hle' hbuffered hstream
    | tooLarge hlt =>
      exact ⟨fun _ => rfl, fun hle _ => absurd hlt (Nat.not_lt_of_le hle),
        fun hle _ => absurd hlt (Nat.not_lt_of_le hle)⟩
    | @part done rest left body' hdone hbuffered hholds' hle' hpart =>
      dsimp only
      rw [hholds'.total]
      split_ifs with hover
      · exact comes_over hdone hbuffered hpart hover
      · have hleft := stream_part hdone hbuffered hstream
        rw [List.flatten_nil, List.append_nil] at hleft
        exact absurd hleft (part_ne_stream hpart)
  | cons chunk arriving ih =>
    intro lines buffered trailing written body hlines hstream hholds hle
    have hread := readLines_sent hlines hstream (Nat.le_refl _) hholds hle
    unfold readResponse
    revert hread
    generalize readLines maxBytes buffered.length buffered body = outcome
    intro hread
    cases hread with
    | finished hholds' hle' hbuffered => exact comes_finished hholds' hle' hbuffered hstream
    | tooLarge hlt =>
      exact ⟨fun _ => rfl, fun hle _ => absurd hlt (Nat.not_lt_of_le hle),
        fun hle _ => absurd hlt (Nat.not_lt_of_le hle)⟩
    | @part done rest left body' hdone hbuffered hholds' hle' hpart =>
      dsimp only
      rw [hholds'.total]
      split_ifs with hover
      · exact comes_over hdone hbuffered hpart hover
      · have hleft := stream_part hdone hbuffered hstream
        rw [List.flatten_cons, ← List.append_assoc] at hleft
        have hrest : ∀ line ∈ rest, Unbroken line := fun line hmem =>
          hlines line (hdone ▸ List.mem_append_right _ hmem)
        have hnext := ih hrest hleft hholds' hle'
        have hbody : written ++ bodyOf done ++ bodyOf rest = written ++ bodyOf lines := by
          rw [hdone, bodyOf_append, List.append_assoc]
        rw [hbody] at hnext
        rw [cutShort_part hdone hbuffered hpart (Nat.le_of_not_lt hover)]
        exact hnext

/-! ### The whole command -/

/-- The status line is read off, and the reads behind it stay what they were. -/
theorem readLine_sent {status : Bytes} (hstatus : Unbroken status)
    (hshort : status.length < MAX_STATUS_LINE_BYTES) {rest : Bytes} :
    ∀ {arriving : List Bytes} {buffered : Bytes},
      buffered ++ arriving.flatten = (status ++ CRLF) ++ rest →
      ∃ left, readLine buffered arriving = .given status left ∧
        left.buffered ++ left.arriving.flatten = rest ∧
        ∀ p, (status ++ CRLF) ++ p ∈ reads buffered arriving ↔
          p ∈ reads left.buffered left.arriving := by
  -- a read that holds the whole line
  have hwhole : ∀ {arriving : List Bytes} {behind : Bytes},
      readLine (status ++ CRLF ++ behind) arriving = .given status ⟨behind, arriving⟩ := by
    intro arriving behind
    have hindex : indexOfCRLF (status ++ CRLF ++ behind) = some status.length := by
      rw [List.append_assoc]
      exact indexOfCRLF_line hstatus behind
    have hdrop : (status ++ CRLF ++ behind).drop (status.length + 2) = behind :=
      List.drop_left' (by rw [List.length_append]; rfl)
    unfold readLine
    rw [hindex]
    dsimp only
    rw [hdrop, List.append_assoc, List.take_left' rfl]
  intro arriving
  induction arriving with
  | nil =>
    intro buffered hstream
    rw [List.flatten_nil, List.append_nil] at hstream
    subst hstream
    exact ⟨⟨rest, []⟩, hwhole, List.append_nil rest, fun p => mem_reads_append⟩
  | cons chunk arriving ih =>
    intro buffered hstream
    rcases append_split hstream with ⟨behind, rfl, hrest⟩ | ⟨tail, htail, hpart, hrest⟩
    · exact ⟨⟨behind, chunk :: arriving⟩, hwhole, hrest, fun p => mem_reads_append⟩
    · have hnone := indexOfCRLF_part hstatus htail hpart
      have hlength := congrArg List.length hpart
      have hpos := List.length_pos_of_ne_nil htail
      rw [List.length_append, List.length_append] at hlength
      have hlimit : ¬ MAX_STATUS_LINE_BYTES < buffered.length := by
        have hcrlf : CRLF.length = 2 := rfl
        omega
      have hnext : (buffered ++ chunk) ++ arriving.flatten = (status ++ CRLF) ++ rest := by
        rw [← hstream, List.flatten_cons, List.append_assoc]
      obtain ⟨left, hread, hleft, hreads⟩ := ih hnext
      refine ⟨left, ?_, hleft, fun p => ?_⟩
      · rw [readLine, hnone]
        dsimp only
        rw [if_neg hlimit, hread]
      · rw [reads_cons, List.mem_cons, hreads]
        refine or_iff_right fun heq => ?_
        have hshorter := congrArg List.length heq
        simp only [List.length_append] at hshorter
        omega

/-- The answer the response calls for, with what follows it left for the next command. -/
def Answered (maxBytes : ℕ) (response : Response) (trailing : Bytes) (answer : Answer Bytes) : Prop :=
  if response.body.length ≤ maxBytes then
    ∃ left, answer = .given response.body left ∧ left.buffered ++ left.arriving.flatten = trailing
  else answer = .refused .tooLarge

/-- **A response** is answered as its size calls for, just where no read ends inside its terminator
with the body that close to the bound. -/
theorem answered_iff {maxBytes : ℕ} {response : Response} {trailing : Bytes} {connection : Connection}
    (hstream : connection.buffered ++ connection.arriving.flatten = response.sent ++ trailing) :
    Answered maxBytes response trailing (multilineCommand maxBytes connection) ↔
      ¬ (response.body.length ≤ maxBytes ∧ CutShort maxBytes response.body.length response.opening
        connection.buffered connection.arriving) := by
  have hsplit : connection.buffered ++ connection.arriving.flatten = (response.status ++ CRLF) ++
      (stuffedLines response.lines ++ (TERMINATOR ++ trailing)) := by
    rw [hstream]
    simp only [Response.sent, Response.opening, List.append_assoc]
  obtain ⟨left, hread, hleft, hreads⟩ :=
    readLine_sent response.statusUnbroken response.short hsplit
  have hcut : CutShort maxBytes response.body.length response.opening connection.buffered
      connection.arriving ↔ CutShort maxBytes response.body.length (stuffedLines response.lines)
        left.buffered left.arriving := by
    refine exists_congr fun k => and_congr_right fun _ => and_congr_right fun _ => ?_
    rw [← hreads]
    simp only [Response.opening, List.append_assoc]
  have hcomes := readResponse_sent response.linesUnbroken hleft
    (Body.holds_empty (List.replicate (min maxBytes INITIAL_BODY_BYTES) 0)) (Nat.zero_le maxBytes)
  rw [List.nil_append] at hcomes
  have hcommand : multilineCommand maxBytes connection = readResponse maxBytes left.buffered
      ⟨List.replicate (min maxBytes INITIAL_BODY_BYTES) 0, 0⟩ left.arriving := by
    unfold multilineCommand readStatusLine
    rw [hread]
    dsimp only
    rw [if_pos (List.isPrefixOf_iff_prefix.mpr response.accepted)]
  obtain ⟨htooLarge, hcutShort, hwhole⟩ := hcomes
  rw [hcommand, hcut]
  unfold Answered
  split_ifs with hle
  · constructor
    · rintro ⟨left', hgiven, -⟩ ⟨-, hshort⟩
      have hrefused := hcutShort hle hshort
      rw [hgiven] at hrefused
      cases hrefused
    · intro hnot
      exact hwhole hle fun hshort => hnot ⟨hle, hshort⟩
  · have hlt := Nat.lt_of_not_le hle
    exact iff_of_true (htooLarge hlt) fun h => hle h.1

theorem unbroken_of_index {line : Bytes} (h : indexOfCRLF line = none) : Unbroken line := by
  rintro before after rfl
  exact scan_none h before ⟨rfl, after, rfl⟩

/-- A letter of one line, three bytes of it with its line break. -/
def oneLetter : Response where
  status := OK
  lines := [[0x61]]
  accepted := List.prefix_refl OK
  short := by decide
  statusUnbroken := unbroken_of_index (by decide)
  linesUnbroken := by
    intro line hline
    obtain rfl := List.mem_singleton.mp hline
    exact unbroken_of_index (by decide)

theorem answered_at_once :
    Answered 3 oneLetter [DOT] (multilineCommand 3 ⟨[], [OK ++ CRLF, 0x61 :: CRLF ++ TERMINATOR ++ [DOT]]⟩) ↔
      ¬ (oneLetter.body.length ≤ 3 ∧ CutShort 3 oneLetter.body.length oneLetter.opening []
        [OK ++ CRLF, 0x61 :: CRLF ++ TERMINATOR ++ [DOT]]) :=
  answered_iff (by decide)

/-- The same letter with its terminator cut in two is refused, though it is no larger. -/
theorem refused_when_cut :
    (([] : Bytes) ++ [oneLetter.opening ++ [DOT], CRLF].flatten = oneLetter.sent ++ []) ∧
      oneLetter.body.length = 3 ∧
      multilineCommand 3 ⟨[], [oneLetter.sent]⟩ = .given oneLetter.body ⟨[], []⟩ ∧
      multilineCommand 3 ⟨[], [oneLetter.opening ++ [DOT], CRLF]⟩ = .refused .tooLarge := by
  refine ⟨by decide, by decide, by decide, by decide⟩

end OpenBrf.Pop3
