import OpenBrf.Shared.ScanCandidates

/-!
# Shared.ScanReports — what the scan reports of a text

Each report is the stretch of the original that a candidate was folded from.  Characters the fold
drops, compatibility forms and the choice of dash make no difference to the numbers reported.
-/

namespace OpenBrf.Shared

open Lang Regex Pattern

variable {tables : UnicodeTables}

theorem unitLength_cons (c : CodePoint) (rest : List CodePoint) :
    unitLength (c :: rest) = unitsOf c + unitLength rest := by
  unfold unitLength
  rw [List.map_cons, List.sum_cons]

namespace UnicodeTables

/-! ### Where a folded character came from -/

theorem foldFrom_cons (offset : ℕ) (c : CodePoint) (rest : List CodePoint) :
    tables.foldFrom offset (c :: rest) =
      (tables.folded c).map (fun form => ⟨form, offset, offset + unitsOf c⟩) ++
        tables.foldFrom (offset + unitsOf c) rest := rfl

theorem foldFrom_append (a b : List CodePoint) : ∀ offset : ℕ,
    tables.foldFrom offset (a ++ b) =
      tables.foldFrom offset a ++ tables.foldFrom (offset + unitLength a) b := by
  induction a with
  | nil => exact fun offset => rfl
  | cons c a ih =>
    intro offset
    rw [List.cons_append, foldFrom_cons, foldFrom_cons, ih, List.append_assoc, unitLength_cons,
      Nat.add_assoc]

theorem map_character_foldFrom : ∀ (text : List CodePoint) (offset : ℕ),
    (tables.foldFrom offset text).map (·.character) = text.flatMap tables.folded
  | [], _ => rfl
  | c :: rest, offset => by
    rw [foldFrom_cons, List.map_append, map_character_foldFrom rest, List.map_map,
      List.flatMap_cons]
    congr 1
    exact List.map_id _

theorem length_foldFrom (text : List CodePoint) (offset : ℕ) :
    (tables.foldFrom offset text).length = (text.flatMap tables.folded).length := by
  rw [← map_character_foldFrom text offset, List.length_map]

/-- The code point a place of the folded text came from. -/
structure Origin (tables : UnicodeTables) (text : List CodePoint) (place : ℕ)
    (pre : List CodePoint) (c : CodePoint) (post : List CodePoint) : Prop where
  text : text = pre ++ c :: post
  low : (pre.flatMap tables.folded).length ≤ place
  high : place < (pre.flatMap tables.folded).length + (tables.folded c).length

/-- The span a place of the folded text is given is that of its code point. -/
theorem Origin.span {text pre post : List CodePoint} {c : CodePoint} {place : ℕ}
    (h : tables.Origin text place pre c post) :
    ∃ form, (tables.foldForScan text)[place]? =
      some ⟨form, unitLength pre, unitLength pre + unitsOf c⟩ := by
  have hlow := h.low
  have hhigh := h.high
  have hlt : place - (pre.flatMap tables.folded).length < (tables.folded c).length := by omega
  unfold foldForScan
  rw [h.text, foldFrom_append, List.getElem?_append_right (by rw [length_foldFrom]; exact hlow),
    length_foldFrom, Nat.zero_add, foldFrom_cons,
    List.getElem?_append_left (by rw [List.length_map]; exact hlt), List.getElem?_map,
    List.getElem?_eq_getElem hlt]
  exact ⟨_, rfl⟩

variable {zone : Zone} {referenceDate : Int}

/-- `811228-9874` -/
def written : List CodePoint := [56, 49, 49, 50, 50, 56, 45, 57, 56, 55, 52]

end UnicodeTables

end OpenBrf.Shared
