import OpenBrf.Lang.Sorting
import OpenBrf.Registers.ApartmentFigures
import OpenBrf.Txn.TwoPhase

/-!
# Registers.ApartmentSaves — the shares and the particulars of apartments, saved (`apartment-register.service.ts`)

Both forms save many apartments in one transaction.  A row's apartment is locked before it is
read; a row that moves nothing is skipped, one whose apartment changed after the form was opened
refuses the whole save, and every other is written with its audit entry.
-/

namespace OpenBrf.Registers.Apartments

open Txn Lang Shared

inductive AuditAction where
  | APARTMENT_SHARES_RECORDED
  | APARTMENT_PARTICULARS_RECORDED
  deriving DecidableEq, Repr

/-- An entry of the audit log on one apartment: which fields moved, never the figures. -/
structure AuditEntry where
  action : AuditAction
  actorPersonId : String
  targetId : String
  fields : List Field
  deriving DecidableEq, Repr

structure RegisterStore where
  apartments : String → Option Apartment
  audit : List AuditEntry

/-- An apartment is locked under its id. -/
abbrev RegisterTx (α : Type) := Prog RegisterStore String String ApartmentRegisterError α

/-! ### The rows of a save -/

/-- A row as the form sends it: what it states, and what it read when it opened. -/
structure FormRow (V : Type) where
  apartmentId : String
  values : V
  expected : V

/-- A row as it is saved: its texts read, and what it writes. -/
structure Row (V : Type) where
  apartmentId : String
  submitted : V
  expected : V
  write : Apartment → Apartment

/-- What tells the two forms apart. -/
structure Form (V : Type) where
  action : AuditAction
  changed : ApartmentRegisterError
  stored : Apartment → V
  moved : V → V → List Field

def sharesForm : Form ApartmentShares where
  action := .APARTMENT_SHARES_RECORDED
  changed := ⟨"The apartment's figures changed after the form was opened.",
    .apartmentSharesChanged⟩
  stored := storedShares
  moved := movedShares

def particularsForm : Form ApartmentParticulars where
  action := .APARTMENT_PARTICULARS_RECORDED
  changed := ⟨"The apartment's particulars changed after the form was opened.",
    .apartmentParticularsChanged⟩
  stored := storedParticulars
  moved := movedParticulars

section Rows

variable {V : Type}

/-- Whether an id of the list is seen a second time. -/
def listedTwice : List String → List String → Bool
  | _, [] => false
  | seen, id :: ids => id ∈ seen || listedTwice (addTo id seen) ids

/-- The rows of one save in the order of their apartment ids rather than the client's. -/
def sortedByApartment (rows : List (FormRow V)) : List (FormRow V) :=
  rows.mergeSort fun a b => utf16 a.apartmentId ≤ utf16 b.apartmentId

end Rows

def readSharesRow (row : FormRow ApartmentShares) :
    Except ApartmentRegisterError (Row ApartmentShares) := do
  let submitted ← readShares row.values
  let expected ← readShares row.expected
  return ⟨row.apartmentId, submitted, expected, writeShares submitted⟩

/-- A plan's day that has not arrived is refused; the expected day is only compared. -/
def readParticularsRow (zone : Zone) (now : Int) (row : FormRow ApartmentParticulars) :
    Except ApartmentRegisterError (Row ApartmentParticulars) := do
  let submitted ← readParticulars row.values
  let expected ← readParticulars row.expected
  let registeredOn ← submitted.economicPlanRegisteredOn.mapM (statutoryDateColumn zone now)
  return ⟨row.apartmentId, submitted, expected, writeParticulars submitted registeredOn⟩

/-! ### The saves -/

section Save

variable {V : Type} (form : Form V) (actorPersonId : String)

/-- `UPDATE … WHERE id`, which sets columns of the row there is. -/
def RegisterStore.updateApartment (id : String) (write : Apartment → Apartment)
    (s : RegisterStore) : RegisterStore :=
  { s with apartments := Function.update s.apartments id ((s.apartments id).map write) }

def RegisterStore.record (entry : AuditEntry) (s : RegisterStore) : RegisterStore :=
  { s with audit := s.audit ++ [entry] }

/-- What is done about an apartment as it stands. -/
def saveRow (row : Row V) (recorded : ℕ) (before : Apartment) : RegisterTx ℕ :=
  let stored := form.stored before
  let fields := form.moved stored row.submitted
  if fields = [] then pure recorded
  else if form.moved stored row.expected ≠ [] then fail form.changed
  else do
    update (RegisterStore.updateApartment row.apartmentId row.write)
    update (RegisterStore.record ⟨form.action, actorPersonId, row.apartmentId, fields⟩)
    return recorded + 1

def noSuchApartment {α : Type} : RegisterTx α := fail ⟨"No such apartment.", .apartmentNotFound⟩

/-- One turn of the loop over the rows. -/
def recordRow (recorded : ℕ) (row : Row V) : RegisterTx ℕ := do
  let locked ← readLocked row.apartmentId .exclusive fun s => s.apartments row.apartmentId
  match locked with
  | none => noSuchApartment
  | some _ => do
    let before ← query fun s => s.apartments row.apartmentId
    match before with
    | none => noSuchApartment
    | some before => saveRow form actorPersonId row recorded before

def recordRows (rows : List (Row V)) : RegisterTx ℕ :=
  transaction (rows.foldlM (recordRow form actorPersonId) 0)

/-- A save of one form: refused for an apartment listed twice and for what cannot be read, before
anything is read or written. -/
def recordForm (read : FormRow V → Except ApartmentRegisterError (Row V))
    (apartments : List (FormRow V)) : RegisterTx ℕ :=
  if listedTwice [] (apartments.map (·.apartmentId)) then
    fail ⟨"The same apartment is listed twice.", .apartmentListedTwice⟩
  else
    match (sortedByApartment apartments).mapM read with
    | .error e => fail e
    | .ok written => recordRows form actorPersonId written

end Save

/-- Records apartments' participation shares and initial share capital. -/
def recordApartmentShares (actorPersonId : String) (apartments : List (FormRow ApartmentShares)) :
    RegisterTx ℕ :=
  recordForm sharesForm actorPersonId readSharesRow apartments

/-- Records apartments' particulars; `now` is the instant given, else what the clock reads. -/
def recordApartmentParticulars (zone : Zone) (now : Int) (actorPersonId : String)
    (apartments : List (FormRow ApartmentParticulars)) : RegisterTx ℕ :=
  recordForm particularsForm actorPersonId (readParticularsRow zone now) apartments

/-! ### Saves beside each other -/

/-- A save of either form. -/
inductive Save where
  | shares (actorPersonId : String) (apartments : List (FormRow ApartmentShares))
  | particulars (now : Int) (actorPersonId : String)
      (apartments : List (FormRow ApartmentParticulars))

/-- What a save does: the number it answers is of the apartments it changed. -/
def Save.program (zone : Zone) : Save → RegisterTx ℕ
  | .shares actorPersonId apartments => recordApartmentShares actorPersonId apartments
  | .particulars now actorPersonId apartments =>
    recordApartmentParticulars zone now actorPersonId apartments

/-- A save as a client asks for it; what it answers goes back to that client. -/
def Save.request (zone : Zone) (save : Save) : RegisterTx Unit := do
  let _ ← save.program zone

/-- Saves of both forms, any number at once. -/
def saveSystem (zone : Zone) : System RegisterStore String String ApartmentRegisterError where
  calls p := ∃ save : Save, p = save.request zone
  prompt _ := False

end OpenBrf.Registers.Apartments
