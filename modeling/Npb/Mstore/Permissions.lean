import Mathlib.Data.Finset.Insert
import Mathlib.Data.List.Basic
import Npb.Python.Values

/-! # Permissions

`errors.py` and the permission sets of `registry.py`. A set comes from a peer's JSON value
(`normalizePermissions`); what is asked of a token is a set of names (`requiredSet`), and every set
that `normalizePermissions` returns is closed under the rules it applies. -/

namespace Npb.Mstore
set_option autoImplicit false
open Effects

/-! ## Exceptions -/

/-- The classes of `errors.py` below `MStoreError`. -/
inductive ErrorClass where
  | protocolError
  | authenticationError
  | permissionDenied
  | objectNotFound
  | tokenExpired
  | tokenRevoked
  | invalidRequest
  deriving DecidableEq, Repr

inductive Failure where
  | mstore (cls : ErrorClass) (message : String)
  | python (e : PyError)
  deriving DecidableEq, Repr

def invalidRequest (message : String) : Failure := .mstore .invalidRequest message

def authenticationError (message : String) : Failure := .mstore .authenticationError message

/-- A call of the language or its library, whose exceptions pass through. -/
def python {α : Type} : Except PyError α → Except Failure α
  | .ok a => .ok a
  | .error e => .error (.python e)

theorem python_eq_ok {α : Type} {x : Except PyError α} {a : α} :
    python x = .ok a ↔ x = .ok a := by
  cases x <;> simp [python]

theorem python_error {α : Type} {x : Except PyError α} {failure : Failure}
    (h : python x = .error failure) (message : String) :
    failure ≠ authenticationError message := by
  cases x with
  | ok a => cases h
  | error e =>
    cases h
    exact nofun

/-! ## Permission sets -/

inductive Permission where
  | read
  | write
  | grant
  | delete
  | info
  deriving DecidableEq, Repr

namespace Permission

def name : Permission → String
  | read => "read"
  | write => "write"
  | grant => "grant"
  | delete => "delete"
  | info => "info"

def ofName (s : String) : Option Permission :=
  if s = "read" then some read
  else if s = "write" then some write
  else if s = "grant" then some grant
  else if s = "delete" then some delete
  else if s = "info" then some info
  else none

@[simp] theorem ofName_name (p : Permission) : ofName p.name = some p := by
  cases p <;> rfl

theorem name_injective : Function.Injective name := by
  intro p q h
  have hp := ofName_name p
  rw [h, ofName_name] at hp
  exact (Option.some.inj hp).symm

end Permission

def allPermissions : Finset Permission := {.read, .write, .grant, .delete, .info}

@[simp] theorem mem_allPermissions (p : Permission) : p ∈ allPermissions := by
  cases p <;> decide

/-- `sorted(permissions)`. -/
def sortedNames (permissions : Finset Permission) : List String :=
  ([.delete, .grant, .info, .read, .write].filter (· ∈ permissions)).map Permission.name

theorem mem_sortedNames {permissions : Finset Permission} {p : Permission} :
    p.name ∈ sortedNames permissions ↔ p ∈ permissions := by
  unfold sortedNames
  rw [List.mem_map_of_injective Permission.name_injective, List.mem_filter]
  cases p <;> simp

/-- The member of `ALL_PERMISSIONS` that an element of a set equals. -/
def permissionOf : Scalar → Option Permission
  | .str s => Permission.ofName s
  | _ => none

/-- An element of a set has to be hashable. -/
def hashable : Json → Except PyError Scalar
  | .leaf s => .ok s
  | .list _ => .error (.typeError "unhashable type: 'list'")
  | .dict _ => .error (.typeError "unhashable type: 'dict'")

section Normalize
variable (sortedRepr : List Scalar → Except PyError String)

/-- The rules `normalize_permissions` applies to a set of known permissions. -/
def closure (result : Finset Permission) : Finset Permission :=
  let result := if .write ∈ result then insert .read result else result
  if result = ∅ then result else insert .info result

/-- `normalize_permissions` from `set(value)` on; `sorted` raises on values it cannot compare. -/
def normalizeItems (value : List Json) : Except Failure (Finset Permission) := do
  let result ← python (value.mapM hashable)
  let unknown := result.filter fun s => (permissionOf s).isNone
  if unknown = [] then
    return closure (result.filterMap permissionOf).toFinset
  else
    let text ← python (sortedRepr unknown)
    .error (invalidRequest ("unknown permissions: " ++ text))

def normalizePermissions : Json → Except Failure (Finset Permission)
  | .leaf (.str value) =>
    if value = "read" then .ok {.read, .info}
    else if value = "write" then .ok {.read, .write, .info}
    else if value = "admin" then .ok allPermissions
    else normalizeItems sortedRepr [.leaf (.str value)]
  | value => do
    let items ← python (pyIter value)
    normalizeItems sortedRepr items

/-- The set `validate` asks for: a name other than `INFO` stands for itself alone. -/
def requiredSet (required : Json) : Except Failure (List String) := do
  let requiredSet ← normalizePermissions sortedRepr required
  match required with
  | .leaf (.str s) => if s = "info" then return sortedNames requiredSet else return [s]
  | _ => return sortedNames requiredSet

end Normalize

/-- Writing needs reading, and any permission needs information. -/
def Closed (permissions : Finset Permission) : Prop :=
  (.write ∈ permissions → .read ∈ permissions) ∧ (permissions ≠ ∅ → .info ∈ permissions)

section Laws
variable {sortedRepr : List Scalar → Except PyError String}

theorem closure_closed (result : Finset Permission) : Closed (closure result) := by
  unfold closure
  dsimp only
  by_cases hw : Permission.write ∈ result
  · simp [hw, Closed]
  · by_cases he : result = ∅
    · simp [he, Closed]
    · simp [hw, he, Closed]

theorem normalizeItems_closed {value : List Json} {permissions : Finset Permission}
    (h : normalizeItems sortedRepr value = .ok permissions) : Closed permissions := by
  unfold normalizeItems at h
  obtain ⟨result, -, h⟩ := except_bind_eq_ok.mp h
  by_cases hunknown : result.filter (fun s => (permissionOf s).isNone) = []
  · rw [if_pos hunknown] at h
    cases h
    exact closure_closed _
  · rw [if_neg hunknown] at h
    obtain ⟨text, -, h⟩ := except_bind_eq_ok.mp h
    cases h

theorem normalizePermissions_closed {value : Json} {permissions : Finset Permission}
    (h : normalizePermissions sortedRepr value = .ok permissions) : Closed permissions := by
  unfold normalizePermissions at h
  split at h
  · next s =>
    split at h
    · cases h
      simp [Closed]
    split at h
    · cases h
      simp [Closed]
    split at h
    · cases h
      simp [Closed]
    exact normalizeItems_closed h
  · obtain ⟨items, -, h⟩ := except_bind_eq_ok.mp h
    exact normalizeItems_closed h

theorem requiredSet_name (p : Permission) :
    requiredSet sortedRepr (.leaf (.str p.name)) = .ok [p.name] := by
  cases p <;> rfl

theorem normalizeItems_error {value : List Json} {failure : Failure}
    (h : normalizeItems sortedRepr value = .error failure) (message : String) :
    failure ≠ authenticationError message := by
  unfold normalizeItems at h
  obtain h | ⟨result, -, h⟩ := except_bind_eq_error.mp h
  · exact python_error h message
  by_cases hunknown : result.filter (fun s => (permissionOf s).isNone) = []
  · rw [if_pos hunknown] at h
    cases h
  · rw [if_neg hunknown] at h
    obtain h | ⟨text, -, h⟩ := except_bind_eq_error.mp h
    · exact python_error h message
    · cases h
      simp [invalidRequest, authenticationError]

theorem normalizePermissions_error {value : Json} {failure : Failure}
    (h : normalizePermissions sortedRepr value = .error failure) (message : String) :
    failure ≠ authenticationError message := by
  unfold normalizePermissions at h
  split at h
  · split at h
    · cases h
    split at h
    · cases h
    split at h
    · cases h
    exact normalizeItems_error h message
  · obtain h | ⟨items, -, h⟩ := except_bind_eq_error.mp h
    · exact python_error h message
    · exact normalizeItems_error h message

theorem requiredSet_error {required : Json} {failure : Failure}
    (h : requiredSet sortedRepr required = .error failure) (message : String) :
    failure ≠ authenticationError message := by
  unfold requiredSet at h
  obtain h | ⟨names, -, h⟩ := except_bind_eq_error.mp h
  · exact normalizePermissions_error h message
  · split at h
    · split at h
      · cases h
      · cases h
    · cases h

end Laws
end Npb.Mstore
