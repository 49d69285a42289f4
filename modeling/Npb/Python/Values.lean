import Npb.Foundations.ValueTree
import Npb.Foundations.Memory

/-! # Python values, exceptions and calls

JSON-shaped values with the conversions the decoder applies to them (`int()`, iteration, item
access), the exceptions that can pass through the codec, and the state every call runs in: the
process memory, the addresses that belong to live objects, and the state of a blob store. -/

namespace Npb
set_option autoImplicit false

/-! ## Exceptions -/

inductive PyError where
  | typeError (message : String)
  | valueError (message : String)
  | keyError (key : String)
  | overflowError (message : String)
  | zeroDivisionError (message : String)
  | memoryError
  | structError (message : String)
  | formatError (message : String)
  | schemaMismatchError (message : String)
  | bufferTooSmallError (message : String)
  | blobStoreError (message : String)
  | blobStoreRequiredError (message : String)
  | other (className message : String)
  deriving DecidableEq, Repr

namespace PyError

/-- `except ValueError`: the format, schema and buffer errors of npb are subclasses. -/
def isValueError : PyError → Bool
  | valueError _ | formatError _ | schemaMismatchError _ | bufferTooSmallError _ => true
  | _ => false

/-- `except (TypeError, ValueError)`. -/
def isTypeOrValueError : PyError → Bool
  | typeError _ => true
  | e => e.isValueError

/-- `except (KeyError, TypeError, ValueError)`. -/
def isLookupOrConversionError : PyError → Bool
  | keyError _ => true
  | e => e.isTypeOrValueError

def IsFormatError : PyError → Prop
  | formatError _ => True
  | _ => False

end PyError

/-- `try: x except caught: raise raised`. -/
def catching {α : Type} (caught : PyError → Bool) (raised : PyError) :
    Except PyError α → Except PyError α
  | .ok a => .ok a
  | .error e => .error (if caught e then raised else e)

@[simp] theorem catching_ok {α : Type} (caught : PyError → Bool) (raised : PyError) (a : α) :
    catching caught raised (.ok a) = .ok a := rfl

theorem catching_eq_ok {α : Type} {caught : PyError → Bool} {raised : PyError}
    {x : Except PyError α} {a : α} : catching caught raised x = .ok a ↔ x = .ok a := by
  cases x <;> simp [catching]

theorem catching_error {α : Type} {caught : PyError → Bool} {raised : PyError}
    {x : Except PyError α} {e : PyError} (h : catching caught raised x = .error e) :
    ∃ e', x = .error e' ∧ ((caught e' = true ∧ e = raised) ∨ (caught e' = false ∧ e = e')) := by
  cases x with
  | ok a => cases h
  | error e' =>
    refine ⟨e', rfl, ?_⟩
    have he := Except.error.inj h
    split at he
    · next hc => exact .inl ⟨hc, he.symm⟩
    · next hc => exact .inr ⟨Bool.eq_false_iff.mpr hc, he.symm⟩

/-! ## JSON-shaped values -/

/-- A Python float: a finite one is `± mantissa * 2 ^ exponent`. -/
inductive PyFloat where
  | nan
  | inf (negative : Bool)
  | finite (negative : Bool) (mantissa : ℕ) (exponent : ℤ)
  deriving DecidableEq, Repr

/-- `int(x)` truncates towards zero. -/
def PyFloat.toInt : PyFloat → Except PyError ℤ
  | .nan => .error (.valueError "cannot convert float NaN to integer")
  | .inf _ => .error (.overflowError "cannot convert float infinity to integer")
  | .finite negative mantissa exponent =>
    let magnitude : ℕ :=
      if 0 ≤ exponent then mantissa * 2 ^ exponent.toNat else mantissa / 2 ^ (-exponent).toNat
    .ok (if negative then -magnitude else magnitude)

/-- A value that is neither a container nor an array: the JSON scalars, a NumPy scalar holding one,
or an object of any other class. -/
inductive Scalar where
  | none
  | bool (b : Bool)
  | int (i : ℤ)
  | float (x : PyFloat)
  | str (s : String)
  | generic (item : Scalar)
  | other (typeName : String)
  deriving DecidableEq, Repr

abbrev Json := Tree Scalar

/-- `int(value)`, with `intOfStr` reading a string literal. -/
def pyInt (intOfStr : String → Option ℤ) : Json → Except PyError ℤ
  | .leaf s => ofScalar s
  | .list _ => .error (.typeError "int() argument must be a string or a real number, not 'list'")
  | .dict _ => .error (.typeError "int() argument must be a string or a real number, not 'dict'")
where
  ofScalar : Scalar → Except PyError ℤ
    | .int i => .ok i
    | .bool b => .ok (if b then 1 else 0)
    | .float x => x.toInt
    | .str s =>
      match intOfStr s with
      | some i => .ok i
      | Option.none => .error (.valueError "invalid literal for int() with base 10")
    | .generic item => ofScalar item
    | .none =>
      .error (.typeError "int() argument must be a string or a real number, not 'NoneType'")
    | .other _ => .error (.typeError "int() argument must be a string or a real number")

/-- `str(value)`, with `strOf` rendering what is not a string. -/
def pyStr (strOf : Json → Option String) : Json → Except PyError String
  | .leaf (.str s) => .ok s
  | j =>
    match strOf j with
    | some s => .ok s
    | none => .error (.valueError "Exceeds the limit for integer string conversion")

/-- A character in the `repr` of a string; all from U+00AE on are taken for printable. -/
def pyEscape (quote c : Char) : List Char :=
  if c = quote || c = '\\' then ['\\', c]
  else if c = '\n' then ['\\', 'n']
  else if c = '\r' then ['\\', 'r']
  else if c = '\t' then ['\\', 't']
  else if c.toNat < 32 || (127 ≤ c.toNat && c.toNat ≤ 160) || c.toNat = 173 then
    ['\\', 'x', Nat.digitChar (c.toNat / 16), Nat.digitChar (c.toNat % 16)]
  else [c]

/-- `repr` of a string. -/
def pyRepr (s : String) : String :=
  let quote : Char := if s.contains '\'' && !s.contains '"' then '"' else '\''
  String.ofList (quote :: (s.toList.flatMap (pyEscape quote) ++ [quote]))

theorem pyEscape_length (quote c : Char) : (pyEscape quote c).length ≤ 4 := by
  unfold pyEscape
  split_ifs <;> simp

/-- At most four characters for one, and the quotes. -/
theorem pyRepr_length (s : String) : (pyRepr s).length ≤ 4 * s.length + 2 := by
  have hchars : ∀ (quote : Char) (cs : List Char),
      (cs.flatMap (pyEscape quote)).length ≤ 4 * cs.length := by
    intro quote cs
    induction cs with
    | nil => exact Nat.zero_le _
    | cons c cs ih =>
      have hc := pyEscape_length quote c
      rw [List.flatMap_cons, List.length_append, List.length_cons]
      omega
  unfold pyRepr
  dsimp only
  rw [String.length_ofList, List.length_cons, List.length_append, ← String.length_toList]
  have h := hchars (if s.contains '\'' && !s.contains '"' then '"' else '\'') s.toList
  rw [List.length_singleton]
  omega

/-- The items a `for` loop sees: elements of a list, keys of a mapping, characters of a string. -/
def pyIter : Json → Except PyError (List Json)
  | .list xs => .ok xs
  | .dict kvs => .ok (kvs.map fun kv => .leaf (.str kv.1))
  | .leaf (.str s) => .ok (s.toList.map fun c => .leaf (.str c.toString))
  | .leaf _ => .error (.typeError "object is not iterable")

/-- `mapping[key]`. -/
def pyItem (kvs : List (String × Json)) (key : String) : Except PyError Json :=
  match kvs.lookup key with
  | some v => .ok v
  | none => .error (.keyError key)

@[simp] theorem pyInt_int (f : String → Option ℤ) (i : ℤ) : pyInt f (.leaf (.int i)) = .ok i := rfl

@[simp] theorem pyStr_str (f : Json → Option String) (s : String) :
    pyStr f (.leaf (.str s)) = .ok s := rfl

@[simp] theorem pyIter_list (xs : List Json) : pyIter (.list xs) = .ok xs := rfl

theorem mapM_pyInt (f : String → Option ℤ) (shape : List ℤ) :
    (shape.map fun d => (.leaf (.int d) : Json)).mapM (pyInt f) = .ok shape := by
  induction shape with
  | nil => rfl
  | cons d shape ih =>
    rw [List.map_cons, List.mapM_cons, ih]
    rfl

def asciiBytes (text : String) : List UInt8 := text.toList.map fun c => UInt8.ofNat c.toNat

theorem asciiBytes_length (s : String) : (asciiBytes s).length = s.length := by
  rw [asciiBytes, List.length_map, String.length_toList]

/-! ## The state of a call -/

/-- What a call can read and change: memory, which addresses belong to a live object, and the state
of the blob store in use. -/
structure World (σ : Type) where
  mem : Mem
  live : ℤ → Bool
  store : σ

/-- A Python call: it returns or raises, and its effects on the world stay either way. -/
abbrev Py (σ : Type) := EStateM PyError (World σ)

/-- No live byte has changed and no live address has been freed. -/
def World.Extends {σ τ : Type} (w : World σ) (w' : World τ) : Prop :=
  ∀ x, w.live x = true → w'.live x = true ∧ w'.mem x = w.mem x

theorem World.Extends.refl {σ : Type} (w : World σ) : w.Extends w := fun _ h => ⟨h, rfl⟩

theorem World.Extends.trans {σ τ υ : Type} {w : World σ} {w' : World τ} {w'' : World υ}
    (h : w.Extends w') (h' : w'.Extends w'') : w.Extends w'' := fun x hx => by
  obtain ⟨hl, hm⟩ := h x hx
  obtain ⟨hl', hm'⟩ := h' x hl
  exact ⟨hl', hm'.trans hm⟩

end Npb
