import Npb.Vineyard.Store
import Npb.Foundations.Runs

/-! # Runs of one Vineyard store

What the client is relied on for, the calls a program can make of one `VineyardStore`, and what each
of them can do to the client's objects and to the table of resolved references
(`perform_effect`). -/

namespace Npb.Vineyard
set_option autoImplicit false
open Effects Numpy

variable {O C α : Type}

/-! ## The client -/

section Laws
variable (objects : C → O → Option Argument) (used : C → O → Prop)

/-- A call that neither creates nor removes an object. -/
def Keeps (x : Py C α) : Prop :=
  ∀ w, objects (finalState (x w)).store = objects w.store ∧
    ∀ o, used w.store o → used (finalState (x w)).store o

variable [DecidableEq O]

/-- The client of a Vineyard daemon. `objects` has what `get` returns for each object that exists,
and `used` the object IDs that have ever been given out. -/
structure Client.Lawful (K : Client O C) : Prop where
  objectID_repr : ∀ o, K.objectID (K.repr o) = .ok o
  used_of_object : ∀ c o v, objects c o = some v → used c o
  /-- `put` creates a fresh object. -/
  put_ok : ∀ content persist w o w', K.put content persist w = .ok o w' → ¬ used w.store o ∧
    (∃ v, objects w'.store = Function.update (objects w.store) o (some v)) ∧
    ∀ o', used w.store o' → used w'.store o'
  put_error : ∀ content persist w e w', K.put content persist w = .error e w' →
    objects w'.store = objects w.store ∧ ∀ o', used w.store o' → used w'.store o'
  get_ok : ∀ o w v w', K.get o w = .ok v w' → objects w.store o = some v
  get_keeps : ∀ o, Keeps objects used (K.get o)
  exists_keeps : ∀ o, Keeps objects used (K.exists_ o)
  persist_keeps : ∀ o, Keeps objects used (K.persist o)
  release_keeps : ∀ o, Keeps objects used (K.releaseObject o)
  /-- `delete` removes the object. -/
  delete_ok : ∀ o w w', K.delete o w = .ok () w' →
    objects w'.store = Function.update (objects w.store) o none ∧
    ∀ o', used w.store o' → used w'.store o'
  delete_error : ∀ o w e w', K.delete o w = .error e w' →
    objects w'.store = objects w.store ∧ ∀ o', used w.store o' → used w'.store o'

end Laws

/-! ## Events -/

/-- A call of the store, or what the program does to its memory in between. -/
inductive Event where
  | put (array : NdArray)
  | get (ref : BlobRef)
  | exists_ (ref : BlobRef)
  | persist (ref : BlobRef)
  | release (ref : BlobRef)
  | delete (ref : BlobRef)
  | program (mem : Mem) (live : ℤ → Bool)

section Runs
variable (V : VineyardStore O C) (R : Runtime)

/-- The world after an event; a call that raises leaves it where it stopped. -/
def perform : Event → World (State C) → World (State C)
  | .put array, w => finalState (putArray V array w)
  | .get ref, w => finalState (getArray V R ref w)
  | .exists_ ref, w => finalState (exists_ V ref w)
  | .persist ref, w => finalState (persist V ref w)
  | .release ref, w => finalState (release V ref w)
  | .delete ref, w => finalState (delete V ref w)
  | .program mem live, w => { w with mem := mem, live := live }

def Step (w : World (State C)) (e : Event) (w' : World (State C)) : Prop := w' = perform V R e w

theorem step_functional (e : Event) (w w' w'' : World (State C)) (h : Step V R w e w')
    (h' : Step V R w e w'') : w' = w'' := Eq.trans h (Eq.symm h')

variable (objects : C → O → Option Argument) (used : C → O → Prop)

/-- The array that `get_array` returns for a reference while its object exists. -/
def Denotes (w : World (State C)) (ref : BlobRef) (array : NdArray) : Prop :=
  ∃ o value, V.client.objectID ref.objectId = .ok o ∧ objects w.store.client o = some value ∧
    viewObject R ref value = .ok array

/-- The object that a reference names exists. -/
def Alive (w : World (State C)) (ref : BlobRef) : Prop :=
  ∃ o v, V.client.objectID ref.objectId = .ok o ∧ objects w.store.client o = some v

variable [DecidableEq O]

/-- What an event can do to the objects and the table. -/
inductive Effect (e : Event) (w w' : World (State C)) : Prop
  | same (hobjects : objects w'.store.client = objects w.store.client)
    (htable : w'.store.resolvedRefs = w.store.resolvedRefs)
  | created (array : NdArray) (o : O) (v : Argument) (he : e = .put array)
    (hfresh : ¬ used w.store.client o)
    (hobjects : objects w'.store.client = Function.update (objects w.store.client) o (some v))
    (htable : w'.store.resolvedRefs = w.store.resolvedRefs)
  | resolved (ref : BlobRef) (array : NdArray) (he : e = .get ref)
    (hget : getArray V R ref w = .ok array w') (hdenotes : Denotes V R objects w ref array)
    (hobjects : objects w'.store.client = objects w.store.client)
    (htable : w'.store.resolvedRefs =
      Function.update w.store.resolvedRefs (key array) (some ref))
  | removed (ref : BlobRef) (o : O) (he : e = .delete ref)
    (hid : V.client.objectID ref.objectId = .ok o)
    (hobjects : objects w'.store.client = Function.update (objects w.store.client) o none)
    (htable : w'.store.resolvedRefs = w.store.resolvedRefs)

end Runs

/-! ## One call -/

section Calls
variable {V : VineyardStore O C} {R : Runtime}

theorem putArray_reused {array : NdArray} {w : World (State C)} {ref : BlobRef}
    (hvalid : validateArray array = .ok ())
    (hhit : w.store.resolvedRefs (key array) = some ref) :
    putArray V array w = .ok ref w := by
  refine (bind_ok (fromExcept_eq_ok.mpr ⟨hvalid, rfl⟩) _).trans ?_
  refine (bind_ok (show tryReuseResolved array w = .ok (some ref) w from ?_) _).trans rfl
  rw [tryReuseResolved, bind_ok (get_run w), pure_run, hhit]

theorem putArray_missed {array : NdArray} {w : World (State C)}
    (hvalid : validateArray array = .ok ())
    (hmiss : w.store.resolvedRefs (key array) = none) :
    putArray V array w = (do
      let objectId ← inClient (V.client.put (ascontiguousContent w.mem array) V.persistOnPut)
      return refForObject V objectId (ascontiguousContent w.mem array) 0) w := by
  refine (bind_ok (fromExcept_eq_ok.mpr ⟨hvalid, rfl⟩) _).trans ?_
  refine (bind_ok (show tryReuseResolved array w = .ok none w from ?_) _).trans rfl
  rw [tryReuseResolved, bind_ok (get_run w), pure_run, hmiss]

theorem putArray_ok {array : NdArray} {w w' : World (State C)} {ref : BlobRef}
    (h : putArray V array w = .ok ref w') : validateArray array = .ok () ∧
      ((w.store.resolvedRefs (key array) = some ref ∧ w' = w) ∨
        (w.store.resolvedRefs (key array) = none ∧ ∃ o v,
          V.client.put (ascontiguousContent w.mem array) V.persistOnPut (clientWorld w) =
            .ok o v ∧ ref = refForObject V o (ascontiguousContent w.mem array) 0 ∧
          w' = withClient w v)) := by
  obtain ⟨u, w₁, hvalid₀, -⟩ := bind_eq_ok.mp h
  have hvalid := (fromExcept_eq_ok.mp hvalid₀).1
  refine ⟨hvalid, ?_⟩
  cases hlookup : w.store.resolvedRefs (key array) with
  | some existing =>
    rw [putArray_reused hvalid hlookup] at h
    cases h
    exact .inl ⟨rfl, rfl⟩
  | none =>
    rw [putArray_missed hvalid hlookup] at h
    obtain ⟨o, w₂, hput, h⟩ := bind_eq_ok.mp h
    obtain ⟨v, hclient, rfl⟩ := inClient_eq_ok.mp hput
    cases h
    exact .inr ⟨rfl, o, v, hclient, rfl, rfl⟩

theorem getArray_ok {ref : BlobRef} {w w' : World (State C)} {array : NdArray}
    (h : getArray V R ref w = .ok array w') : ref.store = kind ∧ ∃ o value v,
      V.client.objectID ref.objectId = .ok o ∧ V.client.get o (clientWorld w) = .ok value v ∧
      viewObject R ref value = .ok array ∧
      w' = ⟨v.mem, v.live,
        ⟨v.store, Function.update w.store.resolvedRefs (key array) (some ref)⟩⟩ := by
  unfold getArray at h
  obtain ⟨u, w₁, hstore₀, h₁⟩ := bind_eq_ok.mp h
  obtain ⟨hstore, rfl⟩ := fromExcept_eq_ok.mp hstore₀
  obtain ⟨o, w₂, hid₀, h₂⟩ := bind_eq_ok.mp h₁
  obtain ⟨hid, rfl⟩ := fromExcept_eq_ok.mp hid₀
  obtain ⟨value, w₃, hget₀, h₃⟩ := bind_eq_ok.mp h₂
  obtain ⟨v, hget, rfl⟩ := inClient_eq_ok.mp hget₀
  obtain ⟨a, w₄, hview₀, h₄⟩ := bind_eq_ok.mp h₃
  obtain ⟨hview, rfl⟩ := fromExcept_eq_ok.mp hview₀
  obtain ⟨u', w₅, hregister, h₅⟩ := bind_eq_ok.mp h₄
  cases hregister
  cases h₅
  exact ⟨not_not.mp (raiseIf_eq_ok.mp hstore), o, value, v, hid, hget, hview, rfl⟩

theorem getArray_error {ref : BlobRef} {w w' : World (State C)} {e : PyError}
    (h : getArray V R ref w = .error e w') :
    w' = w ∨ ∃ o, w' = withClient w (finalState (V.client.get o (clientWorld w))) := by
  unfold getArray at h
  obtain hstore | ⟨u, w₁, hstore, h₁⟩ := bind_eq_error.mp h
  · exact .inl (fromExcept_eq_error.mp hstore).2
  obtain ⟨-, rfl⟩ := fromExcept_eq_ok.mp hstore
  obtain hid | ⟨o, w₂, hid, h₂⟩ := bind_eq_error.mp h₁
  · exact .inl (fromExcept_eq_error.mp hid).2
  obtain ⟨-, rfl⟩ := fromExcept_eq_ok.mp hid
  right
  refine ⟨o, ?_⟩
  rw [← finalState_inClient]
  obtain hget | ⟨value, w₃, hget, h₃⟩ := bind_eq_error.mp h₂
  · rw [hget, finalState_error]
  rw [hget, finalState_ok]
  obtain hview | ⟨a, w₄, hview, h₄⟩ := bind_eq_error.mp h₃
  · exact (fromExcept_eq_error.mp hview).2
  · obtain hregister | ⟨u', w₅, hregister, h₅⟩ := bind_eq_error.mp h₄
    · cases hregister
    · cases h₅

theorem finalState_onObject (call : O → Py C α) (ref : BlobRef) (w : World (State C)) :
    finalState (onObject V call ref w) = w ∨ ∃ o, V.client.objectID ref.objectId = .ok o ∧
      finalState (onObject V call ref w) =
        withClient w (finalState (call o (clientWorld w))) := by
  unfold onObject
  cases hid : V.client.objectID ref.objectId with
  | error e => exact .inl rfl
  | ok o =>
    right
    refine ⟨o, rfl, ?_⟩
    rw [← finalState_inClient]
    rfl

end Calls

/-! ## One event -/

section Effects
variable {V : VineyardStore O C} {R : Runtime} {objects : C → O → Option Argument}
  {used : C → O → Prop} [DecidableEq O]

theorem onObject_effect {call : O → Py C α} (hcall : ∀ o, Keeps objects used (call o))
    (e : Event) (ref : BlobRef) (w : World (State C)) :
    Effect V R objects used e w (finalState (onObject V call ref w)) ∧
      ∀ o, used w.store.client o → used (finalState (onObject V call ref w)).store.client o := by
  obtain h | ⟨o, -, h⟩ := finalState_onObject (V := V) call ref w
  · rw [h]
    exact ⟨.same rfl rfl, fun o h => h⟩
  · rw [h]
    obtain ⟨hobjects, hused⟩ := hcall o (clientWorld w)
    exact ⟨.same hobjects rfl, hused⟩

theorem putArray_effect (hV : V.client.Lawful objects used) (array : NdArray)
    (w : World (State C)) :
    Effect V R objects used (.put array) w (finalState (putArray V array w)) ∧
      ∀ o, used w.store.client o → used (finalState (putArray V array w)).store.client o := by
  cases hvalid : validateArray array with
  | error e =>
    have hrun : putArray V array w = .error e w :=
      bind_error (fromExcept_eq_error.mpr ⟨hvalid, rfl⟩) _
    rw [hrun]
    exact ⟨.same rfl rfl, fun o h => h⟩
  | ok u =>
    cases hlookup : w.store.resolvedRefs (key array) with
    | some existing =>
      rw [putArray_reused hvalid hlookup]
      exact ⟨.same rfl rfl, fun o h => h⟩
    | none =>
      rw [putArray_missed hvalid hlookup]
      cases hput : V.client.put (ascontiguousContent w.mem array) V.persistOnPut
          (clientWorld w) with
      | ok o v =>
        rw [bind_ok (inClient_ok hput), pure_run, finalState_ok]
        obtain ⟨hfresh, ⟨value, hobjects⟩, hused⟩ := hV.put_ok _ _ _ _ _ hput
        exact ⟨.created array o value rfl hfresh hobjects rfl, hused⟩
      | error e v =>
        have hrun : inClient (V.client.put (ascontiguousContent w.mem array) V.persistOnPut) w =
            .error e (withClient w v) := by
          rw [inClient, hput]
        rw [bind_error hrun, finalState_error]
        obtain ⟨hobjects, hused⟩ := hV.put_error _ _ _ _ _ hput
        exact ⟨.same hobjects rfl, hused⟩

theorem getArray_effect (hV : V.client.Lawful objects used) (ref : BlobRef)
    (w : World (State C)) :
    Effect V R objects used (.get ref) w (finalState (getArray V R ref w)) ∧
      ∀ o, used w.store.client o → used (finalState (getArray V R ref w)).store.client o := by
  cases hrun : getArray V R ref w with
  | ok array w' =>
    obtain ⟨-, o, value, v, hid, hget, hview, hw'⟩ := getArray_ok hrun
    obtain ⟨hobjects, hused⟩ := hV.get_keeps o (clientWorld w)
    rw [hget] at hobjects hused
    have hclient : w'.store.client = v.store := by rw [hw']
    rw [finalState_ok, hclient]
    refine ⟨.resolved ref array rfl hrun ⟨o, value, hid, hV.get_ok _ _ _ _ hget, hview⟩ ?_ ?_,
      hused⟩
    · rw [hclient]
      exact hobjects
    · rw [hw']
  | error e w' =>
    rw [finalState_error]
    obtain rfl | ⟨o, rfl⟩ := getArray_error hrun
    · exact ⟨.same rfl rfl, fun o h => h⟩
    · obtain ⟨hobjects, hused⟩ := hV.get_keeps o (clientWorld w)
      exact ⟨.same hobjects rfl, hused⟩

theorem delete_effect (hV : V.client.Lawful objects used) (ref : BlobRef)
    (w : World (State C)) :
    Effect V R objects used (.delete ref) w (finalState (delete V ref w)) ∧
      ∀ o, used w.store.client o → used (finalState (delete V ref w)).store.client o := by
  obtain h | ⟨o, hid, h⟩ := finalState_onObject (V := V) V.client.delete ref w
  · rw [delete, h]
    exact ⟨.same rfl rfl, fun o h => h⟩
  · rw [delete, h]
    cases hdelete : V.client.delete o (clientWorld w) with
    | ok u v =>
      obtain ⟨hobjects, hused⟩ := hV.delete_ok _ _ _ hdelete
      exact ⟨.removed ref o rfl hid hobjects rfl, hused⟩
    | error e v =>
      obtain ⟨hobjects, hused⟩ := hV.delete_error _ _ _ _ hdelete
      exact ⟨.same hobjects rfl, hused⟩

/-- Everything an event can do; object IDs stay used. -/
theorem perform_effect (hV : V.client.Lawful objects used) (e : Event) (w : World (State C)) :
    Effect V R objects used e w (perform V R e w) ∧
      ∀ o, used w.store.client o → used (perform V R e w).store.client o := by
  cases e with
  | put array => exact putArray_effect hV array w
  | get ref => exact getArray_effect hV ref w
  | exists_ ref => exact onObject_effect hV.exists_keeps _ ref w
  | persist ref => exact onObject_effect hV.persist_keeps _ ref w
  | release ref => exact onObject_effect hV.release_keeps _ ref w
  | delete ref => exact delete_effect hV ref w
  | program mem live => exact ⟨.same rfl rfl, fun o h => h⟩

end Effects

/-! ## A client in memory -/

/-- The client of the tests: objects are numbered, and one that is deleted leaves its number. -/
def fakeClient : Client ℕ (List (Option NdArray)) where
  objectID s := .ok (s.length - 1)
  repr o := String.ofList (List.replicate (o + 1) 'o')
  put value _ := fun w =>
    let p : ℤ := 2 ^ 20 * (w.store.length + 1)
    match mkArray p value.dtype value.shape with
    | .ok stored => .ok w.store.length { w with
        mem := w.mem.write p value.bytes
        store := w.store ++ [some stored] }
    | .error e => .error e w
  get o := fun w =>
    match w.store[o]? with
    | some (some value) => .ok (.array value false) w
    | _ => .error (.keyError "object") w
  exists_ o := fun w => .ok (w.store[o]?.join.isSome) w
  persist _ := fun w => .ok () w
  releaseObject _ := fun w => .ok () w
  delete o := fun w => .ok () { w with store := w.store.set o none }

def fakeObjects (stored : List (Option NdArray)) (o : ℕ) : Option Argument :=
  stored[o]?.join.map fun value => .array value false

def fakeUsed (c : List (Option NdArray)) (o : ℕ) : Prop := o < c.length

theorem fakeClient_lawful : fakeClient.Lawful fakeObjects fakeUsed := by
  constructor
  · intro o
    simp [fakeClient]
  · intro c o v h
    unfold fakeObjects at h
    by_contra hlt
    rw [List.getElem?_eq_none (Nat.le_of_not_lt hlt)] at h
    cases h
  · intro content persist w o w' h
    unfold fakeClient at h
    dsimp only at h
    split at h
    · next stored hstored =>
      cases h
      refine ⟨lt_irrefl _, ⟨.array stored false, ?_⟩, ?_⟩
      · funext o
        unfold fakeObjects
        by_cases ho : o = w.store.length
        · subst ho
          simp
        · rw [Function.update_of_ne ho]
          by_cases hlt : o < w.store.length
          · rw [List.getElem?_append_left hlt]
          · rw [List.getElem?_eq_none (by simp; omega), List.getElem?_eq_none (by omega)]
      · intro o' ho'
        unfold fakeUsed at *
        simp only [List.length_append, List.length_singleton]
        omega
    · cases h
  · intro content persist w e w' h
    unfold fakeClient at h
    dsimp only at h
    split at h
    · cases h
    · cases h
      exact ⟨rfl, fun _ h => h⟩
  · intro o w v w' h
    unfold fakeClient at h
    dsimp only at h
    split at h
    · next value hvalue =>
      cases h
      rw [fakeObjects, hvalue]
      rfl
    · cases h
  · intro o w
    unfold fakeClient
    dsimp only
    split
    · exact ⟨rfl, fun _ h => h⟩
    · exact ⟨rfl, fun _ h => h⟩
  · exact fun o w => ⟨rfl, fun _ h => h⟩
  · exact fun o w => ⟨rfl, fun _ h => h⟩
  · exact fun o w => ⟨rfl, fun _ h => h⟩
  · intro o w w' h
    cases h
    refine ⟨?_, ?_⟩
    · funext o'
      unfold fakeObjects
      by_cases ho : o' = o
      · subst ho
        rw [Function.update_self]
        by_cases hlt : o' < w.store.length
        · simp [List.getElem?_set_self hlt]
        · rw [List.getElem?_eq_none (by simp; omega)]
          rfl
      · rw [Function.update_of_ne ho, List.getElem?_set_ne (Ne.symm ho)]
    · intro o' ho'
      unfold fakeUsed at *
      simpa using ho'
  · intro o w e w' h
    cases h

/-- A store over the client, with one object: `value`. -/
def fakeStore : VineyardStore ℕ (List (Option NdArray)) := ⟨fakeClient, false⟩

def fakeWorld (mem : Mem) (value : NdArray) : World (State (List (Option NdArray))) :=
  ⟨mem, fun _ => true, .new [some value]⟩

end Npb.Vineyard
