import Mathlib.Data.List.GetD
import Mathlib.Tactic.Ring

/-! # Little-endian record formats

A format is a list of fixed-width fields: raw bytes, unsigned little-endian integers, zero padding.
`pack` fails exactly when an integer does not fit its field, and `unpack` inverts it whatever bytes
follow the record (`unpack_pack`). -/

namespace Npb.Struct
set_option autoImplicit false

/-! ## Little-endian integers -/

/-- The `n` low bytes of `v`, least significant first. -/
def leBytes : ℕ → ℕ → List UInt8
  | 0, _ => []
  | n + 1, v => UInt8.ofNat (v % 256) :: leBytes n (v / 256)

def leNat : List UInt8 → ℕ
  | [] => 0
  | b :: bs => b.toNat + 256 * leNat bs

@[simp] theorem leBytes_length (n v : ℕ) : (leBytes n v).length = n := by
  induction n generalizing v with
  | zero => rfl
  | succ n ih => rw [leBytes, List.length_cons, ih]

theorem leNat_leBytes (n v : ℕ) (h : v < 256 ^ n) : leNat (leBytes n v) = v := by
  induction n generalizing v with
  | zero =>
    rw [pow_zero] at h
    simp only [leBytes, leNat]
    omega
  | succ n ih =>
    rw [pow_succ] at h
    have hd : v / 256 < 256 ^ n := Nat.div_lt_of_lt_mul (by rwa [Nat.mul_comm] at h)
    have hb : (UInt8.ofNat (v % 256)).toNat = v % 256 := by
      rw [UInt8.toNat_ofNat']
      omega
    rw [leBytes, leNat, ih _ hd, hb]
    omega

/-! ## Records -/

inductive Field where
  | bytes (n : ℕ)
  | uint (n : ℕ)
  | pad (n : ℕ)

def Field.size : Field → ℕ
  | .bytes n => n
  | .uint n => n
  | .pad n => n

def calcsize (fmt : List Field) : ℕ := (fmt.map Field.size).sum

/-- The values a format packs, in order; padding carries none. -/
@[reducible] def Values : List Field → Type
  | [] => Unit
  | .bytes n :: fs => Vector UInt8 n × Values fs
  | .uint _ :: fs => ℕ × Values fs
  | .pad _ :: fs => Values fs

/-- The bytes of a record, or nothing when an integer is out of range for its field. -/
def pack : (fmt : List Field) → Values fmt → Option (List UInt8)
  | [], _ => some []
  | .bytes _ :: fs, (b, vs) => (pack fs vs).map (b.toList ++ ·)
  | .uint n :: fs, (v, vs) =>
    if v < 256 ^ n then (pack fs vs).map (leBytes n v ++ ·) else none
  | .pad n :: fs, vs => (pack fs vs).map (List.replicate n 0 ++ ·)

/-- What packing leaves in a zeroed record: the fields up to the first integer out of range. -/
def packed : (fmt : List Field) → Values fmt → List UInt8
  | [], _ => []
  | .bytes _ :: fs, (b, vs) => b.toList ++ packed fs vs
  | .uint n :: fs, (v, vs) =>
    if v < 256 ^ n then leBytes n v ++ packed fs vs else List.replicate (calcsize (.uint n :: fs)) 0
  | .pad n :: fs, vs => List.replicate n 0 ++ packed fs vs

/-- Read a record from the front of `bs`; bytes beyond its end count as zero. -/
def unpack : (fmt : List Field) → List UInt8 → Values fmt
  | [], _ => ()
  | .bytes n :: fs, bs => (Vector.ofFn fun i => bs.getD i 0, unpack fs (bs.drop n))
  | .uint n :: fs, bs => (leNat (bs.take n), unpack fs (bs.drop n))
  | .pad n :: fs, bs => unpack fs (bs.drop n)

/-- Every integer fits its field. -/
def Fits : (fmt : List Field) → Values fmt → Prop
  | [], _ => True
  | .bytes _ :: fs, (_, vs) => Fits fs vs
  | .uint n :: fs, (v, vs) => v < 256 ^ n ∧ Fits fs vs
  | .pad _ :: fs, vs => Fits fs vs

theorem pack_isSome_iff (fmt : List Field) (vs : Values fmt) :
    (pack fmt vs).isSome ↔ Fits fmt vs := by
  induction fmt with
  | nil => simp [pack, Fits]
  | cons f fs ih =>
    cases f with
    | bytes n => obtain ⟨b, vs⟩ := vs; simpa [pack, Fits] using ih vs
    | uint n =>
      obtain ⟨v, vs⟩ := vs
      by_cases hv : v < 256 ^ n
      · simpa [pack, Fits, hv] using ih vs
      · simp [pack, Fits, hv]
    | pad n => simpa [pack, Fits] using ih vs

theorem pack_length {fmt : List Field} {vs : Values fmt} {bs : List UInt8}
    (h : pack fmt vs = some bs) : bs.length = calcsize fmt := by
  induction fmt generalizing bs with
  | nil => cases h; rfl
  | cons f fs ih =>
    have hsize : calcsize (f :: fs) = f.size + calcsize fs := by simp [calcsize]
    cases f with
    | bytes n =>
      obtain ⟨b, vs⟩ := vs
      obtain ⟨cs, hcs, rfl⟩ := Option.map_eq_some_iff.mp h
      rw [List.length_append, ih hcs, hsize, Vector.length_toList, Field.size]
    | uint n =>
      obtain ⟨v, vs⟩ := vs
      rw [pack] at h
      split at h
      · obtain ⟨cs, hcs, rfl⟩ := Option.map_eq_some_iff.mp h
        rw [List.length_append, ih hcs, hsize, leBytes_length, Field.size]
      · cases h
    | pad n =>
      obtain ⟨cs, hcs, rfl⟩ := Option.map_eq_some_iff.mp h
      rw [List.length_append, ih hcs, hsize, List.length_replicate, Field.size]

theorem packed_length (fmt : List Field) (vs : Values fmt) :
    (packed fmt vs).length = calcsize fmt := by
  induction fmt with
  | nil => rfl
  | cons f fs ih =>
    have hsize : calcsize (f :: fs) = f.size + calcsize fs := by simp [calcsize]
    cases f with
    | bytes n =>
      obtain ⟨b, vs⟩ := vs
      rw [packed, List.length_append, ih, hsize, Vector.length_toList, Field.size]
    | uint n =>
      obtain ⟨v, vs⟩ := vs
      rw [packed]
      split
      · rw [List.length_append, ih, hsize, leBytes_length, Field.size]
      · rw [List.length_replicate]
    | pad n => rw [packed, List.length_append, ih, hsize, List.length_replicate, Field.size]

theorem packed_of_pack {fmt : List Field} {vs : Values fmt} {bs : List UInt8}
    (h : pack fmt vs = some bs) : packed fmt vs = bs := by
  induction fmt generalizing bs with
  | nil =>
    cases h
    rfl
  | cons f fs ih =>
    cases f with
    | bytes n =>
      obtain ⟨b, vs⟩ := vs
      obtain ⟨cs, hcs, rfl⟩ := Option.map_eq_some_iff.mp h
      rw [packed, ih hcs]
    | uint n =>
      obtain ⟨v, vs⟩ := vs
      rw [pack] at h
      split at h
      · next hv =>
        obtain ⟨cs, hcs, rfl⟩ := Option.map_eq_some_iff.mp h
        rw [packed, if_pos hv, ih hcs]
      · cases h
    | pad n =>
      obtain ⟨cs, hcs, rfl⟩ := Option.map_eq_some_iff.mp h
      rw [packed, ih hcs]

/-- Unpacking what was packed, with any bytes after it. -/
theorem unpack_pack {fmt : List Field} {vs : Values fmt} {bs : List UInt8}
    (h : pack fmt vs = some bs) (rest : List UInt8) : unpack fmt (bs ++ rest) = vs := by
  induction fmt generalizing bs with
  | nil => rfl
  | cons f fs ih =>
    cases f with
    | bytes n =>
      obtain ⟨b, vs⟩ := vs
      obtain ⟨cs, hcs, rfl⟩ := Option.map_eq_some_iff.mp h
      have hn : b.toList.length = n := Vector.length_toList
      rw [unpack, List.append_assoc, List.drop_left' hn, ih hcs]
      congr 1
      ext i hi
      rw [Vector.getElem_ofFn, List.getD_append _ _ _ _ (by omega),
        List.getD_eq_getElem _ _ (by omega), Vector.getElem_toList]
    | uint n =>
      obtain ⟨v, vs⟩ := vs
      rw [pack] at h
      split at h
      · next hv =>
        obtain ⟨cs, hcs, rfl⟩ := Option.map_eq_some_iff.mp h
        have hn : (leBytes n v).length = n := leBytes_length n v
        rw [unpack, List.append_assoc, List.drop_left' hn, List.take_left' hn, ih hcs,
          leNat_leBytes n v hv]
      · cases h
    | pad n =>
      obtain ⟨cs, hcs, rfl⟩ := Option.map_eq_some_iff.mp h
      rw [unpack, List.append_assoc, List.drop_left' List.length_replicate, ih hcs]

end Npb.Struct
