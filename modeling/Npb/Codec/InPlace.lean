import Npb.Codec.Containment
import Npb.Codec.Overwrite

/-! # Encoding into the buffer the arrays were decoded from

The loop of `encode` reads each array when its turn comes. When the arrays are views of the output
buffer, an array whose bytes lie below the place it is copied to is read after these bytes have been
overwritten. The data survives, whatever it is, exactly when every such byte belongs to an array
that the new container keeps in its place (`inPlace_iff`). -/

namespace Npb
set_option autoImplicit false
open Effects Numpy

variable {σ : Type}

/-! ## What the loop writes -/

/-- `pre` and what the loop appends to it, every array read over what has been written so far. -/
def writtenBytes (m : Mem) (base : ℤ) : List UInt8 → ℕ → List (ℕ × NdArray) → List UInt8
  | pre, _, [] => pre
  | pre, prev, (relOffset, a) :: arrays =>
    let filled := pre ++ List.replicate (relOffset - prev) 0
    writtenBytes m base (filled ++ a.tobytes (m.write base filled)) (relOffset + a.nbytes) arrays

section Loop
variable {m : Mem} {base : ℤ}

theorem writtenBytes_length (m : Mem) (base : ℤ) (pre : List UInt8) {prev e : ℕ}
    {arrays : List (ℕ × NdArray)}
    (hl : Laid prev arrays e) :
    (writtenBytes m base pre prev arrays).length + prev = pre.length + e := by
  induction arrays generalizing pre prev with
  | nil =>
    have he : e = prev := hl
    rw [writtenBytes, he]
  | cons x arrays ih =>
    obtain ⟨relOffset, a⟩ := x
    have hprev := hl.start_le
    obtain ⟨-, hrest⟩ := hl
    have hlen := ih (pre ++ List.replicate (relOffset - prev) 0 ++
      a.tobytes (m.write base (pre ++ List.replicate (relOffset - prev) 0))) hrest
    rw [writtenBytes]
    simp only [List.length_append, List.length_replicate, NdArray.tobytes_length] at hlen
    omega

theorem writtenBytes_prefix (m : Mem) (base : ℤ) (pre : List UInt8) (prev : ℕ)
    (arrays : List (ℕ × NdArray)) :
    ∃ rest, writtenBytes m base pre prev arrays = pre ++ rest := by
  induction arrays generalizing pre prev with
  | nil => exact ⟨[], (List.append_nil pre).symm⟩
  | cons x arrays ih =>
    obtain ⟨relOffset, a⟩ := x
    obtain ⟨rest, hrest⟩ := ih (pre ++ List.replicate (relOffset - prev) 0 ++
      a.tobytes (m.write base (pre ++ List.replicate (relOffset - prev) 0))) (relOffset + a.nbytes)
    rw [writtenBytes, hrest]
    simp only [List.append_assoc]
    exact ⟨_, rfl⟩

theorem writeArrays_contiguous {binary : Buffer} {dataStart : ℕ} {arrays : List (ℕ × NdArray)}
    {prev e : ℕ} (hl : Laid prev arrays e) (hroom : dataStart + e ≤ binary.size)
    (hcontiguous : ∀ relOffset a, (relOffset, a) ∈ arrays → a.isCContiguous = true)
    {pre : List UInt8} (hpre : pre.length = dataStart + prev) {w : World σ}
    (hw : w.mem = m.write binary.base pre) :
    writeArrays binary dataStart arrays prev w =
      .ok () { w with mem := m.write binary.base (writtenBytes m binary.base pre prev arrays) } := by
  induction arrays generalizing prev pre w with
  | nil => rw [writeArrays, pure_run, writtenBytes, ← hw]
  | cons x arrays ih =>
    obtain ⟨relOffset, a⟩ := x
    have hprev := hl.start_le
    obtain ⟨-, hrest⟩ := hl
    have hle := hrest.le
    have hread : ascontiguousarray a w = .ok (.view a) w := by
      rw [ascontiguousarray, bind_ok (get_run w), pure_run,
        if_pos (hcontiguous relOffset a (List.mem_cons_self ..))]
    rw [writeArrays_cons hw hpre hprev (by omega) (NdArray.tobytes_length ..) ⟨_, hread, rfl⟩]
    rw [ih hrest (fun r b hb => hcontiguous r b (List.mem_cons_of_mem _ hb)) ?_ rfl]
    · rfl
    · simp only [List.length_append, List.length_replicate, NdArray.tobytes_length]
      omega

/-- Contiguous arrays are read as they were exactly when their bytes survive. -/
theorem tobytes_eq_iff {a : NdArray} (hcontiguous : a.isCContiguous = true) {m m' : Mem} :
    a.tobytes m' = a.tobytes m ↔ ∀ x, a.Touches x → m' x = m x := by
  refine ⟨fun h x hx => ?_, a.tobytes_congr⟩
  rw [NdArray.tobytes_contiguous m' hcontiguous, NdArray.tobytes_contiguous m hcontiguous] at h
  obtain ⟨hlo, hhi⟩ := NdArray.touches_contiguous hcontiguous hx
  obtain ⟨i, rfl⟩ : ∃ i : ℕ, x = a.data + i := ⟨(x - a.data).toNat, by omega⟩
  have hi : i < (m.read a.data a.nbytes).length := by
    rw [Mem.read_length]
    omega
  have hi' : i < (m'.read a.data a.nbytes).length := by
    rw [Mem.read_length]
    omega
  rw [← Mem.read_getElem m' a.data a.nbytes i hi', ← Mem.read_getElem m a.data a.nbytes i hi]
  exact List.getElem_of_eq h hi'

theorem writtenBytes_eq_iff (pre : List UInt8) (prev : ℕ) {arrays : List (ℕ × NdArray)}
    (hcontiguous : ∀ relOffset a, (relOffset, a) ∈ arrays → a.isCContiguous = true) :
    writtenBytes m base pre prev arrays = pre ++ body m prev arrays ↔
      SourcesSurvive m base pre prev arrays := by
  induction arrays generalizing pre prev with
  | nil => simp [writtenBytes, body, SourcesSurvive]
  | cons x arrays ih =>
    obtain ⟨relOffset, a⟩ := x
    have hhere := hcontiguous relOffset a (List.mem_cons_self ..)
    have hlater := ih (pre ++ List.replicate (relOffset - prev) 0 ++ a.tobytes m)
      (relOffset + a.nbytes) fun r b hb => hcontiguous r b (List.mem_cons_of_mem _ hb)
    have hsplit : pre ++ (List.replicate (relOffset - prev) 0 ++ a.tobytes m ++
        body m (relOffset + a.nbytes) arrays) =
        pre ++ List.replicate (relOffset - prev) 0 ++ a.tobytes m ++
          body m (relOffset + a.nbytes) arrays := by
      simp only [List.append_assoc]
    rw [writtenBytes, body, SourcesSurvive, hsplit, ← tobytes_eq_iff hhere, ← hlater]
    constructor
    · intro h
      obtain ⟨rest, hrest⟩ := writtenBytes_prefix m base
        (pre ++ List.replicate (relOffset - prev) 0 ++
          a.tobytes (m.write base (pre ++ List.replicate (relOffset - prev) 0)))
        (relOffset + a.nbytes) arrays
      have hsame : a.tobytes (m.write base (pre ++ List.replicate (relOffset - prev) 0)) =
          a.tobytes m := by
        rw [hrest] at h
        have hleft := (List.append_inj h (by simp)).1
        exact (List.append_inj hleft rfl).2
      refine ⟨hsame, ?_⟩
      rwa [hsame] at h
    · rintro ⟨hsame, h⟩
      rwa [hsame]

/-! ## Which layouts keep the data -/

/-- An array is overwritten too early where one of its bytes lies below the place it is copied to:
what stands there by then is the header, a gap or another array. -/
theorem sourcesSurvive_iff {pre : List UInt8} {dataStart prev e : ℕ} {arrays : List (ℕ × NdArray)}
    (hl : Laid prev arrays e) (hpre : pre.length = dataStart + prev) :
    SourcesSurvive m base pre prev arrays ↔
      ∀ relOffset a, (relOffset, a) ∈ arrays → ∀ x, a.Touches x →
        x < base + (dataStart + relOffset : ℕ) →
        m.write base (pre ++ body m prev arrays) x = m x := by
  induction arrays generalizing pre prev with
  | nil => simp [SourcesSurvive]
  | cons y arrays ih =>
    obtain ⟨relOffset, a⟩ := y
    have hprev := hl.start_le
    obtain ⟨-, hrest⟩ := hl
    have hfilled : (pre ++ List.replicate (relOffset - prev) (0 : UInt8)).length =
        dataStart + relOffset := by
      rw [List.length_append, List.length_replicate]
      omega
    have hlen : (pre ++ List.replicate (relOffset - prev) 0 ++ a.tobytes m).length =
        dataStart + (relOffset + a.nbytes) := by
      rw [List.length_append, hfilled, NdArray.tobytes_length]
      omega
    have hsplit : pre ++ body m prev ((relOffset, a) :: arrays) =
        pre ++ List.replicate (relOffset - prev) 0 ++ a.tobytes m ++
          body m (relOffset + a.nbytes) arrays := by
      simp only [body, List.append_assoc]
    have hhere : ∀ x, m.write base (pre ++ List.replicate (relOffset - prev) 0) x = m x ↔
        (x < base + (dataStart + relOffset : ℕ) →
          m.write base (pre ++ body m prev ((relOffset, a) :: arrays)) x = m x) := by
      intro x
      by_cases hx : x < base + (dataStart + relOffset : ℕ)
      · have hbefore := Mem.write_append_of_lt m base (pre ++ List.replicate (relOffset - prev) 0)
          (a.tobytes m ++ body m (relOffset + a.nbytes) arrays) (show x < _ by omega)
        rw [hsplit, List.append_assoc, hbefore]
        exact ⟨fun h _ => h, fun h => h hx⟩
      · have hout := Mem.write_of_not_mem m base
          (pre ++ List.replicate (relOffset - prev) 0) (.inr (show _ ≤ x by omega))
        exact ⟨fun _ h => absurd h hx, fun _ => hout⟩
    rw [SourcesSurvive, ih hrest hlen, ← hsplit]
    constructor
    · rintro ⟨hfirst, hlater⟩ relOffset' a' hmem
      obtain heq | hmem := List.mem_cons.mp hmem
      · cases heq
        exact fun x hx => (hhere x).mp (hfirst x hx)
      · exact hlater relOffset' a' hmem
    · intro h
      exact ⟨fun x hx => (hhere x).mpr (h relOffset a (List.mem_cons_self ..) x hx),
        fun r b hb => h r b (List.mem_cons_of_mem _ hb)⟩

/-- A byte of the DATA section is a zero or a byte of an array. -/
theorem body_byte {prev e : ℕ} {arrays : List (ℕ × NdArray)} (hl : Laid prev arrays e)
    (hcontiguous : ∀ relOffset a, (relOffset, a) ∈ arrays → a.isCContiguous = true) {q : ℕ}
    (hlo : prev ≤ q) (hhi : q < e) :
    (∀ m, (body m prev arrays)[q - prev]? = some 0) ∨
      ∃ relOffset a, (relOffset, a) ∈ arrays ∧ relOffset ≤ q ∧ q < relOffset + a.nbytes ∧
        ∀ m, (body m prev arrays)[q - prev]? = some (m (a.data + (q - relOffset : ℕ))) := by
  induction arrays generalizing prev with
  | nil =>
    have he : e = prev := hl
    omega
  | cons y arrays ih =>
    obtain ⟨relOffset, a⟩ := y
    have hprev := hl.start_le
    obtain ⟨-, hrest⟩ := hl
    have hgap : (List.replicate (relOffset - prev) (0 : UInt8)).length = relOffset - prev :=
      List.length_replicate ..
    have hbytes : ∀ m, (List.replicate (relOffset - prev) (0 : UInt8) ++ a.tobytes m).length =
        relOffset - prev + a.nbytes := by
      intro m
      rw [List.length_append, hgap, NdArray.tobytes_length]
    by_cases h₁ : q < relOffset
    · left
      intro m
      rw [body, List.append_assoc, List.getElem?_append_left (by omega),
        List.getElem?_replicate_of_lt (by omega)]
    by_cases h₂ : q < relOffset + a.nbytes
    · right
      refine ⟨relOffset, a, List.mem_cons_self .., by omega, h₂, fun m => ?_⟩
      have hi : q - relOffset < (m.read a.data a.nbytes).length := by
        rw [Mem.read_length]
        omega
      have hsub : q - prev - (relOffset - prev) = q - relOffset := by omega
      rw [body, List.getElem?_append_left (by rw [hbytes]; omega),
        List.getElem?_append_right (by omega), hgap, hsub,
        NdArray.tobytes_contiguous m (hcontiguous relOffset a (List.mem_cons_self ..)),
        List.getElem?_eq_getElem hi, Mem.read_getElem]
    · have hsub : ∀ m, (body m prev ((relOffset, a) :: arrays))[q - prev]? =
          (body m (relOffset + a.nbytes) arrays)[q - (relOffset + a.nbytes)]? := by
        intro m
        rw [body, List.getElem?_append_right (by rw [hbytes]; omega), hbytes]
        congr 1
        omega
      simp only [hsub]
      rcases ih hrest (fun r b hb => hcontiguous r b (List.mem_cons_of_mem _ hb)) (by omega) with
        hzero | ⟨r, b, hb, hr⟩
      · exact .inl hzero
      · exact .inr ⟨r, b, List.mem_cons_of_mem _ hb, hr⟩

theorem write_destination (m : Mem) (base : ℤ) {pre : List UInt8} {dataStart e : ℕ}
    {arrays : List (ℕ × NdArray)}
    (hl : Laid 0 arrays e) (hpre : pre.length = dataStart + 0) {relOffset : ℕ} {a : NdArray}
    (hmem : (relOffset, a) ∈ arrays) (hcontiguous : a.isCContiguous = true) {i : ℕ}
    (hi : i < a.nbytes) :
    m.write base (pre ++ body m 0 arrays) (base + (dataStart + relOffset + i : ℕ)) =
      m (a.data + i) := by
  have hbounds := hl.mem_bounds hmem
  have hlen := body_length m hl
  have hlt : dataStart + relOffset + i < (pre ++ body m 0 arrays).length := by
    rw [List.length_append]
    omega
  have hslice := body_slice m hl hmem
  rw [Nat.sub_zero, NdArray.tobytes_contiguous m hcontiguous] at hslice
  have hget := congrArg (·[i]?) hslice
  have hi' : i < (m.read a.data a.nbytes).length := by
    rw [Mem.read_length]
    exact hi
  rw [List.getElem?_take_of_lt hi, List.getElem?_drop, List.getElem?_eq_getElem hi',
    Mem.read_getElem] at hget
  rw [Mem.write_of_lt _ _ _ hlt]
  refine Option.some_injective _ ?_
  rw [← List.getElem?_eq_getElem, List.getElem?_append_right (by omega), ← hget]
  congr 1
  omega

end Loop

/-- Every byte of an array below the place it is copied to belongs to an array that is copied to
where it is. -/
def Undisturbed (base : ℤ) (dataStart : ℕ) (arrays : List (ℕ × NdArray)) : Prop :=
  ∀ relOffset a, (relOffset, a) ∈ arrays → ∀ x, a.Touches x →
    x < base + (dataStart + relOffset : ℕ) →
    ∃ relOffset' a', (relOffset', a') ∈ arrays ∧ a'.data = base + (dataStart + relOffset' : ℕ) ∧
      a'.Touches x

section Layouts
variable {base : ℤ} {pre : List UInt8} {dataStart e : ℕ} {arrays : List (ℕ × NdArray)}

theorem survive_of_undisturbed (hl : Laid 0 arrays e) (hpre : pre.length = dataStart + 0)
    (hcontiguous : ∀ relOffset a, (relOffset, a) ∈ arrays → a.isCContiguous = true)
    (h : Undisturbed base dataStart arrays) (m : Mem) : SourcesSurvive m base pre 0 arrays := by
  rw [sourcesSurvive_iff hl hpre]
  intro relOffset a hmem x hx hlt
  obtain ⟨relOffset', a', hmem', hstays, hx'⟩ := h relOffset a hmem x hx hlt
  have hc := hcontiguous relOffset' a' hmem'
  obtain ⟨hlo, hhi⟩ := NdArray.touches_contiguous hc hx'
  obtain ⟨i, rfl⟩ : ∃ i : ℕ, x = a'.data + i := ⟨(x - a'.data).toNat, by omega⟩
  have hwritten := write_destination m base hl hpre hmem' hc (show i < a'.nbytes by omega)
  have haddress : base + (dataStart + relOffset' + i : ℕ) = a'.data + i := by
    rw [hstays]
    push_cast
    ring
  rwa [haddress] at hwritten

/-- Otherwise the byte is lost: the container has the same byte there whatever the array has. -/
theorem undisturbed_of_survive (hl : Laid 0 arrays e) (hpre : pre.length = dataStart + 0)
    (hcontiguous : ∀ relOffset a, (relOffset, a) ∈ arrays → a.isCContiguous = true)
    {region : ℤ → Prop} {m₀ : Mem}
    (hregion : ∀ relOffset a, (relOffset, a) ∈ arrays → ∀ x, a.Touches x → base ≤ x ∧ region x)
    (h : ∀ m : Mem, (∀ x, ¬ region x → m x = m₀ x) → SourcesSurvive m base pre 0 arrays) :
    Undisturbed base dataStart arrays := by
  intro relOffset a hmem x hx hlt
  obtain ⟨hbase, hin⟩ := hregion relOffset a hmem x hx
  by_contra hlost
  have hupdate : ∀ y, ¬ region y → Function.update m₀ x (m₀ x + 1) y = m₀ y := by
    intro y hy
    exact Function.update_of_ne (fun e => hy (by rwa [e])) _ _
  have hstay := h m₀ fun y _ => rfl
  have hchange := h _ hupdate
  rw [sourcesSurvive_iff hl hpre] at hstay hchange
  have hstay := hstay relOffset a hmem x hx hlt
  have hchange := hchange relOffset a hmem x hx hlt
  rw [Function.update_self] at hchange
  obtain ⟨q, rfl⟩ : ∃ q : ℕ, x = base + q := ⟨(x - base).toNat, by omega⟩
  have hbounds := hl.mem_bounds hmem
  have hlen : ∀ m, (pre ++ body m 0 arrays).length = dataStart + e := by
    intro m
    have hbody := body_length m hl
    rw [List.length_append]
    omega
  have hq : q < dataStart + e := by omega
  rw [Mem.write_of_lt _ _ _ (by rw [hlen]; exact hq)] at hstay hchange
  have hsame : (pre ++ body (Function.update m₀ (base + q) (m₀ (base + q) + 1)) 0 arrays)[q]? =
      (pre ++ body m₀ 0 arrays)[q]? := by
    by_cases hframe : q < pre.length
    · rw [List.getElem?_append_left hframe, List.getElem?_append_left hframe]
    rw [List.getElem?_append_right (by omega), List.getElem?_append_right (by omega)]
    rcases body_byte hl hcontiguous (show 0 ≤ q - dataStart by omega) (by omega) with
      hzero | ⟨r, b, hb, hlo, hhi, hbyte⟩
    · have hsub : q - pre.length = q - dataStart - 0 := by omega
      rw [hsub, hzero, hzero]
    · have hsub : q - pre.length = q - dataStart - 0 := by omega
      rw [hsub, hbyte, hbyte, Function.update_of_ne]
      intro haddress
      refine hlost ⟨r, b, hb, by omega, ?_⟩
      rw [← haddress]
      exact NdArray.touches_iff_contiguous (hcontiguous r b hb) |>.mpr ⟨by omega, by omega⟩
  have hget : m₀ (base + q) + 1 = m₀ (base + q) := by
    rw [List.getElem?_eq_getElem (by rw [hlen]; exact hq),
      List.getElem?_eq_getElem (by rw [hlen]; exact hq), hstay, hchange] at hsame
    exact Option.some_injective _ hsame
  have hnat := congrArg UInt8.toNat hget
  rw [UInt8.toNat_add, UInt8.toNat_one] at hnat
  have hbyte := (m₀ (base + q)).toNat_lt
  omega

end Layouts

/-! ## Two encodings of one model -/

/-- Encoding into `b` returns the bytes that encoding into fresh memory returns. -/
def KeepsData (R : Runtime) (model : Model) (b : Buffer) (w : World σ) : Prop :=
  ∃ out w' fresh w'', encode R model (some (.array b.toArray true)) none none w = .ok out w' ∧
    encode R model none none none w = .ok fresh w'' ∧ out.bytes w'.mem = fresh.bytes w''.mem

theorem acquireOutput_toArray (R : Runtime) {b : Buffer} {n : ℕ} (hroom : n ≤ b.size)
    (w : World σ) : acquireOutput R n (some (.array b.toArray true)) w = .ok (b.take n) w := by
  refine fromExcept_eq_ok.mpr ⟨?_, rfl⟩
  have hsmall : ¬ b.size < n := by omega
  rw [checkOutput, requireByteArray_toArray]
  simp [raiseIf, hsmall, bind, Except.bind, pure, Except.pure]

section Twice
variable {R : Runtime} {model : Model} {b : Buffer} {w w₁ : World σ} {a : Analysis}
  {header : List UInt8}

/-- Both encodings return; they agree when the bytes of the arrays survive the first one. -/
theorem encode_twice (ha : analyzeModel R model none none w = .ok a w₁)
    (hhead : packHeader a = .ok header) (hroom : a.totalSize ≤ b.size)
    (hcontiguous : ∀ node ∈ arraysOf model.tree, node.isCContiguous = true)
    (hlive : ∀ node ∈ arraysOf model.tree, ∀ x, node.Touches x → w.live x = true)
    (hfree : R.Allocates w.live a.totalSize) :
    ∃ out w' fresh w'', encode R model (some (.array b.toArray true)) none none w = .ok out w' ∧
      encode R model none none none w = .ok fresh w'' ∧
      (out.bytes w'.mem = fresh.bytes w''.mem ↔
        SourcesSurvive w.mem b.base (frame a header) 0 a.arrays) := by
  obtain ⟨-, rfl⟩ := analyzeModel_offline ha w
  obtain ⟨hl, hstart⟩ := analyzeModel_laid ha
  have hh := packHeader_length hhead
  have hflen := frame_length hh (Analysis.frame_le hstart)
  have htotal := le_totalSize a
  have hsources : ∀ relOffset node, (relOffset, node) ∈ a.arrays → node.isCContiguous = true :=
    fun relOffset node h => hcontiguous node (analyzeModel_sources ha h)
  obtain ⟨binary, hbase, hbinary⟩ : ∃ binary, binary.base = b.base ∧
      acquireOutput R a.totalSize (some (.array b.toArray true)) w₁ = .ok binary w₁ :=
    ⟨b.take a.totalSize, b.take_base _, acquireOutput_toArray R hroom w₁⟩
  have hsize := (acquireOutput_ok hbinary).1
  rw [← hbase]
  obtain ⟨written, hwritten⟩ : ∃ written,
      written = writtenBytes w₁.mem binary.base (frame a header) 0 a.arrays := ⟨_, rfl⟩
  have hwlen : written.length = a.dataStart + a.dataBytes := by
    have hlen := writtenBytes_length w₁.mem binary.base (frame a header) hl
    rw [← hwritten] at hlen
    omega
  have harrays := writeArrays_contiguous
    (w := { w₁ with mem := w₁.mem.write binary.base (frame a header) }) hl
    (show a.dataStart + a.dataBytes ≤ binary.size by omega) hsources hflen rfl
  rw [← hwritten] at harrays
  have hplace := encode_run_of ha hhead hbinary hwlen harrays
  obtain ⟨fresh, w'', hfresh, hbytes, -⟩ := encode_overwrites (by simp) ha hhead
    (providesOutput_none hfree hlive)
  refine ⟨_, _, fresh, w'', hplace, hfresh, ?_⟩
  have hlen : (written ++ List.replicate (a.totalSize - (a.dataStart + a.dataBytes)) 0).length =
      binary.size := by
    rw [List.length_append, List.length_replicate, hwlen, hsize]
    omega
  have hout : binary.bytes (w₁.mem.write binary.base
      (written ++ List.replicate (a.totalSize - (a.dataStart + a.dataBytes)) 0)) =
      written ++ List.replicate (a.totalSize - (a.dataStart + a.dataBytes)) 0 :=
    Buffer.bytes_write _ _ _ hlen
  rw [hout, hbytes, containerBytes, List.append_left_inj, hwritten,
    writtenBytes_eq_iff _ _ hsources]

theorem keepsData_iff (ha : analyzeModel R model none none w = .ok a w₁)
    (hhead : packHeader a = .ok header) (hroom : a.totalSize ≤ b.size)
    (hcontiguous : ∀ node ∈ arraysOf model.tree, node.isCContiguous = true)
    (hlive : ∀ node ∈ arraysOf model.tree, ∀ x, node.Touches x → w.live x = true)
    (hfree : R.Allocates w.live a.totalSize) :
    KeepsData R model b w ↔ SourcesSurvive w.mem b.base (frame a header) 0 a.arrays := by
  obtain ⟨out, w', fresh, w'', hplace, hfresh, hiff⟩ :=
    encode_twice ha hhead hroom hcontiguous hlive hfree
  rw [← hiff]
  constructor
  · rintro ⟨out', v', fresh', v'', hplace', hfresh', hsame⟩
    cases hplace.symm.trans hplace'
    cases hfresh.symm.trans hfresh'
    exact hsame
  · intro hsame
    exact ⟨out, w', fresh, w'', hplace, hfresh, hsame⟩

end Twice

/-- An array `decode_auto` returned that is not from the store is a contiguous window of the
DATA section. -/
theorem decodeAuto_view {R : Runtime} {b : Buffer} {info : BinaryInfo} {w w₁ : World σ}
    {blobStore : Option (BlobStore σ)} {kvs : List (String × Tree Leaf)}
    (haccepted : Accepted w.mem b info)
    (hdecode : decodeAuto R (.array b.toArray true) blobStore w = .ok kvs w₁) {node : NdArray}
    (hnode : node ∈ arraysOf (.dict kvs))
    (hstore : ∀ store, blobStore = some store → ∀ ref v v', store.getArray ref v ≠ .ok node v') :
    node.isCContiguous = true ∧ InData b info node := by
  rw [decodeAuto_accepted (requireBinaryArray_toArray b true) haccepted] at hdecode
  rcases decodeTree_arrays haccepted hdecode hnode with
    ⟨r, hnames⟩ | ⟨store, ref, v, v', hsome, hget⟩
  · exact ⟨hnames.contiguous, hnames.inData⟩
  · exact absurd hget (hstore store hsome ref v v')

/-- Re-encoding decoded arrays into the buffer they are views of keeps the data, whatever the data
is, if and only if the layout leaves them undisturbed. -/
theorem inPlace_iff {R : Runtime} {b : Buffer} {info : BinaryInfo} {w w₁ w₂ : World σ}
    {blobStore : Option (BlobStore σ)} {kvs : List (String × Tree Leaf)} {model : Model}
    {a : Analysis} (haccepted : Accepted w.mem b info)
    (hdecode : decodeAuto R (.array b.toArray true) blobStore w = .ok kvs w₁)
    (hviews : ∀ node ∈ arraysOf model.tree, node ∈ arraysOf (.dict kvs) ∧
      ∀ store, blobStore = some store → ∀ ref v v', store.getArray ref v ≠ .ok node v')
    (ha : analyzeModel R model none none w₁ = .ok a w₂) (hfits : a.HeaderFits)
    (hroom : a.totalSize ≤ b.size) (hlive : ∀ x, b.Contains x → w₁.live x = true)
    (hfree : R.Allocates w₁.live a.totalSize) :
    (∀ m : Mem, (∀ x, ¬ DataSection b info x → m x = w₁.mem x) →
      KeepsData R model b { w₁ with mem := m }) ↔
      Undisturbed b.base a.dataStart a.arrays := by
  obtain ⟨header, hhead⟩ := (packHeader_isOk_iff a).mpr hfits
  obtain ⟨hl, hstart⟩ := analyzeModel_laid ha
  have hflen := frame_length (packHeader_length hhead) (Analysis.frame_le hstart)
  have hview : ∀ node ∈ arraysOf model.tree, node.isCContiguous = true ∧ InData b info node :=
    fun node h => decodeAuto_view haccepted hdecode (hviews node h).1 (hviews node h).2
  have hcontiguous : ∀ relOffset node, (relOffset, node) ∈ a.arrays →
      node.isCContiguous = true :=
    fun relOffset node h => (hview node (analyzeModel_sources ha h)).1
  have hregion : ∀ relOffset node, (relOffset, node) ∈ a.arrays → ∀ x, node.Touches x →
      b.base ≤ x ∧ DataSection b info x := by
    intro relOffset node h x hx
    have hin := (hview node (analyzeModel_sources ha h)).2 x hx
    refine ⟨?_, hin⟩
    unfold DataSection at hin
    omega
  have hinside : ∀ node ∈ arraysOf model.tree, ∀ x, node.Touches x → w₁.live x = true := by
    intro node h x hx
    have hin := (hview node h).2 x hx
    have hdata := haccepted.data_le
    have htotal := haccepted.total_le
    unfold DataSection at hin
    exact hlive x ⟨by omega, by omega⟩
  have hkeeps : ∀ m : Mem, KeepsData R model b { w₁ with mem := m } ↔
      SourcesSurvive m b.base (frame a header) 0 a.arrays := fun m =>
    keepsData_iff (analyzeModel_offline ha { w₁ with mem := m }).1 hhead hroom
      (fun node h => (hview node h).1) hinside hfree
  simp only [hkeeps]
  constructor
  · exact undisturbed_of_survive hl hflen hcontiguous hregion
  · intro h m _
    exact survive_of_undisturbed hl hflen hcontiguous h m

section Swap

/-- A view of one byte of `sampleBuffer`. -/
def byteAt (address : ℤ) : NdArray := .cArray address uint8 [1] (by decide)

theorem touches_byteAt_iff {address x : ℤ} : (byteAt address).Touches x ↔ x = address := by
  have hdata : (byteAt address).data = address := rfl
  have hnbytes : (byteAt address).nbytes = 1 := rfl
  rw [NdArray.touches_iff_contiguous rfl, hdata, hnbytes]
  omega

def pairManifest : Json :=
  .dict [("a", binManifest 0 (byteAt 65536)), ("b", binManifest 64 (byteAt 65600))]

def pairText : String :=
  "\x7b\"a\":\x7b\"$bin\":\x7b\"kind\":\"ndarray\",\"offset\":0,\"nbytes\":1," ++
    "\"dtype\":\"|u1\",\"shape\":[1]\x7d\x7d," ++
    "\"b\":\x7b\"$bin\":\x7b\"kind\":\"ndarray\",\"offset\":64,\"nbytes\":1," ++
    "\"dtype\":\"|u1\",\"shape\":[1]\x7d\x7d\x7d"

def pairRuntime : Runtime := .ofDocument pairManifest pairText (2 ^ 20)

/-- A container of two arrays of one byte, `a` with a 1 and `b` with a 2. -/
def pairWorld : World Unit :=
  sampleWorld pairText 65 fun x => if x = 65536 then 1 else if x = 65600 then 2 else 0

/-- The two decoded arrays under each other's names. -/
def swappedPair : Model where
  cls := ⟨"Pair", some ⟨Vector.replicate 16 7⟩, some 1⟩
  fields := [("a", .leaf (.ndarray (byteAt 65600))), ("b", .leaf (.ndarray (byteAt 65536)))]

def swappedAnalysis : Analysis where
  schemaId := ⟨Vector.replicate 16 7⟩
  schemaVersion := 1
  dataBytes := 65
  dataStart := alignUp (headerSize + (asciiBytes pairText).length) frameSize
  arrays := [(0, byteAt 65600), (64, byteAt 65536)]
  metadataJson := asciiBytes pairText

theorem pairText_length : (asciiBytes pairText).length = 162 := by decide +kernel

theorem pairText_room : headerSize + (asciiBytes pairText).length ≤ 65536 := by
  rw [pairText_length]
  decide

theorem pair_accepted :
    Accepted pairWorld.mem sampleBuffer (sampleInfo (asciiBytes pairText).length 65) :=
  (sample_accepted _ pairText_room (by decide)).1

theorem pair_payload : pairWorld.mem 65536 = 1 ∧ pairWorld.mem 65600 = 2 := by
  obtain ⟨header, hheader⟩ := sampleHeader_isSome (d := 65) pairText_room (by decide)
  have hsize : header.length = headerSize := Struct.pack_length hheader
  have hshort : ((sampleHeader (asciiBytes pairText).length 65).getD [] ++
      asciiBytes pairText).length ≤ 65536 := by
    rw [hheader, Option.getD_some, List.length_append, hsize]
    exact pairText_room
  rw [pairWorld, sampleWorld]
  dsimp only
  rw [Mem.write_of_not_mem _ _ _ (.inr (by omega)), Mem.write_of_not_mem _ _ _ (.inr (by omega))]
  exact ⟨rfl, rfl⟩

theorem decodeAuto_pair :
    decodeAuto pairRuntime (.array sampleBuffer.toArray true) none pairWorld =
      .ok [("a", .leaf (.ndarray (byteAt 65536))), ("b", .leaf (.ndarray (byteAt 65600)))]
        pairWorld := by
  rw [pairRuntime, pairWorld, decodeAuto_sample _ pairText_room (by decide)]
  rfl

theorem analyzeModel_swapped :
    analyzeModel pairRuntime swappedPair none none pairWorld = .ok swappedAnalysis pairWorld := by
  have hplace : placeTree none none swappedPair.tree ⟨pairWorld, [], 0⟩ =
      .ok (.dict [("a", .leaf (.inline 0 (byteAt 65600))),
          ("b", .leaf (.inline 64 (byteAt 65536)))])
        ⟨pairWorld, [(0, byteAt 65600), (64, byteAt 65536)], 65⟩ := rfl
  exact analyzeModel_ok.mpr ⟨_, _, _, _, _, rfl, rfl, hplace, rfl, rfl, rfl⟩

theorem dataStart_swapped : swappedAnalysis.dataStart = 65536 := by
  rw [swappedAnalysis, pairText_length]
  decide

theorem totalSize_swapped : swappedAnalysis.totalSize = 131072 := by
  rw [Analysis.totalSize, dataStart_swapped]
  decide

theorem headerFits_swapped : swappedAnalysis.HeaderFits := by
  refine ⟨by decide, ?_, by rw [totalSize_swapped]; decide⟩
  rw [swappedAnalysis, pairText_length]
  decide

theorem mem_arraysOf_swapped {node : NdArray} (h : node ∈ arraysOf swappedPair.tree) :
    node = byteAt 65600 ∨ node = byteAt 65536 := by
  have hleaves : swappedPair.tree.leaves =
      [.ndarray (byteAt 65600), .ndarray (byteAt 65536)] := rfl
  rw [mem_arraysOf, hleaves] at h
  obtain h | h := List.mem_cons.mp h
  · cases h
    exact .inl rfl
  · cases List.mem_singleton.mp h
    exact .inr rfl

theorem swapped_decoded {node : NdArray} (h : node ∈ arraysOf swappedPair.tree) :
    node ∈ arraysOf (.dict [("a", .leaf (.ndarray (byteAt 65536))),
      ("b", .leaf (.ndarray (byteAt 65600)))]) := by
  obtain rfl | rfl := mem_arraysOf_swapped h
  · exact .tail _ (.head _)
  · exact .head _

theorem allocates_pair : pairRuntime.Allocates pairWorld.live swappedAnalysis.totalSize := by
  rw [totalSize_swapped]
  refine ⟨by decide, 2 ^ 20, rfl, fun x hlo _ => decide_eq_false ?_⟩
  intro hin
  have hhi : x < 0 + (200000 : ℕ) := hin.2
  omega

theorem inPlace_iff_swapped :
    (∀ m : Mem, (∀ x, ¬ DataSection sampleBuffer (sampleInfo (asciiBytes pairText).length 65) x →
      m x = pairWorld.mem x) →
      KeepsData pairRuntime swappedPair sampleBuffer { pairWorld with mem := m }) ↔
      Undisturbed sampleBuffer.base swappedAnalysis.dataStart swappedAnalysis.arrays := by
  refine inPlace_iff pair_accepted decodeAuto_pair
    (fun node h => ⟨swapped_decoded h, fun store hstore => ?_⟩) analyzeModel_swapped
    headerFits_swapped ?_ (fun x hx => decide_eq_true hx) allocates_pair
  · cases hstore
  · rw [totalSize_swapped]
    decide

/-- Swapping two decoded arrays in place copies `b` over `a` before `a` is read: the new container
holds the bytes of `b` twice. -/
theorem swap_corrupts :
    (∃ kvs, decodeAuto pairRuntime (.array sampleBuffer.toArray true) none pairWorld =
        .ok kvs pairWorld ∧ ∀ node ∈ arraysOf swappedPair.tree, node ∈ arraysOf (.dict kvs)) ∧
      ∃ out w' fresh w'', encode pairRuntime swappedPair (some (.array sampleBuffer.toArray true))
          none none pairWorld = .ok out w' ∧
        encode pairRuntime swappedPair none none none pairWorld = .ok fresh w'' ∧
        out.bytes w'.mem ≠ fresh.bytes w''.mem := by
  refine ⟨⟨_, decodeAuto_pair, fun node => swapped_decoded⟩, ?_⟩
  obtain ⟨header, hhead⟩ := (packHeader_isOk_iff _).mpr headerFits_swapped
  obtain ⟨hl, hstart⟩ := analyzeModel_laid analyzeModel_swapped
  have hflen := frame_length (packHeader_length hhead) (Analysis.frame_le hstart)
  rw [← Nat.add_zero swappedAnalysis.dataStart] at hflen
  have hcontiguous : ∀ node ∈ arraysOf swappedPair.tree, node.isCContiguous = true := by
    intro node h
    rcases mem_arraysOf_swapped h with rfl | rfl <;> exact NdArray.cArray_isCContiguous ..
  have hlive : ∀ node ∈ arraysOf swappedPair.tree, ∀ x, node.Touches x →
      pairWorld.live x = true := by
    intro node h x hx
    rcases mem_arraysOf_swapped h with rfl | rfl <;> rw [touches_byteAt_iff.mp hx] <;> decide
  obtain ⟨out, w', fresh, w'', hplace, hfresh, hiff⟩ := encode_twice (b := sampleBuffer)
    analyzeModel_swapped hhead (by rw [totalSize_swapped]; decide) hcontiguous hlive allocates_pair
  refine ⟨out, w', fresh, w'', hplace, hfresh, fun hsame => ?_⟩
  have hsurvive := hiff.mp hsame
  rw [sourcesSurvive_iff hl hflen] at hsurvive
  have hpayload := pair_payload
  have hread := hsurvive 64 (byteAt 65536) (.tail _ (.head _)) 65536
    (touches_byteAt_iff.mpr rfl) (by rw [dataStart_swapped]; decide)
  have hwritten := write_destination pairWorld.mem sampleBuffer.base hl hflen
    (.head _ : (0, byteAt 65600) ∈ swappedAnalysis.arrays) rfl
    (show 0 < (byteAt 65600).nbytes by decide)
  have haddress : sampleBuffer.base + ((65536 + 0 + 0 : ℕ) : ℤ) = 65536 := by decide
  have hsource : (byteAt 65600).data + ((0 : ℕ) : ℤ) = 65600 := by decide
  rw [dataStart_swapped, haddress, hread, hsource] at hwritten
  rw [hpayload.1, hpayload.2] at hwritten
  exact absurd hwritten (by decide)

end Swap
end Npb
