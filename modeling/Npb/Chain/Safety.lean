import Mathlib.Algebra.BigOperators.Intervals
import Npb.Chain.Processes

/-! # What the chain never does

Whatever order the processes take their turns in and whichever of them die, no loop raises, no two
processes are at work on the same byte, and the sink prints the messages in order, each once, with
the sum of all stages as the value (`safety`). A stage counts the messages that it has taken, those
whose bytes it has written and those that it has sent on; the counts fall along the chain, and a
byte is the sum of the stages that have written it (`Flow`). -/

namespace Npb.Chain
open Channels
set_option autoImplicit false

/-! ## Bytes -/

theorem mutated_toNat (before : UInt8) (stage : ℕ) :
    (mutated before stage).toNat = (before.toNat + stage) % 256 := by
  rw [mutated, show (0xFF : ℕ) = 2 ^ 8 - 1 from rfl, Nat.and_two_pow_sub_one_eq_mod,
    UInt8.toNat_ofNat', Nat.mod_mod]

/-- The sum of the stages that have written byte `i`. -/
def total (stages : ℕ) (wrote : ℕ → ℕ) (i : ℕ) : ℕ :=
  ∑ k ∈ Finset.range stages, if i < wrote k then k + 1 else 0

theorem total_none {stages i : ℕ} {wrote : ℕ → ℕ} (h : ∀ k < stages, ¬ i < wrote k) :
    total stages wrote i = 0 :=
  Finset.sum_eq_zero fun k hk => if_neg (h k (Finset.mem_range.mp hk))

theorem total_sum {stages i : ℕ} {wrote : ℕ → ℕ} (h : ∀ k < stages, i < wrote k) :
    total stages wrote i = (List.range (stages + 1)).sum := by
  induction stages with
  | zero => rfl
  | succ n ih =>
    have hlast : total (n + 1) wrote i = total n wrote i + (n + 1) := by
      rw [total, Finset.sum_range_succ, if_pos (h n (Nat.lt_succ_self n)), total]
    rw [hlast, ih fun k hk => h k (by omega), List.range_succ (n := n + 1), List.sum_append,
      List.sum_singleton]

theorem total_all {stages i : ℕ} {wrote : ℕ → ℕ} (h : ∀ k < stages, i < wrote k) :
    total stages wrote i % 256 = expected stages := by
  rw [expected, show (0xFF : ℕ) = 2 ^ 8 - 1 from rfl, Nat.and_two_pow_sub_one_eq_mod, total_sum h]

/-- The stages that have written a byte are the first ones. -/
theorem total_first {stages : ℕ} {wrote : ℕ → ℕ} (i : ℕ)
    (h : ∀ k < stages, ∀ j < k, wrote k ≤ wrote j) :
    ∃ j ≤ stages, total stages wrote i % 256 = expected j := by
  induction stages with
  | zero => exact ⟨0, Nat.le_refl _, total_all fun k hk => absurd hk (Nat.not_lt_zero k)⟩
  | succ n ih =>
    by_cases hlast : i < wrote n
    · refine ⟨n + 1, Nat.le_refl _, total_all fun k hk => ?_⟩
      obtain rfl | hk := Nat.eq_or_lt_of_le (Nat.le_of_lt_succ hk)
      · exact hlast
      · exact hlast.trans_le (h n (Nat.lt_succ_self n) k hk)
    · obtain ⟨j, hj, hsum⟩ := ih fun k hk => h k (by omega)
      refine ⟨j, by omega, ?_⟩
      rw [total, Finset.sum_range_succ, if_neg hlast, Nat.add_zero]
      exact hsum

theorem total_congr {stages i : ℕ} {wrote wrote' : ℕ → ℕ}
    (h : ∀ k < stages, i < wrote' k ↔ i < wrote k) :
    total stages wrote' i = total stages wrote i :=
  Finset.sum_congr rfl fun k hk => if_congr (h k (Finset.mem_range.mp hk)) rfl rfl

theorem total_written {stages k : ℕ} (wrote : ℕ → ℕ) (hk : k < stages) :
    total stages (Function.update wrote k (wrote k + 1)) (wrote k)
      = total stages wrote (wrote k) + (k + 1) := by
  have hmem : k ∈ Finset.range stages := Finset.mem_range.mpr hk
  have hothers : ∀ j ∈ (Finset.range stages).erase k,
      (if wrote k < Function.update wrote k (wrote k + 1) j then j + 1 else 0)
        = if wrote k < wrote j then j + 1 else 0 := fun j hj => by
    rw [Function.update_of_ne (Finset.ne_of_mem_erase hj)]
  rw [total, total, ← Finset.sum_erase_add _ _ hmem, ← Finset.sum_erase_add _ _ hmem,
    Finset.sum_congr rfl hothers]
  simp

theorem SharedArray.assign_self (shared : SharedArray) (slot : ℕ) (value : UInt8) :
    (shared.assign slot value).bytes slot = value := Function.update_self ..

theorem SharedArray.assign_of_ne (shared : SharedArray) {slot i : ℕ} (value : UInt8)
    (h : i ≠ slot) : (shared.assign slot value).bytes i = shared.bytes i :=
  Function.update_of_ne h ..

/-! ## The invariant -/

/-- How many messages have been sent on link `k`. -/
def passed (sent : ℕ) (rounds : ℕ → ℕ) : ℕ → ℕ
  | 0 => sent
  | k + 1 => rounds k

/-- The message about byte `i`, as it is between stages `k` and `k + 1`. -/
structure Carried (ref : ShmArrayRef) (k i : ℕ) (m : ChainMessage) : Prop where
  sequence : m.sequence = i
  stage : m.stage = k
  image : m.image = ref
  made : m.Made

/-- Where a stage is, by the numbers of messages that it has taken, written and sent on. -/
def AtStage (ref : ShmArrayRef) (shared : SharedArray) (k taken wrote rounds : ℕ) : Point → Prop
  | .waiting => taken = rounds ∧ wrote = rounds
  | .received m => taken = rounds + 1 ∧ wrote = rounds ∧ Carried ref k rounds m
  | .opened m generation =>
    taken = rounds + 1 ∧ wrote = rounds ∧ Carried ref k rounds m ∧ generation = ref.generation
  | .read m before =>
    taken = rounds + 1 ∧ wrote = rounds ∧ Carried ref k rounds m ∧ before = shared.bytes rounds
  | .written m => taken = rounds + 1 ∧ wrote = rounds + 1 ∧ Carried ref k rounds m
  | .failed _ => False
  | .dead => rounds ≤ wrote ∧ wrote ≤ taken ∧ taken ≤ rounds + 1

def AtSink (ref : ShmArrayRef) (k taken rounds : ℕ) : Point → Prop
  | .waiting => taken = rounds
  | .received m => taken = rounds + 1 ∧ Carried ref k rounds m
  | .opened m generation =>
    taken = rounds + 1 ∧ Carried ref k rounds m ∧ generation = ref.generation
  | .dead => rounds ≤ taken ∧ taken ≤ rounds + 1
  | _ => False

section Invariant
variable {B : Type} (setup : Setup) (wire : Wire ChainMessage B)

/-- Messages are on their way. -/
structure Flow (s : State B) (ref : ShmArrayRef) (shared : SharedArray) (taken wrote : ℕ → ℕ) :
    Prop where
  owner : s.owner = some ref.objectId
  object : s.objects ref.objectId = some shared
  generation : shared.generation = ref.generation
  size : shared.size = setup.size
  producer : s.producer = .sending ref ∨ s.producer = .dead
  sent : s.sent ≤ setup.count
  links : ∀ k ≤ setup.stages,
    Numbered (fun i b => ∃ m, wire.encodes m b ∧ Carried ref k i m) (taken k) (s.links k)
      (passed s.sent s.rounds k)
  stage : ∀ k < setup.stages, AtStage ref shared k (taken k) (wrote k) (s.rounds k) (s.stage k)
  sink : AtSink ref setup.stages (taken setup.stages) s.delivered.length s.sink
  delivered : s.delivered
    = (List.range s.delivered.length).map fun i : ℕ => ((i : ℤ), expected setup.stages)
  bytes : ∀ i < setup.count, (shared.bytes i).toNat = total setup.stages wrote i % 256
  rest : ∀ i, setup.count ≤ i → shared.bytes i = 7

/-- How far the array is prepared. -/
def Prepared (s : State B) : ProducerPoint → Prop
  | .start => s.owner = none
  | .created objectId generation => s.owner = some objectId ∧
    ∃ bytes, s.objects objectId = some ⟨generation, setup.size, bytes⟩
  | .filled objectId generation => s.owner = some objectId ∧
    s.objects objectId = some ⟨generation, setup.size, fun _ => 7⟩
  | .cleared objectId generation => s.owner = some objectId ∧
    s.objects objectId = some ⟨generation, setup.size, fun i => if i < setup.count then 0 else 7⟩
  | .sending _ => False
  | .dead => True

/-- No message has been sent yet. -/
structure Early (s : State B) : Prop where
  links : ∀ k, s.links k = []
  stage : ∀ k, s.stage k = .waiting ∨ s.stage k = .dead
  rounds : ∀ k, s.rounds k = 0
  sink : s.sink = .waiting ∨ s.sink = .dead
  sent : s.sent = 0
  delivered : s.delivered = []
  prepared : Prepared setup s s.producer

def Inv (s : State B) : Prop :=
  Early setup s ∨ ∃ ref shared taken wrote, Flow setup wire s ref shared taken wrote

end Invariant

/-! ## The counts -/

theorem AtStage.counts {ref : ShmArrayRef} {shared : SharedArray} {k taken wrote rounds : ℕ}
    {p : Point} (h : AtStage ref shared k taken wrote rounds p) :
    rounds ≤ wrote ∧ wrote ≤ taken ∧ taken ≤ rounds + 1 := by
  cases p <;> simp only [AtStage] at h <;> omega

/-- A stage with a message is at work on the byte after those that it has finished. -/
theorem AtStage.busy {ref : ShmArrayRef} {shared : SharedArray} {k taken wrote rounds : ℕ}
    {p : Point} {m : ChainMessage} (h : AtStage ref shared k taken wrote rounds p)
    (hm : p.message = some m) : taken = rounds + 1 ∧ Carried ref k rounds m := by
  cases p <;> simp only [Point.message, Option.some.injEq, reduceCtorEq] at hm <;> subst hm
  · exact ⟨h.1, h.2.2⟩
  · exact ⟨h.1, h.2.2.1⟩
  · exact ⟨h.1, h.2.2.1⟩
  · exact ⟨h.1, h.2.2⟩

theorem AtSink.counts {ref : ShmArrayRef} {k taken rounds : ℕ} {p : Point}
    (h : AtSink ref k taken rounds p) : rounds ≤ taken ∧ taken ≤ rounds + 1 := by
  cases p <;> simp only [AtSink] at h <;> omega

theorem AtSink.busy {ref : ShmArrayRef} {k taken rounds : ℕ} {p : Point} {m : ChainMessage}
    (h : AtSink ref k taken rounds p) (hm : p.message = some m) :
    taken = rounds + 1 ∧ Carried ref k rounds m := by
  cases p <;> simp only [Point.message, Option.some.injEq, reduceCtorEq] at hm <;> subst hm
  · exact h
  · exact ⟨h.1, h.2.1⟩
  · exact h.elim
  · exact h.elim

section Counts
variable {B : Type} {setup : Setup} {wire : Wire ChainMessage B} {s : State B} {ref : ShmArrayRef}
  {shared : SharedArray} {taken wrote : ℕ → ℕ}

theorem Flow.taken_le_passed (h : Flow setup wire s ref shared taken wrote) {k : ℕ}
    (hk : k ≤ setup.stages) : taken k ≤ passed s.sent s.rounds k := by
  have hlength := (h.links k hk).length
  omega

theorem Flow.counts (h : Flow setup wire s ref shared taken wrote) {k : ℕ}
    (hk : k < setup.stages) :
    s.rounds k ≤ wrote k ∧ wrote k ≤ taken k ∧ taken k ≤ s.rounds k + 1 := (h.stage k hk).counts

/-- What is further along the chain has seen no more. -/
theorem Flow.taken_le_rounds (h : Flow setup wire s ref shared taken wrote) {j k : ℕ}
    (hjk : j < k) (hk : k ≤ setup.stages) : taken k ≤ s.rounds j := by
  induction k with
  | zero => omega
  | succ k ih =>
    have hpassed : taken (k + 1) ≤ s.rounds k := h.taken_le_passed hk
    obtain rfl | hj := Nat.eq_or_lt_of_le (Nat.le_of_lt_succ hjk)
    · exact hpassed
    · have hbefore := ih hj (by omega)
      have hcounts := h.counts (k := k) (by omega)
      omega

theorem Flow.taken_le_sent (h : Flow setup wire s ref shared taken wrote) {k : ℕ}
    (hk : k ≤ setup.stages) : taken k ≤ s.sent := by
  have hfirst : taken 0 ≤ s.sent := h.taken_le_passed (Nat.zero_le _)
  obtain rfl | hpos := Nat.eq_zero_or_pos k
  · exact hfirst
  · have hbefore := h.taken_le_rounds hpos hk
    have hcounts := h.counts (k := 0) (by omega)
    omega

theorem Flow.taken_le_count (h : Flow setup wire s ref shared taken wrote) {k : ℕ}
    (hk : k ≤ setup.stages) : taken k ≤ setup.count :=
  (h.taken_le_sent hk).trans h.sent

theorem Flow.wrote_le (h : Flow setup wire s ref shared taken wrote) {j k : ℕ} (hjk : j < k)
    (hk : k < setup.stages) : wrote k ≤ wrote j := by
  have hahead := h.taken_le_rounds hjk (Nat.le_of_lt hk)
  have hcounts := h.counts hk
  have hcounts' := h.counts (hjk.trans hk)
  omega

/-- A process with a message has finished the messages before it, and no other. -/
theorem Flow.busy (h : Flow setup wire s ref shared taken wrote) {k : ℕ} (hk : k ≤ setup.stages)
    {m : ChainMessage} (hm : (s.reader setup k).message = some m) :
    m.sequence + 1 = taken k ∧ (k < setup.stages → m.sequence = s.rounds k) := by
  rw [State.reader] at hm
  split at hm
  · rename_i hstage
    obtain ⟨htaken, hcarried⟩ := (h.stage k hstage).busy hm
    have hsequence := hcarried.sequence
    exact ⟨by omega, fun _ => hsequence⟩
  · obtain rfl : k = setup.stages := by omega
    obtain ⟨htaken, hcarried⟩ := h.sink.busy hm
    have hsequence := hcarried.sequence
    exact ⟨by omega, fun hstage => absurd hstage (Nat.lt_irrefl _)⟩

theorem Flow.apart (h : Flow setup wire s ref shared taken wrote) {j k : ℕ} (hjk : j < k)
    (hk : k ≤ setup.stages) {m m' : ChainMessage} (hm : (s.reader setup j).message = some m)
    (hm' : (s.reader setup k).message = some m') : m'.sequence < m.sequence := by
  have hahead := h.taken_le_rounds hjk hk
  have hj := (h.busy (by omega) hm).2 (by omega)
  have hk := (h.busy hk hm').1
  omega

end Counts

/-! ## Steps -/

section Steps
variable {B : Type} {setup : Setup} {wire : Wire ChainMessage B} {s : State B} {ref : ShmArrayRef}
  {shared : SharedArray} {taken wrote : ℕ → ℕ}

theorem Flow.head (h : Flow setup wire s ref shared taken wrote) {k : ℕ} (hk : k ≤ setup.stages)
    {b : B} {rest : List B} {r : Except PyError ChainMessage} (hlink : s.links k = b :: rest)
    (hdecode : wire.decodes b r) : ∃ m, r = .ok m ∧ Carried ref k (taken k) m ∧
      Numbered (fun i b => ∃ m, wire.encodes m b ∧ Carried ref k i m) (taken k + 1) rest
        (passed s.sent s.rounds k) := by
  have hlinks := h.links k hk
  rw [hlink] at hlinks
  obtain ⟨⟨m, hencode, hm⟩, hrest⟩ := hlinks
  exact ⟨m, wire.faithful m b r hencode hdecode, hm, hrest⟩

theorem Flow.receive (h : Flow setup wire s ref shared taken wrote) {k : ℕ} (hk : k < setup.stages)
    (hpoint : s.stage k = .waiting) {m : ChainMessage} {rest : List B}
    (hm : Carried ref k (taken k) m)
    (hrest : Numbered (fun i b => ∃ m, wire.encodes m b ∧ Carried ref k i m) (taken k + 1) rest
      (passed s.sent s.rounds k)) :
    Flow setup wire { s with
      links := Function.update s.links k rest
      stage := Function.update s.stage k (.received m) } ref shared
      (Function.update taken k (taken k + 1)) wrote :=
  { h with
    links := fun j hj => by
      by_cases hjk : j = k
      · subst hjk
        simpa only [Function.update_self] using hrest
      · simpa only [Function.update_of_ne hjk] using h.links j hj
    stage := fun j hj => by
      by_cases hjk : j = k
      · subst hjk
        have hbefore := h.stage j hj
        rw [hpoint] at hbefore
        obtain ⟨htaken, hwrote⟩ := hbefore
        rw [htaken] at hm
        simp only [Function.update_self]
        exact ⟨by omega, hwrote, hm⟩
      · simpa only [Function.update_of_ne hjk] using h.stage j hj
    sink := by
      rw [Function.update_of_ne (by omega)]
      exact h.sink }

theorem Flow.turn (h : Flow setup wire s ref shared taken wrote) {k : ℕ} {p : Point}
    (hp : k < setup.stages → AtStage ref shared k (taken k) (wrote k) (s.rounds k) p) :
    Flow setup wire { s with stage := Function.update s.stage k p } ref shared taken wrote :=
  { h with
    stage := fun j hj => by
      by_cases hjk : j = k
      · subst hjk
        simpa only [Function.update_self] using hp hj
      · simpa only [Function.update_of_ne hjk] using h.stage j hj }

/-- The byte of a stage at work is not the one that another stage has read. -/
theorem AtStage.assign {k taken wrote rounds slot : ℕ} {p : Point} {value : UInt8}
    (h : AtStage ref shared k taken wrote rounds p)
    (hslot : ∀ m, p.message = some m → rounds ≠ slot) :
    AtStage ref (shared.assign slot value) k taken wrote rounds p := by
  cases p with
  | read m before =>
    obtain ⟨htaken, hwrote, hm, hbefore⟩ := h
    exact ⟨htaken, hwrote, hm, hbefore.trans
      (shared.assign_of_ne value (hslot m rfl)).symm⟩
  | _ => exact h

theorem Flow.write (h : Flow setup wire s ref shared taken wrote) {k : ℕ} (hk : k < setup.stages)
    {m : ChainMessage} {before : UInt8} (hpoint : s.stage k = .read m before) :
    Flow setup wire { s with
      objects := Function.update s.objects ref.objectId
        (some (shared.assign (s.rounds k) (mutated before (k + 1))))
      stage := Function.update s.stage k (.written m) } ref
      (shared.assign (s.rounds k) (mutated before (k + 1))) taken
      (Function.update wrote k (wrote k + 1)) := by
  have hstage := h.stage k hk
  rw [hpoint] at hstage
  obtain ⟨htaken, hwrote, hm, hbefore⟩ := hstage
  have hcount := h.taken_le_count (Nat.le_of_lt hk)
  exact { h with
    object := Function.update_self ..
    stage := fun j hj => by
      by_cases hjk : j = k
      · subst hjk
        simp only [Function.update_self]
        exact ⟨htaken, by omega, hm⟩
      · simp only [Function.update_of_ne hjk]
        refine (h.stage j hj).assign fun m' hm' heq => ?_
        have hj' := (h.stage j hj).busy hm'
        obtain hlt | hlt := Nat.lt_or_gt_of_ne hjk
        · have := h.taken_le_rounds hlt (Nat.le_of_lt hk)
          omega
        · have := h.taken_le_rounds hlt (Nat.le_of_lt hj)
          omega
    bytes := fun i hi => by
      by_cases hik : i = s.rounds k
      · subst hik
        have hold := h.bytes (s.rounds k) hi
        have hnew := total_written wrote hk
        rw [hwrote] at hnew
        rw [SharedArray.assign_self, mutated_toNat, hbefore, hold, hwrote, hnew, Nat.mod_add_mod]
      · rw [SharedArray.assign_of_ne _ _ hik, h.bytes i hi, total_congr fun j hj => ?_]
        by_cases hjk : j = k
        · subst hjk
          rw [Function.update_self]
          omega
        · rw [Function.update_of_ne hjk]
    rest := fun i hi => by
      rw [SharedArray.assign_of_ne _ _ (by omega)]
      exact h.rest i hi }

theorem Flow.send (h : Flow setup wire s ref shared taken wrote) {k : ℕ} (hk : k < setup.stages)
    {m : ChainMessage} {b : B} (hpoint : s.stage k = .written m)
    (hencode : wire.encodes (m.passed (k + 1)) b) :
    Flow setup wire { s with
      links := Function.update s.links (k + 1) (s.links (k + 1) ++ [b])
      stage := Function.update s.stage k .waiting
      rounds := Function.update s.rounds k (s.rounds k + 1) } ref shared taken wrote := by
  have hstage := h.stage k hk
  rw [hpoint] at hstage
  obtain ⟨htaken, hwrote, hm⟩ := hstage
  have hcarried : Carried ref (k + 1) (s.rounds k) (m.passed (k + 1)) :=
    ⟨hm.sequence, rfl, hm.image, .passed m (k + 1) hm.made⟩
  exact { h with
    links := fun j hj => by
      by_cases hjk : j = k + 1
      · subst hjk
        have hpushed := (h.links (k + 1) hj).push ⟨_, hencode, hcarried⟩
        simpa only [passed, Function.update_self] using hpushed
      · have hbefore := h.links j hj
        cases j with
        | zero => simpa only [passed, Function.update_of_ne hjk] using hbefore
        | succ j =>
          have hne : j ≠ k := by omega
          simpa only [passed, Function.update_of_ne hjk, Function.update_of_ne hne]
            using hbefore
    stage := fun j hj => by
      by_cases hjk : j = k
      · subst hjk
        simp only [Function.update_self]
        exact ⟨htaken, hwrote⟩
      · simpa only [Function.update_of_ne hjk] using h.stage j hj }

theorem Flow.produce (h : Flow setup wire s ref shared taken wrote) (hmore : s.sent < setup.count)
    {frameId : ℤ} {b : B} (hencode : wire.encodes (newMessage frameId s.sent ref) b) :
    Flow setup wire { s with
      links := Function.update s.links 0 (s.links 0 ++ [b])
      sent := s.sent + 1 } ref shared taken wrote :=
  { h with
    sent := hmore
    links := fun j hj => by
      cases j with
      | zero => exact (h.links 0 hj).push ⟨_, hencode, rfl, rfl, rfl, .new frameId s.sent ref⟩
      | succ j => exact h.links (j + 1) hj }

theorem Flow.sinkReceive (h : Flow setup wire s ref shared taken wrote)
    (hpoint : s.sink = .waiting) {m : ChainMessage} {rest : List B}
    (hm : Carried ref setup.stages (taken setup.stages) m)
    (hrest : Numbered (fun i b => ∃ m, wire.encodes m b ∧ Carried ref setup.stages i m)
      (taken setup.stages + 1) rest (passed s.sent s.rounds setup.stages)) :
    Flow setup wire { s with
      links := Function.update s.links setup.stages rest
      sink := .received m } ref shared
      (Function.update taken setup.stages (taken setup.stages + 1)) wrote := by
  have hsink := h.sink
  rw [hpoint] at hsink
  have hdone : taken setup.stages = s.delivered.length := hsink
  exact { h with
    links := fun j hj => by
      by_cases hjk : j = setup.stages
      · subst hjk
        simpa only [Function.update_self] using hrest
      · simpa only [Function.update_of_ne hjk] using h.links j hj
    stage := fun j hj => by
      rw [Function.update_of_ne (by omega)]
      exact h.stage j hj
    sink := by
      rw [hdone] at hm
      simp only [Function.update_self]
      exact ⟨by omega, hm⟩ }

theorem Flow.sinkCheck (h : Flow setup wire s ref shared taken wrote) {m : ChainMessage}
    {generation : ℤ} (hpoint : s.sink = .opened m generation) :
    sinkCheck setup.stages m generation shared true = .ok (expected setup.stages) := by
  have hsink := h.sink
  rw [hpoint] at hsink
  obtain ⟨htaken, hm, hgeneration⟩ := hsink
  have hcount := h.taken_le_count (Nat.le_refl _)
  have hsize := setup.count_le
  have hindex : pyIndex m.sequence shared.size = .ok s.delivered.length := by
    rw [pyIndex, hm.sequence, h.size, if_pos (by omega), Int.toNat_natCast]
  have hvalue : (shared.bytes s.delivered.length).toNat = expected setup.stages := by
    rw [h.bytes _ (by omega), total_all fun k hk => ?_]
    have hahead := h.taken_le_rounds hk (Nat.le_refl _)
    have hcounts := h.counts hk
    omega
  rw [Chain.sinkCheck, if_neg (by simp [hgeneration, hm.image]), hindex]
  simp only [Effects.except_ok_bind, hvalue]
  simp [hm.stage]
  rfl

theorem Flow.sinkPrint (h : Flow setup wire s ref shared taken wrote) {m : ChainMessage}
    {generation : ℤ} (hpoint : s.sink = .opened m generation) :
    Flow setup wire { s with
      sink := .waiting
      delivered := s.delivered ++ [(m.sequence, expected setup.stages)] } ref shared taken
      wrote := by
  have hsink := h.sink
  rw [hpoint] at hsink
  obtain ⟨htaken, hm, -⟩ := hsink
  have hlength : (s.delivered ++ [(m.sequence, expected setup.stages)]).length
      = s.delivered.length + 1 := List.length_append
  exact { h with
    sink := by
      rw [hlength]
      exact htaken
    delivered := by
      rw [hlength, List.range_succ, List.map_append, ← h.delivered, hm.sequence]
      rfl }

theorem Early.flow (h : Early setup s) {objectId : String} {generation : ℤ}
    (hpoint : s.producer = .cleared objectId generation) (token : String) :
    Flow setup wire { s with producer := .sending ⟨objectId, token, generation⟩ }
      ⟨objectId, token, generation⟩
      ⟨generation, setup.size, fun i => if i < setup.count then 0 else 7⟩ (fun _ => 0)
      (fun _ => 0) := by
  have hprepared := h.prepared
  rw [hpoint] at hprepared
  obtain ⟨howner, hobject⟩ := hprepared
  have hwaiting : ∀ k, passed s.sent s.rounds k = 0 := fun k => by
    cases k with
    | zero => exact h.sent
    | succ k => exact h.rounds k
  exact {
    owner := howner
    object := hobject
    generation := rfl
    size := rfl
    producer := .inl rfl
    sent := by simp only [h.sent, Nat.zero_le]
    links := fun k hk => by
      simp only [h.links k, hwaiting k]
      rfl
    stage := fun k hk => by
      simp only [h.rounds k]
      obtain hpoint | hpoint := h.stage k <;> rw [hpoint]
      · exact ⟨rfl, rfl⟩
      · exact ⟨Nat.le_refl _, Nat.le_refl _, Nat.zero_le _⟩
    sink := by
      simp only [h.delivered]
      obtain hpoint | hpoint := h.sink <;> rw [hpoint]
      · rfl
      · exact ⟨Nat.le_refl _, Nat.zero_le _⟩
    delivered := by
      simp only [h.delivered]
      rfl
    bytes := fun i hi => by
      simp only [total_none fun k hk => Nat.not_lt_zero i, if_pos hi]
      rfl
    rest := fun i hi => if_neg (Nat.not_lt.mpr hi) }

theorem Early.stage_idle (h : Early setup s) {k : ℕ} {p : Point} (hp : s.stage k = p) :
    p.message = none := by
  subst hp
  obtain hpoint | hpoint := h.stage k <;> rw [hpoint] <;> rfl

theorem Early.sink_idle (h : Early setup s) {p : Point} (hp : s.sink = p) : p.message = none := by
  subst hp
  obtain hpoint | hpoint := h.sink <;> rw [hpoint] <;> rfl

theorem Step.early {e : Event} {s' : State B} (hstep : Step setup wire s e s')
    (h : Early setup s) : Inv setup wire s' := by
  have hprepared := h.prepared
  cases hstep with
  | create objectId generation bytes hpoint hfresh =>
    exact .inl { h with prepared := ⟨rfl, bytes, Function.update_self ..⟩ }
  | fill objectId generation shared hpoint hshared =>
    rw [hpoint] at hprepared
    obtain ⟨howner, bytes, hobject⟩ := hprepared
    obtain rfl := Option.some.inj (hobject.symm.trans hshared)
    exact .inl { h with prepared := ⟨howner, Function.update_self ..⟩ }
  | clear objectId generation shared hpoint hshared =>
    rw [hpoint] at hprepared
    obtain ⟨howner, hobject⟩ := hprepared
    obtain rfl := Option.some.inj (hobject.symm.trans hshared)
    exact .inl { h with prepared := ⟨howner, Function.update_self ..⟩ }
  | issue objectId generation token hpoint => exact .inr ⟨_, _, _, _, h.flow hpoint token⟩
  | produce ref frameId b hpoint hmore hencode hroom =>
    rw [hpoint] at hprepared
    exact hprepared.elim
  | receive k b rest r hstage hpoint hmore hlink hdecode =>
    exact absurd ((h.links k).symm.trans hlink) (List.cons_ne_nil b rest).symm
  | sinkReceive b rest r hpoint hmore hlink hdecode =>
    exact absurd ((h.links _).symm.trans hlink) (List.cons_ne_nil b rest).symm
  | producerDies => exact .inl { h with prepared := trivial }
  | stageDies k =>
    exact .inl { h with
      stage := fun j => by
        by_cases hjk : j = k
        · exact .inr (by rw [hjk]; exact Function.update_self ..)
        · simpa only [Function.update_of_ne hjk] using h.stage j }
  | sinkDies => exact .inl { h with sink := .inr rfl }
  | others objects hown =>
    refine .inl { h with prepared := ?_ }
    cases hpoint : s.producer <;> rw [hpoint] at hprepared <;>
      simp only [Prepared] at hprepared ⊢ <;> grind
  | «open» k m shared hstage hpoint hshared =>
    exact absurd (h.stage_idle hpoint) (Option.some_ne_none m)
  | read k m generation shared hstage hpoint hshared =>
    exact absurd (h.stage_idle hpoint) (Option.some_ne_none m)
  | write k m before shared hstage hpoint hshared =>
    exact absurd (h.stage_idle hpoint) (Option.some_ne_none m)
  | send k m b hstage hpoint hencode hroom =>
    exact absurd (h.stage_idle hpoint) (Option.some_ne_none m)
  | sinkOpen m shared hpoint hshared =>
    exact absurd (h.sink_idle hpoint) (Option.some_ne_none m)
  | sinkPrint m generation shared value hpoint hshared hcheck =>
    exact absurd (h.sink_idle hpoint) (Option.some_ne_none m)
  | sinkRaise m generation shared e hpoint hshared hcheck =>
    exact absurd (h.sink_idle hpoint) (Option.some_ne_none m)

theorem Flow.stageRead (h : Flow setup wire s ref shared taken wrote) {k : ℕ}
    (hk : k < setup.stages) {m : ChainMessage} {generation : ℤ}
    (hpoint : s.stage k = .opened m generation) :
    stageRead m generation shared = .ok (shared.bytes (s.rounds k)) ∧
      AtStage ref shared k (taken k) (wrote k) (s.rounds k)
        (.read m (shared.bytes (s.rounds k))) := by
  have hstage := h.stage k hk
  rw [hpoint] at hstage
  obtain ⟨htaken, hwrote, hm, hgeneration⟩ := hstage
  have hcount := h.taken_le_count (Nat.le_of_lt hk)
  have hsize := setup.count_le
  refine ⟨?_, htaken, hwrote, hm, rfl⟩
  rw [Chain.stageRead, if_neg (by simp [hgeneration, hm.image]), hm.sequence, h.size,
    if_neg (by omega), Int.toNat_natCast]

/-- Every message is about the one array. -/
theorem Flow.found (h : Flow setup wire s ref shared taken wrote) {k i : ℕ} {m : ChainMessage}
    (hm : Carried ref k i m) {shared' : SharedArray}
    (hfound : s.objects m.image.objectId = some shared') : shared' = shared := by
  rw [hm.image, h.object] at hfound
  exact (Option.some.inj hfound).symm

theorem Step.flow {e : Event} {s' : State B} (hstep : Step setup wire s e s')
    (h : Flow setup wire s ref shared taken wrote) :
    ∃ shared' taken' wrote', Flow setup wire s' ref shared' taken' wrote' := by
  have hpreparing : ∀ p, s.producer = p → p = .sending ref ∨ p = .dead := fun p hp =>
    hp ▸ h.producer
  cases hstep with
  | create objectId generation bytes hpoint hfresh => simpa using hpreparing _ hpoint
  | fill objectId generation shared hpoint hshared => simpa using hpreparing _ hpoint
  | clear objectId generation shared hpoint hshared => simpa using hpreparing _ hpoint
  | issue objectId generation token hpoint => simpa using hpreparing _ hpoint
  | produce ref' frameId b hpoint hmore hencode hroom =>
    obtain rfl : ref' = ref := by simpa using hpreparing _ hpoint
    exact ⟨_, _, _, h.produce hmore hencode⟩
  | receive k b rest r hstage hpoint hmore hlink hdecode =>
    obtain ⟨m, rfl, hm, hrest⟩ := h.head (Nat.le_of_lt hstage) hlink hdecode
    exact ⟨_, _, _, h.receive hstage hpoint hm hrest⟩
  | «open» k m found hstage hpoint hshared =>
    have hat := h.stage k hstage
    rw [hpoint] at hat
    obtain ⟨htaken, hwrote, hm⟩ := hat
    obtain rfl := h.found hm hshared
    exact ⟨_, _, _, h.turn fun _ => ⟨htaken, hwrote, hm, h.generation⟩⟩
  | read k m generation found hstage hpoint hshared =>
    obtain rfl := h.found ((h.stage k hstage).busy (congrArg Point.message hpoint)).2 hshared
    obtain ⟨hread, hat⟩ := h.stageRead hstage hpoint
    rw [hread]
    exact ⟨_, _, _, h.turn fun _ => hat⟩
  | write k m before found hstage hpoint hshared =>
    have hm := ((h.stage k hstage).busy (congrArg Point.message hpoint)).2
    obtain rfl := h.found hm hshared
    rw [hm.image, hm.sequence, Int.toNat_natCast]
    exact ⟨_, _, _, h.write hstage hpoint⟩
  | send k m b hstage hpoint hencode hroom => exact ⟨_, _, _, h.send hstage hpoint hencode⟩
  | sinkReceive b rest r hpoint hmore hlink hdecode =>
    obtain ⟨m, rfl, hm, hrest⟩ := h.head (Nat.le_refl _) hlink hdecode
    exact ⟨_, _, _, h.sinkReceive hpoint hm hrest⟩
  | sinkOpen m found hpoint hshared =>
    have hat := h.sink
    rw [hpoint] at hat
    obtain ⟨htaken, hm⟩ := hat
    obtain rfl := h.found hm hshared
    exact ⟨_, _, _, { h with sink := ⟨htaken, hm, h.generation⟩ }⟩
  | sinkPrint m generation found value hpoint hshared hcheck =>
    obtain rfl := h.found (h.sink.busy (congrArg Point.message hpoint)).2 hshared
    obtain rfl := Except.ok.inj (hcheck.symm.trans (h.sinkCheck hpoint))
    exact ⟨_, _, _, h.sinkPrint hpoint⟩
  | sinkRaise m generation found e hpoint hshared hcheck =>
    obtain rfl := h.found (h.sink.busy (congrArg Point.message hpoint)).2 hshared
    exact absurd (hcheck.symm.trans (h.sinkCheck hpoint)) (by simp)
  | producerDies => exact ⟨_, _, _, { h with producer := .inr rfl }⟩
  | stageDies k => exact ⟨_, _, _, h.turn fun hk => h.counts hk⟩
  | sinkDies => exact ⟨_, _, _, { h with sink := h.sink.counts }⟩
  | others objects hown =>
    exact ⟨_, _, _, { h with object := (hown _ (h.owner ▸ rfl)).trans h.object }⟩

theorem Step.inv {e : Event} {s' : State B} (hstep : Step setup wire s e s')
    (h : Inv setup wire s) : Inv setup wire s' := by
  obtain h | ⟨ref, shared, taken, wrote, h⟩ := h
  · exact hstep.early h
  · exact .inr ⟨ref, hstep.flow h⟩

end Steps

theorem early_init {B : Type} (setup : Setup) (objects : String → Option SharedArray) :
    Early setup (State.init (B := B) objects) where
  links _ := rfl
  stage _ := .inl rfl
  rounds _ := rfl
  sink := .inl rfl
  sent := rfl
  delivered := rfl
  prepared := rfl

theorem inv_run {B : Type} {setup : Setup} {wire : Wire ChainMessage B}
    {objects : String → Option SharedArray} {events : List Event} {s : State B}
    (h : Run (Step setup wire) (State.init objects) events s) : Inv setup wire s :=
  h.invariant (fun _ _ _ hinv hstep => hstep.inv hinv) (.inl (early_init setup objects))

/-! ## Safety -/

structure Safe {B : Type} (setup : Setup) (s : State B) : Prop where
  stages_run : ∀ k < setup.stages, ∀ e, s.stage k ≠ .failed e
  sink_runs : ∀ e, s.sink ≠ .failed e
  /-- The sink has printed the first messages, in order, each once, with the value it expects. -/
  in_order : s.delivered
    = (List.range s.delivered.length).map fun i : ℕ => ((i : ℤ), expected setup.stages)
  no_more : s.delivered.length ≤ s.sent ∧ s.sent ≤ setup.count
  /-- No two processes are at work on the same byte. -/
  apart : ∀ j ≤ setup.stages, ∀ k ≤ setup.stages, j ≠ k → ∀ m ∈ (s.reader setup j).message,
    ∀ m' ∈ (s.reader setup k).message, m.sequence ≠ m'.sequence
  /-- A byte is the sum of the first stages, nothing is lost or added twice; the bytes that no
  message is about are as the producer has filled them. -/
  array : 0 < s.sent → ∃ objectId shared, s.owner = some objectId ∧
    s.objects objectId = some shared ∧
    (∀ i < setup.count, ∃ j ≤ setup.stages, (shared.bytes i).toNat = expected j) ∧
    ∀ i, setup.count ≤ i → shared.bytes i = 7

theorem Inv.safe {B : Type} {setup : Setup} {wire : Wire ChainMessage B} {s : State B}
    (h : Inv setup wire s) : Safe setup s := by
  obtain h | ⟨ref, shared, taken, wrote, h⟩ := h
  · have hidle : ∀ k, (s.reader setup k).message = none := fun k => by
      rw [State.reader]
      split
      · exact h.stage_idle rfl
      · exact h.sink_idle rfl
    exact {
      stages_run := fun k _ e hpoint => by simpa [hpoint] using h.stage k
      sink_runs := fun e hpoint => by simpa [hpoint] using h.sink
      in_order := by simp [h.delivered]
      no_more := by simp [h.delivered, h.sent]
      apart := fun j _ k _ _ m hm => by simp [hidle j] at hm
      array := fun hsent => absurd hsent (by simp [h.sent]) }
  · exact {
      stages_run := fun k hk e hpoint => by simpa [hpoint, AtStage] using h.stage k hk
      sink_runs := fun e hpoint => by simpa [hpoint, AtSink] using h.sink
      in_order := h.delivered
      no_more := ⟨h.sink.counts.1.trans (h.taken_le_sent (Nat.le_refl _)), h.sent⟩
      apart := fun j hj k hk hjk m hm m' hm' => by
        obtain hlt | hlt := Nat.lt_or_gt_of_ne hjk
        · exact ne_of_gt (h.apart hlt hk hm hm')
        · exact ne_of_lt (h.apart hlt hj hm' hm)
      array := fun _ => by
        refine ⟨_, shared, h.owner, h.object, fun i hi => ?_, h.rest⟩
        rw [h.bytes i hi]
        exact total_first i fun k hk j hjk => h.wrote_le hjk hk }

theorem safety {B : Type} (setup : Setup) (wire : Wire ChainMessage B)
    (objects : String → Option SharedArray) (events : List Event) (s : State B)
    (hrun : Run (Step setup wire) (State.init objects) events s) : Safe setup s :=
  (inv_run hrun).safe

/-! ## One message, one stage -/

section Sample

def sampleSetup : Setup := ⟨1, 1, 1, by decide, by decide⟩

/-- The messages themselves are sent. -/
def plainWire : Wire ChainMessage ChainMessage where
  encodes m b := b = m
  decodes b r := r = .ok b
  faithful m b r hencode hdecode := by rw [hdecode, hencode]

def sampleEvents : List Event :=
  [.producer, .producer, .producer, .producer, .producer, .stage 0, .stage 0, .stage 0, .stage 0,
    .stage 0, .sink, .sink, .sink]

theorem sample_run : ∃ s,
    Run (Step sampleSetup plainWire) (State.init fun _ => none) sampleEvents s ∧
      s.delivered = [(0, 1)] ∧ s.objects "b" = none := by
  have h₀ : Run (Step sampleSetup plainWire) (State.init fun _ => none) [] _ := .nil
  have h₁ := h₀.snoc (.create "a" 1 (fun _ => 0) rfl rfl)
  have h₂ := h₁.snoc (.fill "a" 1 _ rfl rfl)
  have h₃ := h₂.snoc (.clear "a" 1 _ rfl rfl)
  have h₄ := h₃.snoc (.issue "a" 1 "t" rfl)
  have h₅ := h₄.snoc (.produce _ 0 _ rfl (by decide) rfl (by decide))
  have h₆ := h₅.snoc (.receive 0 _ _ _ (by decide) rfl (by decide) rfl rfl)
  have h₇ := h₆.snoc (.open 0 _ _ (by decide) rfl rfl)
  have h₈ := h₇.snoc (.read 0 _ _ _ (by decide) rfl rfl)
  have h₉ := h₈.snoc (.write 0 _ _ _ (by decide) rfl rfl)
  have h₁₀ := h₉.snoc (.send 0 _ _ (by decide) rfl rfl (by decide))
  have h₁₁ := h₁₀.snoc (.sinkReceive _ _ _ rfl (by decide) rfl rfl)
  have h₁₂ := h₁₁.snoc (.sinkOpen _ _ rfl rfl)
  have h₁₃ := h₁₂.snoc (.sinkPrint _ _ _ 1 rfl rfl (by decide))
  exact ⟨_, h₁₃, rfl, rfl⟩

theorem safety_sample : ∃ s : State ChainMessage, Safe sampleSetup s ∧ s.delivered = [(0, 1)] := by
  obtain ⟨s, hrun, hdelivered, -⟩ := sample_run
  exact ⟨s, safety sampleSetup plainWire _ sampleEvents s hrun, hdelivered⟩

end Sample
end Npb.Chain
