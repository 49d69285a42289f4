import Mathlib.Algebra.Group.Action.Defs
import Mathlib.Algebra.Order.BigOperators.Group.Finset
import Npb.Chain.Safety

/-! # The chain comes to its end

As long as no process dies, every step of a process is a step towards the end (`work`), and before
the end some process always has a step to take (`progress`), so that every run gets there
(`completion`): the sink has printed all messages, and all stages have written all bytes. -/

namespace Npb.Chain
open Channels
set_option autoImplicit false

/-! ## Processes that live -/

structure Alive {B : Type} (s : State B) : Prop where
  producer : s.producer ≠ .dead
  stage : ∀ k, s.stage k ≠ .dead
  sink : s.sink ≠ .dead

section Alive
variable {B : Type} {setup : Setup} {wire : Wire ChainMessage B} {s s' : State B} {e : Event}

theorem Alive.update (h : Alive s) {k : ℕ} {p : Point} (hp : p ≠ .dead) (j : ℕ) :
    Function.update s.stage k p j ≠ .dead := by
  by_cases hjk : j = k
  · rw [hjk, Function.update_self]
    exact hp
  · rw [Function.update_of_ne hjk]
    exact h.stage j

theorem Step.alive (hstep : Step setup wire s e s') (he : e ≠ .crash) (h : Alive s) :
    Alive s' := by
  cases hstep with
  | create | fill | clear | issue => exact { h with producer := by simp }
  | produce | others => exact { h with }
  | receive k b rest r => exact { h with stage := h.update (by cases r <;> simp) }
  | «open» | write | send => exact { h with stage := h.update (by simp) }
  | read k m generation shared =>
    exact { h with stage := h.update (by cases stageRead m generation shared <;> simp) }
  | sinkReceive b rest r => exact { h with sink := by cases r <;> simp }
  | sinkOpen | sinkPrint | sinkRaise => exact { h with sink := by simp }
  | producerDies | stageDies | sinkDies => exact absurd rfl he

end Alive

def ProducerPoint.work : ProducerPoint → ℕ
  | .created .. => 1
  | .filled .. => 2
  | .cleared .. => 3
  | .sending _ => 4
  | _ => 0

def Point.work : Point → ℕ
  | .received _ => 1
  | .opened .. => 2
  | .read .. => 3
  | .written _ => 4
  | _ => 0

/-- The steps of stage `k` so far; a round has five. -/
def stageWork {B : Type} (s : State B) (k : ℕ) : ℕ := 5 * s.rounds k + (s.stage k).work

/-- The steps of all processes so far. -/
def work {B : Type} (setup : Setup) (s : State B) : ℕ :=
  s.producer.work + s.sent + ∑ k ∈ Finset.range setup.stages, stageWork s k
    + (3 * s.delivered.length + s.sink.work)

/-- Whether the event is a step of a process towards the end. -/
def Event.works : Event → Bool
  | .producer | .stage _ | .sink => true
  | .crash | .others => false

section Work
variable {B : Type} {setup : Setup} {wire : Wire ChainMessage B} {s s' : State B} {e : Event}

theorem work_stage {k : ℕ} (hk : k < setup.stages) (hproducer : s'.producer = s.producer)
    (hsent : s'.sent = s.sent) (hsink : s'.sink = s.sink) (hdelivered : s'.delivered = s.delivered)
    (hothers : ∀ j ≠ k, stageWork s' j = stageWork s j)
    (hself : stageWork s' k = stageWork s k + 1) : work setup s' = work setup s + 1 := by
  have hmem : k ∈ Finset.range setup.stages := Finset.mem_range.mpr hk
  have hsum := Finset.sum_erase_add _ (stageWork s) hmem
  have hsum' := Finset.sum_erase_add _ (stageWork s') hmem
  have hrest : ∑ j ∈ (Finset.range setup.stages).erase k, stageWork s' j
      = ∑ j ∈ (Finset.range setup.stages).erase k, stageWork s j :=
    Finset.sum_congr rfl fun j hj => hothers j (Finset.ne_of_mem_erase hj)
  rw [work, work, hproducer, hsent, hsink, hdelivered]
  omega

theorem work_turn {k : ℕ} {p : Point} (hk : k < setup.stages) (hp : p.work = (s.stage k).work + 1)
    {objects : String → Option SharedArray} {links : ℕ → List B} :
    work setup { s with
      objects := objects
      links := links
      stage := Function.update s.stage k p } = work setup s + 1 := by
  refine work_stage hk rfl rfl rfl rfl (fun j hj => ?_) ?_
  · simp [stageWork, Function.update_of_ne hj]
  · simp only [stageWork, Function.update_self, hp]
    omega

theorem Step.work (hstep : Step setup wire s e s') (he : e ≠ .crash) (h : Safe setup s') :
    Chain.work setup s' = Chain.work setup s + if e.works then 1 else 0 := by
  cases hstep with
  | create objectId generation bytes hpoint hfresh =>
    simp only [Chain.work, hpoint, ProducerPoint.work, Event.works, if_true, stageWork]
    omega
  | fill objectId generation shared hpoint hshared =>
    simp only [Chain.work, hpoint, ProducerPoint.work, Event.works, if_true, stageWork]
    omega
  | clear objectId generation shared hpoint hshared =>
    simp only [Chain.work, hpoint, ProducerPoint.work, Event.works, if_true, stageWork]
    omega
  | issue objectId generation token hpoint =>
    simp only [Chain.work, hpoint, ProducerPoint.work, Event.works, if_true, stageWork]
    omega
  | produce ref frameId b hpoint hmore hencode hroom =>
    simp only [Chain.work, Event.works, if_true, stageWork]
    omega
  | receive k b rest r hstage hpoint hmore hlink hdecode =>
    have hruns := h.stages_run k hstage
    cases r with
    | error e => exact absurd (Function.update_self ..) (hruns e)
    | ok m => exact work_turn hstage (by rw [hpoint]; rfl)
  | «open» k m shared hstage hpoint hshared => exact work_turn hstage (by rw [hpoint]; rfl)
  | read k m generation shared hstage hpoint hshared =>
    have hruns := h.stages_run k hstage
    simp only [Function.update_self] at hruns ⊢
    generalize stageRead m generation shared = r at hruns ⊢
    cases r with
    | error e => exact absurd rfl (hruns e)
    | ok before => exact work_turn hstage (by rw [hpoint]; rfl)
  | write k m before shared hstage hpoint hshared => exact work_turn hstage (by rw [hpoint]; rfl)
  | send k m b hstage hpoint hencode hroom =>
    refine work_stage hstage rfl rfl rfl rfl (fun j hj => ?_) ?_
    · simp [stageWork, Function.update_of_ne hj]
    · simp only [stageWork, Function.update_self, hpoint, Point.work]
      omega
  | sinkReceive b rest r hpoint hmore hlink hdecode =>
    have hruns := h.sink_runs
    cases r with
    | error e => exact absurd rfl (hruns e)
    | ok m =>
      simp only [Chain.work, hpoint, Point.work, Event.works, if_true, stageWork]
      omega
  | sinkOpen m shared hpoint hshared =>
    simp only [Chain.work, hpoint, Point.work, Event.works, if_true, stageWork]
    omega
  | sinkPrint m generation shared value hpoint hshared hcheck =>
    simp only [Chain.work, hpoint, Point.work, Event.works, if_true, stageWork,
      List.length_append, List.length_singleton]
    omega
  | sinkRaise m generation shared e hpoint hshared hcheck =>
    exact absurd rfl (h.sink_runs e)
  | producerDies | stageDies | sinkDies => exact absurd rfl he
  | others objects hown => rfl

end Work

/-- The steps of a whole run of all processes. -/
def Setup.work (setup : Setup) : ℕ :=
  4 + setup.count + setup.stages * (5 * setup.count) + 3 * setup.count

theorem ProducerPoint.work_le (p : ProducerPoint) : p.work ≤ 4 := by
  cases p <;> simp [ProducerPoint.work]

theorem AtStage.work_le {ref : ShmArrayRef} {shared : SharedArray} {k taken wrote rounds : ℕ}
    {p : Point} (h : AtStage ref shared k taken wrote rounds p) :
    5 * rounds + p.work ≤ 5 * taken := by
  cases p <;> simp only [AtStage] at h <;> simp only [Point.work] <;> omega

theorem AtSink.work_le {ref : ShmArrayRef} {k taken rounds : ℕ} {p : Point}
    (h : AtSink ref k taken rounds p) : 3 * rounds + p.work ≤ 3 * taken := by
  cases p <;> simp only [AtSink] at h <;> simp only [Point.work] <;> omega

section Bound
variable {B : Type} {setup : Setup} {wire : Wire ChainMessage B} {s : State B}

theorem sum_stageWork_le (setup : Setup) (s : State B) (bound : ℕ)
    (h : ∀ k < setup.stages, stageWork s k ≤ bound) :
    ∑ k ∈ Finset.range setup.stages, stageWork s k ≤ setup.stages * bound := by
  have hsum := Finset.sum_le_card_nsmul _ _ bound fun k hk => h k (Finset.mem_range.mp hk)
  rwa [Finset.card_range, smul_eq_mul] at hsum

theorem Inv.work_le (h : Inv setup wire s) : work setup s ≤ setup.work := by
  have hproducer := s.producer.work_le
  obtain h | ⟨ref, shared, taken, wrote, h⟩ := h
  · have hstages := sum_stageWork_le setup s 0 fun k hk => by
      obtain hpoint | hpoint := h.stage k <;> simp [stageWork, h.rounds, hpoint, Point.work]
    have hsink : s.sink.work = 0 := by
      obtain hpoint | hpoint := h.sink <;> rw [hpoint] <;> rfl
    rw [Chain.work, h.sent, h.delivered, hsink, Setup.work, List.length_nil]
    omega
  · have hstages := sum_stageWork_le setup s (5 * setup.count)
      fun k hk => by
        have hcount := h.taken_le_count (Nat.le_of_lt hk)
        exact (h.stage k hk).work_le.trans (by omega)
    have hsink := h.sink.work_le
    have hcount := h.taken_le_count (Nat.le_refl setup.stages)
    have hsent := h.sent
    rw [Chain.work, Setup.work]
    omega

end Bound

/-! ## Progress -/

/-- Every message has gone through the whole chain. -/
structure Finished {B : Type} (setup : Setup) (s : State B) : Prop where
  delivered : s.delivered
    = (List.range setup.count).map fun i : ℕ => ((i : ℤ), expected setup.stages)
  array : ∃ objectId shared, s.owner = some objectId ∧ s.objects objectId = some shared ∧
    (∀ i < setup.count, (shared.bytes i).toNat = expected setup.stages) ∧
    ∀ i, setup.count ≤ i → shared.bytes i = 7

section Progress
variable {B : Type} {setup : Setup} {wire : Wire ChainMessage B} {s : State B}

/-- Some process has a step to take, and the array is there after it. -/
def Goes (setup : Setup) (wire : Wire ChainMessage B) (s : State B) : Prop :=
  ∃ e s', e.works = true ∧ Step setup wire s e s' ∧ s'.producer ≠ .start

section Flow
variable {ref : ShmArrayRef} {shared : SharedArray} {taken wrote : ℕ → ℕ}

theorem Flow.not_start (h : Flow setup wire s ref shared taken wrote) : s.producer ≠ .start := by
  obtain hpoint | hpoint := h.producer <;> rw [hpoint] <;> simp

theorem Flow.room (h : Flow setup wire s ref shared taken wrote) {k : ℕ} (hk : k ≤ setup.stages)
    (hpassed : passed s.sent s.rounds k < setup.count) : (s.links k).length < setup.hwm := by
  have hlength := (h.links k hk).length
  rw [Setup.hwm]
  omega

theorem Flow.waiting (h : Flow setup wire s ref shared taken wrote) {k : ℕ}
    (hk : k ≤ setup.stages) (hmore : taken k < passed s.sent s.rounds k) :
    ∃ m b rest, s.links k = b :: rest ∧ wire.encodes m b := by
  have hlinks := h.links k hk
  cases hlink : s.links k with
  | nil =>
    rw [hlink] at hlinks
    exact absurd hlinks.length (by simp; omega)
  | cons b rest =>
    rw [hlink] at hlinks
    obtain ⟨⟨m, hencode, -⟩, -⟩ := hlinks
    exact ⟨m, b, rest, rfl, hencode⟩

/-- A stage that all messages have been sent to goes on, or it has sent them all on. -/
theorem Flow.stage_goes (h : Flow setup wire s ref shared taken wrote) (halive : Alive s)
    (hencode : ∀ m : ChainMessage, m.Made → ∃ b, wire.encodes m b)
    (hdecode : ∀ m b, wire.encodes m b → ∃ r, wire.decodes b r)
    {k : ℕ} (hk : k < setup.stages) (hpassed : passed s.sent s.rounds k = setup.count) :
    Goes setup wire s ∨ s.rounds k = setup.count := by
  have hat := h.stage k hk
  have hcount := h.taken_le_count (Nat.le_of_lt hk)
  have hfound : ∀ m, (s.stage k).message = some m → s.objects m.image.objectId = some shared :=
    fun m hm => by rw [(hat.busy hm).2.image, h.object]
  generalize hpoint : s.stage k = p at hat hfound
  cases p with
  | waiting =>
    obtain ⟨htaken, -⟩ := hat
    by_cases hdone : s.rounds k = setup.count
    · exact .inr hdone
    · obtain ⟨m, b, rest, hlink, hm⟩ := h.waiting (Nat.le_of_lt hk) (by omega)
      obtain ⟨r, hr⟩ := hdecode m b hm
      exact .inl ⟨_, _, rfl, .receive k b rest r hk hpoint (by omega) hlink hr, h.not_start⟩
  | received m =>
    exact .inl ⟨_, _, rfl, .open k m shared hk hpoint (hfound m rfl), h.not_start⟩
  | opened m generation =>
    exact .inl ⟨_, _, rfl, .read k m generation shared hk hpoint (hfound m rfl), h.not_start⟩
  | read m before =>
    exact .inl ⟨_, _, rfl, .write k m before shared hk hpoint (hfound m rfl), h.not_start⟩
  | written m =>
    obtain ⟨htaken, -, hm⟩ := hat
    have hroom : (s.links (k + 1)).length < setup.hwm :=
      h.room hk (show s.rounds k < setup.count by omega)
    obtain ⟨b, hb⟩ := hencode _ (.passed m (k + 1) hm.made)
    exact .inl ⟨_, _, rfl, .send k m b hk hpoint hb hroom, h.not_start⟩
  | failed e => exact hat.elim
  | dead => exact absurd hpoint (halive.stage k)

theorem Flow.sink_goes (h : Flow setup wire s ref shared taken wrote) (halive : Alive s)
    (hdecode : ∀ m b, wire.encodes m b → ∃ r, wire.decodes b r)
    (hpassed : passed s.sent s.rounds setup.stages = setup.count) :
    Goes setup wire s ∨ s.delivered.length = setup.count := by
  have hat := h.sink
  have hcount := h.taken_le_count (Nat.le_refl setup.stages)
  have hfound : ∀ m, s.sink.message = some m → s.objects m.image.objectId = some shared :=
    fun m hm => by rw [(hat.busy hm).2.image, h.object]
  generalize hpoint : s.sink = p at hat hfound
  cases p with
  | waiting =>
    have htaken : taken setup.stages = s.delivered.length := hat
    by_cases hdone : s.delivered.length = setup.count
    · exact .inr hdone
    · obtain ⟨m, b, rest, hlink, hm⟩ := h.waiting (Nat.le_refl _) (by omega)
      obtain ⟨r, hr⟩ := hdecode m b hm
      exact .inl ⟨_, _, rfl, .sinkReceive b rest r hpoint (by omega) hlink hr, h.not_start⟩
  | received m =>
    exact .inl ⟨_, _, rfl, .sinkOpen m shared hpoint (hfound m rfl), h.not_start⟩
  | opened m generation =>
    exact .inl ⟨_, _, rfl, .sinkPrint m generation shared _ hpoint (hfound m rfl)
      (h.sinkCheck hpoint), h.not_start⟩
  | read m before => exact hat.elim
  | written m => exact hat.elim
  | failed e => exact hat.elim
  | dead => exact absurd hpoint halive.sink

theorem Flow.progress (h : Flow setup wire s ref shared taken wrote) (halive : Alive s)
    (hencode : ∀ m : ChainMessage, m.Made → ∃ b, wire.encodes m b)
    (hdecode : ∀ m b, wire.encodes m b → ∃ r, wire.decodes b r) :
    Goes setup wire s ∨ s.delivered.length = setup.count := by
  by_cases hgoes : Goes setup wire s
  · exact .inl hgoes
  have hpassed : ∀ k ≤ setup.stages, passed s.sent s.rounds k = setup.count := fun k hk => by
    induction k with
    | zero =>
      have hsending := h.producer.resolve_right halive.producer
      by_contra hmore
      have hless : s.sent < setup.count := Nat.lt_of_le_of_ne h.sent hmore
      obtain ⟨b, hb⟩ := hencode _ (.new 0 s.sent ref)
      exact hgoes ⟨_, _, rfl, .produce ref 0 b hsending hless hb (h.room hk hless), h.not_start⟩
    | succ k ih =>
      have hbefore := ih (Nat.le_of_lt hk)
      exact (h.stage_goes halive hencode hdecode hk hbefore).resolve_left hgoes
  exact h.sink_goes halive hdecode (hpassed _ (Nat.le_refl _))

theorem Flow.finished (h : Flow setup wire s ref shared taken wrote)
    (hdone : s.delivered.length = setup.count) : Finished setup s where
  delivered := hdone ▸ h.delivered
  array := by
    refine ⟨_, shared, h.owner, h.object, fun i hi => ?_, h.rest⟩
    rw [h.bytes i hi]
    refine total_all fun k hk => ?_
    have hsink := h.sink.counts
    have hahead := h.taken_le_rounds hk (Nat.le_refl _)
    have hcounts := h.counts hk
    omega

end Flow

theorem Early.progress (h : Early setup s) (halive : Alive s)
    (hfresh : s.producer = .start → ∃ objectId, s.objects objectId = none) :
    Goes setup wire s := by
  have hprepared := h.prepared
  cases hpoint : s.producer with
  | start =>
    obtain ⟨objectId, hnone⟩ := hfresh hpoint
    exact ⟨_, _, rfl, .create objectId 0 (fun _ => 0) hpoint hnone, by simp⟩
  | created objectId generation =>
    rw [hpoint] at hprepared
    obtain ⟨-, bytes, hobject⟩ := hprepared
    exact ⟨_, _, rfl, .fill objectId generation _ hpoint hobject, by simp⟩
  | filled objectId generation =>
    rw [hpoint] at hprepared
    exact ⟨_, _, rfl, .clear objectId generation _ hpoint hprepared.2, by simp⟩
  | cleared objectId generation =>
    exact ⟨_, _, rfl, .issue objectId generation "" hpoint, by simp⟩
  | sending ref =>
    rw [hpoint] at hprepared
    exact hprepared.elim
  | dead => exact absurd hpoint halive.producer

theorem Inv.progress (h : Inv setup wire s) (halive : Alive s)
    (hencode : ∀ m : ChainMessage, m.Made → ∃ b, wire.encodes m b)
    (hdecode : ∀ m b, wire.encodes m b → ∃ r, wire.decodes b r)
    (hfresh : s.producer = .start → ∃ objectId, s.objects objectId = none) :
    Goes setup wire s ∨ Finished setup s := by
  obtain h | ⟨ref, shared, taken, wrote, h⟩ := h
  · exact .inl (h.progress halive hfresh)
  · exact (h.progress halive hencode hdecode).imp_right h.finished

/-- The processes can finish from wherever they are. -/
theorem Inv.finish (h : Inv setup wire s) (halive : Alive s)
    (hencode : ∀ m : ChainMessage, m.Made → ∃ b, wire.encodes m b)
    (hdecode : ∀ m b, wire.encodes m b → ∃ r, wire.decodes b r)
    (hfresh : s.producer = .start → ∃ objectId, s.objects objectId = none) :
    ∃ later s', (∀ e ∈ later, e.works = true) ∧ Run (Step setup wire) s later s' ∧
      Finished setup s' := by
  induction hleft : setup.work - work setup s using Nat.strong_induction_on generalizing s with
  | _ n ih =>
    obtain ⟨e, s', he, hstep, hstart⟩ | hdone := h.progress halive hencode hdecode hfresh
    · have hinv := hstep.inv h
      have hcrash : e ≠ .crash := fun hcrash => by simp [hcrash, Event.works] at he
      have hwork := hstep.work hcrash hinv.safe
      rw [if_pos he] at hwork
      have hle := hinv.work_le
      obtain ⟨later, s'', hlater, hrun, hfinished⟩ := ih (setup.work - work setup s') (by omega)
        hinv (hstep.alive hcrash halive) (fun hpoint => absurd hpoint hstart) rfl
      refine ⟨[e] ++ later, s'', fun e' he' => ?_, (Run.single hstep).append hrun, hfinished⟩
      obtain rfl | he' := List.mem_cons.mp he'
      · exact he
      · exact hlater e' he'
    · exact ⟨[], s, fun e he => absurd he List.not_mem_nil, .nil, hdone⟩

end Progress

end Npb.Chain
