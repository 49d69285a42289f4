import Npb.Foundations.Channels
import Npb.Foundations.Dict
import Npb.Python.Values

/-! # A chain of processes over one array

The producer, the stages and the sink of `zeromq_mutable_shm_chain`, each a loop over the messages
of the link before it. The messages only name the array, which all of them have mapped, and each
message is about a byte of its own. The processes take turns in any order, between any two of their
accesses to the array or to a link, and each of them can die at any time. -/

namespace Npb.Chain
set_option autoImplicit false

/-! ## Messages -/

structure ShmArrayRef where
  objectId : String
  token : String
  generation : ℤ

structure ChainMessage where
  frameId : ℤ
  sequence : ℤ
  stage : ℤ
  info : Dict String Json
  image : ShmArrayRef

/-- `encode` and `decode` of the messages: what encoding may give, and what decoding may return or
raise. What a message was encoded to is decoded to that message. -/
structure Wire (M B : Type) where
  encodes : M → B → Prop
  decodes : B → Except PyError M → Prop
  faithful : ∀ m b r, encodes m b → decodes b r → r = .ok m

/-! ## The arguments of the programs -/

/-- How many stages there are, and `--count` and the size of the array, as the producer has checked
them. -/
structure Setup where
  stages : ℕ
  count : ℕ
  size : ℕ
  count_pos : 0 < count
  count_le : count ≤ size

/-- `max(4, args.count)`. -/
def Setup.hwm (setup : Setup) : ℕ := max 4 setup.count

/-! ## Processes -/

/-- An object of the store: its generation and the bytes of the array. -/
structure SharedArray where
  generation : ℤ
  size : ℕ
  bytes : ℕ → UInt8

/-- Where the producer is. It has created its object, filled it with sevens, cleared the first
`count` bytes, and sends messages with its reference. -/
inductive ProducerPoint where
  | start
  | created (objectId : String) (generation : ℤ)
  | filled (objectId : String) (generation : ℤ)
  | cleared (objectId : String) (generation : ℤ)
  | sending (ref : ShmArrayRef)
  | dead

/-- Where a stage or the sink is in its loop: in `recv`, before `client.open`, before it looks into
the array, before it writes to it, before it sends the message on. `failed` is an exception that the
loop itself raises. -/
inductive Point where
  | waiting
  | received (m : ChainMessage)
  | opened (m : ChainMessage) (generation : ℤ)
  | read (m : ChainMessage) (before : UInt8)
  | written (m : ChainMessage)
  | failed (e : PyError)
  | dead

/-- The message that a process has received and not yet sent on. -/
def Point.message : Point → Option ChainMessage
  | .received m | .opened m _ | .read m _ | .written m => some m
  | _ => none

/-- The stage with the number `k + 1` is `stage k`; it reads link `k` and writes link `k + 1`.
`sent`, `rounds` and `delivered` are how far the loops have come; the sink prints the sequence and
the value of each message. -/
structure State (B : Type) where
  objects : String → Option SharedArray
  owner : Option String
  links : ℕ → List B
  producer : ProducerPoint
  sent : ℕ
  stage : ℕ → Point
  rounds : ℕ → ℕ
  sink : Point
  delivered : List (ℤ × ℕ)

/-- The process that reads link `k`. -/
def State.reader {B : Type} (setup : Setup) (s : State B) (k : ℕ) : Point :=
  if k < setup.stages then s.stage k else s.sink

/-! ## Computations -/

def runtimeError (message : String) : PyError := .other "RuntimeError" message

/-- `image[index]`. -/
def pyIndex (index : ℤ) (size : ℕ) : Except PyError ℕ :=
  if 0 ≤ index ∧ index < size then .ok index.toNat
  else if -(size : ℤ) ≤ index ∧ index < 0 then .ok (size + index).toNat
  else .error (.other "IndexError" s!"index {index} is out of bounds")

/-- What a stage checks before it reads its byte. -/
def stageRead (m : ChainMessage) (generation : ℤ) (shared : SharedArray) : Except PyError UInt8 :=
  if generation ≠ m.image.generation then
    .error (runtimeError
      s!"object generation changed: expected {m.image.generation}, got {generation}")
  else if m.sequence < 0 ∨ shared.size ≤ m.sequence then
    .error (runtimeError s!"sequence slot {m.sequence} is outside shared array")
  else .ok (shared.bytes m.sequence.toNat)

/-- `(before + args.stage) & 0xFF`. -/
def mutated (before : UInt8) (stage : ℕ) : UInt8 := UInt8.ofNat ((before.toNat + stage) &&& 0xFF)

/-- `image[slot] = value`. -/
def SharedArray.assign (shared : SharedArray) (slot : ℕ) (value : UInt8) : SharedArray :=
  { shared with bytes := Function.update shared.bytes slot value }

/-- The message that a stage sends on. -/
def ChainMessage.passed (m : ChainMessage) (stage : ℕ) : ChainMessage :=
  { m with stage := stage, info := m.info.set "last_stage" (.leaf (.int stage)) }

/-- `sum(range(1, args.after_stage + 1)) & 0xFF`. -/
def expected (afterStage : ℕ) : ℕ := ((List.range (afterStage + 1)).sum) &&& 0xFF

/-- What the sink checks; an array that is mapped for reading may not be written. -/
def sinkCheck (afterStage : ℕ) (m : ChainMessage) (generation : ℤ) (shared : SharedArray)
    (readonly : Bool) : Except PyError ℕ := do
  if generation ≠ m.image.generation then
    throw (runtimeError
      s!"object generation changed: expected {m.image.generation}, got {generation}")
  let value := (shared.bytes (← pyIndex m.sequence shared.size)).toNat
  if m.stage ≠ afterStage then
    throw (runtimeError s!"seq {m.sequence}: expected stage={afterStage}, got {m.stage}")
  if value ≠ expected afterStage then
    throw (runtimeError
      s!"seq {m.sequence}: expected shared value {expected afterStage}, got {value}")
  if readonly = false then throw (runtimeError "sink mapping unexpectedly writable")
  return value

/-- The message that the producer makes in a round. -/
def newMessage (frameId : ℤ) (sequence : ℕ) (ref : ShmArrayRef) : ChainMessage where
  frameId := frameId
  sequence := sequence
  stage := 0
  info := Dict.empty.set "purpose" (.leaf (.str "in-place mutable shared-memory cache-hit chain"))
  image := ref

/-- The messages that the producer and the stages make. -/
inductive ChainMessage.Made : ChainMessage → Prop
  | new (frameId : ℤ) (sequence : ℕ) (ref : ShmArrayRef) : Made (newMessage frameId sequence ref)
  | passed (m : ChainMessage) (stage : ℕ) (h : Made m) : Made (m.passed stage)

/-! ## Steps -/

inductive Event where
  | producer
  | stage (k : ℕ)
  | sink
  /-- A process ends, for whatever reason. -/
  | crash
  /-- Other clients of the store create, change and delete objects of theirs. -/
  | others
  deriving DecidableEq

section Steps
variable {B : Type} (setup : Setup) (wire : Wire ChainMessage B)

inductive Step (s : State B) : Event → State B → Prop
  | create (objectId : String) (generation : ℤ) (bytes : ℕ → UInt8) (hpoint : s.producer = .start)
    (hfresh : s.objects objectId = none) :
    Step s .producer { s with
      objects := Function.update s.objects objectId (some ⟨generation, setup.size, bytes⟩)
      owner := some objectId
      producer := .created objectId generation }
  | fill (objectId : String) (generation : ℤ) (shared : SharedArray)
    (hpoint : s.producer = .created objectId generation)
    (hshared : s.objects objectId = some shared) :
    Step s .producer { s with
      objects := Function.update s.objects objectId (some { shared with bytes := fun _ => 7 })
      producer := .filled objectId generation }
  | clear (objectId : String) (generation : ℤ) (shared : SharedArray)
    (hpoint : s.producer = .filled objectId generation)
    (hshared : s.objects objectId = some shared) :
    Step s .producer { s with
      objects := Function.update s.objects objectId (some { shared with
        bytes := fun i => if i < setup.count then 0 else shared.bytes i })
      producer := .cleared objectId generation }
  | issue (objectId : String) (generation : ℤ) (token : String)
    (hpoint : s.producer = .cleared objectId generation) :
    Step s .producer { s with producer := .sending ⟨objectId, token, generation⟩ }
  | produce (ref : ShmArrayRef) (frameId : ℤ) (b : B) (hpoint : s.producer = .sending ref)
    (hmore : s.sent < setup.count) (hencode : wire.encodes (newMessage frameId s.sent ref) b)
    (hroom : (s.links 0).length < setup.hwm) :
    Step s .producer { s with
      links := Function.update s.links 0 (s.links 0 ++ [b])
      sent := s.sent + 1 }
  | receive (k : ℕ) (b : B) (rest : List B) (r : Except PyError ChainMessage)
    (hstage : k < setup.stages) (hpoint : s.stage k = .waiting) (hmore : s.rounds k < setup.count)
    (hlink : s.links k = b :: rest) (hdecode : wire.decodes b r) :
    Step s (.stage k) { s with
      links := Function.update s.links k rest
      stage := Function.update s.stage k
        (match r with | .ok m => .received m | .error e => .failed e) }
  | open (k : ℕ) (m : ChainMessage) (shared : SharedArray) (hstage : k < setup.stages)
    (hpoint : s.stage k = .received m) (hshared : s.objects m.image.objectId = some shared) :
    Step s (.stage k) { s with
      stage := Function.update s.stage k (.opened m shared.generation) }
  | read (k : ℕ) (m : ChainMessage) (generation : ℤ) (shared : SharedArray)
    (hstage : k < setup.stages) (hpoint : s.stage k = .opened m generation)
    (hshared : s.objects m.image.objectId = some shared) :
    Step s (.stage k) { s with
      stage := Function.update s.stage k (match stageRead m generation shared with
        | .ok before => .read m before
        | .error e => .failed e) }
  | write (k : ℕ) (m : ChainMessage) (before : UInt8) (shared : SharedArray)
    (hstage : k < setup.stages) (hpoint : s.stage k = .read m before)
    (hshared : s.objects m.image.objectId = some shared) :
    Step s (.stage k) { s with
      objects := Function.update s.objects m.image.objectId
        (some (shared.assign m.sequence.toNat (mutated before (k + 1))))
      stage := Function.update s.stage k (.written m) }
  | send (k : ℕ) (m : ChainMessage) (b : B) (hstage : k < setup.stages)
    (hpoint : s.stage k = .written m) (hencode : wire.encodes (m.passed (k + 1)) b)
    (hroom : (s.links (k + 1)).length < setup.hwm) :
    Step s (.stage k) { s with
      links := Function.update s.links (k + 1) (s.links (k + 1) ++ [b])
      stage := Function.update s.stage k .waiting
      rounds := Function.update s.rounds k (s.rounds k + 1) }
  | sinkReceive (b : B) (rest : List B) (r : Except PyError ChainMessage)
    (hpoint : s.sink = .waiting) (hmore : s.delivered.length < setup.count)
    (hlink : s.links setup.stages = b :: rest) (hdecode : wire.decodes b r) :
    Step s .sink { s with
      links := Function.update s.links setup.stages rest
      sink := match r with | .ok m => .received m | .error e => .failed e }
  | sinkOpen (m : ChainMessage) (shared : SharedArray) (hpoint : s.sink = .received m)
    (hshared : s.objects m.image.objectId = some shared) :
    Step s .sink { s with sink := .opened m shared.generation }
  | sinkPrint (m : ChainMessage) (generation : ℤ) (shared : SharedArray) (value : ℕ)
    (hpoint : s.sink = .opened m generation) (hshared : s.objects m.image.objectId = some shared)
    (hcheck : sinkCheck setup.stages m generation shared true = .ok value) :
    Step s .sink { s with sink := .waiting, delivered := s.delivered ++ [(m.sequence, value)] }
  | sinkRaise (m : ChainMessage) (generation : ℤ) (shared : SharedArray) (e : PyError)
    (hpoint : s.sink = .opened m generation) (hshared : s.objects m.image.objectId = some shared)
    (hcheck : sinkCheck setup.stages m generation shared true = .error e) :
    Step s .sink { s with sink := .failed e }
  | producerDies : Step s .crash { s with producer := .dead }
  | stageDies (k : ℕ) : Step s .crash { s with stage := Function.update s.stage k .dead }
  | sinkDies : Step s .crash { s with sink := .dead }
  | others (objects : String → Option SharedArray)
    (hown : ∀ objectId ∈ s.owner, objects objectId = s.objects objectId) :
    Step s .others { s with objects := objects }

end Steps

/-- Nothing has been started yet. -/
def State.init {B : Type} (objects : String → Option SharedArray) : State B where
  objects := objects
  owner := none
  links _ := []
  producer := .start
  sent := 0
  stage _ := .waiting
  rounds _ := 0
  sink := .waiting
  delivered := []

end Npb.Chain
