import Npb.Mstore.Creating
import Npb.Mstore.Refusals

/-! # Answers

One round of a worker whose connection offers it a complete frame and takes whatever is sent: when
it answers, with exactly one frame (`answered_iff`). -/

namespace Npb.Mstore
set_option autoImplicit false
open Effects

/-! ## How long JSON is -/

/-- At most how many bytes a text or a flag takes: six for a character that is escaped. -/
def scalarSize : Json → Option ℕ
  | .leaf (.str s) => some (6 * s.length + 2)
  | .leaf (.bool _) => some 5
  | _ => none

/-- At most how many bytes an object takes, with its braces, colons and commas. -/
def objectSize (size : Json → Option ℕ) : Message → Option ℕ
  | [] => some 2
  | (key, value) :: entries => do
    let first ← size value
    let rest ← objectSize size entries
    return 6 * key.length + 4 + first + rest

/-- The same for objects of texts and flags too. -/
def nestedSize : Json → Option ℕ
  | .dict entries => objectSize scalarSize entries
  | value => scalarSize value

/-- `json.dumps` writes a message of texts and flags, in compact form. -/
def JsonText.Compact (text : JsonText) : Prop :=
  ∀ message size, objectSize nestedSize message = some size →
    ∃ payload, text.dumps message = .ok payload ∧ payload.length ≤ size

/-- What comes from outside into an error payload is short: the exceptions of the environment and of
the JSON library, and a traceback under a short message. -/
structure Service.Terse (service : Service) : Prop where
  env : service.env.Terse
  compact : service.text.Compact
  dumps : ∀ message e, service.text.dumps message = .error e → Brief service.env (.python e)
  traceback : ∀ exc, Brief service.env exc → (service.traceback exc).length ≤ 2 ^ 19

section Sizes
variable {service : Service} {exc : Failure} {message : Message} {size : ℕ}

theorem encodeFrame_compact {text : JsonText} (h : text.Compact)
    (hsize : objectSize nestedSize message = some size) (hle : size ≤ maxFrame) :
    ∃ frame, encodeFrame text message = .ok frame := by
  obtain ⟨payload, hdumps, hlength⟩ := h message size hsize
  refine ⟨framed payload, ?_⟩
  rw [encodeFrame, hdumps]
  exact if_neg (by omega)

theorem code_length (cls : ErrorClass) : cls.code.length ≤ 20 := by
  cases cls <;> decide

theorem brief_sendable (hterse : service.Terse) (h : Brief service.env exc) :
    Sendable service exc := by
  have htraceback := hterse.traceback exc h
  have hmax : maxFrame = 4194304 := rfl
  have hok : ("ok" : String).length = 2 := by decide
  have herror : ("error" : String).length = 5 := by decide
  have htype : ("type" : String).length = 4 := by decide
  have hmessage : ("message" : String).length = 7 := by decide
  have htrace : ("traceback" : String).length = 9 := by decide
  have hinternal : ("internal_error" : String).length = 14 := by decide
  unfold Brief at h
  cases exc with
  | mstore cls text =>
    have hcode := code_length cls
    apply encodeFrame_compact hterse.compact rfl
    rw [hok, herror, htype, hmessage]
    omega
  | python e =>
    unfold Sendable errorPayload
    dsimp only
    cases service.debug with
    | true =>
      apply encodeFrame_compact hterse.compact rfl
      rw [hok, herror, htype, hmessage, htrace, hinternal]
      omega
    | false =>
      apply encodeFrame_compact hterse.compact rfl
      rw [hok, herror, htype, hmessage, hinternal]
      omega

theorem wireFrame_brief (hterse : service.Terse) {fd : Option ℕ} {e : WireError}
    (h : wireFrame service message fd = .error e) : Brief service.env e.raised := by
  have hencode : ∀ e, encodeFrame service.text message = .error e →
      Brief service.env e.raised := by
    intro e he
    unfold encodeFrame at he
    cases hdumps : service.text.dumps message with
    | error e' =>
      rw [hdumps] at he
      cases he
      exact hterse.dumps message e' hdumps
    | ok payload =>
      rw [hdumps] at he
      dsimp only at he
      by_cases hlong : maxFrame < payload.length
      · rw [if_pos hlong] at he
        cases he
        exact brief_mstore (by decide +kernel)
      · rw [if_neg hlong] at he
        cases he
  unfold wireFrame at h
  cases htransport : service.transport with
  | pipe =>
    rw [htransport] at h
    dsimp only at h
    by_cases hfd : fd ≠ none
    · rw [if_pos hfd] at h
      cases h
      exact brief_mstore (by decide +kernel)
    · rw [if_neg hfd] at h
      exact hencode e h
  | socket hasSendmsg =>
    rw [htransport] at h
    obtain he | ⟨frame, -, h⟩ := except_bind_eq_error.mp h
    · exact hencode e he
    · by_cases hfd : fd ≠ none ∧ hasSendmsg = false
      · rw [if_pos hfd] at h
        cases h
        exact brief_mstore (by decide +kernel)
      · rw [if_neg hfd] at h
        cases h

end Sizes

/-! ## Rounds -/

/-- In between one response was sent, ok or an error payload, and `rest` is still to arrive. -/
def Answered (service : Service) (before after : Worker) (rest : List Arrival) : Prop :=
  ∃ answer, after.sent = before.sent ++ [answer] ∧
    ((∃ result, answer.message = okPayload result) ∨
      ∃ exc, answer.message = errorPayload service exc) ∧
    wireFrame service answer.message answer.fd = .ok answer.frame ∧
    after.inbox.arrivals = rest

section Rounds
variable {service : Service} {w w' : Worker} {rest : List Arrival} {exc : Failure}
  {request : Message} {payload : List UInt8}

theorem not_answered (h : w'.sent = w.sent) : ¬ Answered service w w' rest := by
  rintro ⟨answer, hsent, -⟩
  rw [h] at hsent
  have hlength := congrArg List.length hsent
  rw [List.length_append, List.length_singleton] at hlength
  omega

theorem answered_error (hwrites : ∀ n, service.writes n = none) (hsendable : Sendable service exc)
    (hsent : w'.sent = w.sent) (harrivals : w'.inbox.arrivals = rest) :
    Answered service w (finalState (answerError service exc w')) rest := by
  obtain ⟨frame, hframe⟩ := hsendable
  rw [answerError_written hframe (hwrites _)]
  refine ⟨⟨errorPayload service exc, frame, none⟩, ?_, .inr ⟨exc, rfl⟩,
    (wireFrame_none service _).trans hframe, harrivals⟩
  rw [finalState_ok, hsent]

theorem answered_report (hterse : service.Terse) (hwrites : ∀ n, service.writes n = none)
    {message : String} {inbox : Inbox} (hbrief : message.length ≤ 4096)
    (h : receiveFrame service w.inbox = .error (.protocol message) inbox) :
    Answered service w (finalState (serveOnce service w)) inbox.arrivals := by
  obtain ⟨frame, hframe⟩ := brief_sendable hterse
    (brief_mstore hbrief : Brief service.env (.mstore .protocolError message))
  have hrun : serveOnce service w = .ok .leave { w with
      inbox := inbox
      sent := w.sent ++ [⟨errorPayload service (.mstore .protocolError message), frame, none⟩]
      attempts := w.attempts + 1 } := by
    rw [serveOnce, bind_ok (attempt_error (onInbox_error h))]
    dsimp only
    rw [report, bind_ok (attempt_ok (send_written ((wireFrame_none _ _).trans hframe)
      (hwrites _)))]
    rfl
  rw [hrun]
  exact ⟨_, rfl, .inr ⟨.mstore .protocolError message, rfl⟩,
    (wireFrame_none service _).trans hframe, rfl⟩

/-- A request that is handled is answered, with its result or with the reason why that cannot be
sent. -/
theorem answered_handled (hterse : service.Terse) (hwrites : ∀ n, service.writes n = none)
    {result : Message} {fd : Option ℕ} {s : State}
    (h : handle service.env service.endpoint request w.server = .ok (result, fd) s) :
    Answered service w (finalState (serveRequest service request w)) w.inbox.arrivals := by
  rw [serveRequest_final h]
  cases hframe : wireFrame service (okPayload result) fd with
  | ok frame =>
    have hrun : answer service result fd { w with server := s } = _ :=
      answer_written hframe (hwrites _)
    rw [hrun]
    exact ⟨_, rfl, .inl ⟨result, rfl⟩, hframe, rfl⟩
  | error e =>
    rw [answer_unwritten hframe]
    exact answered_error hwrites (brief_sendable hterse (wireFrame_brief hterse hframe)) rfl rfl

/-- A request that is refused is answered if and only if the refusal can be sent. -/
theorem answered_refused (hwrites : ∀ n, service.writes n = none) {s : State}
    (h : handle service.env service.endpoint request w.server = .error exc s) :
    Answered service w (finalState (serveRequest service request w)) w.inbox.arrivals ↔
      Sendable service exc := by
  rw [serveRequest_failed h]
  constructor
  · intro hanswered
    by_contra hunsendable
    obtain ⟨e, hrun⟩ := answerError_unsendable (w := { w with server := s }) hunsendable
    rw [hrun] at hanswered
    exact not_answered rfl hanswered
  · intro hsendable
    exact answered_error hwrites hsendable rfl rfl

/-- An exception that nobody expects of `json.loads` ends the worker. -/
theorem serveOnce_unexpected {e : PyError} (hle : payload.length ≤ maxFrame)
    (hoffers : Offers service.transport w.inbox.arrivals (framed payload) rest)
    (hloads : service.text.loads payload = .error (.other e)) :
    serveOnce service w =
      .error (.other e) { w with inbox := { w.inbox with arrivals := rest } } := by
  have hreceive := receiveFrame_offered hle hoffers
  obtain ⟨request, h, -⟩ | ⟨e', h, hdecode⟩ | ⟨-, h, -⟩ := decodeFrame_payload service.text hle
  · cases hloads.symm.trans h
  · cases hloads.symm.trans h
    rw [hdecode] at hreceive
    rw [serveOnce, bind_ok (attempt_error (onInbox_error hreceive))]
    rfl
  · exact absurd hloads (h e)

/-- A worker answers a complete frame with exactly one frame if and only if `json.loads` raises
nothing unexpected on its payload, and a refusal that quotes the client still fits into a frame. -/
theorem answered_iff (hterse : service.Terse) (hwrites : ∀ n, service.writes n = none)
    (hle : payload.length ≤ maxFrame)
    (hoffers : Offers service.transport w.inbox.arrivals (framed payload) rest) :
    Answered service w (finalState (serveOnce service w)) rest ↔
      (∀ e, service.text.loads payload ≠ .error (.other e)) ∧
        ∀ request, service.text.loads payload = .ok (.dict request) →
          ∀ exc, Quoted service.env w.server request exc → Sendable service exc := by
  have hreceive := receiveFrame_offered hle hoffers
  obtain ⟨request, hloads, hdecode⟩ | ⟨e, hloads, hdecode⟩ | ⟨hdict, hother, hdecode⟩ :=
    decodeFrame_payload service.text hle
  · rw [hdecode] at hreceive
    rw [serveOnce_request hreceive, hloads]
    have hone : ((∀ e, (.ok (.dict request) : Except LoadError Json) ≠ .error (.other e)) ∧
        ∀ request', (.ok (.dict request) : Except LoadError Json) = .ok (.dict request') →
          ∀ exc, Quoted service.env w.server request' exc → Sendable service exc) ↔
        ∀ exc, Quoted service.env w.server request exc → Sendable service exc := by
      constructor
      · intro h
        exact h.2 request rfl
      · intro h
        refine ⟨nofun, fun request' hsame => ?_⟩
        cases hsame
        exact h
    rw [hone]
    cases hhandle : handle service.env service.endpoint request w.server with
    | ok reply s =>
      refine ⟨fun _ exc hquoted => ?_, fun _ => ?_⟩
      · have hrefused := handle_quoted service.endpoint hquoted
        rw [hhandle] at hrefused
        cases hrefused
      · exact answered_handled hterse hwrites hhandle
    | error exc s =>
      have hsendable_iff : Answered service w (finalState (serveRequest service request
          { w with inbox := { w.inbox with arrivals := rest } })) rest ↔
          Sendable service exc := answered_refused hwrites hhandle
      rw [hsendable_iff]
      refine ⟨fun hsendable exc' hquoted => ?_, fun h => ?_⟩
      · have hrefused := handle_quoted service.endpoint hquoted
        rw [hhandle] at hrefused
        cases hrefused
        exact hsendable
      · obtain hbrief | hquoted := handle_error hterse.env service.endpoint hhandle
        · exact brief_sendable hterse hbrief
        · exact h exc hquoted
  · rw [serveOnce_unexpected hle hoffers hloads]
    constructor
    · intro h
      exact absurd h (not_answered rfl)
    · intro h
      exact absurd hloads (h.1 e)
  · refine ⟨fun _ => ⟨hother, fun request hloads => absurd hloads (hdict request)⟩, fun _ => ?_⟩
    obtain hdecode | hdecode := hdecode
    · rw [hdecode] at hreceive
      exact answered_report hterse hwrites (by decide +kernel) hreceive
    · rw [hdecode] at hreceive
      exact answered_report hterse hwrites (by decide +kernel) hreceive

end Rounds

/-! ## A ping -/

section Samples

theorem join_length (part : List UInt8) (parts : List (List UInt8)) :
    ((asciiBytes ",").intercalate (part :: parts)).length ≤
      part.length + 1 + ((asciiBytes ",").intercalate parts).length := by
  have hcomma : (asciiBytes ",").length = 1 := by decide +kernel
  cases parts with
  | nil =>
    rw [List.intercalate_singleton, Nat.add_assoc]
    exact Nat.le_add_right _ _
  | cons part' parts =>
    rw [List.intercalate_cons_cons, List.length_append, List.length_append, hcomma]

theorem plainJson_scalar (value : Json) (size : ℕ) (h : scalarSize value = some size) :
    ∃ bytes, plainJson value = some bytes ∧ bytes.length ≤ size := by
  cases value with
  | dict entries => cases h
  | list xs => cases h
  | leaf scalar =>
    cases scalar with
    | str s =>
      cases h
      refine ⟨asciiBytes ("\"" ++ s ++ "\""), rfl, ?_⟩
      rw [asciiBytes_length, String.length_append, String.length_append]
      have hquote : ("\"" : String).length = 1 := by decide
      omega
    | bool b =>
      cases h
      refine ⟨asciiBytes (if b then "true" else "false"), rfl, ?_⟩
      cases b <;> decide +kernel
    | none => cases h
    | int i => cases h
    | float x => cases h
    | generic item => cases h
    | other typeName => cases h

theorem plainEntries_size {valueSize : Json → Option ℕ}
    (hvalue : ∀ value size, valueSize value = some size →
      ∃ bytes, plainJson value = some bytes ∧ bytes.length ≤ size)
    (entries : Message) (size : ℕ) (h : objectSize valueSize entries = some size) :
    ∃ parts, plainEntries entries = some parts ∧
      ((asciiBytes ",").intercalate parts).length + 2 ≤ size := by
  induction entries generalizing size with
  | nil =>
    cases h
    exact ⟨[], rfl, by decide +kernel⟩
  | cons entry entries ih =>
    obtain ⟨key, value⟩ := entry
    unfold objectSize at h
    obtain ⟨first, hfirst, h⟩ := Option.bind_eq_some_iff.mp h
    obtain ⟨rest, hrest, h⟩ := Option.bind_eq_some_iff.mp h
    cases h
    obtain ⟨bytes, hbytes, hlength⟩ := hvalue value first hfirst
    obtain ⟨parts, hparts, hjoined⟩ := ih rest hrest
    refine ⟨(asciiBytes ("\"" ++ key ++ "\":") ++ bytes) :: parts, ?_, ?_⟩
    · rw [plainEntries, hbytes, hparts]
      rfl
    · have hjoin := join_length (asciiBytes ("\"" ++ key ++ "\":") ++ bytes) parts
      have hkey : (asciiBytes ("\"" ++ key ++ "\":")).length = key.length + 3 := by
        rw [asciiBytes_length, String.length_append, String.length_append]
        have hopen : ("\"" : String).length = 1 := by decide
        have hclose : ("\":" : String).length = 2 := by decide
        omega
      rw [List.length_append, hkey] at hjoin
      omega

theorem plainJson_object {valueSize : Json → Option ℕ}
    (hvalue : ∀ value size, valueSize value = some size →
      ∃ bytes, plainJson value = some bytes ∧ bytes.length ≤ size)
    (entries : Message) (size : ℕ) (h : objectSize valueSize entries = some size) :
    ∃ bytes, plainJson (.dict entries) = some bytes ∧ bytes.length ≤ size := by
  obtain ⟨parts, hparts, hlength⟩ := plainEntries_size hvalue entries size h
  refine ⟨asciiBytes "\x7b" ++ (asciiBytes ",").intercalate parts ++ asciiBytes "\x7d", ?_, ?_⟩
  · rw [plainJson, hparts]
    rfl
  · have hopen : (asciiBytes "\x7b").length = 1 := by decide +kernel
    have hclose : (asciiBytes "\x7d").length = 1 := by decide +kernel
    rw [List.length_append, List.length_append, hopen, hclose]
    omega

theorem plainText_compact (message : Message) : (plainText message).Compact := by
  intro entries size h
  have hnested : ∀ value size, nestedSize value = some size →
      ∃ bytes, plainJson value = some bytes ∧ bytes.length ≤ size := by
    intro value size h
    cases value with
    | dict entries => exact plainJson_object plainJson_scalar entries size h
    | list xs => cases h
    | leaf scalar => exact plainJson_scalar _ size h
  obtain ⟨payload, hpayload, hlength⟩ := plainJson_object hnested entries size h
  refine ⟨payload, ?_, hlength⟩
  rw [plainText]
  dsimp only
  rw [hpayload]

def pingRequest : Message := [("op", .leaf (.str "ping"))]

def pingService : Service where
  env := plainEnvironment
  text := plainText pingRequest
  endpoint := "unix:///tmp/mstore.sock"
  debug := true
  traceback _ := ""
  transport := .socket true
  writes _ := none

theorem pingService_terse : pingService.Terse where
  env := {
    memfdCreate := nofun
    ftruncate := nofun
    openReadOnly := nofun
    dup := nofun
    mmap := nofun
    sortedRepr := by
      intro xs e h
      show Brief plainEnvironment (.python e)
      have h : plainSorted xs = .error e := h
      unfold plainSorted at h
      split at h
      · cases h
      · cases h
        exact brief_typeError (by decide)
    permission := by
      intro p text h
      have hone : plainEnvironment.sortedRepr [.str p.name] = .ok ("[" ++ pyRepr p.name ++ "]") :=
        plainSorted_one p.name
      cases hone.symm.trans h
      have hrepr := pyRepr_length p.name
      have hname : p.name.length ≤ 6 := by cases p <;> decide
      rw [String.length_append, String.length_append]
      have hbrackets : "[".length = 1 ∧ "]".length = 1 := by decide
      omega
    repr := fun s => (pyRepr_length s).trans (by omega) }
  compact := plainText_compact pingRequest
  dumps := by
    intro message e h
    show Brief plainEnvironment (.python e)
    cases hjson : plainJson (.dict message) with
    | some payload =>
      rw [pingService, plainText] at h
      dsimp only at h
      rw [hjson] at h
      cases h
    | none =>
      rw [pingService, plainText] at h
      dsimp only at h
      rw [hjson] at h
      cases h
      exact brief_other (by decide)
  traceback := fun exc h => Nat.zero_le _

def pingPayload : List UInt8 := (plainJson (.dict pingRequest)).getD []

/-- All bytes of a frame arrive at once. -/
def offered (payload : List UInt8) : Worker :=
  ⟨⟨(inOneChunk (framed payload)).map .chunk, [], []⟩, .init, [], 0⟩

theorem offered_offers (payload : List UInt8) (hasRecvmsg : Bool) :
    Offers (.socket hasRecvmsg) (offered payload).inbox.arrivals (framed payload) [] := by
  refine ⟨inOneChunk (framed payload), (List.append_nil _).symm, inOneChunk_bytes _, ?_, nofun⟩
  cases framed payload with
  | nil => rfl
  | cons first rest => rfl

theorem answered_iff_ping :
    Answered pingService (offered pingPayload)
      (finalState (serveOnce pingService (offered pingPayload))) [] ↔
      (∀ e, pingService.text.loads pingPayload ≠ .error (.other e)) ∧
        ∀ request, pingService.text.loads pingPayload = .ok (.dict request) →
          ∀ exc, Quoted pingService.env (offered pingPayload).server request exc →
            Sendable pingService exc :=
  answered_iff pingService_terse (fun _ => rfl) (by decide +kernel) (offered_offers _ true)

/-! ## An integer with too many digits -/

def tooManyDigits : PyError :=
  .valueError "Exceeds the limit (4300 digits) for integer string conversion"

/-- An object whose only value is an integer of 4301 ones. -/
def digitsPayload : List UInt8 :=
  asciiBytes "\x7b\"op\":" ++ List.replicate 4301 49 ++ asciiBytes "\x7d"

def digitsService : Service :=
  { pingService with
    text := { plainText pingRequest with
      loads := fun payload =>
        if payload = digitsPayload then .error (.other tooManyDigits) else .error .invalid } }

/-- The frame is complete, and the worker ends without an answer to it. -/
theorem digits_unanswered :
    digitsPayload.length ≤ maxFrame ∧
      Offers digitsService.transport (offered digitsPayload).inbox.arrivals
        (framed digitsPayload) [] ∧
      ∃ w', serveOnce digitsService (offered digitsPayload) =
          .error (.other tooManyDigits) w' ∧
        w'.sent = [] ∧ ¬ Answered digitsService (offered digitsPayload) w' [] := by
  have hle : digitsPayload.length ≤ maxFrame := by
    rw [digitsPayload, List.length_append, List.length_append, List.length_replicate,
      asciiBytes_length, asciiBytes_length]
    decide
  have hoffers := offered_offers digitsPayload true
  have hloads : digitsService.text.loads digitsPayload = .error (.other tooManyDigits) := by
    unfold digitsService
    dsimp only
    rw [if_pos rfl]
  have hrun : serveOnce digitsService (offered digitsPayload) = _ :=
    serveOnce_unexpected hle hoffers hloads
  exact ⟨hle, hoffers, _, hrun, rfl, not_answered rfl⟩

end Samples
end Npb.Mstore
