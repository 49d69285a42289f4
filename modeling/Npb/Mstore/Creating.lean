import Npb.Mstore.Authorisation
import Npb.Mstore.Worker

/-! # Creating an object

`create_object` has registered the object and its token before its mapping is duplicated and the
answer is sent. A create that fails leaves the registry as it was unless one of these later steps is
what failed (`create_failed_iff`). -/

namespace Npb.Mstore
set_option autoImplicit false
open Effects

/-! ## What a create comes to -/

section Creation
variable (env : Environment)

/-- What `create_region` returns or raises when its first question is the `t`-th. -/
def newRegion (size : ℤ) (objectId : String) (t : ℕ) : Except Failure Region :=
  match env.platform with
  | .windows => do
    let name := "mstore-" ++ objectId ++ "-" ++ env.tokenHex t
    python (env.mmap (t + 1) size name)
    return .windowsNamed false size name
  | .linux => do
    let name := "mstore-" ++ objectId
    let fd ← python (env.memfdCreate t name)
    python (env.ftruncate (t + 1) fd size)
    return .memfd fd size name
  | .other =>
    .error (.python (.other "RuntimeError"
      "mstore supports Linux (memfd) and Windows (named mmap)"))

/-- `region.client_mapping("write")` of a new region. -/
def writeMapping (t : ℕ) : Region → Except Failure (Json × Option ℕ)
  | .memfd fd size _ => do
    let fd ← python (env.dup t fd)
    return (.dict [("backend", .leaf (.str "memfd")), ("size", .leaf (.int size))], some fd)
  | .windowsNamed _ size name =>
    .ok (.dict [("backend", .leaf (.str "windows_named")), ("size", .leaf (.int size)),
      ("name", .leaf (.str name)), ("mode", .leaf (.str "write"))], none)

/-- The object that a create request of this size registers in state `s`. -/
def newObject (s : State) (size : ℤ) (args : Message) : ObjectRecord :=
  ⟨env.uuid4 s.ticks, size, s.regions.length, 1, getKey args "shape", getKey args "dtype",
    getOr args "order" (.leaf (.str "C")), orElse (getKey args "metadata") (.dict []),
    env.time (s.ticks + 3)⟩

/-- The state with the object, its token and its region. -/
def registered (s : State) (obj : ObjectRecord) (region : Region) : State :=
  let raw := env.tokenUrlsafe (s.ticks + 4)
  ⟨⟨s.registry.objects.set obj.objectId obj,
    s.registry.tokens.set (env.hashToken raw)
      (newToken env raw obj allPermissions (env.time (s.ticks + 5)) none)⟩,
    s.regions ++ [region], s.closed, s.ticks + 6⟩

/-- The result of a create request. -/
def createResult (s : State) (size : ℤ) (args : Message) (mapped : Json) : Message :=
  [("object", (newObject env s size args).toPublic env),
    ("token", .leaf (.str (env.tokenUrlsafe (s.ticks + 4)))), ("mapping", mapped)]

/-- The request passes every check that comes before its object is registered. -/
structure Creates (s : State) (request args : Message) (size : ℤ) (region : Region) : Prop where
  hargs : requestArgs request = .ok args
  hsize : sizeArg env args = .ok size
  hpositive : 0 < size
  hregion : newRegion env size (env.uuid4 s.ticks) (s.ticks + 1) = .ok region

end Creation

section Steps
variable {env : Environment} {s : State} {size : ℤ} {args request : Message} {region : Region}

theorem createRegion_run (size : ℤ) (objectId : String) (s : State) :
    (∃ region, newRegion env size objectId s.ticks = .ok region ∧
      createRegion env size objectId s = .ok region { s with ticks := s.ticks + 2 }) ∨
    ∃ e, newRegion env size objectId s.ticks = .error e ∧
      ∃ s', createRegion env size objectId s = .error e s' := by
  unfold newRegion createRegion
  cases env.platform with
  | windows =>
    unfold createWindowsNamed
    dsimp only
    rw [bind_ok (ask_run _ s), bind_ok (ask_run _ _)]
    cases env.mmap (s.ticks + 1) size ("mstore-" ++ objectId ++ "-" ++ env.tokenHex s.ticks) with
    | ok u => exact .inl ⟨_, rfl, rfl⟩
    | error e => exact .inr ⟨_, rfl, _, rfl⟩
  | linux =>
    unfold createMemfd
    dsimp only
    rw [bind_ok (ask_run _ s)]
    cases env.memfdCreate s.ticks ("mstore-" ++ objectId) with
    | error e => exact .inr ⟨_, rfl, _, rfl⟩
    | ok fd =>
      have hopened : python (.ok fd : Except PyError ℕ) = .ok fd := rfl
      rw [hopened, fromExcept_ok_bind, bind_ok (ask_run _ _), except_ok_bind]
      cases env.ftruncate (s.ticks + 1) fd size with
      | ok u => exact .inl ⟨_, rfl, rfl⟩
      | error e => exact .inr ⟨_, rfl, _, rfl⟩
  | other => exact .inr ⟨_, rfl, _, rfl⟩

theorem createObject_run (h : Creates env s request args size region) :
    createObject env size (getKey args "shape") (getKey args "dtype")
        (getOr args "order" (.leaf (.str "C"))) (orElse (getKey args "metadata") (.dict [])) s =
      .ok (newObject env s size args, env.tokenUrlsafe (s.ticks + 4))
        (registered env s (newObject env s size args) region) := by
  have hcreate : createRegion env size (env.uuid4 s.ticks) { s with ticks := s.ticks + 1 } =
      .ok region { s with ticks := s.ticks + 3 } := by
    obtain ⟨region', hregion, hrun⟩ | ⟨e, hregion, -⟩ :=
      createRegion_run size (env.uuid4 s.ticks) { s with ticks := s.ticks + 1 }
    · cases h.hregion.symm.trans hregion
      exact hrun
    · cases h.hregion.symm.trans hregion
  unfold createObject
  rw [fromExcept_raiseIf (Int.not_le.mpr h.hpositive), pure_bind, bind_ok (ask_run _ s),
    bind_ok hcreate, bind_ok (ask_run _ _)]
  rfl

theorem createObject_refused (hsize : sizeArg env args = .ok size)
    (hargs : requestArgs request = .ok args)
    (h : ∀ region, ¬ Creates env s request args size region) (shape dtype order metadata : Json) :
    ∃ e s', createObject env size shape dtype order metadata s = .error e s' := by
  unfold createObject
  by_cases hpositive : 0 < size
  · rw [fromExcept_raiseIf (Int.not_le.mpr hpositive), pure_bind, bind_ok (ask_run _ s)]
    obtain ⟨region, hregion, -⟩ | ⟨e, -, s', hrun⟩ :=
      createRegion_run size (env.uuid4 s.ticks) { s with ticks := s.ticks + 1 }
    · exact absurd ⟨hargs, hsize, hpositive, hregion⟩ (h region)
    · exact ⟨e, s', bind_error hrun _⟩
  · have hle : size ≤ 0 := Int.not_lt.mp hpositive
    exact ⟨_, s, bind_error (fromExcept_eq_error.mpr ⟨raiseIf_eq_error.mpr ⟨hle, rfl⟩, rfl⟩) _⟩

theorem clientMapping_write (env : Environment) (region : Region) (s : State) :
    (∃ mapped fd s', writeMapping env s.ticks region = .ok (mapped, fd) ∧
      clientMapping env region "write" s = .ok (mapped, fd) s' ∧ Unchanged s s') ∨
    ∃ e s', writeMapping env s.ticks region = .error e ∧
      clientMapping env region "write" s = .error e s' ∧ Unchanged s s' := by
  have hquiet : Unchanged s (finalState (clientMapping env region "write" s)) :=
    clientMapping_quiet region "write" s
  cases region with
  | memfd fd size name =>
    have hrun : clientMapping env (.memfd fd size name) "write" s =
        fromExcept (writeMapping env s.ticks (.memfd fd size name))
          { s with ticks := s.ticks + 1 } := by
      unfold clientMapping writeMapping
      dsimp only
      rw [if_neg (by decide), if_pos rfl, bind_ok (ask_run _ s), ← fromExcept_bind]
      rfl
    rw [hrun] at hquiet ⊢
    cases hmapping : writeMapping env s.ticks (.memfd fd size name) with
    | ok p =>
      rw [hmapping] at hquiet
      exact .inl ⟨p.1, p.2, _, rfl, rfl, hquiet⟩
    | error e =>
      rw [hmapping] at hquiet
      exact .inr ⟨e, _, rfl, rfl, hquiet⟩
  | windowsNamed closed size name =>
    exact .inl ⟨_, _, s, rfl, rfl, Unchanged.refl s⟩

/-! ## The handler -/

theorem handle_create (endpoint : String) (hop : isText "create" (getKey request "op") = true) :
    handle env endpoint request = fromExcept (requestArgs request) >>= handleCreate env := by
  unfold handle
  dsimp only
  congr 1
  funext args
  rw [if_neg (by simp [isText_other hop (show "create" ≠ "ping" by decide)]), if_pos hop]

theorem handle_refused (endpoint : String) (hop : isText "create" (getKey request "op") = true)
    (h : ∀ args size region, ¬ Creates env s request args size region) :
    ∃ e s', handle env endpoint request s = .error e s' ∧ s'.registry = s.registry := by
  rw [handle_create endpoint hop]
  cases hargs : requestArgs request with
  | error e => exact ⟨e, s, rfl, rfl⟩
  | ok args =>
    rw [fromExcept_ok_bind]
    unfold handleCreate
    cases hsize : sizeArg env args with
    | error e => exact ⟨e, s, rfl, rfl⟩
    | ok size =>
      obtain ⟨e, s', hrun⟩ := createObject_refused hsize hargs (h args size)
        (getKey args "shape") (getKey args "dtype") (getOr args "order" (.leaf (.str "C")))
        (orElse (getKey args "metadata") (.dict []))
      refine ⟨e, s', ?_, (createObject_safe _ _ _ _ _ _ _ _ hrun).registry⟩
      rw [fromExcept_ok_bind]
      exact bind_error hrun _

/-- A create that registers its object answers with it, unless the mapping cannot be duplicated. -/
theorem handle_registered (endpoint : String)
    (hop : isText "create" (getKey request "op") = true)
    (h : Creates env s request args size region) :
    (∃ mapped fd s', writeMapping env (s.ticks + 6) region = .ok (mapped, fd) ∧
      handle env endpoint request s = .ok (createResult env s size args mapped, fd) s' ∧
      Unchanged (registered env s (newObject env s size args) region) s') ∨
    ∃ e s', writeMapping env (s.ticks + 6) region = .error e ∧
      handle env endpoint request s = .error e s' ∧
      Unchanged (registered env s (newObject env s size args) region) s' := by
  have hregion : (registered env s (newObject env s size args) region).regions[
      (newObject env s size args).region]? = some region := by
    show (s.regions ++ [region])[s.regions.length]? = some region
    exact List.getElem?_concat_length
  have hmapping : regionMapping env (newObject env s size args).region "write"
      (registered env s (newObject env s size args) region) =
      clientMapping env region "write"
        (registered env s (newObject env s size args) region) := by
    unfold regionMapping
    rw [bind_ok (get_run _), hregion]
  have hrun : handle env endpoint request s =
      (clientMapping env region "write" >>= fun p =>
        pure (createResult env s size args p.1, p.2))
        (registered env s (newObject env s size args) region) := by
    rw [handle_create endpoint hop, h.hargs, fromExcept_ok_bind]
    unfold handleCreate
    rw [h.hsize, fromExcept_ok_bind, bind_ok (createObject_run h)]
    dsimp only
    unfold createReply
    rw [bind_run, hmapping, bind_run]
    rfl
  rw [hrun]
  obtain ⟨mapped, fd, s', hmapping, hclient, hsame⟩ | ⟨e, s', hmapping, hclient, hsame⟩ :=
    clientMapping_write env region (registered env s (newObject env s size args) region)
  · refine .inl ⟨mapped, fd, s', hmapping, ?_, hsame⟩
    rw [bind_ok hclient]
    rfl
  · exact .inr ⟨e, s', hmapping, bind_error hclient _, hsame⟩

theorem Creates.functional {args' : Message} {size' : ℤ} {region' : Region}
    (h : Creates env s request args size region)
    (h' : Creates env s request args' size' region') :
    args' = args ∧ size' = size ∧ region' = region := by
  cases h.hargs.symm.trans h'.hargs
  cases h.hsize.symm.trans h'.hsize
  cases h.hregion.symm.trans h'.hregion
  exact ⟨rfl, rfl, rfl⟩

/-! ## What is left behind -/

theorem history_region_lt {events : List Event} (h : History env events s) (o : String)
    (obj : ObjectRecord) (hobj : (o, obj) ∈ s.registry.objects.items) :
    obj.region < s.regions.length := by
  refine h.invariant (I := fun s => ∀ o obj, (o, obj) ∈ s.registry.objects.items →
    obj.region < s.regions.length) ?_ (fun o obj h => nomatch h) o obj hobj
  intro e s₁ s₂ hI hstep o obj hobj
  cases perform_effect hstep with
  | failed hsame =>
    rw [hsame.registry] at hobj
    rw [hsame.regions]
    exact hI o obj hobj
  | created n m t obj' region now hsize hn hm ht hid hregion =>
    show obj.region < (s₁.regions ++ [region]).length
    rw [List.length_append, List.length_singleton]
    cases Dict.mem_set.mp hobj with
    | inl hnew =>
      cases hnew
      omega
    | inr hold => exact Nat.lt_succ_of_lt (hI o obj hold.1)
  | validated => exact hI o obj hobj
  | issued => exact hI o obj hobj
  | revoked => exact hI o obj hobj
  | deleted =>
    rw [length_closeAll]
    exact hI o obj (Dict.mem_pop.mp hobj).1
  | closed => exact nomatch hobj

theorem registered_ne {events : List Event} (h : History env events s) (size : ℤ) (args : Message)
    (region : Region) :
    (registered env s (newObject env s size args) region).registry ≠ s.registry := by
  intro hsame
  have hnew : ((newObject env s size args).objectId, newObject env s size args) ∈
      (registered env s (newObject env s size args) region).registry.objects.items :=
    Dict.mem_set.mpr (.inl rfl)
  rw [hsame] at hnew
  exact Nat.lt_irrefl _ (history_region_lt h _ _ hnew)

end Steps

/-! ## Failed creates -/

section Failures
variable {service : Service} {w : Worker} {request : Message} {inbox : Inbox}

/-- Everything after the registration goes well: the mapping is duplicated, the response fits into a
frame that the connection can carry, and the frame is written. -/
def Announces (service : Service) (w : Worker) (args : Message) (size : ℤ) (region : Region) :
    Prop :=
  ∃ mapped fd frame,
    writeMapping service.env (w.server.ticks + 6) region = .ok (mapped, fd) ∧
    wireFrame service (okPayload (createResult service.env w.server size args mapped)) fd =
      .ok frame ∧
    service.writes w.attempts = none

/-- A success response was sent in between. -/
def Succeeded (w w' : Worker) : Prop :=
  ∃ answer ∈ w'.sent.drop w.sent.length, ∃ result, answer.message = okPayload result

theorem not_succeeded {w' : Worker} {answers : List Sent} {exc : Failure}
    (hsent : w'.sent = w.sent ++ answers)
    (h : ∀ answer ∈ answers, answer.message = errorPayload service exc) : ¬ Succeeded w w' := by
  rintro ⟨answer, hanswer, result, hresult⟩
  rw [hsent, List.drop_left] at hanswer
  exact okPayload_ne result (hresult.symm.trans (h answer hanswer))

/-- A create that is not answered with success leaves the registry as it was if and only if no step
after the registration is what failed. -/
theorem create_failed_iff {events : List Event} (hhistory : History service.env events w.server)
    (hop : isText "create" (getKey request "op") = true)
    (hreceive : receiveFrame service w.inbox = .ok (request, none) inbox) :
    (¬ Succeeded w (finalState (serveOnce service w)) →
      (finalState (serveOnce service w)).server.registry = w.server.registry) ↔
    ∀ args size region, Creates service.env w.server request args size region →
      Announces service w args size region := by
  rw [serveOnce_request hreceive]
  by_cases hcreates : ∃ args size region, Creates service.env w.server request args size region
  · obtain ⟨args, size, region, h⟩ := hcreates
    have hne := registered_ne hhistory size args region
    have hsole : (∀ args' size' region',
        Creates service.env w.server request args' size' region' →
          Announces service w args' size' region') ↔ Announces service w args size region := by
      constructor
      · intro hall
        exact hall args size region h
      · intro hannounces args' size' region' h'
        obtain ⟨rfl, rfl, rfl⟩ := h.functional h'
        exact hannounces
    rw [hsole]
    obtain ⟨mapped, fd, s', hmapping, hhandle, hsame⟩ | ⟨e, s', hmapping, hhandle, hsame⟩ :=
      handle_registered service.endpoint hop h
    · obtain ⟨answers, attempts, hstate, hanswers⟩ :=
        serveRequest_state (w := { w with inbox := inbox }) hhandle
      rw [hstate]
      cases hanswers with
      | inl hsent =>
        obtain ⟨frame, hframe, hwrites, rfl⟩ := hsent
        have hsucceeded : Succeeded w
            ⟨{ inbox with closed := inbox.closed ++ fd.toList }, s', w.sent ++
              [⟨okPayload (createResult service.env w.server size args mapped), frame, fd⟩],
              attempts⟩ := by
          refine ⟨⟨okPayload (createResult service.env w.server size args mapped), frame, fd⟩, ?_,
            _, rfl⟩
          rw [List.drop_left]
          exact List.mem_singleton_self _
        exact ⟨fun _ => ⟨mapped, fd, frame, hmapping, hframe, hwrites⟩,
          fun _ hnot => absurd hsucceeded hnot⟩
      | inr hfailed =>
        obtain ⟨hnever, exc, hexc⟩ := hfailed
        constructor
        · intro hkeeps
          exact absurd (hsame.registry.symm.trans (hkeeps (not_succeeded rfl hexc))) hne
        · rintro ⟨mapped', fd', frame, hmapping', hframe, hwrites⟩
          cases hmapping.symm.trans hmapping'
          exact absurd hwrites (hnever frame hframe)
    · obtain ⟨answers, attempts, hstate, hanswers⟩ :=
        answerError_state service e { w with inbox := inbox, server := s' }
      have hrun := serveRequest_failed (w := { w with inbox := inbox }) hhandle
      rw [hrun, hstate]
      constructor
      · intro hkeeps
        exact absurd (hsame.registry.symm.trans (hkeeps (not_succeeded rfl hanswers))) hne
      · rintro ⟨mapped', fd', frame, hmapping', -⟩
        cases hmapping.symm.trans hmapping'
  · have hnone : ∀ args size region,
        ¬ Creates service.env w.server request args size region :=
      fun args size region h => hcreates ⟨args, size, region, h⟩
    obtain ⟨e, s', hhandle, hregistry⟩ := handle_refused service.endpoint hop hnone
    obtain ⟨answers, attempts, hstate, -⟩ :=
      answerError_state service e { w with inbox := inbox, server := s' }
    have hrun := serveRequest_failed (w := { w with inbox := inbox }) hhandle
    rw [hrun, hstate]
    exact ⟨fun _ args size region h => absurd h (hnone args size region), fun _ _ => hregistry⟩

end Failures

/-! ## A create without a descriptor to spare -/

section Samples

/-- A worker of an empty registry on a `unix://` endpoint, whose `os.dup` answers `dup`. -/
def createService (dup : Except PyError ℕ) : Service where
  env := { plainEnvironment with dup := fun _ _ => dup }
  text := plainText createRequest
  endpoint := "unix:///tmp/mstore.sock"
  debug := false
  traceback _ := ""
  transport := .socket true
  writes _ := none

def createPayload : List UInt8 := (plainJson (.dict createRequest)).getD []

def createWorker : Worker :=
  ⟨⟨(inOneChunk (framed createPayload)).map .chunk, [], []⟩, .init, [], 0⟩

theorem createWorker_receives (dup : Except PyError ℕ) :
    receiveFrame (createService dup) createWorker.inbox =
      .ok (createRequest, none) ⟨[], [], []⟩ := by
  have hoffers : Offers (createService dup).transport createWorker.inbox.arrivals
      (framed createPayload) [] :=
    ⟨inOneChunk (framed createPayload), (List.append_nil _).symm, inOneChunk_bytes _, rfl, nofun⟩
  have hdecode : decodeFrame (plainText createRequest) (framed createPayload) =
      .ok createRequest :=
    decodeFrame_framed (by decide +kernel) (plainText_loads (by decide +kernel))
  exact (receiveFrame_offered (by decide +kernel) hoffers).trans (by
    rw [createService, hdecode]
    rfl)

theorem create_failed_iff_plain :
    (¬ Succeeded createWorker (finalState (serveOnce (createService (.ok 9)) createWorker)) →
      (finalState (serveOnce (createService (.ok 9)) createWorker)).server.registry =
        createWorker.server.registry) ↔
    ∀ args size region,
      Creates (createService (.ok 9)).env createWorker.server createRequest args size region →
      Announces (createService (.ok 9)) createWorker args size region :=
  create_failed_iff .nil rfl (createWorker_receives (.ok 9))

/-- The kernel has no descriptor left. -/
def tooManyFiles : PyError := .other "OSError" "[Errno 24] Too many open files"

/-- `os.dup` raises, the answer is an error, and the object stays with its only token. -/
theorem failed_create_registers :
    ∃ frame w', serveOnce (createService (.error tooManyFiles)) createWorker = .ok .again w' ∧
      w'.sent = [⟨errorPayload (createService (.error tooManyFiles)) (.python tooManyFiles), frame,
        none⟩] ∧
      createWorker.server.registry.objects.size = 0 ∧ w'.server.registry.objects.size = 1 ∧
      createWorker.server.registry.tokens.size = 0 ∧ w'.server.registry.tokens.size = 1 := by
  have hcreates : Creates (createService (.error tooManyFiles)).env createWorker.server
      createRequest [("size", .leaf (.int 8))] 8 (.memfd 1 8 ("mstore-" ++ letters 'o' 0)) :=
    ⟨rfl, rfl, by decide, rfl⟩
  obtain ⟨mapped, fd, s', hmapping, -⟩ | ⟨e, s', hmapping, hhandle, hsame⟩ :=
    handle_registered (createService (.error tooManyFiles)).endpoint rfl hcreates
  · cases hmapping
  · cases hmapping
    obtain ⟨frame, hframe⟩ : ∃ frame, encodeFrame (plainText createRequest)
        (errorPayload (createService (.error tooManyFiles)) (.python tooManyFiles)) =
        .ok frame := ⟨_, rfl⟩
    have hrun : serveOnce (createService (.error tooManyFiles)) createWorker = .ok .again
        ⟨⟨[], [], []⟩, s', [⟨errorPayload (createService (.error tooManyFiles))
          (.python tooManyFiles), frame, none⟩], 1⟩ :=
      (serveOnce_request (createWorker_receives _)).trans
        ((serveRequest_failed (w := { createWorker with inbox := ⟨[], [], []⟩ }) hhandle).trans
          (answerError_written hframe rfl))
    have hobjects : s'.registry.objects.size = 1 := by
      rw [hsame.registry]
      rfl
    have htokens : s'.registry.tokens.size = 1 := by
      rw [hsame.registry]
      rfl
    exact ⟨frame, _, hrun, rfl, rfl, hobjects, rfl, htokens⟩

end Samples
end Npb.Mstore
