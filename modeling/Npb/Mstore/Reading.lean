import Npb.Mstore.Framing

/-! # Reading step by step

The receivers of a socket do, read by read, what `received` says: they ask for as many bytes as it
does, and stop where it stops (`connRecv_follows`). So the threads of a client, which go by
`received`, read as the receivers do. -/

namespace Npb.Mstore
set_option autoImplicit false
open Effects

/-- The reads that `received` asks for after the bytes in a buffer, one after the other, with what
they come to and what still arrives then. -/
inductive Follows (text : JsonText) (transport : Transport) :
    List UInt8 → List Arrival → Except WireError Message → List Arrival → Prop
  | done (buf : List UInt8) (arrivals : List Arrival) (message : Message)
    (hdone : received text transport buf = .done message) :
    Follows text transport buf arrivals (.ok message) arrivals
  | failed (buf : List UInt8) (arrivals : List Arrival) (e : WireError)
    (hfailed : received text transport buf = .failed e) :
    Follows text transport buf arrivals (.error e) arrivals
  | ended (buf : List UInt8) (limit : ℕ) (hmore : received text transport buf = .more limit) :
    Follows text transport buf [] (.error .eof) []
  | broken (buf : List UInt8) (limit : ℕ) (message : String) (later : List Arrival)
    (hmore : received text transport buf = .more limit) :
    Follows text transport buf (.failed message :: later) (.error (.os message)) later
  | more (buf : List UInt8) (limit : ℕ) (c : Chunk) (later rest : List Arrival)
    (outcome : Except WireError Message) (hmore : received text transport buf = .more limit)
    (hrest : Follows text transport (buf ++ c.bytes.take limit)
      (putBack (c.bytes.drop limit) later) outcome rest) :
    Follows text transport buf (.chunk c :: later) outcome rest

/-- What is left to read after a result: what it comes to, and what still arrives then. -/
abbrev Continuation (α : Type) :=
  α → List Arrival → Except WireError Message → List Arrival → Prop

/-- The computation reads as `received` asks after `buf`, if what is left is read so. -/
def Leads {α : Type} (text : JsonText) (transport : Transport) (buf : List UInt8) (x : Receive α)
    (left : Continuation α) : Prop :=
  ∀ inbox,
    (∀ e after, x inbox = .error e after →
      Follows text transport buf inbox.arrivals (.error e) after.arrivals) ∧
    ∀ a after, x inbox = .ok a after → ∀ outcome rest, left a after.arrivals outcome rest →
      Follows text transport buf inbox.arrivals outcome rest

/-- Nothing more is read. -/
def returned {α : Type} (message : α → Message) : Continuation α := fun a arrivals outcome rest =>
  outcome = .ok (message a) ∧ rest = arrivals

/-! ## Composition -/

section Composition
variable {text : JsonText} {transport : Transport} {buf : List UInt8} {α β : Type}

theorem leads_pure {a : α} {left : Continuation α}
    (h : ∀ arrivals outcome rest, left a arrivals outcome rest →
      Follows text transport buf arrivals outcome rest) :
    Leads text transport buf (pure a) left := by
  intro inbox
  refine ⟨nofun, ?_⟩
  intro a' after hrun outcome rest hleft
  cases hrun
  exact h _ outcome rest hleft

theorem leads_refused {x : Receive α} {left : Continuation α} {e : WireError}
    (hfailed : received text transport buf = .failed e)
    (h : ∀ inbox, ∃ after, x inbox = .error e after ∧ after.arrivals = inbox.arrivals) :
    Leads text transport buf x left := by
  intro inbox
  obtain ⟨after, hrun, hsame⟩ := h inbox
  constructor
  · intro e' after' hrun'
    cases hrun.symm.trans hrun'
    rw [hsame]
    exact .failed buf _ e hfailed
  · intro a after' hrun'
    cases hrun.symm.trans hrun'

theorem leads_bind {x : Receive α} {f : α → Receive β} {left : Continuation β}
    (grow : α → List UInt8)
    (hx : Leads text transport buf x fun a => Follows text transport (grow a))
    (hf : ∀ inbox a after, x inbox = .ok a after → Leads text transport (grow a) (f a) left) :
    Leads text transport buf (x >>= f) left := by
  intro inbox
  obtain ⟨herror, hok⟩ := hx inbox
  constructor
  · intro e after hrun
    obtain hrun | ⟨a, next, hrun, hlast⟩ := bind_eq_error.mp hrun
    · exact herror e after hrun
    · exact hok a next hrun _ _ ((hf inbox a next hrun next).1 e after hlast)
  · intro b after hrun outcome rest hleft
    obtain ⟨a, next, hrun, hlast⟩ := bind_eq_ok.mp hrun
    exact hok a next hrun _ _ ((hf inbox a next hrun next).2 b after hlast outcome rest hleft)

theorem leads_recv {limit : ℕ} {f : List UInt8 → Receive α} {left : Continuation α}
    (hlimit : limit ≠ 0) (hmore : received text transport buf = .more limit)
    (hf : ∀ bytes, bytes ≠ [] → bytes.length ≤ limit →
      Leads text transport (buf ++ bytes) (f bytes) left) :
    Leads text transport buf (do
      let chunk ← recv limit
      if chunk = [] then throw .eof
      else f chunk) left := by
  intro inbox
  obtain ⟨arrivals, delivered, closed⟩ := inbox
  cases arrivals with
  | nil =>
    refine ⟨?_, nofun⟩
    intro e after hrun
    cases hrun
    exact .ended buf limit hmore
  | cons arrival later =>
  cases arrival with
  | failed message =>
    refine ⟨?_, nofun⟩
    intro e after hrun
    cases hrun
    exact .broken buf limit message later hmore
  | chunk c =>
    have hread : recv limit ⟨.chunk c :: later, delivered, closed⟩ = .ok (c.bytes.take limit)
        ⟨putBack (c.bytes.drop limit) later, delivered, closed⟩ := rfl
    have hsome : c.bytes.take limit ≠ [] := by simp [Chunk.bytes, hlimit]
    rw [bind_ok hread, if_neg hsome]
    obtain ⟨herror, hok⟩ := hf _ hsome (List.length_take_le _ _)
      ⟨putBack (c.bytes.drop limit) later, delivered, closed⟩
    constructor
    · intro e after hrun
      exact .more buf limit c later _ _ hmore (herror e after hrun)
    · intro a after hrun outcome rest hleft
      exact .more buf limit c later rest outcome hmore (hok a after hrun outcome rest hleft)

end Composition

/-! ## Loops -/

section Loops
variable {text : JsonText} {transport : Transport} {buf : List UInt8} {inbox after : Inbox}

theorem leads_nil : Leads text transport buf (pure [])
    fun bytes => Follows text transport (buf ++ bytes) := by
  apply leads_pure
  intro arrivals outcome rest hfollows
  rw [List.append_nil] at hfollows
  exact hfollows

theorem recvLoop_leads (rounds n : ℕ)
    (hmore : ∀ bytes : List UInt8, bytes.length < n →
      received text transport (buf ++ bytes) = .more (n - bytes.length)) :
    Leads text transport buf (recvLoop rounds n)
      fun bytes => Follows text transport (buf ++ bytes) := by
  induction rounds generalizing n buf with
  | zero => exact leads_nil
  | succ rounds ih =>
    rw [recvLoop]
    by_cases hn : n = 0
    · rw [if_pos hn]
      exact leads_nil
    rw [if_neg hn]
    have hask : received text transport buf = .more n := by
      have hnil := hmore [] (Nat.pos_of_ne_zero hn)
      rw [List.append_nil] at hnil
      exact hnil
    apply leads_recv hn hask
    intro chunk hsome hlength
    apply leads_bind (buf ++ chunk ++ ·)
    · apply ih
      intro bytes hbytes
      have hlater := hmore (chunk ++ bytes) (by rw [List.length_append]; omega)
      rw [List.append_assoc, hlater, List.length_append, Nat.sub_sub]
    · intro inbox bytes after hrun
      apply leads_pure
      intro arrivals outcome rest hfollows
      rw [← List.append_assoc] at hfollows
      exact hfollows

theorem recvExact_length {n : ℕ} {bytes : List UInt8}
    (h : recvExact n inbox = .ok bytes after) : bytes.length = n := by
  obtain ⟨arrivals, delivered, closed⟩ := inbox
  by_cases hn : n ≤ (ahead arrivals).length
  · cases h.symm.trans (recvExact_run hn)
    rw [List.length_take, Nat.min_eq_left hn]
  · obtain ⟨e, later, -, hrun⟩ := recvLoop_short n n arrivals (Nat.le_refl n) (Nat.lt_of_not_le hn)
    cases h.symm.trans hrun

theorem extendTo_leads (total : ℕ)
    (hmore : ∀ bytes : List UInt8, (buf ++ bytes).length < total →
      received text transport (buf ++ bytes) = .more (total - (buf ++ bytes).length)) :
    Leads text transport buf (extendTo total buf) (Follows text transport) := by
  unfold extendTo
  by_cases hlt : buf.length < total
  · rw [if_pos hlt]
    apply leads_bind (buf ++ ·)
    · apply recvLoop_leads
      intro bytes hbytes
      rw [hmore bytes (by rw [List.length_append]; omega), List.length_append, Nat.sub_sub]
    · intro inbox bytes after hrun
      exact leads_pure fun _ _ _ hfollows => hfollows
  · rw [if_neg hlt]
    exact leads_pure fun _ _ _ hfollows => hfollows

theorem extendTo_ok {total : ℕ} {filled : List UInt8}
    (h : extendTo total buf inbox = .ok filled after) :
    buf <+: filled ∧ total ≤ filled.length := by
  unfold extendTo at h
  by_cases hlt : buf.length < total
  · rw [if_pos hlt] at h
    obtain ⟨bytes, next, hrun, hlast⟩ := bind_eq_ok.mp h
    cases hlast
    refine ⟨List.prefix_append buf bytes, ?_⟩
    rw [List.length_append, recvExact_length hrun]
    omega
  · rw [if_neg hlt] at h
    cases h
    exact ⟨List.prefix_refl buf, Nat.le_of_not_lt hlt⟩

end Loops

/-! ## Frames -/

section Frames
variable {text : JsonText} {recvmsg : Bool} {buf : List UInt8}

theorem received_header (h : buf.length < frameHeaderSize) (hfirst : recvmsg = true → buf ≠ []) :
    received text (.socket recvmsg) buf = .more (frameHeaderSize - buf.length) := by
  unfold received
  dsimp only
  rw [if_pos h, if_neg fun hboth => hfirst hboth.1 hboth.2]

theorem received_tooLong (h : frameHeaderSize ≤ buf.length) (hbig : maxFrame < frameSize buf) :
    received text (.socket recvmsg) buf = .failed tooLong := by
  unfold received
  dsimp only
  rw [if_neg (by omega), if_pos hbig]
  rfl

theorem received_missing (h : frameHeaderSize ≤ buf.length) (hsize : frameSize buf ≤ maxFrame)
    (hmissing : buf.length < frameHeaderSize + frameSize buf) :
    received text (.socket recvmsg) buf =
      .more (frameHeaderSize + frameSize buf - buf.length) := by
  unfold received
  dsimp only
  rw [if_neg (by omega), if_neg (by omega), if_pos hmissing]

theorem received_beyond (hsize : frameSize buf ≤ maxFrame)
    (hbeyond : frameHeaderSize + frameSize buf < buf.length) :
    received text (.socket recvmsg) buf =
      .failed (.protocol "received bytes beyond the end of a control frame") := by
  unfold received
  dsimp only
  rw [if_neg (by omega), if_neg (by omega), if_neg (by omega), if_pos (by omega)]

theorem received_whole (hsize : frameSize buf ≤ maxFrame)
    (hwhole : buf.length = frameHeaderSize + frameSize buf) :
    received text (.socket recvmsg) buf = decoded text buf := by
  unfold received
  dsimp only
  rw [if_neg (by omega), if_neg (by omega), if_neg (by omega), if_neg (by omega)]

theorem frameSize_prefix {header : List UInt8} (h : header <+: buf)
    (hheader : frameHeaderSize ≤ header.length) : frameSize buf = frameSize header := by
  obtain ⟨rest, rfl⟩ := h
  unfold frameSize
  rw [List.take_append_of_le_length hheader]

theorem leads_decoded {α : Type} {x : Receive α} {message : α → Message}
    (hwhole : received text (.socket recvmsg) buf = decoded text buf)
    (hok : ∀ m, decodeFrame text buf = .ok m → ∃ a, x = pure a ∧ message a = m)
    (herror : ∀ e, decodeFrame text buf = .error e →
      ∀ inbox, ∃ after, x inbox = .error e after ∧ after.arrivals = inbox.arrivals) :
    Leads text (.socket recvmsg) buf x (returned message) := by
  unfold decoded at hwhole
  cases hdecode : decodeFrame text buf with
  | error e =>
    rw [hdecode] at hwhole
    exact leads_refused hwhole (herror e hdecode)
  | ok m =>
    rw [hdecode] at hwhole
    obtain ⟨a, rfl, hm⟩ := hok m hdecode
    apply leads_pure
    rintro arrivals outcome rest ⟨rfl, rfl⟩
    rw [hm]
    exact .done buf rest m hwhole

theorem acceptFrame_leads (fd : Option ℕ) (hsize : frameSize buf ≤ maxFrame)
    (htotal : frameHeaderSize + frameSize buf ≤ buf.length) :
    Leads text (.socket recvmsg) buf (acceptFrame text (frameHeaderSize + frameSize buf) buf fd)
      (returned Prod.fst) := by
  unfold acceptFrame
  by_cases hwhole : buf.length = frameHeaderSize + frameSize buf
  · rw [if_neg (not_not.mpr hwhole)]
    apply leads_decoded (received_whole hsize hwhole)
    · intro m hdecode
      rw [hdecode]
      exact ⟨(m, fd), rfl, rfl⟩
    · intro e hdecode inbox
      rw [hdecode]
      exact ⟨_, rfl, rfl⟩
  · rw [if_pos hwhole]
    exact leads_refused (received_beyond hsize (by omega)) fun inbox => ⟨_, rfl, rfl⟩

/-- After the first bytes `recvmsg` makes no difference to what is asked for. -/
theorem readFrame_leads (fd : Option ℕ) (hsome : buf ≠ []) :
    Leads text (.socket recvmsg) buf (readFrame text buf fd) (returned Prod.fst) := by
  apply leads_bind id
  · apply extendTo_leads
    intro bytes hbytes
    exact received_header hbytes fun _ hnil => hsome (List.append_eq_nil_iff.mp hnil).1
  intro inbox header after hheader
  obtain ⟨-, hlength⟩ := extendTo_ok hheader
  dsimp only [id]
  by_cases hbig : maxFrame < frameSize header
  · rw [if_pos hbig]
    exact leads_refused (received_tooLong hlength hbig) fun inbox => ⟨_, rfl, rfl⟩
  rw [if_neg hbig]
  apply leads_bind id
  · apply extendTo_leads
    intro bytes hbytes
    have hsame := frameSize_prefix (List.prefix_append header bytes) hlength
    rw [← hsame] at hbytes ⊢
    exact received_missing (by rw [List.length_append]; omega) (by omega) hbytes
  intro inbox filled after hfilled
  obtain ⟨hstart, htotal⟩ := extendTo_ok hfilled
  have hsame := frameSize_prefix hstart hlength
  dsimp only [id]
  rw [← hsame] at htotal ⊢
  exact acceptFrame_leads fd (by omega) htotal

theorem recvFrame_leads :
    Leads text (.socket false) [] (recvFrame text) (returned id) := by
  apply leads_bind id
  · apply recvLoop_leads
    intro bytes hbytes
    exact received_header hbytes nofun
  intro inbox header after hheader
  have hlength := recvExact_length hheader
  dsimp only [id]
  by_cases hbig : maxFrame < frameSize header
  · rw [if_pos hbig]
    exact leads_refused (received_tooLong (by omega) hbig) fun inbox => ⟨_, rfl, rfl⟩
  rw [if_neg hbig]
  have hsame := fun bytes => frameSize_prefix (List.prefix_append header bytes) (by omega)
  apply leads_bind (header ++ ·)
  · apply recvLoop_leads
    intro bytes hbytes
    rw [received_missing (by rw [List.length_append]; omega) (by rw [hsame]; omega)
      (by rw [hsame, List.length_append]; omega), hsame, List.length_append]
    congr 1
    omega
  intro inbox payload after hpayload
  apply leads_decoded
  · apply received_whole
    · rw [hsame]
      omega
    · rw [hsame, List.length_append, hlength, recvExact_length hpayload]
  · intro m hdecode
    rw [hdecode]
    exact ⟨m, rfl, rfl⟩
  · intro e hdecode inbox
    rw [hdecode]
    exact ⟨inbox, rfl, rfl⟩

theorem connRecv_leads (text : JsonText) (recvmsg : Bool) :
    Leads text (.socket recvmsg) [] (connRecv text (.socket recvmsg)) (returned Prod.fst) := by
  cases recvmsg with
  | false =>
    intro inbox
    obtain ⟨herror, hok⟩ := recvFrame_leads inbox
    constructor
    · intro e after hrun
      obtain hrun | ⟨message, next, -, hlast⟩ := bind_eq_error.mp hrun
      · exact herror e after hrun
      · cases hlast
    · intro a after hrun outcome rest hleft
      obtain ⟨message, next, hrun, hlast⟩ := bind_eq_ok.mp hrun
      cases hlast
      exact hok message after hrun outcome rest hleft
  | true =>
    intro inbox
    obtain ⟨arrivals, delivered, closed⟩ := inbox
    have hmore : received text (.socket true) [] = .more (64 * 1024) := rfl
    cases arrivals with
    | nil =>
      refine ⟨?_, nofun⟩
      intro e after hrun
      cases hrun
      exact .ended [] _ hmore
    | cons arrival later =>
    cases arrival with
    | failed message =>
      refine ⟨?_, nofun⟩
      intro e after hrun
      cases hrun
      exact .broken [] _ message later hmore
    | chunk c =>
      have hsome : c.bytes.take (64 * 1024) ≠ [] := nofun
      have hread : Leads text (.socket true) (c.bytes.take (64 * 1024))
          (readFrame text (c.bytes.take (64 * 1024)) c.rights.head?) (returned Prod.fst) :=
        readFrame_leads _ hsome
      obtain ⟨herror, hok⟩ := hread
        ⟨putBack (c.bytes.drop (64 * 1024)) later, delivered ++ c.rights, closed ++ c.rights.tail⟩
      rw [connRecv, recvFrameWithOptionalFd_first]
      constructor
      · intro e after hrun
        exact .more [] _ c later _ _ hmore (herror e after hrun)
      · intro a after hrun outcome rest hleft
        exact .more [] _ c later rest outcome hmore (hok a after hrun outcome rest hleft)

/-- What is asked for, and so what it comes to, depends on the bytes alone. -/
theorem follows_unique {transport : Transport} {arrivals rest rest' : List Arrival}
    {outcome outcome' : Except WireError Message}
    (h : Follows text transport buf arrivals outcome rest)
    (h' : Follows text transport buf arrivals outcome' rest') :
    outcome = outcome' ∧ rest = rest' := by
  induction h with
  | done buf arrivals message hdone =>
    cases h' with
    | done _ _ message' hdone' =>
      cases hdone.symm.trans hdone'
      exact ⟨rfl, rfl⟩
    | failed _ _ e hfailed => cases hdone.symm.trans hfailed
    | ended _ limit hmore => cases hdone.symm.trans hmore
    | broken _ limit message' later hmore => cases hdone.symm.trans hmore
    | more _ limit c later rest' outcome' hmore => cases hdone.symm.trans hmore
  | failed buf arrivals e hfailed =>
    cases h' with
    | done _ _ message hdone => cases hfailed.symm.trans hdone
    | failed _ _ e' hfailed' =>
      cases hfailed.symm.trans hfailed'
      exact ⟨rfl, rfl⟩
    | ended _ limit hmore => cases hfailed.symm.trans hmore
    | broken _ limit message later hmore => cases hfailed.symm.trans hmore
    | more _ limit c later rest' outcome' hmore => cases hfailed.symm.trans hmore
  | ended buf limit hmore =>
    cases h' with
    | done _ _ message hdone => cases hmore.symm.trans hdone
    | failed _ _ e hfailed => cases hmore.symm.trans hfailed
    | ended _ limit' hmore' => exact ⟨rfl, rfl⟩
  | broken buf limit message later hmore =>
    cases h' with
    | done _ _ message' hdone => cases hmore.symm.trans hdone
    | failed _ _ e hfailed => cases hmore.symm.trans hfailed
    | broken _ limit' _ _ hmore' => exact ⟨rfl, rfl⟩
  | more buf limit c later rest outcome hmore hrest ih =>
    cases h' with
    | done _ _ message hdone => cases hmore.symm.trans hdone
    | failed _ _ e hfailed => cases hmore.symm.trans hfailed
    | more _ limit' c' later' rest' outcome' hmore' hrest' =>
      cases hmore.symm.trans hmore'
      exact ih hrest'

/-- The receivers of a socket return what `received` comes to, after the reads that it asks for. -/
theorem connRecv_follows (text : JsonText) (recvmsg : Bool) (inbox : Inbox)
    (outcome : Except WireError Message) (rest : List Arrival) :
    Follows text (.socket recvmsg) [] inbox.arrivals outcome rest ↔
      match connRecv text (.socket recvmsg) inbox with
      | .ok (message, _) after => outcome = .ok message ∧ rest = after.arrivals
      | .error e after => outcome = .error e ∧ rest = after.arrivals := by
  obtain ⟨herror, hok⟩ := connRecv_leads text recvmsg inbox
  cases hrun : connRecv text (.socket recvmsg) inbox with
  | ok result after =>
    have hfollows := hok result after hrun _ _ ⟨rfl, rfl⟩
    constructor
    · intro h
      exact follows_unique h hfollows
    · rintro ⟨rfl, rfl⟩
      exact hfollows
  | error e after =>
    have hfollows := herror e after hrun
    constructor
    · intro h
      exact follows_unique h hfollows
    · rintro ⟨rfl, rfl⟩
      exact hfollows

end Frames
end Npb.Mstore
