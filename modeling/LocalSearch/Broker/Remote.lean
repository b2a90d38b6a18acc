import LocalSearch.Broker.Client
import LocalSearch.Transport.Completion
import LocalSearch.Lib.Json

/-!
# The broker behind its pipe

The broker process answers the frames of its pipe one after another; the client
puts its request in a frame and takes the answer out of the frame it gets back.
Whoever else writes to the pipe, a client that gets an answer gets the one the
dispatcher gave to its request, and the replay window counts what was dispatched
over all of them.
-/
namespace LocalSearch.Broker

set_option autoImplicit false

open Core Lib Transport

/-- Whether `validate` accepts the union of the response. -/
def BrokerResponse.isValid (response : BrokerResponse) : Bool :=
  match response.result, response.error with
  | some _, none | none, some _ => true
  | _, _ => false

/-- The JSON of requests and responses. -/
structure BrokerJson where
  request : JsonBytes BrokerRequest
  response : JsonBytes BrokerResponse

def BrokerJson.Lawful (json : BrokerJson) : Prop := json.request.Lawful ∧ json.response.Lawful

variable (json : BrokerJson)

/-- The response to one frame. -/
def answerFrame (around : Surroundings) (service : BrokerService) (frame : List UInt8) :
    BrokerService × BrokerResponse :=
  match decodeFrame json.request frame with
  | .ok request => dispatch service around request
  | .error _ => (service, .failure "" .invalidRequest "broker frame rejected")

def serveFrame (around : Surroundings) (service : BrokerService) (frame : List UInt8) :
    BrokerService × Except WindowsPipeError (List UInt8) :=
  let (service, response) := answerFrame json around service frame
  (service, match encodeFrame json.response response with
    | .ok encoded => .ok encoded
    | .error _ => .error (.protocol "broker response encoding failed"))

/-- The pipe of the broker process and who comes to it. -/
def runBroker {ι : Type} (program : ι → Program) (sid : ι → String) (authorizedLogonSid : String) :
    Endpoint BrokerService Surroundings ι :=
  ⟨program, sid, authorizedLogonSid, serveFrame json⟩

inductive BrokerTransportError where
  | unavailable
  | deadlineExceeded
  | cancelled
  | incompatible
  deriving DecidableEq, Repr

def pipeError : WindowsPipeError → BrokerTransportError
  | .deadlineExceeded => .deadlineExceeded
  | .cancelled => .cancelled
  | .frame _ | .protocol _ => .incompatible
  | _ => .unavailable

def transportError (error : BrokerTransportError) : PlatformError :=
  let kind := match error with
    | .unavailable => PlatformErrorKind.unavailable
    | .deadlineExceeded => .resourceExhausted
    | .cancelled => .cancelled
    | .incompatible => .internal
  ⟨kind, "broker_transport", "broker transport failed"⟩

/-- What the transport makes of the end of its round trip. -/
def transportInvoke (result : Except WindowsPipeError (List UInt8)) :
    Except BrokerTransportError BrokerResponse :=
  match result with
  | .error error => .error (pipeError error)
  | .ok frame =>
      match decodeFrame json.response frame with
      | .error _ => .error .incompatible
      | .ok response => if response.isValid then .ok response else .error .incompatible

/-- What the provider makes of it. -/
def remoteResult (request : BrokerRequest) (result : Except WindowsPipeError (List UInt8)) :
    PlatformResult BrokerPayload :=
  match transportInvoke json result with
  | .error error => .error (transportError error)
  | .ok response => responseResult request response

/-- The identifier a response carries. -/
def BrokerRequest.correlation (request : BrokerRequest) : String :=
  if request.requestId.utf8ByteSize ≤ maxBrokerRequestIdBytes then request.requestId else ""

/-- What a dispatch can do: refuse the request, take it for a replay, or admit it
and answer it. -/
theorem dispatch_cases (service : BrokerService) (around : Surroundings) (request : BrokerRequest) :
    (∃ error, request.validate = .error error ∧
      dispatch service around request = (service, contractFailure request.correlation error)) ∨
    (request.validate = .ok () ∧ service.replay.admit request.requestId = none ∧
      dispatch service around request =
        (service, .failure request.correlation .replayRejected replayRejectedMessage)) ∨
    ∃ window after response, request.validate = .ok () ∧
      service.replay.admit request.requestId = some window ∧
      dispatch service around request = (after, response) ∧ after.replay = window ∧
      ((∃ payload, response = .success request.correlation payload) ∨
        ∃ code message, response = .failure request.correlation code message ∧
          code ≠ .replayRejected) := by
  cases hvalid : request.validate with
  | error error =>
    refine Or.inl ⟨error, rfl, ?_⟩
    simp only [dispatch, hvalid]
    rfl
  | ok =>
    right
    cases hwindow : service.replay.admit request.requestId with
    | none =>
      refine Or.inl ⟨rfl, rfl, ?_⟩
      simp only [dispatch, hvalid, hwindow]
      rfl
    | some window =>
      right
      by_cases hcancelled : around.cancelled = true
      · refine ⟨window, { service with replay := window }, _, rfl, rfl, ?_, rfl,
          Or.inr ⟨.cancelled, "broker request cancelled", rfl, by simp⟩⟩
        simp only [dispatch, hvalid, hwindow, if_pos hcancelled]
        rfl
      · have hkept := dispatchOperation_replay { service with replay := window } around
          request.operation
        cases hresult : (dispatchOperation { service with replay := window } around
            request.operation).2 with
        | ok payload =>
          refine ⟨window, _, _, rfl, rfl, ?_, hkept, Or.inl ⟨payload, rfl⟩⟩
          simp only [dispatch, hvalid, hwindow, if_neg hcancelled, hresult]
          rfl
        | error error =>
          refine ⟨window, _, _, rfl, rfl, ?_, hkept,
            Or.inr ⟨error.code, error.message, rfl, dispatchOperation_error hresult⟩⟩
          simp only [dispatch, hvalid, hwindow, if_neg hcancelled, hresult]
          rfl

/-- Every response is of the current version, names its request and has one arm. -/
theorem dispatch_response (service : BrokerService) (around : Surroundings) (request : BrokerRequest) :
    (dispatch service around request).2.protocolVersion = brokerProtocolVersion ∧
      (dispatch service around request).2.requestId = request.correlation ∧
      (dispatch service around request).2.isValid = true := by
  obtain ⟨error, -, hrun⟩ | ⟨-, -, hrun⟩ | ⟨window, after, response, -, -, hrun, -, hresponse⟩ :=
    dispatch_cases service around request
  · rw [hrun]
    exact ⟨rfl, rfl, rfl⟩
  · rw [hrun]
    exact ⟨rfl, rfl, rfl⟩
  · rw [hrun]
    obtain ⟨payload, rfl⟩ | ⟨code, message, rfl, -⟩ := hresponse
    · exact ⟨rfl, rfl, rfl⟩
    · exact ⟨rfl, rfl, rfl⟩

/-- A client that sent a bounded identifier finds nothing wrong with the response. -/
theorem responseResult_dispatch {service : BrokerService} {around : Surroundings}
    {request : BrokerRequest} (hid : request.requestId.utf8ByteSize ≤ maxBrokerRequestIdBytes)
    (detail : String) :
    responseResult request (dispatch service around request).2 ≠ .error (incompatible detail) := by
  obtain ⟨hversion, hrequest, hvalid⟩ := dispatch_response service around request
  rw [BrokerRequest.correlation, if_pos hid] at hrequest
  unfold responseResult
  rw [if_neg (by simp [hversion, hrequest])]
  cases hresult : (dispatch service around request).2.result with
  | some payload =>
    cases herror : (dispatch service around request).2.error with
    | some error => simp [BrokerResponse.isValid, hresult, herror] at hvalid
    | none => simp
  | none =>
    cases herror : (dispatch service around request).2.error with
    | some error => cases hcode : error.code <;> simp [wireError, incompatible, hcode]
    | none => simp [BrokerResponse.isValid, hresult, herror] at hvalid

theorem failure_replayRejected {id message : String} {code : BrokerErrorCode} :
    (BrokerResponse.failure id code message).ReplayRejected ↔ code = .replayRejected := by
  simp [BrokerResponse.ReplayRejected, BrokerResponse.failure]

/-- A valid request is answered as a replay when its identifier is not admitted. -/
theorem dispatch_replayRejected {service : BrokerService} {around : Surroundings}
    {request : BrokerRequest} (hvalid : request.validate = .ok ()) :
    (dispatch service around request).2.ReplayRejected ↔
      service.replay.admit request.requestId = none := by
  obtain ⟨error, herror, -⟩ | ⟨-, hnone, hrun⟩ |
    ⟨window, after, response, -, hwindow, hrun, -, hresponse⟩ := dispatch_cases service around request
  · rw [hvalid] at herror
    cases herror
  · rw [hrun]
    exact iff_of_true (failure_replayRejected.mpr rfl) hnone
  · rw [hrun, hwindow]
    refine iff_of_false ?_ (by simp)
    obtain ⟨payload, rfl⟩ | ⟨code, message, rfl, hcode⟩ := hresponse
    · simp [BrokerResponse.ReplayRejected, BrokerResponse.success]
    · exact fun h => hcode (failure_replayRejected.mp h)

variable {ι : Type}

/-- The identifiers of the valid requests among the calls, in their order. -/
def presentedIds (calls : List (Call ι)) : List String :=
  calls.filterMap fun call =>
    match decodeFrame json.request call.frame with
    | .ok request => if request.validate = .ok () then some request.requestId else none
    | .error _ => none

/-- The identifiers admitted so far. -/
def admittedIds (calls : List (Call ι)) : List String :=
  ((presentedIds json calls).foldl ReplayWindow.offer (.new replayWindowRequests, [])).2

variable {json} {program : ι → Program} {sid : ι → String} {authorizedLogonSid : String}

/-- One frame offers at most one identifier to the window. -/
theorem answerFrame_replay (around : Surroundings) (service : BrokerService) (call : Call ι)
    (admitted : List String) :
    (answerFrame json around service call.frame).1.replay =
      ((presentedIds json [call]).foldl ReplayWindow.offer (service.replay, admitted)).1 := by
  unfold answerFrame presentedIds
  rw [List.filterMap_cons, List.filterMap_nil]
  cases hrequest : decodeFrame json.request call.frame with
  | error error => rfl
  | ok request =>
    obtain ⟨error, herror, hrun⟩ | ⟨hvalid, hnone, hrun⟩ |
      ⟨window, after, response, hvalid, hwindow, hrun, hafter, -⟩ := dispatch_cases service around request
    · simp [hrun, herror]
    · simp [hrun, hvalid, ReplayWindow.offer, hnone]
    · simp [hrun, hvalid, ReplayWindow.offer, hwindow, hafter]

/-- The window of the service is the one that the presented identifiers leave. -/
theorem serves_replay {calls : List (Call ι)} {service : BrokerService}
    (h : Serves (runBroker json program sid authorizedLogonSid) .new calls service) :
    service.replay =
      ((presentedIds json calls).foldl ReplayWindow.offer (.new replayWindowRequests, [])).1 := by
  induction h with
  | nil => rfl
  | @snoc calls before after call around _ hhandler ih =>
    have hafter : (answerFrame json around before call.frame).1 = after :=
      congrArg Prod.fst hhandler
    rw [← hafter, answerFrame_replay around before call (admittedIds json calls), ih]
    unfold presentedIds admittedIds
    rw [List.filterMap_append, List.foldl_append]
    rfl

theorem holds_admittedIds (calls : List (Call ι)) :
    ((presentedIds json calls).foldl ReplayWindow.offer (.new replayWindowRequests, [])).1.Holds
      (admittedIds json calls) ∧
    ((presentedIds json calls).foldl ReplayWindow.offer (.new replayWindowRequests, [])).1.capacity =
      replayWindowRequests :=
  @ReplayWindow.holds_offers (.new replayWindowRequests, []) (ReplayWindow.holds_new _) (by decide) _

/-- Identifiers offered to a window are admitted apart from each other. -/
theorem spaced_offers {state : ReplayWindow × List String} (h : state.1.Holds state.2)
    (hcapacity : 0 < state.1.capacity) (hspaced : Spaced state.1.capacity state.2)
    (ids : List String) : Spaced state.1.capacity (ids.foldl ReplayWindow.offer state).2 := by
  induction ids generalizing state with
  | nil => exact hspaced
  | cons id rest ih =>
    obtain ⟨hnext, hkept⟩ := ReplayWindow.holds_offer h hcapacity id
    have hstep : Spaced state.1.capacity (ReplayWindow.offer state id).2 := by
      unfold ReplayWindow.offer
      split
      · exact hspaced
      · next window hwindow =>
        refine spaced_concat.mpr ⟨hspaced, fun hmem => ?_⟩
        rw [(ReplayWindow.admit_eq_none h).mpr hmem] at hwindow
        cases hwindow
    rw [← hkept] at hstep hcapacity ⊢
    exact ih hnext hcapacity hstep

/-- The handler's answer to a call, when it can be put in a frame. -/
theorem serveFrame_reply {around : Surroundings} {before after : BrokerService}
    {frame bytes : List UInt8} (h : serveFrame json around before frame = (after, .ok bytes)) :
    encodeFrame json.response (answerFrame json around before frame).2 = .ok bytes := by
  have hreply := congrArg Prod.snd h
  dsimp only [serveFrame] at hreply
  split at hreply
  · next encoded hencoded =>
    obtain rfl := Except.ok.inj hreply
    exact hencoded
  · cases hreply

theorem serveFrame_eq {around : Surroundings} {before : BrokerService} {frame bytes : List UInt8}
    (h : encodeFrame json.response (answerFrame json around before frame).2 = .ok bytes) :
    serveFrame json around before frame = ((answerFrame json around before frame).1, .ok bytes) := by
  unfold serveFrame
  dsimp only
  rw [h]

def asciiBytes (text : String) : List UInt8 := text.toList.map fun c => UInt8.ofNat c.toNat

def discoverRequest : BrokerRequest := clientRequest 2 .discoverVolumes

def discoverText : List UInt8 := asciiBytes (jsonObject
  [("protocol_version", jsonNat 1), ("codec_version", jsonNat 1),
    ("request_id", jsonString "broker-client-2"), ("deadline_ms", jsonNat 5000),
    ("method", jsonString "discover_volumes")])

def volumesText : List UInt8 := asciiBytes (jsonObject
  [("protocol_version", jsonNat 1), ("request_id", jsonString "broker-client-2"),
    ("result", jsonObject [("type", jsonString "volumes"), ("value", jsonArray [])])])

def replayText : List UInt8 := asciiBytes (jsonObject
  [("protocol_version", jsonNat 1), ("request_id", jsonString "broker-client-2"),
    ("error", jsonObject [("code", jsonString "replay_rejected"),
      ("message", jsonString replayRejectedMessage)])])

/-- The JSON of one request and its two answers. -/
def discoverJson : BrokerJson where
  request := .ofPairs [(discoverRequest, discoverText)]
  response := .ofPairs [(.success "broker-client-2" (.volumes []), volumesText),
    (.failure "broker-client-2" .replayRejected replayRejectedMessage, replayText)]

theorem discoverJson_lawful : discoverJson.Lawful :=
  ⟨lawful_ofPairs (by decide +kernel), lawful_ofPairs (by decide +kernel)⟩

def discoverFrame : List UInt8 := frame prefixBytes discoverText

theorem discoverFrame_encoded : encodeFrame discoverJson.request discoverRequest = .ok discoverFrame := by
  decide +kernel

/-- One client that discovers the volumes. -/
def discoverer : Endpoint BrokerService Surroundings Unit :=
  runBroker discoverJson
    (fun _ => .roundTrip "\\\\.\\pipe\\LocalSearch\\WinFS\\v1\\S-1-5-5-0-1" discoverFrame)
    (fun _ => "S-1-5-5-0-1") "S-1-5-5-0-1"

theorem discoverer_answers (before : BrokerService) : ∃ around after reply,
    serveFrame discoverJson around before discoverFrame = (after, .ok reply) ∧
      validateEncodedFrame reply = .ok () := by
  have hrequest : decodeFrame discoverJson.request discoverFrame = .ok discoverRequest :=
    decodeFrame_encodeFrame discoverJson_lawful.1 discoverFrame_encoded
  have hvalid : discoverRequest.validate = .ok () := by decide +kernel
  have hvolumes : encodeFrame discoverJson.response (.success "broker-client-2" (.volumes [])) =
      .ok (frame prefixBytes volumesText) := by decide +kernel
  have hreplay : encodeFrame discoverJson.response
      (.failure "broker-client-2" .replayRejected replayRejectedMessage) =
        .ok (frame prefixBytes replayText) := by decide +kernel
  have hanswer : answerFrame discoverJson quiet before discoverFrame =
      dispatch before quiet discoverRequest := by
    unfold answerFrame
    rw [hrequest]
  cases hwindow : before.replay.admit discoverRequest.requestId with
  | none =>
    have hdispatch : (dispatch before quiet discoverRequest).2 =
        .failure "broker-client-2" .replayRejected replayRejectedMessage := by
      simp only [dispatch, hvalid, hwindow]
      decide +kernel
    rw [← hdispatch, ← hanswer] at hreplay
    exact ⟨quiet, _, _, serveFrame_eq hreplay, by decide +kernel⟩
  | some window =>
    have hdispatch : (dispatch before quiet discoverRequest).2 =
        .success "broker-client-2" (.volumes []) := by
      simp only [dispatch, hvalid, hwindow]
      rfl
    rw [← hdispatch, ← hanswer] at hvolumes
    exact ⟨quiet, _, _, serveFrame_eq hvolumes, by decide +kernel⟩

theorem discoverer_finished : ∃ s, Reachable discoverer .new s ∧ Finished () discoverFrame s :=
  exists_finished rfl (by decide +kernel) (by decide +kernel) rfl discoverer_answers

/-- Two clients of the session that come with a frame each. -/
def twoClients (json : BrokerJson) (encoded : Bool → List UInt8) :
    Endpoint BrokerService Surroundings Bool :=
  runBroker json
    (fun c => .roundTrip "\\\\.\\pipe\\LocalSearch\\WinFS\\v1\\S-1-5-5-0-1" (encoded c))
    (fun _ => "S-1-5-5-0-1") "S-1-5-5-0-1"

theorem serveFrame_dispatch {json : BrokerJson} (hjson : json.request.Lawful) {request : BrokerRequest}
    {encoded reply : List UInt8} {around : Surroundings} {before : BrokerService}
    (hencoded : encodeFrame json.request request = .ok encoded)
    (hreply : encodeFrame json.response (dispatch before around request).2 = .ok reply) :
    serveFrame json around before encoded = ((dispatch before around request).1, .ok reply) := by
  have hanswer : answerFrame json around before encoded = dispatch before around request := by
    unfold answerFrame
    rw [decodeFrame_encodeFrame hjson hencoded]
  rw [← hanswer] at hreply ⊢
  exact serveFrame_eq hreply

/-- One is served after the other. -/
theorem twoClients_served {json : BrokerJson} (hjson : json.Lawful) {request : Bool → BrokerRequest}
    {encoded : Bool → List UInt8} (hencoded : ∀ c, encodeFrame json.request (request c) = .ok (encoded c))
    {around : Surroundings} {first second : List UInt8}
    (hfirst : encodeFrame json.response (dispatch .new around (request false)).2 = .ok first)
    (hsecond : encodeFrame json.response (dispatch (dispatch .new around (request false)).1 around
      (request true)).2 = .ok second) :
    ∃ s, Reachable (twoClients json encoded) .new s ∧
      s.service = (dispatch (dispatch .new around (request false)).1 around (request true)).1 ∧
      s.calls = [⟨false, encoded false, .ok first⟩, ⟨true, encoded true, .ok second⟩] := by
  have hname : validatePipeName "\\\\.\\pipe\\LocalSearch\\WinFS\\v1\\S-1-5-5-0-1" = .ok () := by
    decide +kernel
  have hframed : ∀ c, validateEncodedFrame (encoded c) = .ok () := fun c =>
    validateEncodedFrame_eq_ok.mpr (encodeFrame_framed (hencoded c))
  have hone := (Reachable.initial : Reachable (twoClients json encoded) .new _).answers rfl rfl rfl rfl
    hname (hframed false) rfl (serveFrame_dispatch hjson.1 (hencoded false) hfirst)
    (validateEncodedFrame_eq_ok.mpr (encodeFrame_framed hfirst))
  have htwo := hone.answers rfl rfl (Function.update_of_ne (by decide) _ _) rfl hname (hframed true) rfl
    (serveFrame_dispatch hjson.1 (hencoded true) hsecond)
    (validateEncodedFrame_eq_ok.mpr (encodeFrame_framed hsecond))
  exact ⟨_, htwo, rfl, rfl⟩

section Runs

variable [DecidableEq ι] {s : Net BrokerService ι}

/-- Whatever the clients send, a valid request is taken for a replay exactly when
its identifier is among the last 4096 admitted ones of all clients together, and
these admitted ones never repeat within 4096. -/
theorem remote_replay_exact (hjson : json.response.Lawful)
    (h : Reachable (runBroker json program sid authorizedLogonSid) .new s)
    {earlier later : List (Call ι)} {call : Call ι} (hcalls : s.calls = earlier ++ call :: later)
    {request : BrokerRequest} (hrequest : decodeFrame json.request call.frame = .ok request)
    (hvalid : request.validate = .ok ()) {bytes : List UInt8} (hreply : call.reply = .ok bytes) :
    (∃ response, decodeFrame json.response bytes = .ok response ∧
      (response.ReplayRejected ↔
        request.requestId ∈ (admittedIds json earlier).rtake replayWindowRequests)) ∧
      Spaced replayWindowRequests (admittedIds json s.calls) := by
  have hserves := h.holds.sequential
  rw [hcalls] at hserves
  obtain ⟨before, around, after, hbefore, hhandler⟩ := hserves.split
  rw [hreply] at hhandler
  have hencoded := serveFrame_reply hhandler
  have hanswer : answerFrame json around before call.frame = dispatch before around request := by
    unfold answerFrame
    rw [hrequest]
  rw [hanswer] at hencoded
  refine ⟨⟨_, decodeFrame_encodeFrame hjson hencoded, ?_⟩, ?_⟩
  · obtain ⟨hholds, hcapacity⟩ := @holds_admittedIds json _ earlier
    rw [dispatch_replayRejected hvalid, serves_replay hbefore, ReplayWindow.admit_eq_none hholds,
      hcapacity]
  · exact @spaced_offers (.new replayWindowRequests, []) (ReplayWindow.holds_new _) (by decide)
      (spaced_nil _) _

/-- Two clients come with one identifier, and the second is taken for a replay. -/
theorem remote_replay_exact_discoverer : ∃ (s : Net BrokerService Bool) (earlier : List (Call Bool)),
    Reachable (twoClients discoverJson fun _ => discoverFrame) .new s ∧
    s.calls = earlier ++ ⟨true, discoverFrame, .ok (frame prefixBytes replayText)⟩ :: [] ∧
    discoverRequest.requestId ∈ (admittedIds discoverJson earlier).rtake replayWindowRequests ∧
    (∃ response, decodeFrame discoverJson.response (frame prefixBytes replayText) = .ok response ∧
      (response.ReplayRejected ↔ discoverRequest.requestId ∈
        (admittedIds discoverJson earlier).rtake replayWindowRequests)) ∧
      Spaced replayWindowRequests (admittedIds discoverJson s.calls) := by
  have hfirst : encodeFrame discoverJson.response (dispatch .new quiet discoverRequest).2 =
      .ok (frame prefixBytes volumesText) := by decide +kernel
  have hsecond : encodeFrame discoverJson.response (dispatch (dispatch .new quiet discoverRequest).1 quiet
      discoverRequest).2 = .ok (frame prefixBytes replayText) := by decide +kernel
  obtain ⟨s, hreachable, -, hcalls⟩ := @twoClients_served discoverJson discoverJson_lawful
    (fun _ => discoverRequest) (fun _ => discoverFrame) (fun _ => discoverFrame_encoded) quiet _ _ hfirst
    hsecond
  have hsplit : s.calls = [⟨false, discoverFrame, .ok (frame prefixBytes volumesText)⟩] ++
      ⟨true, discoverFrame, .ok (frame prefixBytes replayText)⟩ :: [] := hcalls
  have hrequest := decodeFrame_encodeFrame discoverJson_lawful.1 discoverFrame_encoded
  exact ⟨s, _, hreachable, hsplit, by decide +kernel,
    remote_replay_exact discoverJson_lawful.2 hreachable hsplit hrequest (by decide +kernel) rfl⟩

/-- A client of the broker that gets a frame back gets the answer the dispatcher
gave to its own request, after the calls before it, and finds nothing wrong with
it. -/
theorem remote_result_dispatched (hjson : json.Lawful)
    (h : Reachable (runBroker json program sid authorizedLogonSid) .new s) {c : ι}
    {request : BrokerRequest} {pipeName : String} {encoded frame : List UInt8}
    (hencoded : encodeFrame json.request request = .ok encoded)
    (hprogram : program c = .roundTrip pipeName encoded)
    (hid : request.requestId.utf8ByteSize ≤ maxBrokerRequestIdBytes)
    (hc : s.clients c = .returned (.ok frame)) :
    (∃ earlier later before around,
      s.calls = earlier ++ ⟨c, encoded, .ok frame⟩ :: later ∧
      Serves (runBroker json program sid authorizedLogonSid) .new earlier before ∧
      remoteResult json request (.ok frame) =
        responseResult request (dispatch before around request).2) ∧
      ∀ detail, remoteResult json request (.ok frame) ≠ .error (incompatible detail) := by
  have hholds := h.holds
  obtain ⟨name, bytes, hsame, hcall⟩ := hholds.results c frame (Or.inr hc)
  have hprogram' : program c = .roundTrip name bytes := hsame
  rw [hprogram] at hprogram'
  cases hprogram'
  obtain ⟨earlier, later, hcalls⟩ := List.append_of_mem hcall
  have hserves := hholds.sequential
  rw [hcalls] at hserves
  obtain ⟨before, around, after, hbefore, hhandler⟩ := hserves.split
  have hreply := serveFrame_reply hhandler
  have hanswer : answerFrame json around before encoded = dispatch before around request := by
    unfold answerFrame
    rw [decodeFrame_encodeFrame hjson.1 hencoded]
  rw [hanswer] at hreply
  have hresult : remoteResult json request (.ok frame) =
      responseResult request (dispatch before around request).2 := by
    have hinvoke : transportInvoke json (.ok frame) = .ok (dispatch before around request).2 := by
      unfold transportInvoke
      dsimp only
      rw [decodeFrame_encodeFrame hjson.2 hreply]
      dsimp only
      rw [if_pos (dispatch_response before around request).2.2]
    unfold remoteResult
    rw [hinvoke]
  refine ⟨⟨earlier, later, before, around, hcalls, hbefore, hresult⟩, fun detail => ?_⟩
  rw [hresult]
  exact responseResult_dispatch hid detail

theorem remote_result_dispatched_discoverer : ∃ (s : Net BrokerService Unit) (frame : List UInt8),
    Reachable discoverer .new s ∧ s.clients () = .returned (.ok frame) ∧
    (∃ earlier later before around,
      s.calls = earlier ++ ⟨(), discoverFrame, .ok frame⟩ :: later ∧
      Serves discoverer .new earlier before ∧
      remoteResult discoverJson discoverRequest (.ok frame) =
        responseResult discoverRequest (dispatch before around discoverRequest).2) ∧
      ∀ detail, remoteResult discoverJson discoverRequest (.ok frame) ≠
        .error (incompatible detail) := by
  obtain ⟨s, hreachable, -, frame, hreturned, -⟩ := discoverer_finished
  exact ⟨s, frame, hreachable, hreturned, remote_result_dispatched discoverJson_lawful hreachable
    discoverFrame_encoded rfl (by decide +kernel) hreturned⟩

end Runs

end LocalSearch.Broker
