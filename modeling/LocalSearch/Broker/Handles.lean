import LocalSearch.Broker.Remote

/-!
# Handles of the running scans

Whoever comes to the pipe of the broker, at most four scans run, and a handle that
was given out is not given out again before the counter has gone round.
-/
namespace LocalSearch.Broker

set_option autoImplicit false

open Core Lib Transport

/-- The handle of a scan that was started. -/
def BrokerPayload.scanHandle : BrokerPayload → Option Nat
  | .scanStarted scanId => some scanId
  | _ => none

def answerHandle (answer : ServiceAnswer) : Option Nat :=
  answer.2.toOption.bind BrokerPayload.scanHandle

theorem length_insert_of_get {t : Table Nat ScanState} {k : Nat} {r : ScanState} (h : t.get k = some r)
    (r' : ScanState) : (t.insert k r').rows.length = t.rows.length := by
  have hsum := Table.sum_insert h (fun _ => 1) r'
  have hones : ∀ rows : List (Nat × ScanState), (rows.map fun _ => 1).sum = rows.length := by
    intro rows
    rw [List.map_const', List.sum_replicate_nat, Nat.mul_one]
  rw [hones, hones] at hsum
  omega

/-- The operation starts the scan with the next handle. -/
structure Starts (service after : BrokerService) (handle : Option Nat) : Prop where
  handle : handle = some service.nextScanId
  next : after.nextScanId = (service.nextScanId + 1) % 2 ^ 64
  room : service.scans.rows.length < maxActiveScans
  scans : ∃ scan, after.scans = service.scans.insert service.nextScanId scan

/-- The operation starts no scan. -/
structure Keeps (service after : BrokerService) (handle : Option Nat) : Prop where
  handle : handle = none
  next : after.nextScanId = service.nextScanId
  active : after.scans.rows.length ≤ service.scans.rows.length
  known : ∀ id, (after.scans.get id).isSome → (service.scans.get id).isSome

theorem keeps_same (service : BrokerService) : Keeps service service none :=
  ⟨rfl, rfl, Nat.le_refl _, fun _ hid => hid⟩

theorem keeps_insert {service : BrokerService} {id : Nat} {scan : ScanState}
    (hscan : service.scans.get id = some scan) (scan' : ScanState) :
    Keeps service { service with scans := service.scans.insert id scan' } none where
  handle := rfl
  next := rfl
  active := Nat.le_of_eq (length_insert_of_get hscan scan')
  known := by
    intro other hother
    rw [Table.get_insert] at hother
    split at hother
    · next hsame =>
      rw [hsame, hscan]
      rfl
    · exact hother

theorem keeps_erase (service : BrokerService) (id : Nat) :
    Keeps service { service with scans := service.scans.erase id } none where
  handle := rfl
  next := rfl
  active := Table.length_erase_le _ _
  known := by
    intro other hother
    rw [Table.get_erase] at hother
    split at hother
    · cases hother
    · exact hother

theorem startScan_scans (service : BrokerService) (around : Surroundings) (volumeId : VolumeId) :
    Starts service (startScan service around volumeId).1
        (answerHandle (startScan service around volumeId)) ∨
      Keeps service (startScan service around volumeId).1
        (answerHandle (startScan service around volumeId)) := by
  unfold startScan
  split
  · exact Or.inr (keeps_same service)
  · split
    · exact Or.inr (keeps_same service)
    · split
      · exact Or.inr (keeps_same service)
      · split
        · exact Or.inr (keeps_same service)
        · next hroom => exact Or.inl ⟨rfl, rfl, by omega, _, rfl⟩

theorem readScanPage_scans (service : BrokerService) (turns : Nat → Nat) (scanId maximumEvents : Nat) :
    Keeps service (readScanPage service turns scanId maximumEvents).1
      (answerHandle (readScanPage service turns scanId maximumEvents)) := by
  unfold readScanPage
  split
  · exact keeps_same service
  · next scan hscan =>
    split
    next events terminal scan' hread =>
    split
    · exact keeps_insert hscan _
    · split
      · exact keeps_insert hscan _
      · split <;> exact keeps_erase service scanId

theorem dispatchOperation_scans (service : BrokerService) (around : Surroundings)
    (operation : BrokerOperation) :
    Starts service (dispatchOperation service around operation).1
        (answerHandle (dispatchOperation service around operation)) ∨
      Keeps service (dispatchOperation service around operation).1
        (answerHandle (dispatchOperation service around operation)) := by
  unfold dispatchOperation
  split
  · exact Or.inr (keeps_same service)
  · cases operation with
    | brokerGetCapabilities => exact Or.inr (keeps_same service)
    | discoverVolumes =>
      dsimp only
      split <;> exact Or.inr (keeps_same service)
    | startScan volumeId mode => exact startScan_scans service around volumeId
    | readScanPage scanId maximumEvents =>
      exact Or.inr (readScanPage_scans service around.turns scanId maximumEvents)
    | cancelScan scanId =>
      right
      dsimp only [cancelScan]
      split
      · exact keeps_same service
      · exact keeps_erase service scanId
    | readChanges checkpoint maximumEvents =>
      right
      dsimp only [readChanges]
      split <;> exact keeps_same service

def BrokerResponse.scanHandle (response : BrokerResponse) : Option Nat :=
  response.result.bind BrokerPayload.scanHandle

theorem dispatch_scans (service : BrokerService) (around : Surroundings) (request : BrokerRequest) :
    Starts service (dispatch service around request).1
        (dispatch service around request).2.scanHandle ∨
      Keeps service (dispatch service around request).1
        (dispatch service around request).2.scanHandle := by
  unfold dispatch
  dsimp only
  generalize (if request.requestId.utf8ByteSize ≤ maxBrokerRequestIdBytes then request.requestId
    else "") = requestId
  split
  · exact Or.inr (keeps_same service)
  · split
    · exact Or.inr (keeps_same service)
    · next window _ =>
      split
      · exact Or.inr ⟨rfl, rfl, Nat.le_refl _, fun _ hid => hid⟩
      · have hanswer := dispatchOperation_scans { service with replay := window } around
          request.operation
        split
        · next payload hresult =>
          simp only [answerHandle, hresult] at hanswer
          rcases hanswer with ⟨h₁, h₂, h₃, h₄⟩ | ⟨h₁, h₂, h₃, h₄⟩
          · exact Or.inl ⟨h₁, h₂, h₃, h₄⟩
          · exact Or.inr ⟨h₁, h₂, h₃, h₄⟩
        · next error hresult =>
          simp only [answerHandle, hresult] at hanswer
          rcases hanswer with ⟨h₁, h₂, h₃, h₄⟩ | ⟨h₁, h₂, h₃, h₄⟩
          · exact Or.inl ⟨h₁, h₂, h₃, h₄⟩
          · exact Or.inr ⟨h₁, h₂, h₃, h₄⟩

theorem answerFrame_scans (json : BrokerJson) (around : Surroundings) (service : BrokerService)
    (frame : List UInt8) :
    Starts service (answerFrame json around service frame).1
        (answerFrame json around service frame).2.scanHandle ∨
      Keeps service (answerFrame json around service frame).1
        (answerFrame json around service frame).2.scanHandle := by
  unfold answerFrame
  split
  · exact dispatch_scans service around _
  · exact Or.inr (keeps_same service)

variable {json : BrokerJson} {ι : Type} {program : ι → Program} {sid : ι → String}
  {authorizedLogonSid : String}

/-- The handle a call was answered with. -/
def repliedHandle (json : BrokerJson) (call : Call ι) : Option Nat :=
  match call.reply with
  | .error _ => none
  | .ok bytes =>
      match decodeFrame json.response bytes with
      | .error _ => none
      | .ok response => response.scanHandle

/-- The handles given out, in their order. -/
def scanHandles (json : BrokerJson) (calls : List (Call ι)) : List Nat :=
  calls.filterMap (repliedHandle json)

/-- A reply that gives out a handle gives out that of the response. -/
theorem repliedHandle_eq (hjson : json.response.Lawful) {around : Surroundings}
    {before after : BrokerService} {call : Call ι} {id : Nat}
    (hhandler : serveFrame json around before call.frame = (after, call.reply))
    (hid : repliedHandle json call = some id) :
    (answerFrame json around before call.frame).2.scanHandle = some id := by
  unfold repliedHandle at hid
  split at hid
  · cases hid
  · next bytes hreply =>
    rw [hreply] at hhandler
    rw [decodeFrame_encodeFrame hjson (serveFrame_reply hhandler)] at hid
    exact hid

theorem serves_active {calls : List (Call ι)} {service : BrokerService}
    (h : Serves (runBroker json program sid authorizedLogonSid) .new calls service) :
    service.scans.rows.length ≤ maxActiveScans := by
  induction h with
  | nil => exact Nat.zero_le _
  | @snoc calls before after call around _ hhandler ih =>
    obtain rfl : (answerFrame json around before call.frame).1 = after := congrArg Prod.fst hhandler
    rcases answerFrame_scans json around before call.frame with hstarts | hkeeps
    · obtain ⟨scan, hscans⟩ := hstarts.scans
      have hroom := hstarts.room
      have hlength := Table.length_insert_le before.scans before.nextScanId scan
      rw [hscans]
      omega
    · exact hkeeps.active.trans ih

/-- What is known of the handles while the counter has not gone round. -/
structure Minted (handles : List Nat) (count : Nat) (service : BrokerService) : Prop where
  counter : service.nextScanId ≤ count + 1
  older : ∀ id ∈ handles, id < service.nextScanId
  increasing : handles.Pairwise (· < ·)
  known : ∀ id, (service.scans.get id).isSome → id < service.nextScanId

theorem serves_minted (hjson : json.response.Lawful) {calls : List (Call ι)} {service : BrokerService}
    (h : Serves (runBroker json program sid authorizedLogonSid) .new calls service)
    (hshort : calls.length + 1 < 2 ^ 64) : Minted (scanHandles json calls) calls.length service := by
  induction h with
  | nil => exact ⟨Nat.le_refl _, by simp [scanHandles], List.Pairwise.nil, by simp [BrokerService.new]⟩
  | @snoc calls before after call around _ hhandler ih =>
    rw [List.length_append, List.length_singleton] at hshort ⊢
    obtain ⟨hcounter, holder, hincreasing, hknown⟩ := ih (by omega)
    have hreplied := fun id => @repliedHandle_eq _ _ hjson around before after call id hhandler
    obtain rfl : (answerFrame json around before call.frame).1 = after := congrArg Prod.fst hhandler
    have hhandles : scanHandles json (calls ++ [call]) =
        scanHandles json calls ++ (repliedHandle json call).toList := by
      unfold scanHandles
      rw [List.filterMap_append]
      cases hcall : repliedHandle json call <;> simp [hcall]
    rw [hhandles]
    rcases answerFrame_scans json around before call.frame with hstarts | hkeeps
    · have hnext : (answerFrame json around before call.frame).1.nextScanId =
          before.nextScanId + 1 := by
        rw [hstarts.next]
        exact Nat.mod_eq_of_lt (by omega)
      have hnew : ∀ id ∈ (repliedHandle json call).toList, id = before.nextScanId := by
        intro id hid
        have hsame := hreplied id (by simpa using hid)
        rw [hstarts.handle] at hsame
        exact (Option.some.inj hsame).symm
      refine ⟨by omega, ?_, ?_, ?_⟩
      · intro id hid
        rw [hnext]
        rcases List.mem_append.mp hid with hid | hid
        · exact Nat.lt_succ_of_lt (holder id hid)
        · rw [hnew id hid]
          exact Nat.lt_succ_self _
      · refine List.pairwise_append.mpr ⟨hincreasing, ?_, ?_⟩
        · cases repliedHandle json call <;> simp
        · intro a ha b hb
          rw [hnew b hb]
          exact holder a ha
      · intro id hid
        obtain ⟨scan, hscans⟩ := hstarts.scans
        rw [hnext]
        rw [hscans, Table.get_insert] at hid
        split at hid
        · next hsame => omega
        · exact Nat.lt_succ_of_lt (hknown id hid)
    · have hnone : (repliedHandle json call).toList = [] := by
        cases hcall : repliedHandle json call with
        | none => rfl
        | some id =>
          have hsame := hreplied id hcall
          rw [hkeeps.handle] at hsame
          cases hsame
      rw [hnone, List.append_nil]
      refine ⟨by rw [hkeeps.next]; omega, ?_, hincreasing, ?_⟩
      · rw [hkeeps.next]
        exact holder
      · intro id hid
        rw [hkeeps.next]
        exact hknown id (hkeeps.known id hid)

/-- Whatever the clients of the pipe do, at most four scans run, and as long as
fewer than 2^64 - 1 frames were answered every handle given out is larger than
those before it, so that it never names a scan of another client. -/
theorem scan_handles_fresh [DecidableEq ι] (hjson : json.response.Lawful) {s : Net BrokerService ι}
    (h : Reachable (runBroker json program sid authorizedLogonSid) .new s) :
    s.service.scans.rows.length ≤ maxActiveScans ∧
      (s.calls.length + 1 < 2 ^ 64 → (scanHandles json s.calls).Pairwise (· < ·) ∧
        ∀ id, (s.service.scans.get id).isSome → id < s.service.nextScanId) := by
  refine ⟨serves_active h.holds.sequential, fun hshort => ?_⟩
  have hminted := serves_minted hjson h.holds.sequential hshort
  exact ⟨hminted.increasing, hminted.known⟩

def scanRequest (sequence : Nat) : BrokerRequest :=
  clientRequest sequence (.startScan (.fromU128 1) .initial)

def scanRequestText (requestId : String) : List UInt8 :=
  asciiBytes "\x7b\"protocol_version\":1,\"codec_version\":1,\"request_id\":\"" ++ asciiBytes requestId ++
    asciiBytes "\",\"deadline_ms\":5000,\"method\":\"start_scan\",\"params\":\x7b\"volume_id\":\"volume:" ++
    asciiBytes "00000000000000000000000000000001\",\"mode\":\"initial\"\x7d\x7d"

def scanStartedText (requestId scanId : String) : List UInt8 :=
  asciiBytes "\x7b\"protocol_version\":1,\"request_id\":\"" ++ asciiBytes requestId ++
    asciiBytes "\",\"result\":\x7b\"type\":\"scan_started\",\"value\":\x7b\"scan_id\":" ++
    asciiBytes scanId ++ asciiBytes "\x7d\x7d\x7d"

/-- The JSON of two requests for a scan and of their answers. -/
def scanJson : BrokerJson where
  request := .ofPairs [(scanRequest 2, scanRequestText "broker-client-2"),
    (scanRequest 3, scanRequestText "broker-client-3")]
  response := .ofPairs
    [(.success "broker-client-2" (.scanStarted 1), scanStartedText "broker-client-2" "1"),
      (.success "broker-client-3" (.scanStarted 2), scanStartedText "broker-client-3" "2")]

theorem scanJson_lawful : scanJson.Lawful :=
  ⟨lawful_ofPairs (by decide +kernel), lawful_ofPairs (by decide +kernel)⟩

def scanFrame : Bool → List UInt8
  | false => frame prefixBytes (scanRequestText "broker-client-2")
  | true => frame prefixBytes (scanRequestText "broker-client-3")

def oneVolume : Surroundings :=
  { quiet with volumes := .ok [⟨.fromU128 1, none, [], none, false, true⟩] }

/-- The service once both scans are started. -/
def bothScanning : BrokerService :=
  (dispatch (dispatch .new oneVolume (scanRequest 2)).1 oneVolume (scanRequest 3)).1

theorem scanning_served : ∃ s, Reachable (twoClients scanJson scanFrame) .new s ∧
    s.service = bothScanning ∧ scanHandles scanJson s.calls = [1, 2] := by
  have hfirst : encodeFrame scanJson.response (dispatch .new oneVolume (scanRequest 2)).2 =
      .ok (frame prefixBytes (scanStartedText "broker-client-2" "1")) := by decide +kernel
  have hsecond : encodeFrame scanJson.response (dispatch (dispatch .new oneVolume (scanRequest 2)).1
      oneVolume (scanRequest 3)).2 =
        .ok (frame prefixBytes (scanStartedText "broker-client-3" "2")) := by decide +kernel
  have hencoded : ∀ c, encodeFrame scanJson.request (scanRequest (cond c 3 2)) = .ok (scanFrame c) := by
    decide +kernel
  obtain ⟨s, hreachable, hservice, hcalls⟩ := twoClients_served scanJson_lawful hencoded hfirst hsecond
  refine ⟨s, hreachable, hservice, ?_⟩
  rw [hcalls]
  simp only [scanHandles, List.filterMap_cons, List.filterMap_nil, repliedHandle,
    decodeFrame_encodeFrame scanJson_lawful.2 hfirst, decodeFrame_encodeFrame scanJson_lawful.2 hsecond]
  decide +kernel

/-- Two clients start a scan each. -/
theorem scan_handles_fresh_discoverer : ∃ s : Net BrokerService Bool,
    Reachable (twoClients scanJson scanFrame) .new s ∧ s.service = bothScanning ∧
    scanHandles scanJson s.calls = [1, 2] ∧ s.service.scans.rows.length ≤ maxActiveScans ∧
      (s.calls.length + 1 < 2 ^ 64 → (scanHandles scanJson s.calls).Pairwise (· < ·) ∧
        ∀ id, (s.service.scans.get id).isSome → id < s.service.nextScanId) := by
  obtain ⟨s, hreachable, hservice, hhandles⟩ := scanning_served
  exact ⟨s, hreachable, hservice, hhandles, scan_handles_fresh scanJson_lawful.2 hreachable⟩

end LocalSearch.Broker
