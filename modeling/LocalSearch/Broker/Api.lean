import LocalSearch.Core.Platform

/-!
# The broker wire contract

Requests, their bounds and the response union of the elevated metadata broker.
-/
namespace LocalSearch.Broker

set_option autoImplicit false

open Core

def brokerProtocolVersion : Nat := 1
def brokerCodecVersion : Nat := 1
def maxBrokerFrameBytes : Nat := 1048576
def maxBrokerPageEvents : Nat := 256
def maxBrokerRequestIdBytes : Nat := 64
def maxBrokerDeadlineMs : Nat := 30000

inductive ScanMode where
  | initial
  | reconcile
  deriving DecidableEq, Repr

/-- The metadata operations; no path or content operation exists. -/
inductive BrokerOperation where
  | brokerGetCapabilities
  | discoverVolumes
  | startScan (volumeId : VolumeId) (mode : ScanMode)
  | readScanPage (scanId maximumEvents : Nat)
  | cancelScan (scanId : Nat)
  | readChanges (checkpoint : ProviderCheckpoint) (maximumEvents : Nat)
  deriving DecidableEq, Repr

structure BrokerRequest where
  protocolVersion : Nat
  codecVersion : Nat
  requestId : String
  deadlineMs : Nat
  operation : BrokerOperation
  deriving DecidableEq, Repr

/-- The contract failures a decoded request can meet. -/
inductive BrokerContractError where
  | unsupportedProtocolVersion
  | unsupportedCodecVersion
  | invalidRequest (detail : String)
  deriving DecidableEq, Repr

/-- The bounds on the parameters of an operation. -/
def BrokerOperation.validate : BrokerOperation → Except BrokerContractError Unit
  | .readScanPage _ maximumEvents =>
      if maximumEvents = 0 ∨ maxBrokerPageEvents < maximumEvents then
        .error (.invalidRequest "event page exceeds policy")
      else .ok ()
  | .readChanges checkpoint maximumEvents =>
      if maximumEvents = 0 ∨ maxBrokerPageEvents < maximumEvents then
        .error (.invalidRequest "event page exceeds policy")
      else if 65536 < checkpoint.opaqueBytes.length ∨ 64 < checkpoint.providerId.utf8ByteSize ∨
          checkpoint.providerId = "" then
        .error (.invalidRequest "provider checkpoint exceeds policy")
      else .ok ()
  | _ => .ok ()

def BrokerRequest.validate (request : BrokerRequest) : Except BrokerContractError Unit :=
  if request.protocolVersion ≠ brokerProtocolVersion then .error .unsupportedProtocolVersion
  else if request.codecVersion ≠ brokerCodecVersion then .error .unsupportedCodecVersion
  else if request.requestId = "" ∨ maxBrokerRequestIdBytes < request.requestId.utf8ByteSize then
    .error (.invalidRequest "request_id is not bounded")
  else if maxBrokerDeadlineMs < request.deadlineMs then
    .error (.invalidRequest "deadline exceeds policy")
  else request.operation.validate

inductive BrokerOperationName where
  | brokerGetCapabilities
  | discoverVolumes
  | startScan
  | readScanPage
  | cancelScan
  | readChanges
  deriving DecidableEq, Repr

structure BrokerCapabilities where
  protocolVersions : List Nat
  codecVersions : List Nat
  allowedOperations : List BrokerOperationName
  maximumFrameBytes : Nat
  maximumPageEvents : Nat
  maximumActiveScans : Nat
  provider : PlatformCapabilities
  deriving DecidableEq, Repr

/-- Pull response from a background full enumeration. -/
structure ScanPage where
  events : List FilesystemEvent
  checkpoint : Option ProviderCheckpoint
  complete : Bool
  hasMore : Bool
  deriving DecidableEq, Repr

inductive BrokerPayload where
  | capabilities (value : BrokerCapabilities)
  | volumes (value : List VolumeDescriptor)
  | scanStarted (scanId : Nat)
  | scanPage (page : ScanPage)
  | changes (events : List FilesystemEvent) (batch : ChangeBatch)
  | scanCancelled (scanId : Nat)
  deriving DecidableEq, Repr

inductive BrokerErrorCode where
  | invalidRequest
  | unsupportedProtocolVersion
  | unsupportedCodecVersion
  | replayRejected
  | notFound
  | permissionDenied
  | unsupported
  | unavailable
  | sourceHistoryGap
  | resourceExhausted
  | deadlineExceeded
  | cancelled
  | internal
  deriving DecidableEq, Repr

structure BrokerWireError where
  code : BrokerErrorCode
  message : String
  deriving DecidableEq, Repr

structure BrokerResponse where
  protocolVersion : Nat
  requestId : String
  result : Option BrokerPayload
  error : Option BrokerWireError
  deriving DecidableEq, Repr

def BrokerResponse.success (requestId : String) (payload : BrokerPayload) : BrokerResponse :=
  ⟨brokerProtocolVersion, requestId, some payload, none⟩

def BrokerResponse.failure (requestId : String) (code : BrokerErrorCode) (message : String) :
    BrokerResponse :=
  ⟨brokerProtocolVersion, requestId, none, some ⟨code, message⟩⟩

end LocalSearch.Broker
