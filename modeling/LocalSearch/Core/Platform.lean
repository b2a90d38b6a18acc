import LocalSearch.Core.Models

/-!
# The platform boundary

Errors, capabilities and results that a filesystem adapter hands to the rest of
the system.
-/
namespace LocalSearch.Core

set_option autoImplicit false

inductive PlatformErrorKind where
  | permissionDenied
  | unsupported
  | unavailable
  | invalidCheckpoint
  | sourceHistoryGap
  | resourceExhausted
  | cancelled
  | io
  | internal
  deriving DecidableEq, Repr

structure PlatformError where
  kind : PlatformErrorKind
  operation : String
  detail : String
  deriving DecidableEq, Repr

abbrev PlatformResult (α : Type) := Except PlatformError α

inductive PlatformFamily where
  | windows
  | macOs
  | linux
  deriving DecidableEq, Repr

inductive InitialScanMode where
  | fastMetadataEnumeration
  | filesystemCrawl
  deriving DecidableEq, Repr

inductive ChangeTrackingMode where
  | snapshotOnly
  | persistentObjectJournal
  | persistentPathStream
  | ephemeralWatchers
  deriving DecidableEq, Repr

inductive PrivilegeModel where
  | optionalBroker
  | userConsent
  | currentUser
  deriving DecidableEq, Repr

structure PlatformCapabilities where
  platform : PlatformFamily
  initialScan : InitialScanMode
  changeTracking : ChangeTrackingMode
  privilegeModel : PrivilegeModel
  stableObjectIds : Bool
  hardLinks : Bool
  persistentHistory : Bool
  deriving DecidableEq, Repr

/-- Result of a completed initial scan or reconciliation. -/
structure ScanSummary where
  checkpoint : ProviderCheckpoint
  emittedEvents : Nat
  deriving DecidableEq, Repr

/-- Result of one bounded incremental read. -/
structure ChangeBatch where
  checkpoint : ProviderCheckpoint
  emittedEvents : Nat
  hasMore : Bool
  deriving DecidableEq, Repr

end LocalSearch.Core
