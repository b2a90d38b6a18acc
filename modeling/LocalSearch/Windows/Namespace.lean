import LocalSearch.Windows.UsnHistory
import LocalSearch.Lib.Json

/-!
# Legal journal histories

What the records of a journal say about the namespace they were written for.
-/
namespace LocalSearch.Windows

set_option autoImplicit false

open Core Lib

/-- The file behind each name, and behind each rename between its two records. -/
abbrev Namespace := Slot → Option Nat

/-- The directory a place is in exists. -/
def Namespace.HasParent (ns : Namespace) (root : Nat) (place : Place) : Prop :=
  (ofLex place).1 = root ∨ ∃ p, ns (.named p) = some (ofLex place).1

/-- One record of a legal history and what it did to the namespace. The reasons of a
record are all those since its file was opened, so a record is written again with
more of them, or with the closing of the file, after what it tells was done. -/
inductive LegalRecord (root : Nat) : Namespace → SanitizedUsnRecord → Namespace → Prop
  | create {ns : Namespace} {record : SanitizedUsnRecord} (hname : record.hadInvalidUtf16 = false)
      (hreason : record.has reasonFileCreate = true)
      (hrename : record.has (reasonRenameOldName ||| reasonRenameNewName) = false)
      (hdelete : record.has reasonFileDelete = false) (hfree : ns (.named record.place) = none)
      (hnew : record.fileReference ≠ root ∧ ∀ slot, ns slot ≠ some record.fileReference)
      (hparent : ns.HasParent root record.place) :
      LegalRecord root ns record
        (Function.update ns (.named record.place) (some record.fileReference))
  | oldName {ns : Namespace} {record : SanitizedUsnRecord} (hname : record.hadInvalidUtf16 = false)
      (hreason : record.has reasonRenameOldName = true)
      (hentry : ns (.named record.place) = some record.fileReference)
      (hidle : ns (.moving record.fileReference) = none) :
      LegalRecord root ns record (Function.update (Function.update ns (.named record.place) none)
        (.moving record.fileReference) (some record.fileReference))
  | newName {ns : Namespace} {record : SanitizedUsnRecord} (hname : record.hadInvalidUtf16 = false)
      (hreason : record.has reasonRenameNewName = true)
      (hdelete : record.has (reasonFileDelete ||| reasonRenameOldName) = false)
      (hmoving : ns (.moving record.fileReference) = some record.fileReference)
      (hfree : ns (.named record.place) = none) (hparent : ns.HasParent root record.place) :
      LegalRecord root ns record (Function.update (Function.update ns (.moving record.fileReference) none)
        (.named record.place) (some record.fileReference))
  | delete {ns : Namespace} {record : SanitizedUsnRecord} (hname : record.hadInvalidUtf16 = false)
      (hreason : record.has reasonFileDelete = true)
      (hold : record.has reasonRenameOldName = false)
      (hentry : ns (.named record.place) = some record.fileReference)
      (honly : ∀ slot, ns slot = some record.fileReference → slot = .named record.place)
      (hempty : ∀ name, ns (.named (toLex (record.fileReference, name))) = none) :
      LegalRecord root ns record (Function.update ns (.named record.place) none)
  | link {ns : Namespace} {record : SanitizedUsnRecord} (hname : record.hadInvalidUtf16 = false)
      (hreason : record.has reasonHardLinkChange = true)
      (hother : record.has (reasonFileDelete ||| reasonRenameOldName ||| reasonRenameNewName) = false)
      (hfree : ns (.named record.place) = none)
      (hfile : ∃ p, ns (.named p) = some record.fileReference)
      (hparent : ns.HasParent root record.place) :
      LegalRecord root ns record
        (Function.update ns (.named record.place) (some record.fileReference))
  | unlink {ns : Namespace} {record : SanitizedUsnRecord} (hname : record.hadInvalidUtf16 = false)
      (hreason : record.has reasonHardLinkChange = true)
      (hother : record.has (reasonFileDelete ||| reasonRenameOldName ||| reasonRenameNewName) = false)
      (hentry : ns (.named record.place) = some record.fileReference)
      (hfile : ∃ p, p ≠ record.place ∧ ns (.named p) = some record.fileReference) :
      LegalRecord root ns record (Function.update ns (.named record.place) none)
  -- the data or the information of an entry changes, or its record is written again
  | report {ns : Namespace} {record : SanitizedUsnRecord} (hname : record.hadInvalidUtf16 = false)
      (hother : record.has (reasonFileDelete ||| reasonRenameOldName) = false)
      (hentry : ns (.named record.place) = some record.fileReference)
      (hidle : record.has reasonRenameNewName = true → ns (.moving record.fileReference) = none) :
      LegalRecord root ns record ns
  -- the record of a removed name is written again
  | unlinked {ns : Namespace} {record : SanitizedUsnRecord} (hname : record.hadInvalidUtf16 = false)
      (hreason : record.has reasonHardLinkChange = true)
      (hother : record.has (reasonFileDelete ||| reasonRenameOldName ||| reasonRenameNewName) = false)
      (hgone : ns (.named record.place) ≠ some record.fileReference)
      (hfile : ∃ p, ns (.named p) = some record.fileReference) :
      LegalRecord root ns record ns

inductive LegalHistory (root : Nat) (start : Namespace) : List SanitizedUsnRecord → Namespace → Prop
  | nil : LegalHistory root start [] start
  | snoc {history : List SanitizedUsnRecord} {ns ns' : Namespace} {record : SanitizedUsnRecord}
      (hhistory : LegalHistory root start history ns) (hrecord : LegalRecord root ns record ns') :
      LegalHistory root start (history ++ [record]) ns'

/-- The length of a name in UTF-16 units. -/
def utf16Units (name : String) : Nat :=
  (name.toList.map fun c => if c.toNat < 0x10000 then 1 else 2).sum

theorem utf16Units_le (name : String) : utf16Units name ≤ name.utf8ByteSize := by
  rw [utf16Units, utf8ByteSize_eq_sum]
  apply List.sum_le_sum
  intro c hc
  split_ifs with hsmall
  · exact c.utf8Size_pos
  · -- characters of two units take four bytes
    have hbig : 0xffff < c.val.toNat := by
      rw [Char.toNat] at hsmall
      omega
    have hle : ∀ bound : UInt32, bound.toNat ≤ 0xffff → ¬ c.val ≤ bound := by
      intro bound hbound hc
      rw [UInt32.le_iff_toNat_le] at hc
      omega
    rw [Char.utf8Size, if_neg (hle _ (by decide)), if_neg (hle _ (by decide)),
      if_neg (hle _ (by decide))]
    decide

end LocalSearch.Windows
