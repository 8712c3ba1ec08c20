/-
  The compression that the ending of a file name asks for.

  A name that ends in `.gz` or `.zip` names an archive; without that ending it names the file that
  goes into the archive.  Endings are compared letter by letter, so `.GZ` asks for nothing.
-/

namespace LogRotation

/-- The kinds of compression. -/
inductive Compression
  | none
  | gzip
  | zip
  deriving DecidableEq, Repr

namespace Compression

/-- A name of a kind in answers and reports. -/
def name : Compression → String
  | none => "none"
  | gzip => "gzip"
  | zip => "zip"

/-- The ending of the file names of a kind. -/
def suffix : Compression → String
  | none => ""
  | gzip => ".gz"
  | zip => ".zip"

/-- Holds when a text ends in another. -/
def endsIn (ending text : String) : Bool := ending.toList.isSuffixOf text.toList

/-- The kind that a file name asks for. -/
def detect (fileName : String) : Compression :=
  if endsIn gzip.suffix fileName then gzip
  else if endsIn zip.suffix fileName then zip
  else none

/-- Takes the ending of a kind off a file name; a name without that ending stays as it is. -/
def strip (kind : Compression) (fileName : String) : String :=
  if endsIn kind.suffix fileName then
    String.ofList (fileName.toList.take (fileName.toList.length - kind.suffix.toList.length))
  else fileName

/-- Holds of the kinds that compress. -/
def isCompressed (kind : Compression) : Bool := kind != none

theorem strip_append_suffix (kind : Compression) (fileName : String)
    (h : endsIn kind.suffix fileName = true) : kind.strip fileName ++ kind.suffix = fileName := by
  obtain ⟨t, ht⟩ := List.isSuffixOf_iff_suffix.mp h
  have hs : kind.strip fileName = String.ofList t := by
    rw [strip, if_pos h, ← ht]
    simp
  rw [hs, ← String.toList_inj, String.toList_append, String.toList_ofList, ht]

example : detect "a.zip.gz" = gzip := by decide
example : zip.strip "a.zip.gz" = "a.zip.gz" := by decide
example : gzip.strip "a.zip.gz" = "a.zip" := by decide

end Compression

end LogRotation
