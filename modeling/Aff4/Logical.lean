import Aff4.Meta

/-!
# AFF4-Logical containers

An AFF4-L container is a collection of files.  Each captured file is a named ZIP
segment described by an `aff4:FileImage` node; there is no virtual disk.
-/

namespace Aff4

open Rust

/-- One logical file of a container. -/
structure LogicalEntry where
  /-- ZIP entry name that holds the file's content. -/
  segment : Text
  originalFileName : Text
  size : UInt64
  hashes : List StoredHash
  lastWritten : Option Text
  deriving DecidableEq, Repr

/-- A read-only AFF4-Logical container. -/
structure LogicalContainer where
  archive : ZipArchive
  files : List LogicalEntry

/-- The fully URL-encoded ARN form some imagers use as the ZIP entry name. -/
def urlencodeArn (arn : Text) : Text :=
  "aff4%3A%2F%2F".toList ++ (Str.stripPrefix arn "aff4://".toList).getD arn

/-- Path tail of an ARN: what follows the `aff4://<authority>` prefix, with its
leading slash. -/
def arnTail (arn : Text) : Text :=
  let afterScheme := (Str.stripPrefix arn "aff4://".toList).getD arn
  match Str.find afterScheme ['/'] with
  | some i => afterScheme.drop i
  | none => afterScheme

/-- `text.trim_start_matches('/')`. -/
def trimSlashes (text : Text) : Text := text.dropWhile (· == '/')

/-- Resolve a `FileImage` ARN to its ZIP segment entry name: an exact match with
one of three spellings, else the longest entry name that ends in the path
tail. -/
def resolveSegment (names : List Text) (arn : Text) : Option Text :=
  let tail := arnTail arn
  let candidates := [tail, trimSlashes tail, urlencodeArn arn]
  match candidates.find? fun candidate => names.contains candidate with
  | some candidate => some candidate
  | none =>
      maxByKey Str.len (names.filter fun name =>
        !(['/'].isSuffixOf name) && (trimSlashes tail).isSuffixOf name)

/-- The entry of one parsed file. -/
def resolveLogicalFile (names : List Text) (parsed : LogicalFileMeta) :
    Except Aff4Error LogicalEntry :=
  match resolveSegment names parsed.arn with
  | some segment =>
      .ok {
        segment
        originalFileName := parsed.originalFileName
        size := parsed.size
        hashes := parsed.hashes
        lastWritten := parsed.lastWritten }
  | none =>
      let arn := String.ofList parsed.arn
      .error (.badFormat s!"FileImage {arn} has no matching ZIP segment")

/-- Open an AFF4-L container from a byte source. -/
def LogicalContainer.openReader (crates : Crates) (backing : Bytes) :
    Except Aff4Error LogicalContainer := do
  let archive ← (crates.zipArchiveNew backing).mapError .zip
  let turtle ← archive.readEntryToString "information.turtle".toList
  let parsed ← parseLogicalFiles turtle
  if parsed = [] then
    throw (.badFormat
      "no aff4:FileImage entries found — not an AFF4-Logical container")
  let files ← parsed.mapM (resolveLogicalFile archive.fileNames)
  return { archive, files }

/-- Read a logical file's content from its ZIP segment. -/
def LogicalContainer.readFile
    (self : LogicalContainer) (entry : LogicalEntry) :
    Except Aff4Error Bytes :=
  self.archive.readEntry entry.segment

end Aff4
