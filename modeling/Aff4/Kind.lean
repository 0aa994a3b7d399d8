import Aff4.Archive
import Aff4.Meta

/-!
# The kind of a container

`container_kind` classifies a container by its metadata alone.  An encrypted
stream is recognised by a marker in the text; this file shows that the marker is
neither hidden nor created by the way the parsers cut the text into nodes, so
that ciphertext is never opened as plaintext.
-/

namespace Aff4

open Rust

/-- The kind of an AFF4 container. -/
inductive ContainerKind
  | disk
  | logical
  | encrypted
  deriving DecidableEq, Repr

/-- The text of `information.turtle`. -/
def informationTurtle (crates : Crates) (backing : Bytes) :
    Except Aff4Error Text := do
  let archive ← (crates.zipArchiveNew backing).mapError .zip
  archive.readEntryToString "information.turtle".toList

/-- Classify an AFF4 container by reading its `information.turtle` once. -/
def containerKind (crates : Crates) (backing : Bytes) :
    Except Aff4Error ContainerKind := do
  let turtle ← informationTurtle crates backing
  let files ← parseLogicalFiles turtle
  if files ≠ [] then
    return .logical
  match parseTurtle turtle with
  | .ok _ => return .disk
  | .error (.encrypted _) => return .encrypted
  | .error error => throw error

/-! ## The marker of an encrypted stream -/

/-- What every encrypted stream is declared with. -/
def encryptedMarker : Text := "aff4:EncryptedStream".toList

/-- A node with the marker is found exactly when the text holds the marker. -/
theorem find_encrypted_block_iff (turtle : Text) :
    (∃ block, (turtleBlocks turtle).find?
      (Str.contains · "aff4:EncryptedStream".toList) = some block) ↔
      encryptedMarker <:+: turtle := by
  have kept : ∀ c ∈ encryptedMarker,
      (if c = '\n' ∨ c = '\r' ∨ c = '\t' ∨ c = ';' then ' ' else c) = c := by
    intro c member
    apply if_neg
    rintro (rfl | rfl | rfl | rfl)
    all_goals exact absurd member (by decide)
  have noSpace : ' ' ∉ encryptedMarker := by decide
  have created (c : Char)
      (member : (if c = '\n' ∨ c = '\r' ∨ c = '\t' ∨ c = ';' then ' ' else c) ∈
        encryptedMarker) :
      (if c = '\n' ∨ c = '\r' ∨ c = '\t' ∨ c = ';' then ' ' else c) = c := by
    split at member
    · exact absurd member noSpace
    · next plain => exact if_neg plain
  have foreign : ∀ c ∈ " . ".toList, c ∉ encryptedMarker := by
    rw [show " . ".toList = [' ', '.', ' '] from rfl, List.forall_mem_cons,
      List.forall_mem_cons, List.forall_mem_singleton]
    exact ⟨noSpace, by decide, noSpace⟩
  rw [← Option.isSome_iff_exists, List.find?_isSome,
    ← Str.infix_map_iff kept created turtle,
    ← Str.exists_mem_split_infix_iff (by decide) (by decide) foreign]
  exact exists_congr fun block => and_congr_right fun _ => Str.contains_iff

theorem extractPredU64_ne_encrypted {block predicate : Text} {message : String} :
    extractPredU64 block predicate ≠ .error (.encrypted message) := by
  unfold extractPredU64 parsePredU64
  dsimp only
  repeat' split
  all_goals simp

theorem parseImageStreamBlock_ne_encrypted
    {block : Text} {mapOverride : Option (MapMeta × UInt64)}
    {message : String} :
    parseImageStreamBlock block mapOverride ≠ .error (.encrypted message) := by
  intro refused
  simp only [parseImageStreamBlock, bind, Except.bind, pure, Except.pure, throw,
    throwThe, MonadExceptOf.throw] at refused
  repeat' split at refused
  all_goals cases refused
  all_goals exact extractPredU64_ne_encrypted ‹_›

theorem parseMapTurtle_ne_encrypted
    {blocks : List Text} {mapBlock : Text} {message : String} :
    parseMapTurtle blocks mapBlock ≠ .error (.encrypted message) := by
  intro refused
  simp only [parseMapTurtle, bind, Except.bind, throw, throwThe,
    MonadExceptOf.throw] at refused
  repeat' split at refused
  all_goals first
    | exact parseImageStreamBlock_ne_encrypted refused
    | cases refused
  exact extractPredU64_ne_encrypted ‹_›

/-- A text is refused as encrypted exactly when it holds the marker. -/
theorem parseTurtle_encrypted_iff (turtle : Text) :
    (∃ message, parseTurtle turtle = .error (.encrypted message)) ↔
      encryptedMarker <:+: turtle := by
  rw [← find_encrypted_block_iff]
  cases found : (turtleBlocks turtle).find?
    (Str.contains · "aff4:EncryptedStream".toList) with
  | some block =>
      refine iff_of_true ?_ ⟨block, rfl⟩
      simp only [parseTurtle, found]
      exact ⟨_, rfl⟩
  | none =>
      refine iff_of_false ?_ (by rintro ⟨block, impossible⟩; cases impossible)
      rintro ⟨message, refused⟩
      simp only [parseTurtle, found, throw, throwThe, MonadExceptOf.throw]
        at refused
      split at refused
      · exact parseMapTurtle_ne_encrypted refused
      · split at refused
        · exact parseImageStreamBlock_ne_encrypted refused
        · cases refused

/-- Encrypted metadata is only parsed from a text that holds the marker. -/
theorem marker_of_parseEncryptedMeta
    {platform : Platform} {turtle : Text} {metadata : EncryptedMeta}
    (parsed : parseEncryptedMeta platform turtle = .ok metadata) :
    encryptedMarker <:+: turtle := by
  rw [← find_encrypted_block_iff]
  cases found : (turtleBlocks turtle).find?
    (Str.contains · "aff4:EncryptedStream".toList) with
  | some block => exact ⟨block, rfl⟩
  | none =>
      simp only [parseEncryptedMeta, found] at parsed
      cases parsed

/-- No text is both a disk image and a decryptable stream. -/
theorem not_parsed_both (platform : Platform) (turtle : Text) :
    ¬((∃ image, parseTurtle turtle = .ok image) ∧
      ∃ stream, parseEncryptedMeta platform turtle = .ok stream) := by
  rintro ⟨⟨image, opened⟩, stream, parsed⟩
  obtain ⟨message, refused⟩ :=
    (parseTurtle_encrypted_iff turtle).mpr (marker_of_parseEncryptedMeta parsed)
  rw [opened] at refused
  cases refused

/-! ## What the classifier answers -/

/-- How the classifier comes to its answer. -/
theorem containerKind_eq_ok
    {crates : Crates} {backing : Bytes} {kind : ContainerKind} :
    containerKind crates backing = .ok kind ↔
      ∃ turtle files, informationTurtle crates backing = .ok turtle ∧
        parseLogicalFiles turtle = .ok files ∧
        match kind with
        | .logical => files ≠ []
        | .disk => files = [] ∧ ∃ image, parseTurtle turtle = .ok image
        | .encrypted => files = [] ∧
            ∃ message, parseTurtle turtle = .error (.encrypted message) := by
  rw [containerKind, except_bind_eq_ok]
  refine exists_congr fun turtle => ?_
  rw [except_bind_eq_ok, ← exists_and_left]
  refine exists_congr fun files =>
    and_congr_right fun _ => and_congr_right fun _ => ?_
  by_cases noFiles : files = []
  · simp only [noFiles, ne_eq, not_true_eq_false, if_false, true_and]
    cases parsed : parseTurtle turtle with
    | ok image => cases kind <;> simp [pure, Except.pure]
    | error error =>
        cases error <;> cases kind <;>
          simp [pure, Except.pure, throw, throwThe, MonadExceptOf.throw]
  · simp only [noFiles, ne_eq, not_false_eq_true, if_true, false_and]
    cases kind <;> simp [pure, Except.pure]

/-- Ciphertext is never opened as plaintext. -/
theorem ciphertext_never_opened
    (platform : Platform) (crates : Crates) (backing : Bytes) :
    (∀ turtle,
      ((∃ message, parseTurtle turtle = .error (.encrypted message)) ↔
        encryptedMarker <:+: turtle) ∧
      ¬((∃ image, parseTurtle turtle = .ok image) ∧
        ∃ stream, parseEncryptedMeta platform turtle = .ok stream)) ∧
    (containerKind crates backing = .ok .disk →
      ∃ turtle, informationTurtle crates backing = .ok turtle ∧
        (∃ image, parseTurtle turtle = .ok image) ∧
        parseLogicalFiles turtle = .ok [] ∧
        ∃ error, parseEncryptedMeta platform turtle = .error error) ∧
    (containerKind crates backing = .ok .encrypted ↔
      ∃ turtle, informationTurtle crates backing = .ok turtle ∧
        parseLogicalFiles turtle = .ok [] ∧
        ∃ message, parseTurtle turtle = .error (.encrypted message)) := by
  refine ⟨fun turtle => ⟨parseTurtle_encrypted_iff turtle,
    not_parsed_both platform turtle⟩, ?_, ?_⟩
  · intro disk
    obtain ⟨turtle, files, read, noFiles, rfl, opened⟩ :=
      containerKind_eq_ok.mp disk
    refine ⟨turtle, read, opened, noFiles, ?_⟩
    cases parsed : parseEncryptedMeta platform turtle with
    | error error => exact ⟨error, rfl⟩
    | ok stream =>
        exact absurd ⟨opened, stream, parsed⟩ (not_parsed_both platform turtle)
  · rw [containerKind_eq_ok]
    constructor
    · rintro ⟨turtle, files, read, noFiles, rfl, refused⟩
      exact ⟨turtle, read, noFiles, refused⟩
    · rintro ⟨turtle, read, noFiles, refused⟩
      exact ⟨turtle, [], read, noFiles, rfl, refused⟩

end Aff4
