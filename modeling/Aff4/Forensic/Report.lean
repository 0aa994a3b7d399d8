import Aff4.Forensic.Findings

/-!
# What an audit reports

An anomaly reaches a report as a code and a note.  This file shows that a report of an
audit says which anomalies were found: no two of them read alike.
-/

namespace Aff4

open Rust Rust.Str

namespace Aff4Anomaly

def code : Aff4Anomaly → Text
  | .hashMismatch .. => "AFF4-HASH-MISMATCH".toList
  | .hashUnreadable .. => "AFF4-HASH-UNREADABLE".toList

def note : Aff4Anomaly → Text
  | .hashMismatch algorithm stored computed =>
      "stored ".toList ++ algorithm ++ " aff4:hash (".toList ++ stored ++
        (") does not match the digest recomputed over the ImageStream content (".toList ++
          computed ++
          ") — consistent with tampering or media corruption".toList)
  | .hashUnreadable offset length =>
      showNat length.toNat ++ " bytes at virtual offset ".toList ++
        showNat offset.toNat ++
        (" are marked aff4:UnreadableData; those bytes could not be acquired, so ".toList ++
          "whole-disk integrity cannot be fully established over that region".toList)

/-- An anomaly whose parts end where its note goes on. -/
def Legible : Aff4Anomaly → Prop
  | .hashMismatch algorithm stored computed =>
      ' ' ∉ algorithm ∧ ')' ∉ stored ∧ ')' ∉ computed
  | .hashUnreadable .. => True

end Aff4Anomaly

/-! ## Notes -/

/-- What stands in front of the first of a character, and what stands behind it. -/
theorem append_cons_inj_of_not_mem
    {c : Char} {front other : Text} (absent : c ∉ front) (absentOther : c ∉ other)
    {rest others : Text} (same : front ++ c :: rest = other ++ c :: others) :
    front = other ∧ rest = others := by
  have here := find_char_append rest absent
  rw [same, find_char_append others absentOther, Option.some.injEq] at here
  obtain ⟨fronts, behind⟩ := List.append_inj same here.symm
  exact ⟨fronts, (List.cons.inj behind).2⟩

theorem showNat_toNat_inj {left right : UInt64}
    (same : showNat left.toNat = showNat right.toNat) : left = right := by
  have parsed := parseU64_showNat left
  rw [same, parseU64_showNat, Option.some.injEq] at parsed
  exact parsed.symm

theorem not_mem_showNat {c : Char} (noDigit : isAsciiDigit c = false) (n : Nat) :
    c ∉ showNat n := by
  intro member
  rw [isAsciiDigit_of_mem_showNat member] at noDigit
  cases noDigit

namespace Aff4Anomaly

theorem code_ne (algorithm stored computed : Text) (offset length : UInt64) :
    (hashMismatch algorithm stored computed).code ≠
      (hashUnreadable offset length).code := by
  change "AFF4-HASH-MISMATCH".toList ≠ "AFF4-HASH-UNREADABLE".toList
  decide

/-- The parts of a note about a digest end with a blank and with parentheses. -/
theorem note_hashMismatch (algorithm stored computed : Text) :
    (hashMismatch algorithm stored computed).note =
      "stored ".toList ++ (algorithm ++ ' ' :: ("aff4:hash (".toList ++ (stored ++ ')' ::
        (" does not match the digest recomputed over the ImageStream content (".toList ++
          (computed ++ ')' ::
            " — consistent with tampering or media corruption".toList))))) := by
  unfold note
  simp only [String.reduceToList]
  simp only [List.append_assoc, List.cons_append, List.nil_append]

/-- The numbers of a note about a region end with a blank. -/
theorem note_hashUnreadable (offset length : UInt64) :
    ∃ rest, (hashUnreadable offset length).note =
      showNat length.toNat ++ ' ' :: ("bytes at virtual offset ".toList ++
        (showNat offset.toNat ++ ' ' :: rest)) := by
  refine ⟨"are marked aff4:UnreadableData; those bytes could not be acquired, so ".toList ++
    "whole-disk integrity cannot be fully established over that region".toList, ?_⟩
  unfold note
  simp only [String.reduceToList]
  simp only [List.append_assoc, List.cons_append, List.nil_append]

/-- Two legible anomalies of one code with one note are the same. -/
theorem eq_of_code_eq_of_note_eq
    {left right : Aff4Anomaly} (legible : left.Legible) (legibleRight : right.Legible)
    (sameCode : left.code = right.code) (sameNote : left.note = right.note) :
    left = right := by
  cases left with
  | hashMismatch algorithm stored computed =>
      cases right with
      | hashMismatch algorithm' stored' computed' =>
          obtain ⟨noSpace, noParenthesis, noEnd⟩ := legible
          obtain ⟨noSpace', noParenthesis', noEnd'⟩ := legibleRight
          rw [note_hashMismatch, note_hashMismatch] at sameNote
          obtain ⟨rfl, behind⟩ := append_cons_inj_of_not_mem noSpace noSpace'
            (List.append_cancel_left sameNote)
          obtain ⟨rfl, ending⟩ := append_cons_inj_of_not_mem noParenthesis noParenthesis'
            (List.append_cancel_left behind)
          obtain ⟨rfl, -⟩ := append_cons_inj_of_not_mem noEnd noEnd'
            (List.append_cancel_left ending)
          rfl
      | hashUnreadable offset length => exact absurd sameCode (code_ne _ _ _ _ _)
  | hashUnreadable offset length =>
      cases right with
      | hashMismatch algorithm stored computed =>
          exact absurd sameCode.symm (code_ne _ _ _ _ _)
      | hashUnreadable offset' length' =>
          have noDigit : isAsciiDigit ' ' = false := by decide
          obtain ⟨rest, note⟩ := note_hashUnreadable offset length
          obtain ⟨rest', note'⟩ := note_hashUnreadable offset' length'
          rw [note, note'] at sameNote
          obtain ⟨lengths, behind⟩ := append_cons_inj_of_not_mem
            (not_mem_showNat noDigit _) (not_mem_showNat noDigit _) sameNote
          obtain ⟨offsets, -⟩ := append_cons_inj_of_not_mem
            (not_mem_showNat noDigit _) (not_mem_showNat noDigit _)
            (List.append_cancel_left behind)
          rw [showNat_toNat_inj lengths, showNat_toNat_inj offsets]

end Aff4Anomaly

/-! ## Audits -/

/-- A hex digest has no parentheses. -/
theorem parenthesis_not_mem_toHex (bytes : Bytes) : ')' ∉ toHex bytes := by
  have noDigit : ∀ n < 16, hexDigit n ≠ ')' := by decide
  intro member
  obtain ⟨byte, -, digit⟩ := List.mem_flatMap.mp member
  have small := byte.toNat_lt
  simp only [List.mem_cons, List.not_mem_nil, or_false] at digit
  rcases digit with high | low
  · exact noDigit _ (by omega) high.symm
  · exact noDigit _ (by omega) low.symm

/-- Only a parenthesis is a parenthesis in lowercase. -/
theorem eq_parenthesis_of_toLower {c : Char} (same : c.toLower = ')') : c = ')' := by
  by_cases upper : c.val ≥ 'A'.val ∧ c.val ≤ 'Z'.val
  · have moved : c.toLower.val = c.val + ('a'.val - 'A'.val) :=
      congrArg Char.val (dif_pos upper)
    have first : 'A'.val.toNat = 65 := rfl
    have last : 'Z'.val.toNat = 90 := rfl
    have shift : ('a'.val - 'A'.val).toNat = 32 := by decide
    have code : ')'.val.toNat = 41 := rfl
    rw [same] at moved
    have codes := congrArg UInt32.toNat moved
    simp only [ge_iff_le, UInt32.le_iff_toNat_le, first, last] at upper
    rw [UInt32.toNat_add, shift, code] at codes
    omega
  · rwa [show c.toLower = c from dif_neg upper] at same

/-- The digest of a parsed term has none either. -/
theorem parenthesis_not_mem_hex {token : Text} {hash : StoredHash}
    (parsed : parseHashTerm token = some hash) : ')' ∉ hash.hex := by
  simp only [parseHashTerm, Option.bind_eq_bind, Option.bind_eq_some_iff] at parsed
  obtain ⟨rest, -, ⟨hex, dtype⟩, -, parsed⟩ := parsed
  split at parsed
  · cases parsed
  next digits =>
    split at parsed
    · cases parsed
    · cases parsed
      intro member
      obtain ⟨c, inside, lowered⟩ := List.mem_map.mp member
      have isDigit := List.all_eq_true.mp
        (by_contra fun none => digits (.inr none)) c inside
      rw [eq_parenthesis_of_toLower lowered] at isDigit
      exact absurd isDigit (by decide)

/-- An algorithm of this build has no blanks in its name. -/
theorem space_not_mem_of_forAlgorithm {name : Text} {algorithm : Algorithm}
    (known : Algorithm.forAlgorithm name = some algorithm) : ' ' ∉ name := by
  intro member
  have space : ' ' ∈ toAsciiUppercase name := List.mem_map.mpr ⟨' ', member, rfl⟩
  have listed : toAsciiUppercase name ∈ ["MD5".toList, "SHA1".toList, "SHA256".toList,
      "SHA512".toList, "BLAKE2B".toList] := by
    by_contra absent
    simp only [List.mem_cons, List.not_mem_nil, or_false, not_or] at absent
    obtain ⟨noMd5, noSha1, noSha256, noSha512, noBlake2b⟩ := absent
    rw [Algorithm.forAlgorithm, if_neg noMd5, if_neg noSha1, if_neg noSha256,
      if_neg noSha512, if_neg noBlake2b] at known
    cases known
  have noSpace : ∀ upper ∈ ["MD5".toList, "SHA1".toList, "SHA256".toList,
      "SHA512".toList, "BLAKE2B".toList], ' ' ∉ upper := by
    decide
  exact noSpace _ listed space

section

variable {platform : Platform} {crates : Crates} {digests : DigestCrates}

/-- Every anomaly of an opened reader is legible. -/
theorem legible_of_verifyImageHashes
    {reader : Aff4Reader} (opened : reader.Opened crates)
    {anomalies : List Aff4Anomaly}
    (verified : verifyImageHashes platform crates digests reader = .ok anomalies) :
    ∀ anomaly ∈ anomalies, anomaly.Legible := by
  have unreadable : ∀ regions : List (UInt64 × UInt64), ∀ anomaly ∈ regions.map
      (fun region => Aff4Anomaly.hashUnreadable region.1 region.2),
        anomaly.Legible := by
    intro regions anomaly member
    obtain ⟨region, -, rfl⟩ := List.mem_map.mp member
    trivial
  by_cases noJobs : (hashJobs digests reader.imageHashes).isEmpty
  · simp only [verifyImageHashes, noJobs, if_true, Outcome.ok.injEq] at verified
    rw [← verified]
    exact unreadable _
  · have returns : (reader.readImageStreamContent platform crates).result = .ok () := by
      simp only [verifyImageHashes] at verified
      rw [if_neg noJobs] at verified
      obtain ⟨_, returns, -⟩ := Outcome.bind_eq_ok.mp verified
      exact returns
    rw [verifyImageHashes_of_content opened returns, Outcome.ok.injEq] at verified
    rw [← verified, findings, List.forall_mem_append]
    refine ⟨unreadable _, fun anomaly member => ?_⟩
    obtain ⟨hash, stored, found⟩ := List.mem_filterMap.mp member
    obtain ⟨token, parsed⟩ := exists_parseHashTerm_of_opened opened hash stored
    rw [digestFinding_eq] at found
    obtain ⟨algorithm, known, mismatch⟩ := Option.bind_eq_some_iff.mp found
    split at mismatch
    · cases mismatch
    · cases mismatch
      exact ⟨space_not_mem_of_forAlgorithm known, parenthesis_not_mem_hex parsed,
        parenthesis_not_mem_toHex _⟩

end

/-- The lines of a report: the code and the note of each anomaly. -/
def reportLines (anomalies : List Aff4Anomaly) : List (Text × Text) :=
  anomalies.map fun anomaly => (anomaly.code, anomaly.note)

/-- Legible anomalies are told from their report. -/
theorem eq_of_reportLines_eq
    {left right : List Aff4Anomaly} (legible : ∀ anomaly ∈ left, anomaly.Legible)
    (legibleRight : ∀ anomaly ∈ right, anomaly.Legible)
    (same : reportLines left = reportLines right) : left = right := by
  induction left generalizing right with
  | nil =>
      cases right with
      | nil => rfl
      | cons anomaly rest => cases same
  | cons anomaly left inductionHypothesis =>
      cases right with
      | nil => cases same
      | cons other right =>
          rw [List.forall_mem_cons] at legible legibleRight
          obtain ⟨line, lines⟩ := List.cons.inj same
          obtain ⟨code, note⟩ := Prod.mk.inj line
          rw [Aff4Anomaly.eq_of_code_eq_of_note_eq legible.1 legibleRight.1 code note,
            inductionHypothesis legible.2 legibleRight.2 lines]

/-- Audits, of whatever images, found the same anomalies exactly when their reports have
the same codes and notes in the same order. -/
theorem reports_agree_iff
    {platform otherPlatform : Platform} {crates otherCrates : Crates}
    {digests otherDigests : DigestCrates} {backing other : Bytes}
    {anomalies others : List Aff4Anomaly}
    (audited : auditImage platform crates digests id backing = .ok anomalies)
    (auditedOther :
      auditImage otherPlatform otherCrates otherDigests id other = .ok others) :
    reportLines anomalies = reportLines others ↔ anomalies = others := by
  have legible {platform : Platform} {crates : Crates} {digests : DigestCrates}
      {backing : Bytes} {anomalies : List Aff4Anomaly}
      (audited : auditImage platform crates digests id backing = .ok anomalies) :
      ∀ anomaly ∈ anomalies, anomaly.Legible := by
    obtain ⟨reader, opened, verified⟩ := Outcome.bind_eq_ok.mp audited
    obtain ⟨found, verified, reported⟩ := Outcome.bind_eq_ok.mp verified
    rw [Outcome.pure_eq, Outcome.ok.injEq, List.map_id] at reported
    rw [← reported]
    exact legible_of_verifyImageHashes
      (.of_openReader (Outcome.ofExcept_eq_ok.mp opened)) verified
  exact ⟨eq_of_reportLines_eq (legible audited) (legible auditedOther),
    congrArg reportLines⟩

/-! Empty streams that declare a wrong MD5, each its own. -/

namespace ReportSample

/-- The digests that are declared. -/
def declared : Bool → Text
  | false => "c0ffee".toList
  | true => "decade".toList

def turtle (second : Bool) : Text :=
  "<r> a aff4:ImageStream ; aff4:chunkSize 2 ; aff4:chunksInSegment 2 ; ".toList ++
    "aff4:size 0 ; aff4:hash \"".toList ++ declared second ++ "\"^^aff4:MD5 . ".toList

def metadata (second : Bool) : StreamMeta where
  streamArn := "r".toList
  virtualSize := 0
  imageStreamSize := 0
  chunkSize := 2
  chunksPerSegment := 2
  compression := .null
  imageHashes := [{ algorithm := "MD5".toList, hex := declared second }]
  mapMeta := none

theorem entries_short (second : Bool) :
    ∀ entry ∈ [("information.turtle".toList, asBytes (turtle second))],
      entry.2.length < 2 ^ 63 := by
  revert second
  decide +kernel

def archive (second : Bool) : ZipArchive := .ofEntries _ (entries_short second)

theorem parseTurtle_turtle (second : Bool) :
    parseTurtle (turtle second) = .ok (metadata second) := by
  revert second
  unfold turtle
  simp only [String.reduceToList]
  decide +kernel

def container (second : Bool) : DirectContainer (.opening (archive second)) [] where
  archive := archive second
  turtle := turtle second
  metadata := metadata second
  archive_eq := rfl
  turtle_eq := ZipArchive.readEntryToString_of_asBytes _ (ZipArchive.readEntry_ofEntries rfl)
  metadata_eq := parseTurtle_turtle second
  direct := rfl

/-- The digest crates, as far as the empty content is concerned. -/
def digests : DigestCrates :=
  .ofContent [] [(.md5, [0xd4, 0x1d, 0x8c, 0xd9, 0x8f, 0x00, 0xb2, 0x04, 0xe9, 0x80, 0x09,
    0x98, 0xec, 0xf8, 0x42, 0x7e])]

def mismatch (second : Bool) : Aff4Anomaly :=
  .hashMismatch "MD5".toList (declared second) "d41d8cd98f00b204e9800998ecf8427e".toList

theorem auditImage_eq (second : Bool) :
    auditImage .debug64 (.opening (archive second)) digests id [] = .ok [mismatch second] := by
  have verified : verifyImageHashes .debug64 (.opening (archive second)) digests
      (container second).reader = .ok [mismatch second] := by
    revert second
    decide +kernel
  exact auditImage_of_verified id (container second).openReader_eq verified

theorem reports_agree_iff_sample :
    reportLines [mismatch false] = reportLines [mismatch true] ↔
      [mismatch false] = [mismatch true] :=
  reports_agree_iff (auditImage_eq false) (auditImage_eq true)

end ReportSample
end Aff4
