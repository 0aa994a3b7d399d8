import Aff4.Reader.Progress
import Aff4.Reader.Session

/-!
# Which bytes reads deliver

A read that starts at one position delivers bytes for the positions behind it.
This file says, for each position, which byte a read from a given start can
deliver there, by the kind of the target that is found at the start.
-/

namespace Aff4

open Rust

namespace Aff4Reader

variable {platform : Platform} {crates : Crates} {reader : Aff4Reader}

/-- Some read that starts at `start` delivers `byte` for `position`. -/
def Delivers
    (platform : Platform) (crates : Crates) (reader : Aff4Reader)
    (start : UInt64) (position : Nat) (byte : UInt8) : Prop :=
  ∃ buf n, start.toNat ≤ position ∧ position < start.toNat + n ∧
    (Aff4Reader.read platform crates { reader with pos := start } buf).result =
      .ok n ∧
    (Aff4Reader.read platform crates { reader with pos := start }
      buf).buf[position - start.toNat]? = some byte

/-- The byte at some distance from where a region begins is `byte`, as far as a
read from there can reach it. -/
def Produces
    (platform : Platform) (crates : Crates) (reader : Aff4Reader)
    (region : ResolvedRegion) (distance : Nat) (byte : UInt8) : Prop :=
  match region.kind with
  | .unknown => byte = 0
  | .fill constant => byte = constant
  | .tile pattern =>
      (platform.overflowChecks = true →
        region.targetOffset.toNat + distance < 2 ^ 64) ∧
      byte = pattern.byteAt (region.targetOffset + UInt64.ofNat distance).toNat
  | .imageStream =>
      ∃ chunk, reader.readChunk platform crates
          (region.targetOffset / reader.chunkSize) = .ok chunk ∧
        chunk[(region.targetOffset % reader.chunkSize).toNat + distance]? =
          some byte

/-- What is copied from a tile. -/
theorem readTarget_tile_getElem?
    (wide : platform.Is64Bit) {region : ResolvedRegion} {toRead : Nat}
    {pattern : Tile} (kind : region.kind = .tile pattern) {bytes : Bytes}
    (returns : reader.readTarget platform crates region toRead = .ok bytes)
    {distance : Nat} (small : distance < 2 ^ 64)
    (below : distance < min toRead region.bytesInRegion.toNat) :
    (platform.overflowChecks = true →
        region.targetOffset.toNat + distance < 2 ^ 64) ∧
      bytes[distance]? = some
        (pattern.byteAt
          (region.targetOffset + UInt64.ofNat distance).toNat) := by
  rw [readTarget, kind, asUsize_of_is64Bit wide] at returns
  obtain ⟨byte, body, found⟩ := Outcome.getElem?_of_collect_eq_ok returns below
  rw [Nat.zero_add] at body
  obtain ⟨position, added, equal⟩ := Outcome.bind_eq_ok.mp body
  obtain ⟨rfl, fits⟩ := addU64_eq_ok.mp added
  cases equal
  rw [toNat_ofNat_of_lt small] at fits
  exact ⟨fits, found⟩

/-- What a read copies is what its region produces. -/
theorem produces_of_readTarget
    (wide : platform.Is64Bit) (chunkSize_ne_zero : reader.chunkSize ≠ 0)
    {region : ResolvedRegion} {toRead : Nat} {bytes : Bytes}
    (copied : reader.readTarget platform crates region toRead = .ok bytes)
    {distance : Nat} {byte : UInt8} (found : bytes[distance]? = some byte) :
    distance < region.bytesInRegion.toNat ∧
      reader.Produces platform crates region distance byte := by
  obtain ⟨inside, found⟩ := List.getElem?_eq_some_iff.mp found
  have limit := region.bytesInRegion.toNat_lt
  cases kind : region.kind with
  | unknown =>
      rw [readTarget_unknown wide kind] at copied
      cases copied
      rw [List.length_replicate] at inside
      rw [List.getElem_replicate] at found
      simp only [Produces, kind]
      exact ⟨by omega, found.symm⟩
  | fill constant =>
      rw [readTarget_fill wide kind] at copied
      cases copied
      rw [List.length_replicate] at inside
      rw [List.getElem_replicate] at found
      simp only [Produces, kind]
      exact ⟨by omega, found.symm⟩
  | tile pattern =>
      have length := length_of_readTarget_tile wide kind copied
      obtain ⟨fits, value⟩ := readTarget_tile_getElem? wide kind copied
        (show distance < 2 ^ 64 by omega) (by omega)
      rw [List.getElem?_eq_getElem inside, found] at value
      cases value
      simp only [Produces, kind]
      exact ⟨by omega, fits, trivial⟩
  | imageStream =>
      cases read : reader.readChunk platform crates
          (region.targetOffset / reader.chunkSize) with
      | ok chunk =>
          rw [readTarget_imageStream wide kind chunkSize_ne_zero read] at copied
          cases copied
          rw [List.length_take, List.length_drop] at inside
          rw [List.getElem_take, List.getElem_drop] at found
          simp only [Produces, kind]
          exact ⟨by omega, chunk, read,
            List.getElem?_eq_some_iff.mpr ⟨by omega, found⟩⟩
      | err error =>
          rw [readTarget_of_readChunk_err kind chunkSize_ne_zero read] at copied
          cases copied
      | panic reason =>
          rw [readTarget_of_readChunk_panic kind chunkSize_ne_zero read toRead]
            at copied
          cases copied

/-- A read that asks for just enough copies what its region produces. -/
theorem readTarget_of_produces
    (wide : platform.Is64Bit) (chunkSize_ne_zero : reader.chunkSize ≠ 0)
    {region : ResolvedRegion} {distance : Nat}
    (inside : distance < region.bytesInRegion.toNat) {byte : UInt8}
    (produces : reader.Produces platform crates region distance byte) :
    ∃ bytes, reader.readTarget platform crates region (distance + 1) =
        .ok bytes ∧ bytes[distance]? = some byte := by
  have limit := region.bytesInRegion.toNat_lt
  cases kind : region.kind with
  | unknown =>
      simp only [Produces, kind] at produces
      refine ⟨_, readTarget_unknown wide kind, ?_⟩
      rw [List.getElem?_replicate, if_pos (by omega), produces]
  | fill constant =>
      simp only [Produces, kind] at produces
      refine ⟨_, readTarget_fill wide kind, ?_⟩
      rw [List.getElem?_replicate, if_pos (by omega), produces]
  | tile pattern =>
      simp only [Produces, kind] at produces
      obtain ⟨fits, rfl⟩ := produces
      obtain ⟨bytes, returns⟩ : ∃ bytes,
          reader.readTarget platform crates region (distance + 1) = .ok bytes :=
        (readTarget_tile_eq_ok wide kind (by omega)).mpr
          fun index below checked => by
            have := fits checked
            omega
      have value := readTarget_tile_getElem? wide kind returns
        (show distance < 2 ^ 64 by omega) (by omega)
      exact ⟨bytes, returns, value.2⟩
  | imageStream =>
      simp only [Produces, kind] at produces
      obtain ⟨chunk, read, found⟩ := produces
      obtain ⟨inChunk, found⟩ := List.getElem?_eq_some_iff.mp found
      refine ⟨_, readTarget_imageStream wide kind chunkSize_ne_zero read _, ?_⟩
      rw [List.getElem?_take_of_lt (by omega), List.getElem?_drop,
        List.getElem?_eq_getElem inChunk, found]

/-- The bytes reads from a position deliver are those the region there
produces. -/
theorem delivers_iff
    (wide : platform.Is64Bit) (chunkSize_ne_zero : reader.chunkSize ≠ 0)
    {start : UInt64} {position : Nat} {byte : UInt8} :
    reader.Delivers platform crates start position byte ↔
      start.toNat ≤ position ∧ position < reader.virtualSize.toNat ∧
        ∃ region, target platform { reader with pos := start } = .ok region ∧
          position - start.toNat < region.bytesInRegion.toNat ∧
          reader.Produces platform crates region (position - start.toNat)
            byte := by
  constructor
  · rintro ⟨buf, n, after, within, returns, found⟩
    have asked : buf ≠ [] := by
      rintro rfl
      rw [read_of_nothing_asked platform crates (.inl rfl)] at found
      cases found
    have below : start.toNat < reader.virtualSize.toNat := by
      by_contra past
      rw [read_of_nothing_asked platform crates
        (.inr (UInt64.le_iff_toNat_le.mpr (Nat.not_lt.mp past)))] at returns
      cases returns
      omega
    obtain ⟨region, bytes, resolved, copied, rfl, fits, call⟩ :=
      read_of_returns { reader with pos := start } wide asked below returns
    rw [call, List.getElem?_append_left (by omega)] at found
    change bytes.length ≤ min _ (reader.virtualSize.toNat - start.toNat) at fits
    obtain ⟨inside, produces⟩ :=
      produces_of_readTarget wide chunkSize_ne_zero copied found
    exact ⟨after, by omega, region, resolved, inside, produces⟩
  · rintro ⟨after, onDisk, region, resolved, inside, produces⟩
    obtain ⟨bytes, copied, found⟩ :=
      readTarget_of_produces wide chunkSize_ne_zero inside produces
    have length := (List.getElem?_eq_some_iff.mp found).1
    have asked : List.replicate (position - start.toNat + 1) (0 : UInt8) ≠ [] := by
      simp
    have toRead : min (List.replicate (position - start.toNat + 1)
        (0 : UInt8)).length (reader.virtualSize.toNat - start.toNat) =
          position - start.toNat + 1 := by
      rw [List.length_replicate]
      omega
    rw [← toRead] at copied
    have below : start.toNat < reader.virtualSize.toNat := by omega
    have call := read_of_copied { reader with pos := start } wide asked below
      resolved copied
    refine ⟨_, bytes.length, after, by omega, by rw [call], ?_⟩
    rw [call, List.getElem?_append_left length, found]

end Aff4Reader
end Aff4
