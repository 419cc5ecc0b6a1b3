import StubListing.Proofs.Json.Continuing
import StubListing.Proofs.Manifest.Storing
/-!
# Manifests that break off

Saving empties the file before it writes, so a run that is stopped can leave any front part of the
text behind. No such part is loaded as a manifest, wherever it breaks off: within a character, a
word, a number, a list or an object, or right before the last brace.
-/
namespace StubListing
open StubListing.Action

variable {m : Manifest} {d : Disk} {p : Path} {w : Workplace} {front rest : ByteArray}

/-- A text whose bytes begin with those of another text begins with that text. -/
theorem exists_append_of_toUTF8 {whole s : String} {more : ByteArray}
    (h : whole.toUTF8 = s.toUTF8 ++ more) : ∃ t, whole = s ++ t ∧ more = t.toUTF8 := by
  have hbytes : whole.toByteArray = s.toByteArray ++ more := h
  have hcut : s.rawEndPos.IsValid whole := by
    rw [String.Pos.Raw.isValid_iff_isValidUTF8_extract_zero]
    constructor
    · show s.utf8ByteSize ≤ whole.utf8ByteSize
      rw [← String.size_toByteArray, ← String.size_toByteArray, hbytes, ByteArray.size_append]
      exact Nat.le_add_right _ _
    · have hsize : s.rawEndPos.byteIdx = s.toByteArray.size := String.size_toByteArray.symm
      rw [hbytes, ByteArray.extract_append_eq_left hsize]
      exact s.isValidUTF8
  obtain ⟨t₁, t₂, rfl, hend⟩ := String.Pos.Raw.isValid_iff_exists_append.mp hcut
  rw [String.toByteArray_append] at hbytes
  have hsize : t₁.toByteArray.size = s.toByteArray.size := by
    rw [String.size_toByteArray, String.size_toByteArray]
    exact (congrArg String.Pos.Raw.byteIdx hend).symm
  have hsame := ByteArray.append_inj_left hbytes hsize
  rw [hsame, ByteArray.append_right_inj] at hbytes
  exact ⟨t₂, by rw [String.toByteArray_inj.mp hsame], hbytes.symm⟩

namespace Manifest

/-- A text that goes on is not read as a manifest where it breaks off. -/
theorem not_parse_of_front {more front : String} (h : m.text = front ++ more) (hmore : more ≠ "")
    (found : Manifest) : parse front ≠ .ok found :=
  Json.decode_front h hmore found

/-- What is left in the file is no text, or a text that is not read. -/
theorem not_parse_of_truncated (h : m.text.toUTF8 = front ++ rest) (hrest : rest ≠ .empty)
    (hcontent : d.content p = .ok front) {text : String} (htext : d.text p = .ok text)
    (found : Manifest) : parse text ≠ .ok found := by
  have hfront : front = text.toUTF8 := by
    have := hcontent.symm.trans (Disk.content_of_text htext)
    cases this
    rfl
  rw [hfront] at h
  obtain ⟨more, htext, rfl⟩ := exists_append_of_toUTF8 h
  refine not_parse_of_front htext ?_ found
  rintro rfl
  exact hrest rfl

/-- Loading a manifest that breaks off fails and leaves everything as it is. -/
theorem load_fails_of_truncated (h : m.text.toUTF8 = front ++ rest) (hrest : rest ≠ .empty)
    (hcontent : w.disk.content p = .ok front) : ∃ f, (load p).Fails w f w := by
  unfold Fails
  rw [ending_load]
  cases htext : w.disk.text p with
  | error e => exact ⟨_, rfl⟩
  | ok text =>
    dsimp only
    cases hparse : parse text with
    | error fault => exact ⟨_, rfl⟩
    | ok found => exact absurd hparse (not_parse_of_truncated h hrest hcontent htext found)

end Manifest

end StubListing
