import JobStaging.Digest.Sha256
import Mathlib.Data.List.Basic

/-!
# Digests as names

A digest is written as sixty-four hexadecimal digits, whatever was digested, so the digest at the
end of a name can be told from what stands before it (`append_sha256Hex_inj`). Two texts with the
same digest are the same only as far as the digest does not collide on them, and this is said of the
two texts at hand (`Apart`), for no function with digests of fixed length keeps all texts apart.
-/

set_option autoImplicit false

namespace JobStaging

namespace Text

/-- Bytes are told by their digits. -/
theorem flatMap_hexByte_inj {as bs : List UInt8} (h : as.flatMap hexByte = bs.flatMap hexByte) :
    as = bs := by
  induction as generalizing bs with
  | nil =>
    cases bs with
    | nil => rfl
    | cons b bs => simp [hexByte] at h
  | cons a as ih =>
    cases bs with
    | nil => simp [hexByte] at h
    | cons b bs =>
      simp only [List.flatMap_cons, hexByte, List.cons_append, List.nil_append, List.cons.injEq] at h
      obtain ⟨hhigh, hlow, hrest⟩ := h
      have ha := a.toNat_lt
      have hb := b.toNat_lt
      have hdiv : a.toNat / 16 = b.toNat / 16 := hexDigit_inj (by omega) (by omega) hhigh
      have hmod : a.toNat % 16 = b.toNat % 16 := hexDigit_inj (by omega) (by omega) hlow
      have hbyte : a = b := UInt8.toNat_inj.1 (by omega)
      rw [hbyte, ih hrest]

/-- A byte has two digits. -/
theorem length_flatMap_hexByte (bytes : List UInt8) :
    (bytes.flatMap hexByte).length = 2 * bytes.length := by
  induction bytes with
  | nil => rfl
  | cons b bytes ih =>
    rw [List.flatMap_cons, List.length_append, ih, List.length_cons]
    simp only [hexByte, List.length_cons, List.length_nil]
    omega

/-- No digit is a slash. -/
theorem slash_notMem_flatMap_hexByte (bytes : List UInt8) : '/' ∉ bytes.flatMap hexByte := by
  have hdigit : ∀ i : Fin 16, '/' ≠ hexDigit i := by decide
  intro h
  obtain ⟨b, -, hb⟩ := List.mem_flatMap.1 h
  have hhigh : b.toNat / 16 < 16 := by
    have := b.toNat_lt
    omega
  have hlow : b.toNat % 16 < 16 := Nat.mod_lt _ (by decide)
  simp only [hexByte, List.mem_cons, List.not_mem_nil, or_false] at hb
  rcases hb with hb | hb
  · exact hdigit ⟨_, hhigh⟩ hb
  · exact hdigit ⟨_, hlow⟩ hb

end Text

namespace Digest

variable {s t : String}

/-- The digest keeps two texts apart when it is the same for both only if they are the same. -/
def Apart (s t : String) : Prop := sha256 (Text.utf8 s) = sha256 (Text.utf8 t) → s = t

/-- A digest has 32 bytes. -/
theorem length_sha256 (message : List UInt8) : (sha256 message).length = 32 := by
  unfold sha256
  simp [State.words, bytesOf]

/-- So it has 64 digits. -/
theorem length_sha256Hex (s : String) : (sha256Hex s).toList.length = 64 := by
  unfold sha256Hex Text.hex
  rw [String.toList_ofList, Text.length_flatMap_hexByte, length_sha256]

/-- There is no slash in them. -/
theorem slash_notMem_sha256Hex (s : String) : '/' ∉ (sha256Hex s).toList := by
  unfold sha256Hex Text.hex
  rw [String.toList_ofList]
  exact Text.slash_notMem_flatMap_hexByte _

/-- Texts that are kept apart have the same digest in digits only if they are the same. -/
theorem sha256Hex_inj (h : Apart s t) : sha256Hex s = sha256Hex t ↔ s = t := by
  constructor
  · intro hhex
    have hdigits := congrArg String.toList hhex
    unfold sha256Hex Text.hex at hdigits
    rw [String.toList_ofList, String.toList_ofList] at hdigits
    exact h (Text.flatMap_hexByte_inj hdigits)
  · rintro rfl
    rfl

/-- Names that end with digests are the same when what stands before the digests is, and the
digested texts are. -/
theorem append_sha256Hex_inj {a b : String} (h : Apart s t) :
    a ++ sha256Hex s = b ++ sha256Hex t ↔ a = b ∧ s = t := by
  constructor
  · intro hname
    have hchars := congrArg String.toList hname
    rw [String.toList_append, String.toList_append] at hchars
    have hlength : (sha256Hex s).toList.length = (sha256Hex t).toList.length := by
      rw [length_sha256Hex, length_sha256Hex]
    obtain ⟨hbefore, hdigest⟩ := List.append_inj' hchars hlength
    exact ⟨String.ext hbefore, (sha256Hex_inj h).1 (String.ext hdigest)⟩
  · rintro ⟨rfl, rfl⟩
    rfl

end Digest

end JobStaging
