import JobStaging.Location.DataPath
import JobStaging.Proofs.Fallible
import JobStaging.Proofs.Mount

/-!
# Places and the texts that spell them

An object is spelled by its own text. A shared path is when its file system has no colon in it,
which holds for each that was read, since reading cuts at the first colon. A place that was read
from some text is thus spelled by its own text as well, though the two texts may differ
(`spelled_of_parse`).
-/

set_option autoImplicit false

namespace JobStaging

namespace S3Uri

/-- The parts of an object make the object. -/
theorem ofParts_eq_ok (u : S3Uri) : ofParts u.bucket u.key = .ok u := by
  unfold ofParts
  rw [dif_pos ⟨u.bucket_ne, u.slash_notMem⟩]

/-- The text of an object is read as the object. -/
theorem parse_text (u : S3Uri) : parse u.text = .ok u := by
  have htext : u.text.toList = scheme.toList ++ (u.bucket.toList ++ '/' :: u.key.toList) := by
    simp [text, String.toList_append]
  have hscheme : scheme.toList.isPrefixOf u.text.toList = true := by
    rw [htext, List.isPrefixOf_iff_prefix]
    exact List.prefix_append _ _
  have hcut : Text.cutAt '/' (u.bucket.toList ++ '/' :: u.key.toList) =
      some (u.bucket.toList, u.key.toList) :=
    Text.cutAt_eq_some_iff.2 ⟨u.slash_notMem, rfl⟩
  unfold parse
  rw [if_pos hscheme, htext, List.drop_left]
  dsimp only
  rw [hcut]
  dsimp only
  rw [String.ofList_toList, String.ofList_toList, ofParts_eq_ok]

end S3Uri

namespace EfsPath

/-- The text of a shared path is read as the path when the name of its file system has no colon. -/
theorem parse_text {e : EfsPath} (h : ':' ∉ e.fileSystem.toList) : parse e.text = .ok e := by
  have hcut : Text.cutAt ':' e.text.toList = some (e.fileSystem.toList, e.path.text.toList) := by
    refine Text.cutAt_eq_some_iff.2 ⟨h, ?_⟩
    simp [text, String.toList_append]
  unfold parse
  rw [hcut]
  dsimp only
  rw [String.ofList_toList, String.ofList_toList, ofParts_eq_ok_iff]
  exact ⟨rfl, rfl⟩

/-- Reading cuts at the first colon. -/
theorem colon_notMem_of_parse {text : String} {e : EfsPath} (h : parse text = .ok e) :
    ':' ∉ e.fileSystem.toList := by
  unfold parse at h
  split at h
  · next fileSystem path hcut =>
    rw [(ofParts_eq_ok_iff.1 h).1, String.toList_ofList]
    exact (Text.cutAt_eq_some_iff.1 hcut).1
  · cases h

/-- The text of a shared path begins with its file system, and so not like that of an object. -/
theorem not_isPrefixOf_text (e : EfsPath) :
    S3Uri.scheme.toList.isPrefixOf e.text.toList = false := by
  have hid := e.isId
  rw [List.isPrefixOf_iff_prefix] at hid
  obtain ⟨rest, hrest⟩ := hid
  have htext : e.text.toList = "fs-".toList ++ (rest ++ ':' :: e.path.text.toList) := by
    simp [text, String.toList_append, ← hrest]
  rw [htext]
  rfl

end EfsPath

namespace DataPath

/-- A place is spelled when its text is read as the place. -/
def Spelled (d : DataPath) : Prop := parse d.text = .ok d

/-- Looking for a shared path finds what is read as one. -/
theorem efs?_eq_some_iff {text : String} {e : EfsPath} :
    efs? text = some e ↔ EfsPath.parse text = .ok e := by
  unfold efs? EfsPath.parse
  cases Text.cutAt ':' text.toList with
  | none => simp
  | some parts =>
    rw [EfsPath.ofParts_eq_ok_iff]
    dsimp only
    constructor
    · intro h
      split at h <;> cases h
      exact ⟨rfl, rfl⟩
    · rintro ⟨hsystem, hpath⟩
      have hform : EfsPath.isFileSystemId (String.ofList parts.1) = true ∧
          (Path.mk (String.ofList parts.2)).isAbsolute = true := by
        rw [← hsystem, ← hpath]
        exact ⟨e.isId, e.absolute⟩
      obtain ⟨fileSystem, path, hid, habs⟩ := e
      dsimp only at hsystem hpath
      subst hsystem hpath
      rw [dif_pos hform]

/-- A place that was read is spelled. -/
theorem spelled_of_parse {text : String} {d : DataPath} (h : parse text = .ok d) : d.Spelled := by
  have hread := h
  unfold parse at h
  split at h
  · obtain ⟨u, -, rfl⟩ := Fallible.map_eq_ok_iff.1 h
    have hscheme : S3Uri.scheme.toList.isPrefixOf u.text.toList = true := by
      rw [List.isPrefixOf_iff_prefix]
      simp [S3Uri.text, String.toList_append]
    unfold Spelled parse DataPath.text
    rw [if_pos hscheme, S3Uri.parse_text]
    rfl
  · split at h
    · next e he =>
      cases h
      have hcolon := EfsPath.colon_notMem_of_parse (efs?_eq_some_iff.1 he)
      unfold Spelled parse DataPath.text
      dsimp only
      rw [if_neg (by simp [e.not_isPrefixOf_text]),
        efs?_eq_some_iff.2 (EfsPath.parse_text hcolon)]
    · cases h
      exact hread

end DataPath

end JobStaging
