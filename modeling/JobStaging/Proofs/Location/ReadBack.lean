import JobStaging.Proofs.Location.Classification

/-!
# Places that are read back

Others see of a place only what is written of it, and the readers cut that at the first slash after
the scheme or at the first colon. Neither is escaped, so a place is read back if the part in front
does not hold the character at which it is cut. A bucket with a slash is refused when an object is
made. A file system with a colon is not refused, and a path on it is read, if at all, as one on
another file system (`EfsPath.isLost_of_colon`). Going down from a place touches neither the bucket
nor the file system, so whether it is read back is settled when it is made
(`made_places_read_back`).
-/

set_option autoImplicit false

namespace JobStaging

namespace S3Uri

/-- An object is read back when its text is read as the object, whichever reader is asked. -/
structure ReadsBack (u : S3Uri) : Prop where
  asObject : parse u.text = .ok u
  asPlace : DataPath.parse u.text = .ok (.s3 u)

/-- The bucket of an object has no slash, which is all that is needed. -/
theorem readsBack (u : S3Uri) : u.ReadsBack :=
  ⟨parse_text u, DataPath.parse_eq_s3_iff.2 (parse_text u)⟩

end S3Uri

namespace EfsPath

variable {e : EfsPath}

/-- A shared path is read back when its text is read as the path, whichever reader is asked. -/
structure ReadsBack (e : EfsPath) : Prop where
  asShared : parse e.text = .ok e
  asPlace : DataPath.parse e.text = .ok (.efs e)

/-- A shared path is lost when each shared path that is read from its text lies on another file
system. -/
structure IsLost (e : EfsPath) : Prop where
  asShared : ∀ other, parse e.text = .ok other → other.fileSystem ≠ e.fileSystem
  asPlace : ∀ other, DataPath.parse e.text = .ok (.efs other) → other.fileSystem ≠ e.fileSystem

/-- A shared path without a colon in its identifier is read back. -/
theorem readsBack_of_no_colon (h : ':' ∉ e.fileSystem.toList) : e.ReadsBack :=
  ⟨parse_text h, DataPath.parse_eq_efs_iff.2 (parse_text h)⟩

/-- The text is cut at its first colon, and this one is not the one behind the file system. -/
theorem isLost_of_colon (h : ':' ∈ e.fileSystem.toList) : e.IsLost := by
  have hother : ∀ other, parse e.text = .ok other → other.fileSystem ≠ e.fileSystem := by
    intro other hread heq
    apply colon_notMem_of_parse hread
    rw [heq]
    exact h
  exact ⟨hother, fun other hread => hother other (DataPath.parse_eq_efs_iff.1 hread)⟩

/-- Going down any number of times, one stays on the file system. -/
theorem fileSystem_foldl_join (segments : List Path) (e : EfsPath) :
    (segments.foldl join e).fileSystem = e.fileSystem := by
  induction segments generalizing e with
  | nil => rfl
  | cons p rest ih =>
    rw [List.foldl_cons, ih, fileSystem_join]

end EfsPath

/-- However far one goes down from it, an object that was made or read is read back, and so is a
shared path that was read. A shared path that was made of a file system and a path is read back if
there is no colon in the file system, and lost if there is one. -/
theorem made_places_read_back (names : List String) (segments : List Path) :
    (∀ bucket key u, S3Uri.ofParts bucket key = .ok u → (names.foldl S3Uri.join u).ReadsBack) ∧
    (∀ text u, S3Uri.parse text = .ok u → (names.foldl S3Uri.join u).ReadsBack) ∧
    (∀ text e, EfsPath.parse text = .ok e → (segments.foldl EfsPath.join e).ReadsBack) ∧
    ∀ fileSystem path e, EfsPath.ofParts fileSystem path = .ok e →
      (':' ∉ fileSystem.toList → (segments.foldl EfsPath.join e).ReadsBack) ∧
      (':' ∈ fileSystem.toList → (segments.foldl EfsPath.join e).IsLost) := by
  refine ⟨fun _ _ _ _ => S3Uri.readsBack _, fun _ _ _ => S3Uri.readsBack _, ?_, ?_⟩
  · intro text e hread
    apply EfsPath.readsBack_of_no_colon
    rw [EfsPath.fileSystem_foldl_join]
    exact EfsPath.colon_notMem_of_parse hread
  · intro fileSystem path e hmade
    obtain ⟨rfl, -⟩ := EfsPath.ofParts_eq_ok_iff.1 hmade
    rw [← EfsPath.fileSystem_foldl_join segments e]
    exact ⟨EfsPath.readsBack_of_no_colon, EfsPath.isLost_of_colon⟩

/-- Going down by absolute segments, empty ones and such as lead up changes nothing about it, nor do
colons in a path. -/
theorem made_places_read_back_of_samples :
    let uri : S3Uri := ⟨"bucket", "//runs/", by decide, by decide⟩
    let shared : EfsPath := ⟨"fs-1", ⟨"/shared:x"⟩, rfl, rfl⟩
    let odd : EfsPath := ⟨"fs-1:/x", ⟨"/shared"⟩, rfl, rfl⟩
    let names := ["/a:b", "", "../c"]
    let segments : List Path := [⟨"a:b"⟩, ⟨""⟩, ⟨"/abs"⟩, ⟨".."⟩]
    S3Uri.ofParts "bucket" "//runs/" = .ok uri ∧ (names.foldl S3Uri.join uri).ReadsBack ∧
    EfsPath.parse "fs-1:/shared:x" = .ok shared ∧
      (segments.foldl EfsPath.join shared).ReadsBack ∧
    EfsPath.ofParts "fs-1:/x" ⟨"/shared"⟩ = .ok odd ∧ ':' ∈ "fs-1:/x".toList ∧
      (segments.foldl EfsPath.join odd).IsLost := by
  intro uri shared odd names segments
  have huri : S3Uri.ofParts "bucket" "//runs/" = .ok uri := rfl
  have hread : EfsPath.parse "fs-1:/shared:x" = .ok shared := rfl
  have hodd : EfsPath.ofParts "fs-1:/x" ⟨"/shared"⟩ = .ok odd := rfl
  have hcolon : ':' ∈ "fs-1:/x".toList := by decide
  obtain ⟨hobject, -, hshared, hmade⟩ := made_places_read_back names segments
  exact ⟨huri, hobject _ _ _ huri, hread, hshared _ _ hread, hodd, hcolon,
    (hmade _ _ _ hodd).2 hcolon⟩

/-- A shared path that can be made and written, but not read: the reader of shared paths refuses its
text, and that of places takes it for a path in the container. -/
theorem shared_path_taken_for_local :
    ∃ e, EfsPath.ofParts "fs-1:x" ⟨"/shared"⟩ = .ok e ∧ e.text = "fs-1:x:/shared" ∧
      EfsPath.parse e.text = .error (.relativeEfsPath ⟨"x:/shared"⟩) ∧
      DataPath.parse e.text = .ok (.localPath ⟨"fs-1:x:/shared"⟩) :=
  ⟨_, rfl, rfl, rfl, rfl⟩

end JobStaging
