import JobStaging.Proofs.Location

/-!
# How a text is told to be a place

A text is an object, a shared path or a path in the container, and its reader tells which by tests
of its own, before it hands the text on. The readers of objects and of shared paths make other
tests: the one looks for the scheme and a bucket, the other cuts at the first colon and lets the
parts be checked. What each of them takes is said here by the text alone (`S3Uri.parse_eq_ok_iff`,
`EfsPath.parse_eq_ok_iff`), and from this follows that they agree (`parse_classified`): no text is
taken by both, and one that is taken by neither is local, unless it has the scheme. A place is
written as it was read, up to the slash after a bucket that stood alone.
-/

set_option autoImplicit false

namespace JobStaging

namespace S3Uri

variable {text : String} {u : S3Uri}

/-- A text that begins with the scheme, whatever follows. -/
def HasScheme (text : String) : Prop := scheme.toList <+: text.toList

/-- The scheme and a bucket, without a slash after it. -/
def BucketAlone (text : String) : Prop :=
  ∃ bucket : String, text = scheme ++ bucket ∧ '/' ∉ bucket.toList

/-- Parts of an object are taken as they are. -/
theorem ofParts_eq_ok_iff {bucket key : String} :
    ofParts bucket key = .ok u ↔ u.bucket = bucket ∧ u.key = key := by
  constructor
  · intro h
    unfold ofParts at h
    split at h <;> cases h
    exact ⟨rfl, rfl⟩
  · rintro ⟨rfl, rfl⟩
    exact ofParts_eq_ok u

/-- The text of an object begins with the scheme. -/
theorem hasScheme_text (u : S3Uri) : HasScheme u.text := by
  unfold HasScheme S3Uri.text
  simp only [String.toList_append, List.append_assoc]
  exact List.prefix_append _ _

/-- So does a bucket that stands alone. -/
theorem hasScheme_of_bucketAlone (h : BucketAlone text) : HasScheme text := by
  obtain ⟨bucket, rfl, -⟩ := h
  unfold HasScheme
  rw [String.toList_append]
  exact List.prefix_append _ _

/-- Behind the scheme the text is cut at its first slash, if it has one. -/
theorem parse_append {rest : String} : parse (scheme ++ rest) =
    match Text.cutAt '/' rest.toList with
    | some (bucket, key) => ofParts (String.ofList bucket) (String.ofList key)
    | none => ofParts rest "" := by
  have hscheme : scheme.toList.isPrefixOf (scheme ++ rest).toList = true := by
    rw [List.isPrefixOf_iff_prefix, String.toList_append]
    exact List.prefix_append _ _
  have hrest : (scheme ++ rest).toList.drop scheme.toList.length = rest.toList := by
    rw [String.toList_append, List.drop_left]
  unfold parse
  rw [if_pos hscheme, hrest]
  dsimp only
  cases Text.cutAt '/' rest.toList with
  | none => exact congrArg (ofParts · "") String.ofList_toList
  | some parts => rfl

/-- Without the scheme, no object is read. -/
theorem parse_of_not_hasScheme (h : ¬ HasScheme text) : parse text = .error (.notS3Uri text) :=
  if_neg fun hscheme => h (List.isPrefixOf_iff_prefix.1 hscheme)

/-- A text with the scheme has something behind it, which may be empty. -/
theorem exists_append_of_hasScheme (h : HasScheme text) :
    ∃ rest : String, text = scheme ++ rest := by
  obtain ⟨rest, hrest⟩ := h
  refine ⟨String.ofList rest, String.ext ?_⟩
  rw [String.toList_append, String.toList_ofList, hrest]

/-- The texts of an object are its own and, if its key is empty, that without the slash at its end.
-/
theorem parse_eq_ok_iff :
    parse text = .ok u ↔ text = u.text ∨ u.key = "" ∧ text = scheme ++ u.bucket := by
  constructor
  · intro h
    by_cases hscheme : HasScheme text
    · obtain ⟨rest, rfl⟩ := exists_append_of_hasScheme hscheme
      rw [parse_append] at h
      split at h
      · next bucket key hcut =>
        obtain ⟨hbucket, hkey⟩ := ofParts_eq_ok_iff.1 h
        have hrest : rest = u.bucket ++ "/" ++ u.key := by
          apply String.ext
          rw [(Text.cutAt_eq_some_iff.1 hcut).2, hbucket, hkey]
          simp
        left
        rw [hrest]
        simp [S3Uri.text, String.append_assoc]
      · obtain ⟨hbucket, hkey⟩ := ofParts_eq_ok_iff.1 h
        exact .inr ⟨hkey, congrArg (scheme ++ ·) hbucket.symm⟩
    · rw [parse_of_not_hasScheme hscheme] at h
      cases h
  · rintro (rfl | ⟨hkey, rfl⟩)
    · exact parse_text u
    · have hcut : Text.cutAt '/' u.bucket.toList = none :=
        Text.cutAt_eq_none_iff.2 u.slash_notMem
      rw [parse_append, hcut]
      exact ofParts_eq_ok_iff.2 ⟨rfl, hkey⟩

/-- What is written has a slash after the bucket, so it is more than a bucket. -/
theorem not_bucketAlone_text (u : S3Uri) : ¬ BucketAlone u.text := by
  rintro ⟨bucket, htext, hslash⟩
  have hchars := congrArg String.toList htext
  simp only [S3Uri.text, String.toList_append, List.append_assoc,
    List.append_cancel_left_eq] at hchars
  rw [← hchars] at hslash
  simp at hslash

end S3Uri

namespace EfsPath

variable {text : String} {e : EfsPath}

/-- The only text of a shared path is its own, and only if no colon hides where the path begins. -/
theorem parse_eq_ok_iff : parse text = .ok e ↔ ':' ∉ e.fileSystem.toList ∧ text = e.text := by
  constructor
  · intro h
    refine ⟨colon_notMem_of_parse h, ?_⟩
    unfold parse at h
    split at h
    · next fileSystem path hcut =>
      obtain ⟨hsystem, hpath⟩ := ofParts_eq_ok_iff.1 h
      apply String.ext
      rw [(Text.cutAt_eq_some_iff.1 hcut).2]
      unfold EfsPath.text
      rw [hsystem, hpath]
      simp
    · cases h
  · rintro ⟨hcolon, rfl⟩
    exact parse_text hcolon

/-- The text of a shared path does not begin with the scheme. -/
theorem not_hasScheme_text (e : EfsPath) : ¬ S3Uri.HasScheme e.text := by
  unfold S3Uri.HasScheme
  rw [← List.isPrefixOf_iff_prefix, e.not_isPrefixOf_text]
  exact Bool.false_ne_true

end EfsPath

namespace DataPath

variable {text : String} {d : DataPath}

/-- With the scheme, a place is read as an object or not at all. -/
theorem parse_of_hasScheme (h : S3Uri.HasScheme text) :
    parse text = (S3Uri.parse text).map .s3 :=
  if_pos (List.isPrefixOf_iff_prefix.2 h)

/-- Without it, a place is read as a shared path if that is possible, and as a local path otherwise.
-/
theorem parse_of_not_hasScheme (h : ¬ S3Uri.HasScheme text) :
    parse text = match efs? text with
      | some path => .ok (.efs path)
      | none => .ok (.localPath ⟨text⟩) :=
  if_neg fun hscheme => h (List.isPrefixOf_iff_prefix.1 hscheme)

/-- How the readers of places agree on a text, and how the place that is read is written again. -/
structure Classified (text : String) : Prop where
  s3 : ∀ u, parse text = .ok (.s3 u) ↔ S3Uri.parse text = .ok u
  efs : ∀ e, parse text = .ok (.efs e) ↔ EfsPath.parse text = .ok e
  fails : ∀ cause, parse text = .error cause ↔
    S3Uri.HasScheme text ∧ S3Uri.parse text = .error cause
  otherwise : ∀ path, parse text = .ok (.localPath path) ↔ path = ⟨text⟩ ∧
    (¬ ∃ u, S3Uri.parse text = .ok u) ∧ (¬ ∃ e, EfsPath.parse text = .ok e) ∧
      ¬ S3Uri.HasScheme text
  written : ∀ d, parse text = .ok d →
    (S3Uri.BucketAlone text → d.text = text ++ "/") ∧ (¬ S3Uri.BucketAlone text → d.text = text)
  readAgain : ∀ d, parse text = .ok d → parse d.text = .ok d

/-- An object is read as a place exactly where it is read as an object. -/
theorem parse_eq_s3_iff {u : S3Uri} : parse text = .ok (.s3 u) ↔ S3Uri.parse text = .ok u := by
  by_cases h : S3Uri.HasScheme text
  · rw [parse_of_hasScheme h, Fallible.map_eq_ok_iff]
    simp
  · rw [parse_of_not_hasScheme h, S3Uri.parse_of_not_hasScheme h]
    split <;> simp

/-- A shared path begins with its file system, so the test for the scheme, which comes first, does
not keep it from being read. -/
theorem parse_eq_efs_iff {e : EfsPath} : parse text = .ok (.efs e) ↔ EfsPath.parse text = .ok e := by
  by_cases h : S3Uri.HasScheme text
  · rw [parse_of_hasScheme h, Fallible.map_eq_ok_iff]
    have hother : EfsPath.parse text ≠ .ok e := by
      intro he
      apply e.not_hasScheme_text
      rw [← (EfsPath.parse_eq_ok_iff.1 he).2]
      exact h
    simp [hother]
  · rw [parse_of_not_hasScheme h, ← efs?_eq_some_iff]
    split
    · next hefs => simp [hefs]
    · next hefs => simp [hefs]

/-- No place is read exactly from texts with the scheme that are no objects. -/
theorem parse_eq_error_iff {cause : Rejection} : parse text = .error cause ↔
    S3Uri.HasScheme text ∧ S3Uri.parse text = .error cause := by
  by_cases h : S3Uri.HasScheme text
  · rw [parse_of_hasScheme h, Fallible.map_eq_error_iff]
    exact (and_iff_right h).symm
  · rw [parse_of_not_hasScheme h]
    split <;> simp [h]

/-- What is neither an object nor a shared path, and has no scheme, is a local path as it stands. -/
theorem parse_eq_localPath_iff {path : Path} : parse text = .ok (.localPath path) ↔
    path = ⟨text⟩ ∧ (¬ ∃ u, S3Uri.parse text = .ok u) ∧ (¬ ∃ e, EfsPath.parse text = .ok e) ∧
      ¬ S3Uri.HasScheme text := by
  by_cases h : S3Uri.HasScheme text
  · rw [parse_of_hasScheme h, Fallible.map_eq_ok_iff]
    simp [h]
  · have hs3 : ¬ ∃ u, S3Uri.parse text = .ok u := by simp [S3Uri.parse_of_not_hasScheme h]
    simp only [parse_of_not_hasScheme h, ← efs?_eq_some_iff, hs3, h]
    cases efs? text with
    | none => simp [eq_comm]
    | some e => simp

/-- Only the slash after a bucket that stands alone is not written as it was read. -/
theorem text_of_parse (h : parse text = .ok d) :
    (S3Uri.BucketAlone text → d.text = text ++ "/") ∧ (¬ S3Uri.BucketAlone text → d.text = text) := by
  cases d with
  | s3 u =>
    rcases S3Uri.parse_eq_ok_iff.1 (parse_eq_s3_iff.1 h) with htext | ⟨hkey, htext⟩
    · have hmore : ¬ S3Uri.BucketAlone text := htext ▸ u.not_bucketAlone_text
      exact ⟨fun halone => absurd halone hmore, fun _ => htext.symm⟩
    · have halone : S3Uri.BucketAlone text := ⟨u.bucket, htext, u.slash_notMem⟩
      refine ⟨fun _ => ?_, fun hmore => absurd halone hmore⟩
      simp [DataPath.text, S3Uri.text, hkey, htext]
  | efs e =>
    obtain ⟨-, htext⟩ := EfsPath.parse_eq_ok_iff.1 (parse_eq_efs_iff.1 h)
    have hmore : ¬ S3Uri.BucketAlone text := fun halone =>
      e.not_hasScheme_text (htext ▸ S3Uri.hasScheme_of_bucketAlone halone)
    exact ⟨fun halone => absurd halone hmore, fun _ => htext.symm⟩
  | localPath path =>
    obtain ⟨rfl, -, -, hscheme⟩ := parse_eq_localPath_iff.1 h
    exact ⟨fun halone => absurd (S3Uri.hasScheme_of_bucketAlone halone) hscheme, fun _ => rfl⟩

/-- Every text is told to be of one kind, in agreement with the readers of objects and of shared
paths; the place that is read is written as the same text, save for the slash after a bucket that
stands alone, and read again from what is written. -/
theorem parse_classified (text : String) : Classified text where
  s3 _ := parse_eq_s3_iff
  efs _ := parse_eq_efs_iff
  fails _ := parse_eq_error_iff
  otherwise _ := parse_eq_localPath_iff
  written _ h := text_of_parse h
  readAgain _ h := spelled_of_parse h

-- What follows the colon is no absolute path, so this is no shared path.
example : parse "fs-1:logs/run" = .ok (.localPath ⟨"fs-1:logs/run"⟩) := rfl

end DataPath

end JobStaging
