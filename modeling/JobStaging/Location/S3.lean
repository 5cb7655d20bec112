import JobStaging.Error

/-!
# Places in an object store

`s3://bucket/key`. A bucket is a nonempty name without slashes, and this is part of the type; the
key may be any text.
-/

set_option autoImplicit false

namespace JobStaging

/-- A bucket and a key in it. -/
structure S3Uri where
  bucket : String
  key : String
  bucket_ne : bucket ≠ ""
  slash_notMem : '/' ∉ bucket.toList
  deriving DecidableEq, Repr

namespace S3Uri

/-- How every such place begins. -/
def scheme : String := "s3://"

/-- The place of a bucket and a key, if the bucket has a proper name. -/
def ofParts (bucket key : String) : Except Rejection S3Uri :=
  if h : bucket ≠ "" ∧ '/' ∉ bucket.toList then .ok ⟨bucket, key, h.1, h.2⟩
  else .error (.invalidBucket bucket)

/-- Reads `s3://bucket/key`; without a slash after the bucket the key is empty. -/
def parse (text : String) : Except Rejection S3Uri :=
  if scheme.toList.isPrefixOf text.toList then
    let rest := text.toList.drop scheme.toList.length
    match Text.cutAt '/' rest with
    | some (bucket, key) => ofParts (String.ofList bucket) (String.ofList key)
    | none => ofParts (String.ofList rest) ""
  else .error (.notS3Uri text)

/-- The text of a place, always with a slash after the bucket. -/
def text (u : S3Uri) : String := scheme ++ u.bucket ++ "/" ++ u.key

/-- A text without the slashes at its front. -/
def dropSlashes (cs : List Char) : List Char := cs.dropWhile (· == '/')

/-- A key with a segment after it: one slash between them, however many they had at that end. An
empty key becomes the segment. -/
def joinKey (key segment : List Char) : List Char :=
  if key = [] then dropSlashes segment
  else (dropSlashes key.reverse).reverse ++ '/' :: dropSlashes segment

/-- A place below another. -/
def join (u : S3Uri) (segment : String) : S3Uri :=
  { u with key := String.ofList (joinKey u.key.toList segment.toList) }

/-- Below an object the bucket is the same. -/
@[simp] theorem bucket_join (u : S3Uri) (segment : String) : (u.join segment).bucket = u.bucket :=
  rfl

end S3Uri

end JobStaging
