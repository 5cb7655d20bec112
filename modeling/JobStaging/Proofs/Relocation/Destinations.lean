import JobStaging.Proofs.Location
import JobStaging.Proofs.Relocation
import Mathlib.Data.List.Basic

/-!
# Where outputs go that name no destination

Such an output goes below the common root, under its local name, and the key of its object is that
of the root joined with the name. What a key means to who looks for the object are its segments, the
nonempty texts between slashes. Joining drops the slashes where key and name meet and puts one
there, except that an empty key gets none. Slashes at an end are no segments, so whichever of the
two happens, and whatever slashes stand elsewhere, the segments of the name come after those of the
key (`segments_join`). The main statement, `joining_appends_segments`, takes this to every output of
a relocation.
-/

set_option autoImplicit false

namespace JobStaging

namespace S3Uri

variable {cs key segment : List Char}

/-! ## Segments -/

/-- The nonempty texts between the slashes of a text. -/
def segmentsOf (cs : List Char) : List (List Char) :=
  (Text.split '/' cs).filter fun piece => piece ≠ []

/-- The segments of a key, or of what is joined to one. -/
def segments (text : String) : List (List Char) := segmentsOf text.toList

/-- The empty text has no segments. -/
@[simp] theorem segmentsOf_nil : segmentsOf [] = [] := rfl

/-- A slash ends a segment and begins another, whatever stands around it. -/
theorem segmentsOf_append_slash (xs ys : List Char) :
    segmentsOf (xs ++ '/' :: ys) = segmentsOf xs ++ segmentsOf ys := by
  unfold segmentsOf
  rw [Text.split_append_sep, List.filter_append]

/-- A slash at the front makes no segment. -/
theorem segmentsOf_slash (ys : List Char) : segmentsOf ('/' :: ys) = segmentsOf ys :=
  segmentsOf_append_slash [] ys

/-- What is dropped in front is slashes. -/
theorem exists_dropSlashes (cs : List Char) :
    ∃ n, cs = List.replicate n '/' ++ dropSlashes cs := by
  have hslashes : cs.takeWhile (· == '/') =
      List.replicate (cs.takeWhile (· == '/')).length '/' := by
    refine List.eq_replicate_iff.2 ⟨rfl, fun c hc => ?_⟩
    simpa using List.mem_takeWhile_imp hc
  refine ⟨(cs.takeWhile (· == '/')).length, ?_⟩
  rw [← hslashes]
  exact List.takeWhile_append_dropWhile.symm

/-- What is dropped at the end is slashes too. -/
theorem exists_dropSlashes_reverse (cs : List Char) :
    ∃ n, cs = (dropSlashes cs.reverse).reverse ++ List.replicate n '/' := by
  obtain ⟨n, hn⟩ := exists_dropSlashes cs.reverse
  refine ⟨n, ?_⟩
  have hback := congrArg List.reverse hn
  rwa [List.reverse_reverse, List.reverse_append, List.reverse_replicate] at hback

/-- Nor do several slashes at the front. -/
theorem segmentsOf_replicate_append (n : Nat) (ys : List Char) :
    segmentsOf (List.replicate n '/' ++ ys) = segmentsOf ys := by
  induction n with
  | zero => rw [List.replicate_zero, List.nil_append]
  | succ n ih => rw [List.replicate_succ, List.cons_append, segmentsOf_slash, ih]

/-- Nor do several slashes at the end. -/
theorem segmentsOf_append_replicate (xs : List Char) (n : Nat) :
    segmentsOf (xs ++ List.replicate n '/') = segmentsOf xs := by
  cases n with
  | zero => rw [List.replicate_zero, List.append_nil]
  | succ n =>
    have hslashes : segmentsOf (List.replicate n '/') = [] := by
      rw [← List.append_nil (List.replicate n '/'), segmentsOf_replicate_append, segmentsOf_nil]
    rw [List.replicate_succ, segmentsOf_append_slash, hslashes, List.append_nil]

/-- Dropping slashes at the front drops no segment. -/
theorem segmentsOf_dropSlashes (cs : List Char) : segmentsOf (dropSlashes cs) = segmentsOf cs := by
  obtain ⟨n, hn⟩ := exists_dropSlashes cs
  rw [← segmentsOf_replicate_append n, ← hn]

/-- The segments of a segment follow those of the key that it is joined to. -/
theorem segmentsOf_joinKey (key segment : List Char) :
    segmentsOf (joinKey key segment) = segmentsOf key ++ segmentsOf segment := by
  unfold joinKey
  split
  · next hempty => rw [hempty, segmentsOf_dropSlashes, segmentsOf_nil, List.nil_append]
  · -- the slash of the seam ends the last segment of the key as the dropped ones did
    obtain ⟨n, hn⟩ := exists_dropSlashes_reverse key
    have hkey : segmentsOf (dropSlashes key.reverse).reverse = segmentsOf key := by
      rw [← segmentsOf_append_replicate _ n, ← hn]
    rw [segmentsOf_append_slash, segmentsOf_dropSlashes, hkey]

/-- The segments of what is joined follow those of the object's key. -/
theorem segments_join (u : S3Uri) (segment : String) :
    segments (u.join segment).key = segments u.key ++ segments segment := by
  unfold segments join
  dsimp only
  rw [String.toList_ofList, segmentsOf_joinKey]

/-- The segments of two texts with a slash between them follow one another. -/
theorem segments_append_slash (a b : String) :
    segments (a ++ "/" ++ b) = segments a ++ segments b := by
  have htext : (a ++ "/" ++ b).toList = a.toList ++ '/' :: b.toList := by
    simp [String.toList_append]
  unfold segments
  rw [htext, segmentsOf_append_slash]

/-! ## The seam -/

/-- Two texts meet at one slash when, but for the slashes at the ends where they meet, they stand
one after the other with a single slash between them. -/
def MeetAtSlash (key segment joined : List Char) : Prop :=
  ∃ front x m n y back, x ≠ '/' ∧ y ≠ '/' ∧ key = front ++ x :: List.replicate m '/' ∧
    segment = List.replicate n '/' ++ y :: back ∧ joined = front ++ x :: '/' :: y :: back

/-- A text with more than slashes in it begins with another character once they are dropped. -/
theorem exists_dropSlashes_eq_cons (h : ∃ c ∈ cs, c ≠ '/') :
    ∃ y back, y ≠ '/' ∧ dropSlashes cs = y :: back := by
  have hne : dropSlashes cs ≠ [] := by
    intro hnil
    obtain ⟨c, hc, hother⟩ := h
    exact hother (eq_of_beq (List.dropWhile_eq_nil_iff.1 hnil c hc))
  refine ⟨(dropSlashes cs).head hne, (dropSlashes cs).tail, ?_, (List.cons_head_tail hne).symm⟩
  exact beq_eq_false_iff_ne.1 (List.head_dropWhile_not (· == '/') hne)

/-- A key and a segment are joined at one slash when both have more than slashes. -/
theorem meetAtSlash_joinKey (hkey : ∃ c ∈ key, c ≠ '/') (hsegment : ∃ c ∈ segment, c ≠ '/') :
    MeetAtSlash key segment (joinKey key segment) := by
  obtain ⟨y, back, hy, hback⟩ := exists_dropSlashes_eq_cons hsegment
  have hkey' : ∃ c ∈ key.reverse, c ≠ '/' := by simpa using hkey
  obtain ⟨x, front, hx, hfront⟩ := exists_dropSlashes_eq_cons hkey'
  obtain ⟨n, hn⟩ := exists_dropSlashes segment
  obtain ⟨m, hm⟩ := exists_dropSlashes_reverse key
  have hne : key ≠ [] := by
    rintro rfl
    simp at hkey
  refine ⟨front.reverse, x, m, n, y, back, hx, hy, ?_, ?_, ?_⟩
  · rw [hfront] at hm
    simpa using hm
  · rw [hback] at hn
    exact hn
  · unfold joinKey
    rw [if_neg hne, hfront, hback]
    simp

end S3Uri

namespace Relocation

variable {p : Parameters} {shared working : MountedPath} {isolate : Bool} {relocated : Relocated}

/-! ## Outputs -/

/-- An output that names no destination goes to an object in the bucket of the common root, whose
key has the segments of the root's key and then those of the output's local name. -/
def GoesBelowRoot (p : Parameters) (name : String) (d : DataBinding) : Prop :=
  d.name = name ∧ ∀ binding, bindingOf p name = .ok binding → binding.remote = none →
    ∃ root localName uri, p.outputRoot = some root ∧ binding.localName = some localName ∧
      d.remote = .s3 uri ∧ uri.bucket = root.bucket ∧
      S3Uri.segments uri.key = S3Uri.segments root.key ++ S3Uri.segments localName

/-- An output without a destination goes below the common root. -/
theorem goesBelowRoot_of_output {name : String} {d : DataBinding}
    (h : output p working name = .ok d) : GoesBelowRoot p name d := by
  obtain ⟨found, localName, hfound, hlocal, hremote, -, hname, -⟩ := output_eq_ok_iff.1 h
  refine ⟨hname, fun binding hbinding hnone => ?_⟩
  obtain rfl : found = binding := Except.ok.inj (hfound.symm.trans hbinding)
  have hgiven : found.localName = some localName := by
    unfold outputName at hlocal
    rw [hnone] at hlocal
    cases hgiven : found.localName with
    | none => simp [hgiven] at hlocal
    | some given =>
      rw [hgiven] at hlocal
      cases hlocal
      rfl
  unfold outputRemote at hremote
  rw [hnone] at hremote
  cases hroot : p.outputRoot with
  | none => simp [hroot] at hremote
  | some root =>
    rw [hroot] at hremote
    exact ⟨root, localName, root.join localName, rfl, hgiven, (Except.ok.inj hremote).symm,
      root.bucket_join localName, root.segments_join localName⟩

/-- Joining keeps the bucket and appends the segments of what is joined, so it does not matter
whether two texts are joined one after the other or at once with a slash between. A key and a
segment that have more than slashes in them meet at exactly one slash. Whenever relocation succeeds,
the outputs that name no destination therefore go where the segments of the common root lead, and
from there where those of their local names do. -/
theorem joining_appends_segments (u : S3Uri) (a b : String) :
    (u.join a).bucket = u.bucket ∧
    S3Uri.segments (u.join a).key = S3Uri.segments u.key ++ S3Uri.segments a ∧
    S3Uri.segments ((u.join a).join b).key = S3Uri.segments (u.join (a ++ "/" ++ b)).key ∧
    ((∃ c ∈ u.key.toList, c ≠ '/') → (∃ c ∈ a.toList, c ≠ '/') →
      S3Uri.MeetAtSlash u.key.toList a.toList (u.join a).key.toList) ∧
    ∀ p shared working isolate relocated, relocate p shared working isolate = .ok relocated →
      List.Forall₂ (GoesBelowRoot p) p.outputs relocated.outputs := by
  refine ⟨u.bucket_join a, u.segments_join a, ?_, ?_, ?_⟩
  · rw [S3Uri.segments_join, S3Uri.segments_join, S3Uri.segments_join,
      S3Uri.segments_append_slash, List.append_assoc]
  · intro hkey hsegment
    have hjoined : (u.join a).key.toList = S3Uri.joinKey u.key.toList a.toList :=
      String.toList_ofList
    rw [hjoined]
    exact S3Uri.meetAtSlash_joinKey hkey hsegment
  · intro p shared working isolate relocated h
    exact (forall₂_outputs h).imp fun name d hd => goesBelowRoot_of_output hd

/-- An output without a destination and one with, and where those without go. -/
def outputsBelow (root : S3Uri) : Parameters :=
  { Parameters.empty with
    outputs := ["HITS", "LOG"]
    values := OrderedMap.ofList [("HITS", .literal "out//hits.txt/"),
      ("LOG", .literal "run.log @ s3://logs/1")]
    outputRoot := some root }

/-- Slashes between segments stay as they are, and those where the texts meet become one. -/
theorem joining_appends_segments_of_slashes :
    let root : S3Uri := ⟨"data", "//runs///1//", by decide, by decide⟩
    let shared : MountedPath := ⟨⟨"/mnt/shared"⟩, ⟨"fs-1", ⟨"/shared"⟩, by decide, by decide⟩⟩
    let working : MountedPath := ⟨⟨"/mnt/run-1"⟩, ⟨"fs-2", ⟨"/run-1"⟩, by decide, by decide⟩⟩
    (∃ c ∈ root.key.toList, c ≠ '/') ∧ (∃ c ∈ "//out//".toList, c ≠ '/') ∧
    S3Uri.MeetAtSlash root.key.toList "//out//".toList (root.join "//out//").key.toList ∧
    (root.join "//out//").key = "//runs///1/out//" ∧
    ∃ relocated, relocate (outputsBelow root) shared working false = .ok relocated ∧
      List.Forall₂ (GoesBelowRoot (outputsBelow root)) ["HITS", "LOG"] relocated.outputs ∧
      relocated.outputs.map DataBinding.remote =
        [.s3 { root with key := "//runs///1/out//hits.txt/" },
          .s3 ⟨"logs", "1", by decide, by decide⟩] := by
  intro root shared working
  have hkey : ∃ c ∈ root.key.toList, c ≠ '/' := ⟨'1', by decide, by decide⟩
  have hsegment : ∃ c ∈ "//out//".toList, c ≠ '/' := ⟨'o', by decide, by decide⟩
  have hremotes : (relocate (outputsBelow root) shared working false).map
      (fun relocated => relocated.outputs.map DataBinding.remote) =
        .ok [.s3 { root with key := "//runs///1/out//hits.txt/" },
          .s3 ⟨"logs", "1", by decide, by decide⟩] := by
    decide +kernel
  obtain ⟨relocated, hrelocated, hremotes⟩ := Fallible.map_eq_ok_iff.1 hremotes
  obtain ⟨-, -, -, hseam, houtputs⟩ := joining_appends_segments root "//out//" ""
  exact ⟨hkey, hsegment, hseam hkey hsegment, by decide, relocated, hrelocated,
    houtputs _ _ _ _ _ hrelocated, hremotes⟩

end Relocation

end JobStaging
