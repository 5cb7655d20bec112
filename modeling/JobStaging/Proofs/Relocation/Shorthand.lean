import JobStaging.Proofs.Json.Record
import JobStaging.Proofs.Relocation
import Mathlib.Data.List.Infix

/-!
# Bindings that are written as one text

A parameter may say in one text what it is called in the container and where its data lies, with a
mark between the halves, or give the halves one by one. The text is cut at the first mark in it, so
the halves are found again when no mark begins before the one that was put there; the space behind
the name is all that could complete such a mark (`cutAtText_halvesMark`). Relocation sees a value
through its halves alone and replaces it when data moves for it, so that nothing is left by which
the two ways of writing it could be told apart (`relocate_shorthand`).
-/

set_option autoImplicit false

namespace JobStaging

namespace Text

variable {sep before after : List Char}

/-- A text that does not occur earlier is found where it was put. -/
theorem cutAtText_append (hne : sep ≠ []) (h : ¬ sep <:+: (before ++ sep).dropLast) :
    cutAtText sep (before ++ (sep ++ after)) = some (before, after) := by
  induction before with
  | nil =>
    obtain ⟨c, rest, rfl⟩ := List.exists_cons_of_ne_nil hne
    have hfound : (c :: rest).isPrefixOf (c :: (rest ++ after)) = true :=
      List.isPrefixOf_iff_prefix.2 (List.prefix_append (c :: rest) after)
    rw [List.nil_append, List.cons_append, cutAtText, if_pos hfound, ← List.cons_append,
      List.drop_left]
  | cons c before ih =>
    have hlonger : (c :: (before ++ sep)).dropLast = c :: (before ++ sep).dropLast :=
      List.dropLast_cons_of_ne_nil (by simp [hne])
    rw [List.cons_append, hlonger] at h
    -- If the text began here, all of it would stand before the last character of the one put there.
    have hfirst : ¬ sep <+: c :: (before ++ (sep ++ after)) := by
      intro hprefix
      have hshort : c :: (before ++ sep).dropLast <+: c :: (before ++ (sep ++ after)) := by
        rw [List.cons_prefix_cons, ← List.append_assoc]
        exact ⟨rfl, (List.dropLast_prefix _).trans (List.prefix_append _ _)⟩
      have hlength : sep.length ≤ (c :: (before ++ sep).dropLast).length := by
        have hpos : 0 < sep.length := List.length_pos_iff.2 hne
        simp only [List.length_cons, List.length_dropLast, List.length_append]
        omega
      exact h (List.prefix_of_prefix_length_le hprefix hshort hlength).isInfix
    have hrest : ¬ sep <:+: (before ++ sep).dropLast := fun hlater =>
      h (hlater.trans (List.suffix_cons c _).isInfix)
    rw [List.cons_append, cutAtText, if_neg (by rwa [List.isPrefixOf_iff_prefix]), ih hrest]
    rfl

end Text

namespace ParameterValue

variable {localName remote text : String} {left right : List Char} {d : DataPath}

/-- A text with a mark is read half by half; blanks alone are no name. -/
theorem binding_of_mark (h : Text.cutAtText halvesMark text.toList = some (left, right)) :
    binding (.literal text) = (DataPath.parse (String.ofList (Text.trim right))).map fun remote =>
      ⟨if Text.trim left = [] then none else some (String.ofList (Text.trim left)), some remote⟩ := by
  show bindingOfText text = _
  unfold bindingOfText
  rw [h]
  rfl

/-- A text without a mark is a place outside, or else what something is called in the container. -/
theorem binding_of_no_mark (h : Text.cutAtText halvesMark text.toList = none) :
    binding (.literal text) = (DataPath.parse text).map fun d =>
      if d.isRemote then ⟨none, some d⟩ else ⟨some text, none⟩ := by
  show bindingOfText text = _
  unfold bindingOfText
  rw [h]
  cases DataPath.parse text with
  | error cause => rfl
  | ok d => cases d <;> rfl

/-- The mark is found behind a name in which, with a space after it, there is none. -/
theorem cutAtText_halvesMark (h : ¬ halvesMark <:+: left ++ [' ']) :
    Text.cutAtText halvesMark (left ++ (halvesMark ++ right)) = some (left, right) := by
  apply Text.cutAtText_append (by decide)
  have hlast : (left ++ halvesMark).dropLast = left ++ [' '] ++ ['@'] := by
    rw [List.dropLast_append_of_ne_nil (by decide), List.append_assoc]
    rfl
  rw [hlast, List.infix_concat_iff]
  -- The mark ends with a space, so it does not end with the character before its end.
  rintro (hsuffix | hinfix)
  · obtain ⟨earlier, hearlier⟩ := hsuffix
    have hends := congrArg List.getLast? hearlier
    simp [halvesMark] at hends
  · exact h hinfix

/-- The halves that are written as one text are those that it is read as. -/
theorem binding_shorthand (hne : localName ≠ "") (htrimmed : Text.trimmed localName = localName)
    (hmark : ¬ halvesMark <:+: (localName ++ " ").toList)
    (htrimmed' : Text.trimmed remote = remote) (hplace : DataPath.parse remote = .ok d) :
    binding (.literal (localName ++ " @ " ++ remote)) = .ok ⟨some localName, some d⟩ := by
  have htrim : ∀ text : String, Text.trimmed text = text → Text.trim text.toList = text.toList := by
    intro text h
    have hchars := congrArg String.toList h
    rwa [Text.trimmed, String.toList_ofList] at hchars
  have htext : (localName ++ " @ " ++ remote).toList =
      localName.toList ++ (halvesMark ++ remote.toList) := by
    simp [halvesMark]
  have hcut : Text.cutAtText halvesMark (localName ++ " @ " ++ remote).toList =
      some (localName.toList, remote.toList) := by
    rw [htext]
    apply cutAtText_halvesMark
    simpa using hmark
  have hname : localName.toList ≠ [] := fun h => hne (String.toList_eq_nil_iff.1 h)
  rw [binding_of_mark hcut, htrim localName htrimmed, htrim remote htrimmed']
  simp only [String.ofList_toList, hplace, hname, if_false]
  rfl

-- Before a name that ends with a space and a sign, the text is cut too early.
example : binding (.literal "a @ @ s3://b") = .ok ⟨some "a", some (.localPath ⟨"@ s3://b"⟩)⟩ := rfl

/-- The halves one by one, as they are read from an object. -/
theorem decode_halves (hplace : DataPath.parse remote = .ok d) :
    decode (.object [("local", .string localName), ("remote", .string remote)]) =
      .ok (.pair ⟨some localName, some d⟩) := by
  have hrecord : Binding.record.decode
      (.object [("local", .string localName), ("remote", .string remote)]) =
        .ok ⟨some localName, some d⟩ := by
    apply Record.Recovers.decodeWith_object
    · refine .seq (.map (.fieldOr (.string localName) rfl)) (.fieldOr (.string remote) ?_)
      have hgiven : Json.string remote ≠ .null := nofun
      rw [Decoder.nullable_of_ne hgiven, Decoder.parsed_string hplace]
      rfl
    · decide
    · rfl
  unfold decode
  rw [hrecord]

end ParameterValue

namespace Relocation

variable {p q : Parameters} {base shared working : MountedPath} {isolate : Bool} {name : String}
  {value value' : ParameterValue}

/-- Parameters with the value of one name set. -/
def withValue (p : Parameters) (name : String) (value : ParameterValue) : Parameters :=
  { p with values := p.values.insert name value }

/-- The value that is set binds its name, and all other names are bound as before. -/
theorem bindingOf_withValue (n : String) :
    bindingOf (withValue p name value) n = if n = name then value.binding else bindingOf p n := by
  unfold bindingOf withValue
  rw [OrderedMap.get?_insert]
  by_cases h : n = name
  · rw [if_pos h, if_pos h]
  · rw [if_neg h, if_neg h]

/-- What is found for an input depends on nothing but the halves of its value. -/
theorem input_congr (h : bindingOf p name = bindingOf q name) :
    input p base name = input q base name := by
  unfold input
  rw [h]

/-- What is found for an output depends on the halves of its value and the common root. -/
theorem output_congr (h : bindingOf p name = bindingOf q name)
    (hroot : p.outputRoot = q.outputRoot) :
    output p working name = output q working name := by
  unfold output outputRemote
  rw [h, hroot]

/-- When data moves for a listed name, a new value is set for it. -/
theorem mem_entries_of_listed {found : List (Option DataBinding)} {data : List DataBinding}
    (hfound : p.inputs.mapM (input p base) = .ok found)
    (hdata : p.outputs.mapM (output p working) = .ok data)
    (hlisted : name ∈ p.inputs ∨ name ∈ p.outputs)
    (hmoves : ∀ binding, bindingOf p name = .ok binding → binding.remote ≠ none) :
    name ∈ ((found.filterMap id ++ data).map DataBinding.entry).map Prod.fst := by
  have hnamed : ∃ d ∈ found.filterMap id ++ data, d.name = name := by
    rcases hlisted with hlisted | hlisted
    · obtain ⟨f, hf, hrun⟩ :=
        Lists.exists_mem_of_forall₂ (Fallible.mapM_eq_ok_iff.1 hfound).flip hlisted
      obtain ⟨binding, hbinding, ⟨hnone, -⟩ | ⟨remote, -, -, -, rfl⟩⟩ := input_eq_ok_iff.1 hrun
      · exact absurd hnone (hmoves binding hbinding)
      · exact ⟨_, List.mem_append_left _ (List.mem_filterMap.2 ⟨_, hf, rfl⟩), rfl⟩
    · obtain ⟨d, hd, hrun⟩ :=
        Lists.exists_mem_of_forall₂ (Fallible.mapM_eq_ok_iff.1 hdata).flip hlisted
      exact ⟨d, List.mem_append_right _ hd, name_of_output hrun⟩
  obtain ⟨d, hd, rfl⟩ := hnamed
  rw [List.map_map]
  exact List.mem_map_of_mem (f := Prod.fst ∘ DataBinding.entry) hd

/-- Values with the same halves are relocated to the same when data moves for them. -/
theorem relocate_withValue_congr (hlisted : name ∈ p.inputs ∨ name ∈ p.outputs)
    (hsame : value.binding = value'.binding)
    (hmoves : ∀ binding, value'.binding = .ok binding → binding.remote ≠ none) :
    relocate (withValue p name value) shared working isolate =
      relocate (withValue p name value') shared working isolate := by
  have hbinding : ∀ n,
      bindingOf (withValue p name value) n = bindingOf (withValue p name value') n := by
    intro n
    rw [bindingOf_withValue, bindingOf_withValue, hsame]
  have hinput : ∀ base, input (withValue p name value) base = input (withValue p name value') base :=
    fun base => funext fun n => input_congr (hbinding n)
  have houtput : output (withValue p name value) working = output (withValue p name value') working :=
    funext fun n => output_congr (hbinding n) rfl
  unfold relocate
  rw [houtput]
  simp only [hinput]
  apply Fallible.bind_congr_of_ok
  intro _ _
  apply Fallible.bind_congr_of_ok
  intro found hfound
  apply Fallible.bind_congr_of_ok
  intro data hdata
  -- Both runs have come to the same data, and what is left of either value is overwritten by it.
  have hset : name ∈ ((found.filterMap id ++ data).map DataBinding.entry).map Prod.fst := by
    apply mem_entries_of_listed hfound hdata hlisted
    intro binding hgiven
    rw [bindingOf_withValue, if_pos rfl] at hgiven
    exact hmoves binding hgiven
  have hvalues : (withValue p name value).values.insertAll
      ((found.filterMap id ++ data).map DataBinding.entry) =
        (withValue p name value').values.insertAll
          ((found.filterMap id ++ data).map DataBinding.entry) := by
    refine OrderedMap.insertAll_congr ?_ ?_ hset
    · simp only [withValue, OrderedMap.keys_insert]
    · intro other hother
      simp only [withValue, OrderedMap.get?_insert, if_neg hother]
  rw [hvalues]
  rfl

/-- A name and a place with a mark between them, and an object with the two as its members, are
interchangeable as the value of an input or output: relocation comes to the same either way, whether
it succeeds or fails. The name must be there and hold no mark, also with the space of the mark that
follows it, and neither half may have blanks at its ends. -/
theorem relocate_shorthand {localName remote : String} {d : DataPath}
    (hlisted : name ∈ p.inputs ∨ name ∈ p.outputs) (hne : localName ≠ "")
    (htrimmed : Text.trimmed localName = localName)
    (hmark : ¬ ParameterValue.halvesMark <:+: (localName ++ " ").toList)
    (htrimmed' : Text.trimmed remote = remote) (hplace : DataPath.parse remote = .ok d)
    (shared working : MountedPath) (isolate : Bool) :
    ParameterValue.decode (.object [("local", .string localName), ("remote", .string remote)]) =
      .ok (.pair ⟨some localName, some d⟩) ∧
    relocate (withValue p name (.literal (localName ++ " @ " ++ remote))) shared working isolate =
      relocate (withValue p name (.pair ⟨some localName, some d⟩)) shared working isolate := by
  refine ⟨ParameterValue.decode_halves hplace, ?_⟩
  apply relocate_withValue_congr hlisted
  · exact ParameterValue.binding_shorthand hne htrimmed hmark htrimmed' hplace
  · intro binding hbinding hnone
    cases hbinding
    cases hnone

/-- One input that is read from outside, and one that is in the container. -/
def shorthandParameters : Parameters :=
  { Parameters.empty with
    inputs := ["READS", "MODE"]
    values := OrderedMap.ofList [("READS", .literal "reads.fq"), ("MODE", .literal "fast")] }

/-- An object whose key has a mark in it. -/
def markedObject : DataPath := .s3 ⟨"store", "x @ y", by decide, by decide⟩

/-- A sign in the name and a mark in the key are no marks between the halves, so data moves to that
name; a place in the container is refused in both ways of writing it. -/
theorem relocate_shorthand_of_signs :
    let shared : MountedPath := ⟨⟨"/mnt/shared"⟩, ⟨"fs-1", ⟨"/shared"⟩, by decide, by decide⟩⟩
    let working : MountedPath := ⟨⟨"/mnt/run-1"⟩, ⟨"fs-2", ⟨"/run-1"⟩, by decide, by decide⟩⟩
    let reads (value : ParameterValue) := withValue shorthandParameters "READS" value
    "READS" ∈ shorthandParameters.inputs ∧ "a@b" ≠ "" ∧ Text.trimmed "a@b" = "a@b" ∧
    ¬ ParameterValue.halvesMark <:+: ("a@b" ++ " ").toList ∧
    Text.trimmed "s3://store/x @ y" = "s3://store/x @ y" ∧
    DataPath.parse "s3://store/x @ y" = .ok markedObject ∧
    (∃ relocated,
      relocate (reads (.literal "a@b @ s3://store/x @ y")) shared working false = .ok relocated ∧
      relocate (reads (.pair ⟨some "a@b", some markedObject⟩)) shared working false = .ok relocated ∧
      relocated.inputs = [⟨"READS", shared.join ⟨"a@b"⟩, markedObject⟩]) ∧
    relocate (reads (.literal "a@b @ y")) shared working false =
      .error (.localRemote "READS" ⟨"y"⟩) ∧
    relocate (reads (.pair ⟨some "a@b", some (.localPath ⟨"y"⟩)⟩)) shared working false =
      .error (.localRemote "READS" ⟨"y"⟩) := by
  intro shared working reads
  have hlisted : "READS" ∈ shorthandParameters.inputs := List.mem_cons_self
  have hname : Text.trimmed "a@b" = "a@b" := rfl
  have hmark : ¬ ParameterValue.halvesMark <:+: ("a@b" ++ " ").toList := by decide
  have htext : Text.trimmed "s3://store/x @ y" = "s3://store/x @ y" := rfl
  have hplace : DataPath.parse "s3://store/x @ y" = .ok markedObject := rfl
  have hsame := (relocate_shorthand (.inl hlisted) (by decide) hname hmark htext hplace shared working
    false).2
  have hinside : Text.trimmed "y" = "y" ∧ DataPath.parse "y" = .ok (.localPath ⟨"y"⟩) := ⟨rfl, rfl⟩
  have hrefused := (relocate_shorthand (.inl hlisted) (by decide) hname hmark hinside.1 hinside.2
    shared working false).2
  have hruns : ∃ relocated,
      relocate (reads (.pair ⟨some "a@b", some markedObject⟩)) shared working false = .ok relocated ∧
      relocated.inputs = [⟨"READS", shared.join ⟨"a@b"⟩, markedObject⟩] := by
    refine ⟨_, rfl, ?_⟩
    rfl
  obtain ⟨relocated, hpair, hinputs⟩ := hruns
  refine ⟨hlisted, by decide, hname, hmark, htext, hplace, ?_, ?_, rfl⟩
  · exact ⟨relocated, hsame.trans hpair, hpair, hinputs⟩
  · exact hrefused.trans rfl

end Relocation

end JobStaging
