import JobStaging.Proofs.Environment.Delivery

/-!
# When the variables go into a file

Of the three modes one decides by the number of bytes that all variables would take inline. The
number is a sum over the map in which the variables have been put together, so it is told apart into
what says where the job runs, its identifier and its own variables (`size_inlineVariables`); no name
is lost on the way because parameters may not have the names that staging sets. Own variables that
are more, or have longer values, take at least as many bytes, in whatever order they come
(`size_le_of_covers`): their names are a part of the names of the others, each once. The main
statement, `file_chosen_from_threshold_on`, says that the mode is the one without a file below the
threshold and the one with a file from it on, and that a file that was chosen stays chosen when
variables are added or grow.
-/

set_option autoImplicit false

namespace JobStaging.Environment

variable {id : String} {i : Infrastructure} {vars more own : OrderedMap String}
  {threshold : UInt64} {working : MountedPath}

/-! ## Sizes -/

/-- The bytes of one variable: its name, its value and one more. -/
def entrySize (e : String × String) : Nat := e.1.utf8ByteSize + e.2.utf8ByteSize + 1

/-- The bytes of a list of variables. -/
def totalSize (entries : List (String × String)) : Nat := (entries.map entrySize).sum

/-- The size of some variables is that of their entries. -/
theorem size_eq_totalSize (vars : OrderedMap String) : size vars = totalSize vars.entries := by
  unfold size totalSize
  induction vars.entries with
  | nil => rfl
  | cons e rest ih =>
    rw [List.foldr_cons, List.map_cons, List.sum_cons, ih]
    rfl

/-- Sizes of lists are added up. -/
theorem totalSize_append (entries rest : List (String × String)) :
    totalSize (entries ++ rest) = totalSize entries + totalSize rest := by
  unfold totalSize
  rw [List.map_append, List.sum_append]

/-- The variables that are passed inline take what those that say where the job runs take, and what
its own take. -/
theorem size_inlineVariables (hown : OwnNames own) :
    size (inlineVariables i own) = totalSize (i.entries none) + totalSize own.entries := by
  rw [size_eq_totalSize, entries_inlineVariables hown, totalSize_append]

/-! ## More variables and longer values -/

/-- A map covers another when it has all its names, with values that are at least as long. -/
def Covers (more vars : OrderedMap String) : Prop :=
  ∀ e ∈ vars.entries, ∃ value, more.get? e.1 = some value ∧
    e.2.utf8ByteSize ≤ value.utf8ByteSize

/-- All names that are covered are among those of the map that covers. -/
theorem Covers.keys_subset (h : Covers more vars) : vars.keys ⊆ more.keys := by
  intro name hname
  obtain ⟨e, he, rfl⟩ := List.mem_map.1 hname
  obtain ⟨value, hvalue, -⟩ := h e he
  exact OrderedMap.contains_iff.1 (OrderedMap.contains_of_get? hvalue)

/-- A map that covers another takes at least as many bytes, whatever the order of its names. -/
theorem size_le_of_covers (h : Covers more vars) :
    totalSize vars.entries ≤ totalSize more.entries := by
  -- Both sums are compared with sums over names, where a name weighs what it has in `more`.
  let weight : String → Nat := fun name => entrySize (name, (more.get? name).getD "")
  have hgrown : totalSize vars.entries ≤ (vars.keys.map weight).sum := by
    unfold totalSize OrderedMap.keys
    rw [List.map_map]
    apply List.sum_le_sum
    intro e he
    obtain ⟨value, hvalue, hlonger⟩ := h e he
    simp only [weight, Function.comp_apply, hvalue, Option.getD_some, entrySize]
    omega
  have hmore : (more.keys.map weight).sum = totalSize more.entries := by
    unfold totalSize OrderedMap.keys
    rw [List.map_map]
    congr 1
    apply List.map_congr_left
    intro e he
    simp only [weight, Function.comp_apply, OrderedMap.get?_of_mem he, Option.getD_some]
  rw [← hmore]
  exact hgrown.trans (Lists.sum_le_sum_of_subset weight vars.nodup h.keys_subset)

/-- The identifier of the execution comes to the variables of the parameters, and to all that is
passed inline what says where the job runs. -/
theorem size_inline (hnames : vars.keys.forM checkName = .ok ()) :
    size (inlineVariables i (ownVariables id vars)) =
      totalSize (i.entries none) + (entrySize (executionId, id) + totalSize vars.entries) := by
  have hentries : (ownVariables id vars).entries = (executionId, id) :: vars.entries :=
    entries_ownVariables fun n hn => (checkNames_eq_ok_iff.1 hnames n hn).2
  rw [size_inlineVariables (ownNames_ownVariables id hnames), hentries]
  rfl

/-- What is passed inline takes at least as many bytes when the parameters cover others. -/
theorem size_inline_le_of_covers (hnames : more.keys.forM checkName = .ok ())
    (h : Covers more vars) : size (inlineVariables i (ownVariables id vars)) ≤
      size (inlineVariables i (ownVariables id more)) := by
  have hpass : vars.keys.forM checkName = .ok () := by
    rw [checkNames_eq_ok_iff] at hnames ⊢
    exact fun n hn => hnames n (h.keys_subset hn)
  rw [size_inline hpass, size_inline hnames]
  have hle := size_le_of_covers h
  omega

/-! ## Choosing -/

/-- The file is chosen when the variables would take as many bytes inline as the threshold says. -/
theorem plan_ifRequired : plan threshold id i vars .ifRequired working =
    if threshold.toNat ≤ size (inlineVariables i (ownVariables id vars)) then
      plan threshold id i vars .always working
    else plan threshold id i vars .never working := by
  unfold plan usesFile
  dsimp only
  split <;> simp_all

/-- A delivery uses a file when its variables take as many bytes inline as the threshold says. -/
theorem isSome_file_plan_iff : (plan threshold id i vars .ifRequired working).file.isSome = true ↔
    threshold.toNat ≤ size (inlineVariables i (ownVariables id vars)) := by
  rw [plan_ifRequired]
  split
  · next h => exact ⟨fun _ => h, fun _ => rfl⟩
  · next h => exact ⟨fun hfile => (Bool.false_ne_true hfile).elim, fun hle => absurd hle h⟩

/-- If a file is used as required, the variables are passed inline as long as those that are passed
inline take fewer bytes than the threshold, and through a file from the threshold on. A file that is
used is also used for all variables that have the same names and more, in any order, with values
that are no shorter, if the names of the parameters pass. -/
theorem file_chosen_from_threshold_on (threshold : UInt64) (id : String) (i : Infrastructure)
    (vars : OrderedMap String) (working : MountedPath) :
    let inline := plan threshold id i vars .never working
    let total := (inline.inline.entries.map fun e =>
      e.1.utf8ByteSize + e.2.utf8ByteSize + 1).sum
    (total < threshold.toNat → plan threshold id i vars .ifRequired working = inline) ∧
      (threshold.toNat ≤ total → plan threshold id i vars .ifRequired working =
        plan threshold id i vars .always working) ∧
      ∀ more : OrderedMap String, more.keys.forM checkName = .ok () →
        (∀ e ∈ vars.entries, ∃ value, more.get? e.1 = some value ∧
          e.2.utf8ByteSize ≤ value.utf8ByteSize) →
        (plan threshold id i vars .ifRequired working).file.isSome = true →
        (plan threshold id i more .ifRequired working).file.isSome = true := by
  intro inline total
  have htotal : size (inlineVariables i (ownVariables id vars)) = total :=
    size_eq_totalSize _
  refine ⟨?_, ?_, ?_⟩
  · intro hbelow
    rw [plan_ifRequired, htotal, if_neg (Nat.not_le.2 hbelow)]
  · intro hreached
    rw [plan_ifRequired, htotal, if_pos hreached]
  · intro more hnames hcovers hfile
    rw [isSome_file_plan_iff] at hfile ⊢
    exact hfile.trans (size_inline_le_of_covers hnames hcovers)

/-- With 101 bytes inline a threshold of 102 is not reached and one of 101 is, and it stays reached
when the value gets as many bytes in fewer characters and another name comes before it. -/
theorem file_chosen_from_threshold_on_of_sample :
    let i : Infrastructure := ⟨"dev", "us-west-2", ⟨"/scratch/run-1"⟩, ⟨"/scratch/tmp"⟩⟩
    let working : MountedPath :=
      ⟨⟨"/scratch/run-1"⟩, ⟨"fs-12345678", ⟨"/run-1"⟩, by decide, by decide⟩⟩
    let vars := OrderedMap.ofList [("A", "1234")]
    let more := OrderedMap.ofList [("Z", ""), ("A", "éé")]
    plan 102 "run-1" i vars .ifRequired working = plan 102 "run-1" i vars .never working ∧
      plan 101 "run-1" i vars .ifRequired working = plan 101 "run-1" i vars .always working ∧
      (plan 101 "run-1" i more .ifRequired working).file.isSome = true := by
  intro i working vars more
  have hreached : plan 101 "run-1" i vars .ifRequired working = _ :=
    (file_chosen_from_threshold_on 101 "run-1" i vars working).2.1 (by decide +kernel)
  refine ⟨(file_chosen_from_threshold_on 102 "run-1" i vars working).1 (by decide +kernel),
    hreached, ?_⟩
  refine (file_chosen_from_threshold_on 101 "run-1" i vars working).2.2 more rfl ?_ ?_
  · decide +kernel
  · rw [hreached]
    rfl

end JobStaging.Environment
