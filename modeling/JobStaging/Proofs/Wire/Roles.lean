import JobStaging.Assembly
import JobStaging.Proofs.Json.Record

/-!
# One candidate or a list of them

The field of a role takes a list of candidates or a single one, and a candidate may itself be given
as an array, of the values of its fields. So an array could be taken for either. It is not: the
first field of a candidate is a text or nothing, and neither of these is a candidate, so that only
the array without elements can be read in both ways (`Candidate.eq_nil_of_both`), and that one is
read as a list. The main statement is `roles_read_one_or_many`.
-/

set_option autoImplicit false

namespace JobStaging

open Assembly (Role)

variable {j v : Json} {c : Candidate} {cs : List Candidate} {p : Placement}
  {before after members : List (String × Json)}

namespace Candidate

/-! ## The two readings -/

/-- What an array gives for a candidate's first field is a text or nothing. -/
theorem first_of_decode {rest : List Json} (h : decode (.array (j :: rest)) = .ok c) :
    j = .null ∨ ∃ text, j = .string text := by
  obtain ⟨⟨candidate, left⟩, hall, -⟩ := Fallible.bind_eq_ok_iff.1 h
  obtain ⟨⟨withTwo, left⟩, htwo, -⟩ := Fallible.bind_eq_ok_iff.1 hall
  obtain ⟨⟨withOne, left⟩, hone, -⟩ := Fallible.bind_eq_ok_iff.1 htwo
  obtain ⟨⟨first, left⟩, hfirst, -⟩ := Fallible.map_eq_ok_iff.1 hone
  have hread : Decoder.nullable Decoder.string j = .ok first := Record.decode_of_first hfirst
  cases j with
  | null => exact .inl rfl
  | string text => exact .inr ⟨text, rfl⟩
  | _ => cases hread

/-- Only the array without elements is both a candidate and a list of candidates. -/
theorem eq_nil_of_both (hone : decode v = .ok c) (hmany : Decoder.list decode v = .ok cs) :
    v = .array [] := by
  unfold Decoder.list at hmany
  split at hmany
  · next elements =>
    cases elements with
    | nil => rfl
    | cons j rest =>
      -- as an element the value is a candidate, as a first field it is a text or nothing
      have hfirst : j ∈ j :: rest := List.mem_cons_self
      obtain ⟨c', -, hj⟩ :=
        Lists.exists_mem_of_forall₂ (Fallible.mapM_eq_ok_iff.1 hmany).flip hfirst
      rcases first_of_decode hone with rfl | ⟨text, rfl⟩ <;> cases hj
  · cases hmany

/-- Nothing at all is no candidate. -/
theorem ne_null_of_decode (h : decode v = .ok c) : v ≠ .null := by
  rintro rfl
  cases h

/-- A candidate stands for the list of it alone, unless it is the empty array. -/
theorem oneOrMany_of_decode (h : decode v = .ok c) (hne : v ≠ .array []) :
    Decoder.oneOrMany decode v = .ok [c] := by
  have hmany : ∀ cs, Decoder.list decode v ≠ .ok cs := fun cs hcs => hne (eq_nil_of_both h hcs)
  unfold Decoder.oneOrMany Decoder.orElse
  cases hlist : Decoder.list decode v with
  | ok cs => exact absurd hlist (hmany cs)
  | error fault =>
    dsimp only
    rw [h]
    rfl

end Candidate

/-! ## The fields of the roles -/

namespace Placement

/-- A placement is read from members when each of its fields is. -/
theorem decode_object_iff : record.decode (.object members) = .ok p ↔
    (Record.fieldOr ["shared"] (Decoder.oneOrMany Candidate.decode) []).ofMembers members =
      .ok p.shared ∧
    (Record.fieldOr ["scratch"] (Decoder.oneOrMany Candidate.decode) []).ofMembers members =
      .ok p.scratch ∧
    (Record.optional ["tmp"] (Decoder.oneOrMany Candidate.decode)).ofMembers members = .ok p.tmp ∧
    (Record.fieldOr ["selection_strategy"] (Decoder.choice Strategy.names) .random).ofMembers members =
      .ok p.strategy := by
  unfold Record.decode Record.decodeWith
  dsimp only
  rw [Fallible.mapError_eq_ok_iff]
  constructor
  · intro h
    obtain ⟨_, strategy, h3, hstrategy, rfl⟩ := Record.both_eq_ok_iff.1 h
    obtain ⟨_, tmp, h2, htmp, rfl⟩ := Record.both_eq_ok_iff.1 h3
    obtain ⟨_, scratch, h1, hscratch, rfl⟩ := Record.both_eq_ok_iff.1 h2
    obtain ⟨shared, hshared, rfl⟩ := Fallible.map_eq_ok_iff.1 h1
    exact ⟨hshared, hscratch, htmp, hstrategy⟩
  · rintro ⟨hshared, hscratch, htmp, hstrategy⟩
    exact Record.both_eq_ok_iff.2 ⟨_, _, Record.both_eq_ok_iff.2 ⟨_, _, Record.both_eq_ok_iff.2
      ⟨_, _, Fallible.map_eq_ok_iff.2 ⟨_, hshared, rfl⟩, hscratch, rfl⟩, htmp, rfl⟩, hstrategy, rfl⟩

/-- A placement with the candidates of a role replaced. -/
def withCandidates (role : Role) (cs : List Candidate) (p : Placement) : Placement :=
  match role with
  | .shared => { p with shared := cs }
  | .scratch => { p with scratch := cs }
  | .tmp => { p with tmp := some cs }

end Placement

/-- A value stands for a list of candidates: this is what the readers of the fields make of it, and
whatever role it is given for among the members of a placement, the role has these candidates and
everything else is as it would be without it. -/
structure StandsFor (j : Json) (cs : List Candidate) : Prop where
  needed : Decoder.oneOrMany Candidate.decode j = .ok cs
  optional : Decoder.nullable (Decoder.oneOrMany Candidate.decode) j = .ok (some cs)
  given : ∀ (role : Role) before after p, (∀ e ∈ before ++ after, e.1 ≠ role.name) →
    Placement.record.decode (.object (before ++ after)) = .ok p →
    Placement.record.decode (.object (before ++ (role.name, j) :: after)) =
      .ok (p.withCandidates role cs)

/-- What one of the readers makes of a value, all of them do, when there is a value. -/
theorem standsFor_of_oneOrMany (hne : j ≠ .null)
    (h : Decoder.oneOrMany Candidate.decode j = .ok cs) : StandsFor j cs := by
  have hoptional : Decoder.nullable (Decoder.oneOrMany Candidate.decode) j = .ok (some cs) := by
    rw [Decoder.nullable_of_ne hne, h]
    rfl
  refine ⟨h, hoptional, fun role before after p hothers hread => ?_⟩
  obtain ⟨hshared, hscratch, htmp, hstrategy⟩ := Placement.decode_object_iff.1 hread
  have hnames : ∀ e ∈ before ++ after, e.1 ∉ [role.name] := by simpa using hothers
  rw [Placement.decode_object_iff]
  cases role with
  | shared =>
    exact ⟨(Record.fieldOr_of_member List.mem_cons_self hnames).2 h,
      (Record.fieldOr_of_other (by decide)).2 hscratch,
      (Record.fieldOr_of_other (by decide)).2 htmp,
      (Record.fieldOr_of_other (by decide)).2 hstrategy⟩
  | scratch =>
    exact ⟨(Record.fieldOr_of_other (by decide)).2 hshared,
      (Record.fieldOr_of_member List.mem_cons_self hnames).2 h,
      (Record.fieldOr_of_other (by decide)).2 htmp,
      (Record.fieldOr_of_other (by decide)).2 hstrategy⟩
  | tmp =>
    exact ⟨(Record.fieldOr_of_other (by decide)).2 hshared,
      (Record.fieldOr_of_other (by decide)).2 hscratch,
      (Record.fieldOr_of_member List.mem_cons_self hnames).2 hoptional,
      (Record.fieldOr_of_other (by decide)).2 hstrategy⟩

/-- Nothing at all, given for temporary files, is as if it had not been given. -/
theorem decode_with_null (hothers : ∀ e ∈ before ++ after, e.1 ≠ Role.tmp.name)
    (hread : Placement.record.decode (.object (before ++ after)) = .ok p) :
    Placement.record.decode (.object (before ++ (Role.tmp.name, .null) :: after)) = .ok p := by
  obtain ⟨hshared, hscratch, htmp, hstrategy⟩ := Placement.decode_object_iff.1 hread
  have hnames : ∀ e ∈ before ++ after, e.1 ∉ ["tmp"] := by simpa [Role.name] using hothers
  have hnone : p.tmp = none := by
    rcases Record.fieldOr_eq_ok_iff.1 htmp with ⟨-, hnone⟩ | ⟨e, hone, -⟩
    · exact hnone
    · rw [Record.named_eq_nil_iff.2 hnames] at hone
      cases hone
  refine Placement.decode_object_iff.2 ⟨(Record.fieldOr_of_other (by decide)).2 hshared,
    (Record.fieldOr_of_other (by decide)).2 hscratch,
    (Record.fieldOr_of_member List.mem_cons_self hnames).2 ?_,
    (Record.fieldOr_of_other (by decide)).2 hstrategy⟩
  rw [hnone]
  rfl

/-- A value that is read as one candidate and is not the empty array stands for that candidate
alone, and so does the list with this value in it. A list of such values stands for their candidates
in order, the empty list for none, and for temporary files nothing at all is as good as no field. No
value but the empty array can be read both as one candidate and as a list. -/
theorem roles_read_one_or_many :
    (∀ v c, Candidate.decode v = .ok c → v ≠ .array [] →
      StandsFor v [c] ∧ StandsFor (.array [v]) [c]) ∧
    (∀ vs cs, List.Forall₂ (fun v c => Candidate.decode v = .ok c) vs cs →
      StandsFor (.array vs) cs) ∧
    StandsFor (.array []) [] ∧
    (Decoder.nullable (Decoder.oneOrMany Candidate.decode) .null = .ok none ∧
      ∀ before after p, (∀ e ∈ before ++ after, e.1 ≠ Role.tmp.name) →
        Placement.record.decode (.object (before ++ after)) = .ok p →
        Placement.record.decode (.object (before ++ (Role.tmp.name, .null) :: after)) = .ok p) ∧
    ∀ v c cs, Candidate.decode v = .ok c → Decoder.list Candidate.decode v = .ok cs →
      v = .array [] := by
  have hlist : ∀ vs cs, List.Forall₂ (fun v c => Candidate.decode v = .ok c) vs cs →
      StandsFor (.array vs) cs := by
    intro vs cs h
    have hmany : Decoder.list Candidate.decode (.array vs) = .ok cs := Fallible.mapM_eq_ok_iff.2 h
    exact standsFor_of_oneOrMany nofun (Decoder.oneOrMany_of_list hmany)
  refine ⟨?one, hlist, hlist [] [] .nil, ⟨rfl, ?absent⟩, ?apart⟩
  case one =>
    intro v c h hne
    constructor
    · exact standsFor_of_oneOrMany (Candidate.ne_null_of_decode h)
        (Candidate.oneOrMany_of_decode h hne)
    · exact hlist [v] [c] (.cons h .nil)
  case absent =>
    intro before after p hothers hread
    exact decode_with_null hothers hread
  case apart =>
    intro v c cs hone hmany
    exact Candidate.eq_nil_of_both hone hmany

/-- A placement with a shared directory and a strategy, and with nothing yet for the working
directory or for temporary files. -/
def sharedMembers : List (String × Json) :=
  [("shared", .array [.string "fs-1"]), ("selection_strategy", .string "LEAST_UTILIZED")]

/-- A candidate of two values alone and in a list, a list in which candidates are given in three
ways, and temporary files with nothing for them. -/
theorem roles_read_one_or_many_of_samples :
    let pair := Json.array [.null, .string "fsap-1"]
    let other := Json.object [("file_system_id", .string "fs-2"), ("container_path", .null)]
    let shared : Placement := ⟨[⟨some "fs-1", none, none⟩], [], none, .leastUtilized⟩
    Candidate.decode pair = .ok ⟨none, some "fsap-1", none⟩ ∧ pair ≠ .array [] ∧
    StandsFor pair [⟨none, some "fsap-1", none⟩] ∧
    StandsFor (.array [pair]) [⟨none, some "fsap-1", none⟩] ∧
    List.Forall₂ (fun v c => Candidate.decode v = .ok c) [.array [], other, pair]
      [⟨none, none, none⟩, ⟨some "fs-2", none, none⟩, ⟨none, some "fsap-1", none⟩] ∧
    StandsFor (.array [.array [], other, pair])
      [⟨none, none, none⟩, ⟨some "fs-2", none, none⟩, ⟨none, some "fsap-1", none⟩] ∧
    (∀ e ∈ sharedMembers ++ [], e.1 ≠ Role.tmp.name) ∧
    Placement.record.decode (.object (sharedMembers ++ [])) = .ok shared ∧
    Placement.record.decode (.object (sharedMembers ++ [(Role.tmp.name, .null)])) = .ok shared ∧
    Candidate.decode (.array []) = .ok ⟨none, none, none⟩ ∧
    Decoder.list Candidate.decode (.array []) = .ok [] := by
  intro pair other shared
  have hpair : Candidate.decode pair = .ok ⟨none, some "fsap-1", none⟩ := rfl
  have hne : pair ≠ .array [] := by decide
  have hlist : List.Forall₂ (fun v c => Candidate.decode v = .ok c) [.array [], other, pair]
      [⟨none, none, none⟩, ⟨some "fs-2", none, none⟩, ⟨none, some "fsap-1", none⟩] :=
    .cons rfl (.cons rfl (.cons rfl .nil))
  have hothers : ∀ e ∈ sharedMembers ++ [], e.1 ≠ Role.tmp.name := by decide
  have hshared : Placement.record.decode (.object (sharedMembers ++ [])) = .ok shared := rfl
  obtain ⟨hone, hmany, -, ⟨-, hnull⟩, -⟩ := roles_read_one_or_many
  obtain ⟨halone, hinList⟩ := hone pair _ hpair hne
  exact ⟨hpair, hne, halone, hinList, hlist, hmany _ _ hlist, hothers, hshared,
    hnull _ _ _ hothers hshared, rfl, rfl⟩

end JobStaging
