import JobStaging.Mount
import JobStaging.Relocation
import JobStaging.Proofs.Fallible
import JobStaging.Proofs.Path.Components

/-!
# Places that a mount shows

A mount turns a path of the container into a place of a file system by cutting off its own path and
putting the access point's root in its stead. On components this is exactly what happens
(`components_of_efsPath`). A directory that is carried along as two paths is shown by a mount when
the mount turns the one into the other (`Shows`); the two may then go down side by side by any
relative path and stay a shown directory (`Shows.join`).
-/

set_option autoImplicit false

namespace JobStaging

namespace EfsPath

/-- The parts of a proper place make that place, and nothing else does. -/
theorem ofParts_eq_ok_iff {fileSystem : String} {path : Path} {e : EfsPath} :
    ofParts fileSystem path = .ok e ↔ e.fileSystem = fileSystem ∧ e.path = path := by
  unfold ofParts
  constructor
  · intro h
    split at h
    · split at h
      · cases h
        exact ⟨rfl, rfl⟩
      · cases h
    · cases h
  · rintro ⟨rfl, rfl⟩
    have hid : isFileSystemId e.fileSystem = true := e.isId
    rw [dif_pos hid, dif_pos e.absolute]

/-- Places are the same when their file systems and the components of their paths are. -/
theorem sameAs_iff {e f : EfsPath} : e.sameAs f = true ↔
    e.fileSystem = f.fileSystem ∧ e.path.components = f.path.components := by
  simp [sameAs, Path.sameAs]

/-- Every place is the same as itself. -/
theorem sameAs_refl (e : EfsPath) : e.sameAs e = true := sameAs_iff.2 ⟨rfl, rfl⟩

/-- Below a place the steps of a relative path follow its components. -/
theorem components_join (e : EfsPath) {p : Path} (hp : p.isAbsolute = false) :
    (e.join p).path.components = e.path.components ++ p.steps :=
  Path.components_join e.absolute hp

end EfsPath

namespace Mount

variable {m : Mount} {p : Path} {e : EfsPath} {d : MountedPath}

/-- A path in the container that has a place lies below the mount, and the components by which it
does follow those of the access point's root. -/
theorem components_of_efsPath (hm : m.path.isAbsolute = true) (h : m.efsPath p = .ok e) :
    ∃ after, p.components = m.path.components ++ after ∧ e.fileSystem = m.fileSystem ∧
      m.root.isAbsolute = true ∧ e.path.components = m.root.components ++ after := by
  unfold efsPath at h
  cases hbelow : m.path.below? p with
  | none => simp [hbelow] at h
  | some rest =>
    rw [hbelow] at h
    obtain ⟨hsystem, hpath⟩ := EfsPath.ofParts_eq_ok_iff.1 h
    have hrest : rest.isAbsolute = false := Path.isAbsolute_of_below? hbelow
    have habs : e.path.isAbsolute = true := e.absolute
    refine ⟨rest.steps, Path.components_of_below? hm hbelow, hsystem, ?_⟩
    rw [hpath] at habs ⊢
    split at habs
    · -- Nothing is left below the mount: the place is the root itself.
      next hempty =>
      obtain ⟨text⟩ := rest
      subst hempty
      refine ⟨habs, ?_⟩
      rw [if_pos rfl]
      exact (List.append_nil _).symm
    · next hne =>
      rw [Path.isAbsolute_join_of_relative hrest] at habs
      refine ⟨habs, ?_⟩
      rw [if_neg hne, Path.components_join habs hrest]

/-- A mount whose root is a proper place has a place for every path below it. -/
theorem exists_efsPath (hid : EfsPath.isFileSystemId m.fileSystem = true)
    (hroot : m.root.isAbsolute = true) (hp : m.path.components <+: p.components) :
    ∃ e, m.efsPath p = .ok e := by
  obtain ⟨rest, hbelow⟩ := Path.exists_below? hp
  have habs : (if rest.text = "" then m.root else m.root.join rest).isAbsolute = true := by
    split
    · exact hroot
    · exact Path.isAbsolute_join rest hroot
  refine ⟨⟨m.fileSystem, _, hid, habs⟩, ?_⟩
  unfold efsPath
  rw [hbelow]
  exact EfsPath.ofParts_eq_ok_iff.2 ⟨rfl, rfl⟩

/-- A mount shows a directory when it turns the directory's path in the container into the
directory's place. -/
def Shows (m : Mount) (d : MountedPath) : Prop :=
  ∃ e, m.efsPath d.container = .ok e ∧ e.sameAs d.efs = true

/-- A path is shown at the place that the mount gives it. -/
theorem shows_of_efsPath (h : m.efsPath p = .ok e) : m.Shows ⟨p, e⟩ := ⟨e, h, e.sameAs_refl⟩

/-- What a mount shows lies as deep below its path as below the access point's root. -/
theorem Shows.components (hm : m.path.isAbsolute = true) (h : m.Shows d) :
    ∃ after, d.container.components = m.path.components ++ after ∧
      d.efs.fileSystem = m.fileSystem ∧ m.root.isAbsolute = true ∧
      d.efs.path.components = m.root.components ++ after := by
  obtain ⟨e, he, hsame⟩ := h
  obtain ⟨after, hcontainer, hsystem, hroot, hplace⟩ := components_of_efsPath hm he
  rw [EfsPath.sameAs_iff] at hsame
  exact ⟨after, hcontainer, hsame.1 ▸ hsystem, hroot, hsame.2 ▸ hplace⟩

/-- Where a directory lies below the mount's path, there it lies below the access point's root. -/
theorem Shows.place (hm : m.path.isAbsolute = true) (h : m.Shows d) {after : List Path.Component}
    (hd : d.container.components = m.path.components ++ after) :
    d.efs.fileSystem = m.fileSystem ∧ d.efs.path.components = m.root.components ++ after := by
  obtain ⟨after', hafter', hsystem, -, hplace⟩ := h.components hm
  rw [List.append_cancel_left (hd.symm.trans hafter')]
  exact ⟨hsystem, hplace⟩

/-- A mount that shows a directory has a place for every path below its own, as deep below the
access point's root. -/
theorem Shows.exists_efsPath (hm : m.path.isAbsolute = true) (h : m.Shows d)
    {after : List Path.Component} (hp : p.components = m.path.components ++ after) :
    ∃ e, m.efsPath p = .ok e ∧ e.fileSystem = m.fileSystem ∧
      e.path.components = m.root.components ++ after := by
  obtain ⟨-, -, hsystem, hroot, -⟩ := h.components hm
  have hid : EfsPath.isFileSystemId m.fileSystem = true := hsystem ▸ d.efs.isId
  obtain ⟨e, he⟩ := Mount.exists_efsPath hid hroot ⟨after, hp.symm⟩
  exact ⟨e, he, (shows_of_efsPath he).place hm hp⟩

/-- Going down by a relative path leads from what a mount shows to what it shows. -/
theorem Shows.join (hm : m.path.isAbsolute = true) (h : m.Shows d) (hp : p.isAbsolute = false) :
    m.Shows (d.join p) := by
  obtain ⟨after, hcontainer, hsystem, -, hplace⟩ := h.components hm
  have habs : d.container.isAbsolute = true := Path.isAbsolute_of_below hm ⟨after, hcontainer.symm⟩
  -- Both paths go down by the same steps, so the same components are left below the mount.
  have hjoined : (d.container.join p).components =
      m.path.components ++ (after ++ p.steps) := by
    rw [Path.components_join habs hp, hcontainer, List.append_assoc]
  obtain ⟨e, he, hsystem', hplace'⟩ := h.exists_efsPath hm hjoined
  refine ⟨e, he, EfsPath.sameAs_iff.2 ⟨hsystem'.trans hsystem.symm, ?_⟩⟩
  calc e.path.components = m.root.components ++ (after ++ p.steps) := hplace'
    _ = d.efs.path.components ++ p.steps := by rw [hplace, List.append_assoc]
    _ = (d.efs.join p).path.components := (EfsPath.components_join d.efs hp).symm

section Resolve

variable {r : Resolver} {envBase : Option String} {c : Candidate} {defaultPath : Path}
  {readOnly : Bool}

/-- A candidate has a mount when its path is absolute, it names an access point that is found, and
the access point belongs to the file system that was asked for, if one was. -/
theorem resolve_eq_ok_iff : (resolve r envBase c defaultPath readOnly).outcome = .ok m ↔
    (c.containerPath.getD defaultPath).isAbsolute = true ∧ ∃ name owner a,
      c.accessPoint = some name ∧ (askOwner r envBase c.fileSystem).outcome = .ok owner ∧
      r.accessPoint name (owner.map FileSystem.id) envBase = .ok a ∧
      checkOwner owner a = .ok () ∧
      m = ofAccessPoint (c.containerPath.getD defaultPath) readOnly a := by
  unfold resolve
  dsimp only
  by_cases habs : (c.containerPath.getD defaultPath).isAbsolute = true
  · rw [if_pos habs]
    cases hname : c.accessPoint with
    | none => simp [Traced.fail]
    | some name =>
      simp only [Traced.outcome_bind, Fallible.bind_eq_ok_iff, Traced.outcome_check_eq_ok_iff,
        Traced.outcome_pure, Except.ok.injEq]
      constructor
      · rintro ⟨owner, howner, a, ha, _, hcheck, rfl⟩
        exact ⟨habs, name, owner, a, rfl, howner, ha, hcheck, rfl⟩
      · rintro ⟨-, _, owner, a, hsome, howner, ha, hcheck, rfl⟩
        cases hsome
        exact ⟨owner, howner, a, ha, (), hcheck, rfl⟩
  · rw [if_neg habs]
    simp [Traced.fail, habs]

/-- An access point that passes for the owner that was asked for lies on the file system that was
named, if one was, and is looked for among the access points of no other. -/
theorem owner_of_checkOwner {system : Option String} {owner : Option FileSystem} {a : AccessPoint}
    (howner : (askOwner r envBase system).outcome = .ok owner)
    (hcheck : checkOwner owner a = .ok ()) :
    owner.map FileSystem.id = system.map (fun _ => a.fileSystem) ∧
      ∀ name, system = some name → ∃ f, r.fileSystem name envBase = .ok f ∧ f.id = a.fileSystem := by
  unfold askOwner at howner
  cases system with
  | none =>
    cases howner
    exact ⟨rfl, fun _ hname => by cases hname⟩
  | some name =>
    rw [Traced.outcome_map, Fallible.map_eq_ok_iff] at howner
    obtain ⟨f, hf, rfl⟩ := howner
    have hid : f.id = a.fileSystem := by
      unfold checkOwner at hcheck
      by_contra hne
      simp [hne] at hcheck
    refine ⟨congrArg some hid, ?_⟩
    rintro _ ⟨⟩
    exact ⟨f, hf, hid⟩

/-- Only absolute paths are mounted at. -/
theorem isAbsolute_of_resolve (h : (resolve r envBase c defaultPath readOnly).outcome = .ok m) :
    m.path.isAbsolute = true := by
  obtain ⟨habs, name, owner, a, -, -, -, -, rfl⟩ := resolve_eq_ok_iff.1 h
  exact habs

end Resolve

end Mount

end JobStaging
