import JobStaging.Proofs.Mount

/-!
# Paths below a mount, component by component

To turn a path of the container into a place of a file system, a mount cuts off the text of its own
path and puts the text that is left behind the access point's root. Texts can be spelled in many
ways: with doubled slashes, `.` parts, slashes at the end, and a mount may stand at `/`. None of
this shows in the components. The components below the mount are put behind those of the root as
they are (`components_efsPath`), so no two places of the container are mixed up
(`sameAs_iff_of_efsPath`), and it does not matter whether a relative path is joined before or after
(`exists_efsPath_join`). The main statement is `efsPath_moves_components`.
-/

set_option autoImplicit false

namespace JobStaging

namespace Mount

variable {m : Mount} {p q : Path} {e f : EfsPath}

/-- A path that does not lie below the mount is refused as such. -/
theorem efsPath_eq_notUnderMount (h : ¬ m.path.components <+: p.components) :
    m.efsPath p = .error (.notUnderMount p m.path) := by
  unfold efsPath
  rw [Path.below?_eq_none h]

/-- The components below the mount follow those of the root. -/
theorem components_efsPath (hpath : m.path.isAbsolute = true) (he : m.efsPath p = .ok e) :
    e.path.components = m.root.components ++ p.components.drop m.path.components.length := by
  obtain ⟨after, hafter, -, -, hplace⟩ := components_of_efsPath hpath he
  rw [hplace, hafter, List.drop_left]

/-- Two paths below a mount have the same place exactly when they are the same. -/
theorem sameAs_iff_of_efsPath (hpath : m.path.isAbsolute = true) (he : m.efsPath p = .ok e)
    (hf : m.efsPath q = .ok f) : e.sameAs f = true ↔ p.components = q.components := by
  obtain ⟨after, hp, hsystem, -, hplace⟩ := components_of_efsPath hpath he
  obtain ⟨after', hq, hsystem', -, hplace'⟩ := components_of_efsPath hpath hf
  -- Both beginnings, the mount's and the root's, are shared and can be cancelled.
  rw [EfsPath.sameAs_iff, hsystem, hsystem', hplace, hplace', hp, hq, List.append_cancel_left_eq,
    List.append_cancel_left_eq]
  exact and_iff_right rfl

/-- A relative path leads from a path below a mount to the place that it leads to from the path's
place. -/
theorem exists_efsPath_join {r : Path} (hpath : m.path.isAbsolute = true)
    (he : m.efsPath p = .ok e) (hr : r.isAbsolute = false) :
    ∃ f, m.efsPath (p.join r) = .ok f ∧ f.sameAs (e.join r) = true := by
  obtain ⟨f, hf, hsame⟩ := (shows_of_efsPath he).join hpath hr
  exact ⟨f, hf, hsame⟩

/-- A mount with an absolute path, whose root is a proper place, turns paths into places component
by component. It has a place for the paths that its own components begin, and refuses all others.
The place has the components of the root and then those that follow the mount's. So two paths have
the same place exactly when they have the same components, and joining a relative path to a path
leads to the same place as joining it to the path's place. -/
theorem efsPath_moves_components (hpath : m.path.isAbsolute = true)
    (hroot : m.root.isAbsolute = true) (hid : EfsPath.isFileSystemId m.fileSystem = true)
    (p : Path) :
    ((∃ e, m.efsPath p = .ok e) ↔ m.path.components <+: p.components) ∧
    (¬ m.path.components <+: p.components → m.efsPath p = .error (.notUnderMount p m.path)) ∧
    ∀ e, m.efsPath p = .ok e →
      e.fileSystem = m.fileSystem ∧
      e.path.components = m.root.components ++ p.components.drop m.path.components.length ∧
      (∀ q f, m.efsPath q = .ok f → (e.sameAs f = true ↔ p.components = q.components)) ∧
      ∀ r : Path, r.isAbsolute = false →
        ∃ f, m.efsPath (p.join r) = .ok f ∧ f.sameAs (e.join r) = true := by
  refine ⟨?_, efsPath_eq_notUnderMount, ?_⟩
  · constructor
    · rintro ⟨e, he⟩
      obtain ⟨after, hafter, -⟩ := components_of_efsPath hpath he
      exact ⟨after, hafter.symm⟩
    · exact exists_efsPath hid hroot
  · intro e he
    obtain ⟨-, -, hsystem, -⟩ := components_of_efsPath hpath he
    refine ⟨hsystem, components_efsPath hpath he, ?_, ?_⟩
    · intro q f hf
      exact sameAs_iff_of_efsPath hpath he hf
    · intro r hr
      exact exists_efsPath_join hpath he hr

/-- At a mount at `/`, two spellings of one path have one place below a root with idle parts in its
text, also when a path that leads up is joined; a relative path has none. -/
theorem efsPath_moves_components_of_spellings :
    let m : Mount := ⟨⟨"/"⟩, "fs-1--vol", false, "fs-1", "fsap-1", ⟨"//data/./jobs/"⟩⟩
    let p : Path := ⟨"//run/.//1/."⟩
    let q : Path := ⟨"/run/1"⟩
    let r : Path := ⟨".//../x/"⟩
    ∃ e f g, m.efsPath p = .ok e ∧ m.efsPath q = .ok f ∧ m.efsPath (p.join r) = .ok g ∧
      e.path.components = [.root, .name "data", .name "jobs", .name "run", .name "1"] ∧
      e.sameAs f = true ∧ g.sameAs (e.join r) = true ∧
      m.efsPath ⟨"run/1"⟩ = .error (.notUnderMount ⟨"run/1"⟩ ⟨"/"⟩) := by
  intro m p q r
  have hpath : m.path.isAbsolute = true := by decide
  have hroot : m.root.isAbsolute = true := by decide
  have hid : EfsPath.isFileSystemId m.fileSystem = true := by decide
  obtain ⟨e, he⟩ := (efsPath_moves_components hpath hroot hid p).1.2 (by decide +kernel)
  obtain ⟨f, hf⟩ := (efsPath_moves_components hpath hroot hid q).1.2 (by decide +kernel)
  obtain ⟨-, hcomponents, hsame, hjoin⟩ := (efsPath_moves_components hpath hroot hid p).2.2 e he
  obtain ⟨g, hg, hplace⟩ := hjoin r (by decide)
  refine ⟨e, f, g, he, hf, hg, ?_, (hsame q f hf).2 (by decide +kernel), hplace,
    (efsPath_moves_components hpath hroot hid ⟨"run/1"⟩).2.1 (by decide +kernel)⟩
  rw [hcomponents]
  decide +kernel

end Mount

end JobStaging
