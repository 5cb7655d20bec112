import JobStaging.Proofs.Assembly.Admission
import JobStaging.Proofs.Storage.Writing

/-!
# Paths below the root of a mounted file system

A place in a file system is written to below a directory of this machine. Its path there is built
name by name, and joining a name that begins with a slash would leave the directory. But the names
come from the components of a path, and those hold no slash and are neither empty nor a dot
(`isSegment_of_mem_components`); so each of them adds itself to the components of the root, whatever
the root's text is, and nothing else (`components_descend`). A `..` is the only component that is
refused, and then there is no path at all (`localPath_eq`). The main statement is
`localPath_stays_below_root`.
-/

set_option autoImplicit false

namespace JobStaging

namespace Path

variable {p root : Path} {names : List String}

/-- The names among the components of a path are segments: joined to a path they lead one step
down. -/
theorem isSegment_of_mem_components {name : String} (h : .name name ∈ p.components) :
    Assembly.IsSegment name := by
  have hstart : .name name ∉ p.start := by
    unfold start
    split
    · simp
    · split <;> simp
  have hsteps : .name name ∈ p.steps := (List.mem_append.1 h).resolve_left hstart
  obtain ⟨part, hpart, hname⟩ := List.mem_map.1 hsteps
  obtain ⟨hmem, hbusy⟩ := List.mem_filter.1 hpart
  unfold Component.ofPart at hname
  split at hname
  · cases hname
  · next hup =>
    obtain rfl := Component.name.inj hname
    have hidle : part ≠ [] ∧ part ≠ ['.'] := by simpa [isIdle] using hbusy
    have hchars : ∀ {text : String}, part ≠ text.toList → String.ofList part ≠ text := by
      rintro text hne rfl
      exact hne String.toList_ofList.symm
    refine ⟨hchars hidle.1, hchars hidle.2, hchars hup, ?_⟩
    rw [String.toList_ofList]
    exact Text.notMem_of_mem_split hmem

/-- The names of a path are segments. -/
theorem isSegment_of_mem_names {name : String} (h : name ∈ p.names) : Assembly.IsSegment name := by
  obtain ⟨c, hc, hname⟩ := List.mem_filterMap.1 h
  cases c with
  | name text =>
    cases hname
    exact isSegment_of_mem_components hc
  | root => cases hname
  | here => cases hname
  | up => cases hname

/-- An absolute path that does not lead up means the root and its names. -/
theorem components_eq_names (habs : p.isAbsolute = true) (hup : .up ∉ p.components) :
    p.components = .root :: p.names.map .name := by
  obtain ⟨texts, htexts⟩ := exists_names_of_mem_steps (fun _ hc => hc) fun hmem =>
    hup (List.mem_append_right p.start hmem)
  have hnames : p.names = texts := by
    unfold names
    rw [components_of_isAbsolute habs, htexts, List.filterMap_cons, List.filterMap_map]
    exact List.filterMap_some
  rw [components_of_isAbsolute habs, hnames, htexts]

/-- The path that names lead to from a root, each joined to the one before. -/
def descend (root : Path) (names : List String) : Path :=
  names.foldl (fun p name => p.join ⟨name⟩) root

/-- Where each name adds itself to what is read off a path, all of them do. -/
theorem reading_descend {reading : Path → List Component}
    (hjoin : ∀ root name, Assembly.IsSegment name →
      reading (root.join ⟨name⟩) = reading root ++ [.name name])
    (h : ∀ name ∈ names, Assembly.IsSegment name) :
    reading (root.descend names) = reading root ++ names.map .name := by
  unfold descend
  induction names generalizing root with
  | nil => simp
  | cons name rest ih =>
    rw [List.forall_mem_cons] at h
    rw [List.foldl_cons, ih h.2, hjoin root name h.1, List.map_cons, List.append_assoc]
    rfl

/-- Names add themselves to the components of the root, whatever its text. -/
theorem components_descend (h : ∀ name ∈ names, Assembly.IsSegment name) :
    (root.descend names).components = root.components ++ names.map .name :=
  reading_descend (fun base _ => Assembly.components_join_of_isSegment base) h

/-- The way to what is joined is the way to the base and one step more. -/
theorem route_join_of_isSegment (root : Path) {name : String} (h : Assembly.IsSegment name) :
    (root.join ⟨name⟩).route = root.route ++ [.name name] := by
  have hname : route ⟨name⟩ = [.name name] := by
    have hparts : (Path.mk name).parts = [name.toList] := Text.split_of_notMem h.2.2.2
    obtain ⟨hempty, hhere, hup⟩ := Assembly.toList_ne_of_isSegment h
    unfold route
    rw [hparts, List.filter_cons_of_pos (by simpa using hempty), List.filter_nil,
      List.map_singleton, Component.ofRoutePart, if_neg hhere, Component.ofPart, if_neg hup,
      String.ofList_toList]
  by_cases hroot : root.text = ""
  · obtain ⟨text⟩ := root
    subst hroot
    rw [join_of_text_eq_empty rfl, hname]
    rfl
  · obtain ⟨cs, hjoin, hcs⟩ := exists_join_eq (Assembly.isAbsolute_of_isSegment h) hroot
    have hbase : root.route = route ⟨String.ofList cs⟩ := by
      rcases hcs with hcs | hcs
      · rw [← hcs, mk_ofList_chars]
      · rw [← mk_ofList_chars root, hcs, route_append_slash]
        exact List.append_nil _
    rw [hjoin, route_append_slash, mk_ofList_chars, hname, hbase]

/-- Names add themselves to the way to the root, step by step. -/
theorem route_descend (h : ∀ name ∈ names, Assembly.IsSegment name) :
    (root.descend names).route = root.route ++ names.map .name :=
  reading_descend (fun base _ => route_join_of_isSegment base) h

end Path

namespace Storage

variable {roots : Roots} {e f : EfsPath} {root p q : Path} {t : FileTree} {base place : Place}
  {names : List String}

/-- Names lead down by themselves. -/
theorem FileTree.walk_names (h : t.walk base (names.map .name) = .ok place) :
    place = base ++ names := by
  induction names generalizing base with
  | nil =>
    cases h
    exact (List.append_nil _).symm
  | cons name rest ih =>
    obtain ⟨-, -, h⟩ := FileTree.walk_cons_eq_ok_iff.1 h
    rw [ih h, onward, List.append_assoc, List.singleton_append]

/-- In a file tree what is below a path lies below the place of that path. -/
theorem FileTree.locate_descend (hnames : ∀ name ∈ names, Assembly.IsSegment name)
    (hp : t.locate (root.descend names) = .ok place) (hroot : t.locate root = .ok base) :
    place = base ++ names := by
  obtain ⟨_, -, hp⟩ := Fallible.bind_eq_ok_iff.1 hp
  obtain ⟨_, -, hroot⟩ := Fallible.bind_eq_ok_iff.1 hroot
  rw [Path.route_descend hnames, walk_append_eq_ok_iff] at hp
  obtain ⟨base', hroot', hp⟩ := hp
  obtain rfl : base = base' := Except.ok.inj (hroot.symm.trans hroot')
  exact walk_names hp

/-- Nothing that leads up is below a root. -/
theorem under_of_up_mem {cs : List Path.Component} (h : .up ∈ cs) : under root cs = none := by
  induction cs generalizing root with
  | nil => cases h
  | cons c rest ih =>
    cases c with
    | up => rfl
    | root => exact ih ((List.mem_cons.1 h).resolve_left (by simp))
    | here => exact ih ((List.mem_cons.1 h).resolve_left (by simp))
    | name text => exact ih ((List.mem_cons.1 h).resolve_left (by simp))

/-- Names alone lead below a root. -/
theorem under_names (root : Path) (names : List String) :
    under root (names.map .name) = some (root.descend names) := by
  induction names generalizing root with
  | nil => rfl
  | cons name rest ih => exact ih (root.join ⟨name⟩)

namespace Roots

/-- A file system is mounted when it has a root. -/
theorem isMounted_iff {fileSystem : String} : roots.isMounted fileSystem = true ↔
    ∃ root, roots.directories.get? fileSystem = some root := by
  constructor
  · intro h
    obtain ⟨entry, hentry, rfl⟩ := List.mem_map.1 (OrderedMap.contains_iff.1 h)
    exact ⟨entry.2, OrderedMap.get?_of_mem hentry⟩
  · rintro ⟨root, hroot⟩
    exact OrderedMap.contains_of_get? hroot

/-- A place has a path on this machine when its file system has a root and it does not lead up: the
path that its names lead to from the root. -/
theorem localPath_eq (hroot : roots.directories.get? e.fileSystem = some root) :
    roots.localPath e =
      if .up ∈ e.path.components then .error (.invalidInput (.escapesMountRoot e.text))
      else .ok (root.descend e.path.names) := by
  unfold localPath
  rw [hroot]
  dsimp only
  by_cases hup : .up ∈ e.path.components
  · rw [under_of_up_mem hup, if_pos hup]
  · have hunder : under root e.path.components = some (root.descend e.path.names) := by
      rw [Path.components_eq_names e.absolute hup]
      exact under_names root e.path.names
    rw [hunder, if_neg hup]

/-- A place of a file system that is not mounted has no path on this machine. -/
theorem localPath_of_not_mounted (h : roots.isMounted e.fileSystem = false) :
    roots.localPath e = .error (.config (.noLocalMount e.fileSystem)) := by
  have hnone : roots.directories.get? e.fileSystem = none := by
    cases hroot : roots.directories.get? e.fileSystem with
    | none => rfl
    | some root => rw [isMounted_iff.2 ⟨root, hroot⟩] at h; cases h
  unfold localPath
  rw [hnone]

/-- A place has a path on this machine exactly when its file system has a root and it does not lead
up. -/
theorem localPath_eq_ok_iff : roots.localPath e = .ok p ↔
    ∃ root, roots.directories.get? e.fileSystem = some root ∧ .up ∉ e.path.components ∧
      p = root.descend e.path.names := by
  constructor
  · intro h
    cases hmounted : roots.isMounted e.fileSystem with
    | false =>
      rw [localPath_of_not_mounted hmounted] at h
      cases h
    | true =>
      obtain ⟨root, hroot⟩ := isMounted_iff.1 hmounted
      rw [localPath_eq hroot] at h
      split at h
      · cases h
      · next hup =>
        cases h
        exact ⟨root, hroot, hup, rfl⟩
  · rintro ⟨root, hroot, hup, rfl⟩
    rw [localPath_eq hroot, if_neg hup]

/-- Paths below one root are the same when the names are. -/
theorem descend_sameAs_iff : (root.descend e.path.names).sameAs (root.descend f.path.names) = true ↔
    e.path.names = f.path.names := by
  unfold Path.sameAs
  rw [beq_iff_eq, Path.components_descend fun _ h => Path.isSegment_of_mem_names h,
    Path.components_descend fun _ h => Path.isSegment_of_mem_names h, List.append_cancel_left_eq]
  have hinj : Function.Injective Path.Component.name := fun _ _ h => Path.Component.name.inj h
  exact (List.map_injective_iff.2 hinj).eq_iff

/-- A place in a file system has a path on this machine if and only if the file system is mounted
and the place does not lead up. The path has the components of the file system's root and then the
names of the place, and in a file tree it leads just as far below the root. Two places of one file
system have the same path, and by the same text, exactly when they have the same components. Any
other place fails: for want of a mount, or as one that leads out of the root. -/
theorem localPath_stays_below_root (roots : Roots) (e : EfsPath) :
    ((∃ p, roots.localPath e = .ok p) ↔
      roots.isMounted e.fileSystem = true ∧ .up ∉ e.path.components) ∧
    (∀ p, roots.localPath e = .ok p → ∃ root,
      roots.directories.get? e.fileSystem = some root ∧
      p.components = root.components ++ e.path.names.map .name ∧
      (∀ (t : FileTree) (base place : Place), t.locate root = .ok base → t.locate p = .ok place →
        place = base ++ e.path.names) ∧
      ∀ f q, f.fileSystem = e.fileSystem → roots.localPath f = .ok q →
        (p.sameAs q = true ↔ e.path.components = f.path.components) ∧
        (p = q ↔ e.path.components = f.path.components)) ∧
    (roots.isMounted e.fileSystem = false →
      roots.localPath e = .error (.config (.noLocalMount e.fileSystem))) ∧
    (roots.isMounted e.fileSystem = true → .up ∈ e.path.components →
      roots.localPath e = .error (.invalidInput (.escapesMountRoot e.text))) := by
  refine ⟨?_, ?_, localPath_of_not_mounted, ?_⟩
  · constructor
    · rintro ⟨p, hp⟩
      obtain ⟨root, hroot, hup, -⟩ := localPath_eq_ok_iff.1 hp
      exact ⟨isMounted_iff.2 ⟨root, hroot⟩, hup⟩
    · rintro ⟨hmounted, hup⟩
      obtain ⟨root, hroot⟩ := isMounted_iff.1 hmounted
      exact ⟨_, localPath_eq_ok_iff.2 ⟨root, hroot, hup, rfl⟩⟩
  · intro p hp
    obtain ⟨root, hroot, hup, rfl⟩ := localPath_eq_ok_iff.1 hp
    have hsegments : ∀ name ∈ e.path.names, Assembly.IsSegment name :=
      fun _ h => Path.isSegment_of_mem_names h
    refine ⟨root, hroot, Path.components_descend hsegments, ?_, ?_⟩
    · intro t base place hbase hplace
      exact FileTree.locate_descend hsegments hplace hbase
    · intro f q hsystem hq
      obtain ⟨root', hroot', hup', rfl⟩ := localPath_eq_ok_iff.1 hq
      rw [hsystem, hroot] at hroot'
      cases hroot'
      have hnames : e.path.components = f.path.components ↔ e.path.names = f.path.names := by
        constructor
        · intro h
          unfold Path.names
          rw [h]
        · intro h
          rw [Path.components_eq_names e.absolute hup, Path.components_eq_names f.absolute hup', h]
      refine ⟨descend_sameAs_iff.trans hnames.symm, ?_, ?_⟩
      · intro h
        apply hnames.2 ∘ descend_sameAs_iff.1
        rw [h]
        exact beq_self_eq_true _
      · intro h
        rw [hnames.1 h]
  · intro hmounted hup
    obtain ⟨root, hroot⟩ := isMounted_iff.1 hmounted
    rw [localPath_eq hroot, if_pos hup]

/-- Below a root with idle parts in its text, two spellings of one place have one path; a place that
leads up and one in a file system without a root have none. -/
theorem localPath_stays_below_root_of_samples :
    let roots : Roots := ⟨OrderedMap.ofList [("fs-1", ⟨"/mnt/./efs//"⟩), ("fs-2", ⟨"/mnt/b"⟩)]⟩
    let e : EfsPath := ⟨"fs-1", ⟨"//run/./1/"⟩, by decide, by decide⟩
    let f : EfsPath := ⟨"fs-1", ⟨"/run/1"⟩, by decide, by decide⟩
    let upward : EfsPath := ⟨"fs-1", ⟨"/run/../../etc"⟩, by decide, by decide⟩
    let foreign : EfsPath := ⟨"fs-3", ⟨"/run/1"⟩, by decide, by decide⟩
    ∃ p q, roots.localPath e = .ok p ∧ roots.localPath f = .ok q ∧
      p.components = [.root, .name "mnt", .name "efs", .name "run", .name "1"] ∧
      p.sameAs q = true ∧ p = q ∧
      roots.localPath upward = .error (.invalidInput (.escapesMountRoot "fs-1:/run/../../etc")) ∧
      roots.localPath foreign = .error (.config (.noLocalMount "fs-3")) := by
  intro roots e f upward foreign
  obtain ⟨p, hp⟩ := (localPath_stays_below_root roots e).1.2 (by decide +kernel)
  obtain ⟨q, hq⟩ := (localPath_stays_below_root roots f).1.2 (by decide +kernel)
  obtain ⟨root, hroot, hcomponents, -, hsame⟩ := (localPath_stays_below_root roots e).2.1 p hp
  have hplace : e.path.components = f.path.components := by decide +kernel
  obtain ⟨hsameAs, heq⟩ := hsame f q rfl hq
  refine ⟨p, q, hp, hq, ?_, hsameAs.2 hplace, heq.2 hplace,
    (localPath_stays_below_root roots upward).2.2.2 (by decide +kernel) (by decide +kernel),
    (localPath_stays_below_root roots foreign).2.2.1 (by decide +kernel)⟩
  have hthere : some root = some ⟨"/mnt/./efs//"⟩ := hroot.symm.trans (by decide +kernel)
  cases hthere
  rw [hcomponents]
  decide +kernel

end Roots

end Storage

end JobStaging
