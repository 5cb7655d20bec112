import JobStaging.Storage.Mounted
import JobStaging.Proofs.Fallible
import JobStaging.Proofs.OrderedMap

/-!
# What is left behind by writing a file

A file is written in steps: the directories above it are made, a second file beside it is filled,
and that one takes its place. Which place a path leads to depends on nothing but the directories on
the way (`walk_of_keeps`), and no step after the first makes or removes a directory. So all paths
can be located in the tree in which the directories have been made, and the tree at the end is told
in one line: `runSteps_writeSteps_iff`. Writing the same file once more finds all directories in
place and leaves everything as it is (`runSteps_writeSteps_again`).
-/

set_option autoImplicit false

namespace JobStaging.Storage

variable {t u made : FileTree} {place other source here : Place} {node : Node} {p target : Path}
  {steps : List Path.Component}

namespace FileTree

/-! ## Setting and erasing -/

/-- The top of a tree is a directory. -/
@[simp] theorem node?_nil (t : FileTree) : t.node? [] = some .directory := if_pos rfl

/-- A place is a directory when the node there is one. -/
theorem isDirectory_iff : t.isDirectory place = true ↔ t.node? place = some .directory := beq_iff_eq

/-- There is no directory where something else or nothing stands. -/
theorem isDirectory_eq_false_iff :
    t.isDirectory place = false ↔ t.node? place ≠ some .directory := by
  rw [Bool.eq_false_iff, Ne, isDirectory_iff]

/-- Such a place is not the top. -/
theorem ne_nil_of_isDirectory_eq_false (h : t.isDirectory place = false) : place ≠ [] := by
  rintro rfl
  exact isDirectory_eq_false_iff.1 h (node?_nil t)

/-- What was put at a place stands there. -/
theorem node?_set_self (t : FileTree) (hplace : place ≠ []) (node : Node) :
    (t.set place node).node? place = some node := by
  rw [node?_set _ _ _ _ hplace, if_pos rfl]

/-- Of two nodes that are put at one place, the later one stays. -/
theorem set_set (t : FileTree) (place : Place) (node later : Node) :
    (t.set place node).set place later = t.set place later :=
  congrArg FileTree.mk (OrderedMap.put_put t.entries)

/-- Putting at a place what stands there changes nothing. -/
theorem set_of_node? (hplace : place ≠ []) (h : t.node? place = some node) :
    t.set place node = t := by
  have hlookup : t.entries.lookup place = some node := by simpa [node?, hplace] using h
  exact congrArg FileTree.mk (OrderedMap.put_of_lookup hlookup)

/-- A node that is taken away need not have been put there first. -/
theorem erase_set_self (t : FileTree) (place : Place) (node : Node) :
    (t.set place node).erase place = t.erase place :=
  congrArg FileTree.mk (OrderedMap.filter_put_self t.entries)

/-- A node that is put at one place can be taken away at another before or after. -/
theorem erase_set_of_ne (hne : place ≠ other) :
    (t.set place node).erase other = (t.erase other).set place node :=
  congrArg FileTree.mk (OrderedMap.filter_put_of_ne hne t.entries)

/-- Nothing is left to be taken away a second time. -/
theorem erase_erase (t : FileTree) (place : Place) :
    (t.erase place).erase place = t.erase place := by
  have hfilter : ∀ es : List (Place × Node), (es.filter fun e => !decide (e.1 = place)).filter
      (fun e => !decide (e.1 = place)) = es.filter fun e => !decide (e.1 = place) := by
    intro es
    rw [List.filter_filter]
    simp
  exact congrArg FileTree.mk (hfilter t.entries)

/-- Moving what stands at one place to another for the second time changes nothing. -/
theorem set_erase_again (t : FileTree) (source place : Place) (hplace : place ≠ []) (node : Node) :
    (((t.erase source).set place node).erase source).set place node =
      (t.erase source).set place node := by
  by_cases hsame : place = source
  · subst hsame
    rw [erase_set_self, erase_erase]
  · rw [erase_set_of_ne hsame, erase_erase]
    apply set_of_node? hplace
    exact node?_set_self _ hplace node

/-! ## Directories and the places of paths -/

/-- Every directory of one tree is one of another. -/
def KeepsDirectories (t u : FileTree) : Prop :=
  ∀ place, t.isDirectory place = true → u.isDirectory place = true

/-- Two trees have directories at the same places. -/
def SameDirectories (t u : FileTree) : Prop := ∀ place, t.isDirectory place = u.isDirectory place

/-- Trees with the same directories keep them. -/
theorem SameDirectories.keeps (h : t.SameDirectories u) : t.KeepsDirectories u :=
  fun place hplace => (h place).symm.trans hplace

/-- The same directories are shared both ways. -/
theorem SameDirectories.symm (h : t.SameDirectories u) : u.SameDirectories t :=
  fun place => (h place).symm

/-- Trees share their directories along a chain. -/
theorem SameDirectories.trans {v : FileTree} (h : t.SameDirectories u) (h' : u.SameDirectories v) :
    t.SameDirectories v := fun place => (h place).trans (h' place)

/-- Putting something where no directory stands takes no directory away. -/
theorem keepsDirectories_set (h : t.isDirectory place = false) (node : Node) :
    t.KeepsDirectories (t.set place node) := by
  intro other hother
  have hne : other ≠ place := by
    rintro rfl
    rw [h] at hother
    cases hother
  rw [isDirectory_iff] at hother ⊢
  rw [node?_set _ _ _ _ (ne_nil_of_isDirectory_eq_false h), if_neg hne, hother]

/-- A file that is put where no directory stands changes no directories. -/
theorem sameDirectories_set_file (h : t.isDirectory place = false) (content : String) :
    t.SameDirectories (t.set place (.file content)) := by
  intro other
  unfold isDirectory
  rw [node?_set _ _ _ _ (ne_nil_of_isDirectory_eq_false h)]
  split
  · next hsame =>
    subst hsame
    exact h
  · rfl

/-- So does a node that is taken away, when it is no directory. -/
theorem sameDirectories_erase (h : t.isDirectory place = false) :
    t.SameDirectories (t.erase place) := by
  intro other
  unfold isDirectory
  rw [node?_erase _ _ _ (ne_nil_of_isDirectory_eq_false h)]
  split
  · next hsame =>
    subst hsame
    exact h
  · rfl

/-- The place that one step leads to. -/
def onward (here : Place) : Path.Component → Place
  | .root | .here => here
  | .up => here.dropLast
  | .name name => here ++ [name]

/-- A step that is a name is not too long for one. -/
def Fits : Path.Component → Prop
  | .name name => name.utf8ByteSize ≤ longestName
  | _ => True

/-- One step is taken from a directory, and the others from the place that it leads to. -/
theorem walk_cons_eq_ok_iff {step : Path.Component} : t.walk here (step :: steps) = .ok place ↔
    t.isDirectory here = true ∧ Fits step ∧ t.walk (onward here step) steps = .ok place := by
  rw [isDirectory_iff, walk.eq_def t here (step :: steps)]
  dsimp only
  cases t.node? here with
  | none => simp
  | some held =>
    cases held with
    | file content => simp
    | directory =>
      cases step with
      | root => simp [Fits, onward]
      | here => simp [Fits, onward]
      | up => simp [Fits, onward]
      | name name =>
        dsimp only
        split
        · next hlong => simp [Fits, Nat.not_le.2 hlong]
        · next hshort => simp [Fits, onward, Nat.not_lt.1 hshort]

/-- Steps are walked one after the other, each from where the one before it led. -/
theorem walk_append_eq_ok_iff {rest : List Path.Component} :
    t.walk here (steps ++ rest) = .ok place ↔
      ∃ base, t.walk here steps = .ok base ∧ t.walk base rest = .ok place := by
  induction steps generalizing here with
  | nil => simp [walk]
  | cons step steps ih =>
    rw [List.cons_append, walk_cons_eq_ok_iff, ih]
    simp only [walk_cons_eq_ok_iff, and_assoc, exists_and_left]

/-- A path that has a place keeps it in every tree with the same directories and more. -/
theorem walk_of_keeps (hkeeps : t.KeepsDirectories u) (h : t.walk here steps = .ok place) :
    u.walk here steps = .ok place := by
  induction steps generalizing here with
  | nil => exact h
  | cons step rest ih =>
    obtain ⟨hhere, hfits, h⟩ := walk_cons_eq_ok_iff.1 h
    exact walk_cons_eq_ok_iff.2 ⟨hkeeps here hhere, hfits, ih h⟩

/-- A path keeps its place when all directories are kept. -/
theorem locate_of_keeps (hkeeps : t.KeepsDirectories u) (h : t.locate p = .ok place) :
    u.locate p = .ok place := by
  obtain ⟨_, htext, hwalk⟩ := Fallible.bind_eq_ok_iff.1 h
  exact Fallible.bind_eq_ok_iff.2 ⟨(), htext, walk_of_keeps hkeeps hwalk⟩

/-- Paths have the same places in trees with the same directories. -/
theorem SameDirectories.locate_iff (h : t.SameDirectories u) :
    t.locate p = .ok place ↔ u.locate p = .ok place :=
  ⟨locate_of_keeps h.keeps, locate_of_keeps h.symm.keeps⟩

/-- Steps lead to a directory when it stands where they end. -/
theorem leadsToDirectory_iff :
    t.leadsToDirectory steps = true ↔ ∃ place, t.walk [] steps = .ok place ∧
      t.isDirectory place = true := by
  unfold leadsToDirectory
  cases t.walk [] steps <;> simp

/-- They still do when all directories are kept. -/
theorem leadsToDirectory_of_keeps (hkeeps : t.KeepsDirectories u)
    (h : t.leadsToDirectory steps = true) : u.leadsToDirectory steps = true := by
  obtain ⟨place, hwalk, hdir⟩ := leadsToDirectory_iff.1 h
  exact leadsToDirectory_iff.2 ⟨place, walk_of_keeps hkeeps hwalk, hkeeps place hdir⟩

/-! ## Making directories -/

/-- A directory that was made is where its steps lead. -/
theorem leadsToDirectory_of_makeDirectory (h : t.makeDirectory steps = .ok made) :
    made.leadsToDirectory steps = true := by
  obtain ⟨place, hwalk, h⟩ := Fallible.bind_eq_ok_iff.1 h
  cases hnode : t.node? place with
  | some held => simp [hnode] at h
  | none =>
    rw [hnode] at h
    cases h
    have hdir : t.isDirectory place = false := by simp [isDirectory, hnode]
    refine leadsToDirectory_iff.2 ⟨place, walk_of_keeps (keepsDirectories_set hdir _) hwalk, ?_⟩
    exact isDirectory_iff.2 (node?_set_self t (ne_nil_of_isDirectory_eq_false hdir) _)

/-- Directories that are made together are there, however many of them were there before. -/
theorem leadsToDirectory_of_makeDirectories (h : t.makeDirectories steps = (made, none)) :
    made.leadsToDirectory steps.reverse = true := by
  cases steps with
  | nil => exact isDirectory_iff.2 (node?_nil made)
  | cons step up =>
    unfold makeDirectories at h
    dsimp only at h
    split at h
    · next hmade =>
      cases h
      exact leadsToDirectory_of_makeDirectory hmade
    · split at h
      · cases h
      · split at h
        · next hmade =>
          cases h
          exact leadsToDirectory_of_makeDirectory hmade
        · obtain ⟨rfl, hthere⟩ := Prod.mk.inj h
          simpa using hthere
    · obtain ⟨rfl, hthere⟩ := Prod.mk.inj h
      simpa using hthere

/-- A directory that is there is not made again. -/
theorem makeDirectories_of_leadsToDirectory (h : t.leadsToDirectory steps.reverse = true) :
    t.makeDirectories steps = (t, none) := by
  cases steps with
  | nil => rfl
  | cons step up =>
    obtain ⟨place, hwalk, hdir⟩ := leadsToDirectory_iff.1 h
    have hexists : t.makeDirectory (step :: up).reverse = .error .exists := by
      unfold makeDirectory
      rw [hwalk]
      dsimp only [bind, Except.bind]
      rw [isDirectory_iff.1 hdir]
    unfold makeDirectories
    dsimp only
    rw [hexists, h]
    rfl

/-- Making the directories of a path is done with once it is done. -/
theorem makeAll_again (h : t.makeAll p = (made, none)) (hkeeps : made.KeepsDirectories u) :
    u.makeAll p = (u, none) := by
  unfold makeAll at h ⊢
  cases htext : checkText p with
  | error fault => simp [htext] at h
  | ok _ =>
    rw [htext] at h
    exact makeDirectories_of_leadsToDirectory
      (leadsToDirectory_of_keeps hkeeps (leadsToDirectory_of_makeDirectories h))

/-! ## Single steps -/

/-- A result is taken over without a fault when there is one. -/
theorem orUnchanged_eq_iff {result : Except IoFault FileTree} :
    t.orUnchanged result = (u, none) ↔ result = .ok u := by
  cases result <;> simp [orUnchanged]

/-- A file is created at the place of its path, where no directory stands. -/
theorem create_eq_ok_iff : t.create p = .ok u ↔ ∃ place, t.locate p = .ok place ∧
    t.isDirectory place = false ∧ wantsDirectory p = false ∧ u = t.set place (.file "") := by
  unfold create
  rw [Fallible.bind_eq_ok_iff]
  refine exists_congr fun place => and_congr_right fun _ => ?_
  rw [isDirectory_eq_false_iff]
  split
  · next hdir => simp [hdir]
  · next hdir =>
    cases wantsDirectory p with
    | true => simp
    | false =>
      simp only [Bool.false_eq_true, if_false, Except.ok.injEq, true_and]
      exact ⟨fun h => ⟨hdir, h.symm⟩, fun h => h.2.symm⟩

/-- What is appended to a file stands behind what it held. -/
theorem append_eq_ok {held : String} (hplace : t.locate p = .ok place)
    (hnode : t.node? place = some (.file held)) (text : String) :
    t.append p text = .ok (t.set place (.file (held ++ text))) := by
  refine Fallible.bind_eq_ok_iff.2 ⟨place, hplace, ?_⟩
  rw [hnode]

/-- Text is put behind what a file holds, and nothing else takes it. -/
theorem append_eq_ok_iff {text : String} : t.append p text = .ok u ↔ ∃ place held,
    t.locate p = .ok place ∧ t.node? place = some (.file held) ∧
      u = t.set place (.file (held ++ text)) := by
  constructor
  · intro h
    obtain ⟨place, hplace, h⟩ := Fallible.bind_eq_ok_iff.1 h
    cases hnode : t.node? place with
    | none => simp [hnode] at h
    | some node =>
      cases node with
      | directory => simp [hnode] at h
      | file held =>
        rw [hnode] at h
        cases h
        exact ⟨place, held, hplace, hnode, rfl⟩
  · rintro ⟨place, held, hplace, hnode, rfl⟩
    exact append_eq_ok hplace hnode text

/-- A path that names a file, and does not only lead to a directory. -/
def NamesFile (p : Path) : Prop :=
  (p.lastPart ≠ [] ∧ p.lastPart ≠ ['.'] ∧ p.lastPart ≠ ['.', '.']) ∧ wantsDirectory p = false

/-- What stands at one path is put in the place of another, where no directory stands. -/
theorem rename_eq_ok_iff {filled : Path} : t.rename filled target = .ok u ↔
    ∃ source place node, t.locate filled = .ok source ∧ t.locate target = .ok place ∧
      NamesFile target ∧ t.node? source = some node ∧ t.isDirectory place = false ∧
      u = (t.erase source).set place node := by
  unfold rename
  constructor
  · intro h
    obtain ⟨source, hsource, h⟩ := Fallible.bind_eq_ok_iff.1 h
    obtain ⟨place, hplace, h⟩ := Fallible.bind_eq_ok_iff.1 h
    split at h
    · cases h
    · next hlast =>
      rw [not_or, not_or] at hlast
      cases hwants : wantsDirectory target with
      | true => simp [hwants] at h
      | false =>
        rw [hwants] at h
        cases hnode : t.node? source with
        | none => simp [hnode] at h
        | some node =>
          cases hold : t.isDirectory place with
          | true => simp [hnode, isDirectory_iff.1 hold] at h
          | false =>
            have hnot := isDirectory_eq_false_iff.1 hold
            rw [hnode] at h
            simp only [Bool.false_eq_true, if_false, Except.ok.injEq] at h
            exact ⟨source, place, node, hsource, hplace, ⟨hlast, hwants⟩, hnode, hold, h.symm⟩
  · rintro ⟨source, place, node, hsource, hplace, ⟨hlast, hwants⟩, hnode, hold, rfl⟩
    refine Fallible.bind_eq_ok_iff.2 ⟨source, hsource, Fallible.bind_eq_ok_iff.2 ⟨place, hplace, ?_⟩⟩
    have hnot := isDirectory_eq_false_iff.1 hold
    rw [if_neg (by simp [hlast]), hwants, hnode]
    simp only [Bool.false_eq_true, if_false]

end FileTree

/-! ## Sequences of steps -/

/-- A run succeeds when its first step does and the rest does from there. -/
theorem runSteps_cons_iff {step : Step} {rest : List Step} :
    runSteps (step :: rest) t = (none, u) ↔
      ∃ next, step.run t = (next, none) ∧ runSteps rest next = (none, u) := by
  cases hfault : (step.run t).2 with
  | none =>
    rw [runSteps_cons_of_none rest hfault]
    constructor
    · intro h
      exact ⟨(step.run t).1, Prod.ext rfl hfault, h⟩
    · rintro ⟨next, hstep, h⟩
      rw [hstep]
      exact h
  | some fault =>
    rw [runSteps_cons_of_some rest hfault]
    constructor
    · intro h
      cases h
    · rintro ⟨next, hstep, -⟩
      rw [hstep] at hfault
      cases hfault

/-- A run of a single step is that step. -/
theorem runSteps_singleton (step : Step) (t : FileTree) :
    runSteps [step] t = ((step.run t).2, (step.run t).1) := by
  cases hfault : (step.run t).2 with
  | none => rw [runSteps_cons_of_none [] hfault, runSteps_nil]
  | some fault => rw [runSteps_cons_of_some [] hfault]

/-- Two runs after one another succeed when each of them does. -/
theorem runSteps_append_iff {first rest : List Step} :
    runSteps (first ++ rest) t = (none, u) ↔
      ∃ next, runSteps first t = (none, next) ∧ runSteps rest next = (none, u) := by
  induction first generalizing t with
  | nil =>
    rw [List.nil_append, runSteps_nil]
    constructor
    · intro h
      exact ⟨t, rfl, h⟩
    · rintro ⟨next, hnext, h⟩
      cases hnext
      exact h
  | cons step first ih =>
    rw [List.cons_append, runSteps_cons_iff]
    constructor
    · rintro ⟨next, hstep, h⟩
      obtain ⟨after, hfirst, hrest⟩ := ih.1 h
      exact ⟨after, runSteps_cons_iff.2 ⟨next, hstep, hfirst⟩, hrest⟩
    · rintro ⟨after, hfirst, hrest⟩
      obtain ⟨next, hstep, hfirst⟩ := runSteps_cons_iff.1 hfirst
      exact ⟨next, hstep, ih.2 ⟨after, hfirst, hrest⟩⟩

/-- After steps that all succeed come the others. -/
theorem runSteps_append_of_none {first : List Step} (rest : List Step)
    (h : runSteps first t = (none, u)) : runSteps (first ++ rest) t = runSteps rest u := by
  induction first generalizing t with
  | nil =>
    cases h
    rfl
  | cons step first ih =>
    obtain ⟨next, hstep, hfirst⟩ := runSteps_cons_iff.1 h
    rw [List.cons_append, runSteps_cons_of_none _ (congrArg Prod.snd hstep), hstep]
    exact ih hfirst

/-- After steps of which one fails nothing more is done. -/
theorem runSteps_append_of_some {first : List Step} {fault : IoFault} (rest : List Step)
    (h : runSteps first t = (some fault, u)) : runSteps (first ++ rest) t = (some fault, u) := by
  induction first generalizing t with
  | nil => cases h
  | cons step first ih =>
    rw [List.cons_append]
    cases hfault : (step.run t).2 with
    | none =>
      rw [runSteps_cons_of_none _ hfault] at h ⊢
      exact ih h
    | some reason =>
      rw [runSteps_cons_of_some _ hfault] at h ⊢
      exact h

/-- A file that is filled piece by piece ends with all pieces behind what it held. -/
theorem runSteps_appends {held : String} (pieces : List String) (hplace : t.locate p = .ok place)
    (hnode : t.node? place = some (.file held)) :
    runSteps (pieces.map fun piece => .append p piece) t =
      (none, t.set place (.file (held ++ String.join pieces))) := by
  have hdir : t.isDirectory place = false := by simp [FileTree.isDirectory, hnode]
  have hne : place ≠ [] := FileTree.ne_nil_of_isDirectory_eq_false hdir
  induction pieces generalizing t held with
  | nil =>
    rw [List.map_nil, runSteps_nil, String.join_nil, String.append_empty,
      FileTree.set_of_node? hne hnode]
  | cons piece rest ih =>
    have hstep : Step.run t (.append p piece) =
        (t.set place (.file (held ++ piece)), none) :=
      FileTree.orUnchanged_eq_iff.2 (FileTree.append_eq_ok hplace hnode piece)
    have hfilled : (t.set place (.file (held ++ piece))).node? place =
        some (.file (held ++ piece)) := FileTree.node?_set_self t hne _
    have hrest := ih (FileTree.locate_of_keeps (FileTree.keepsDirectories_set hdir _) hplace)
      hfilled (by simp [FileTree.isDirectory, hfilled])
    rw [FileTree.set_set, String.append_assoc, ← String.join_cons] at hrest
    exact runSteps_cons_iff.2 ⟨_, hstep, hrest⟩

/-- A file is created and filled at the place of its path, where no directory stands. -/
theorem runSteps_fill_iff {pieces : List String} :
    runSteps (.create p :: pieces.map fun piece => .append p piece) t = (none, u) ↔
      ∃ place, t.locate p = .ok place ∧ t.isDirectory place = false ∧
        FileTree.wantsDirectory p = false ∧ u = t.set place (.file (String.join pieces)) := by
  have hfill : ∀ {place}, t.locate p = .ok place → t.isDirectory place = false →
      runSteps (pieces.map fun piece => .append p piece) (t.set place (.file "")) =
        (none, t.set place (.file (String.join pieces))) := by
    intro place hplace hfree
    have hempty : (t.set place (.file "")).node? place = some (.file "") :=
      FileTree.node?_set_self t (FileTree.ne_nil_of_isDirectory_eq_false hfree) _
    have hlocated := (FileTree.sameDirectories_set_file hfree "").locate_iff.1 hplace
    rw [runSteps_appends pieces hlocated hempty, FileTree.set_set, String.empty_append]
  rw [runSteps_cons_iff]
  constructor
  · rintro ⟨opened, hopened, h⟩
    obtain ⟨place, hplace, hfree, hwants, rfl⟩ :=
      FileTree.create_eq_ok_iff.1 (FileTree.orUnchanged_eq_iff.1 hopened)
    rw [hfill hplace hfree] at h
    cases h
    exact ⟨place, hplace, hfree, hwants, rfl⟩
  · rintro ⟨place, hplace, hfree, hwants, rfl⟩
    have hopened := FileTree.create_eq_ok_iff.2 ⟨place, hplace, hfree, hwants, rfl⟩
    exact ⟨_, FileTree.orUnchanged_eq_iff.2 hopened, hfill hplace hfree⟩

/-- A filled file takes the place of another as if it had not been filled there. -/
theorem rename_filled_iff {filled : Path} {content : String} (hsource : t.locate filled = .ok source)
    (hfree : t.isDirectory source = false) :
    runSteps [.rename filled target] (t.set source (.file content)) = (none, u) ↔
      ∃ place, t.locate target = .ok place ∧ t.isDirectory place = false ∧
        FileTree.NamesFile target ∧ u = (t.erase source).set place (.file content) := by
  have hsame := FileTree.sameDirectories_set_file hfree content
  have hnode : (t.set source (.file content)).node? source = some (.file content) :=
    FileTree.node?_set_self t (FileTree.ne_nil_of_isDirectory_eq_false hfree) _
  rw [runSteps_cons_iff]
  constructor
  · rintro ⟨moved, hmoved, h⟩
    rw [runSteps_nil] at h
    cases h
    obtain ⟨source', place, node, hsource', hplace, hnames, hnode', hold, rfl⟩ :=
      FileTree.rename_eq_ok_iff.1 (FileTree.orUnchanged_eq_iff.1 hmoved)
    obtain rfl : source = source' :=
      Except.ok.inj ((hsame.locate_iff.1 hsource).symm.trans hsource')
    obtain rfl : Node.file content = node := Option.some.inj (hnode.symm.trans hnode')
    rw [FileTree.erase_set_self]
    exact ⟨place, hsame.locate_iff.2 hplace, (hsame place).trans hold, hnames, rfl⟩
  · rintro ⟨place, hplace, hold, hnames, rfl⟩
    refine ⟨_, FileTree.orUnchanged_eq_iff.2 (FileTree.rename_eq_ok_iff.2 ⟨source, place, _,
      hsame.locate_iff.1 hsource, hsame.locate_iff.1 hplace, hnames, hnode,
      (hsame place).symm.trans hold, rfl⟩), ?_⟩
    rw [FileTree.erase_set_self, runSteps_nil]

/-- A file is written when its directory can be made, both the file and the one beside it then have
places where no directory stands, and the path names a file. All pieces are then at the place of the
file, and nothing is left beside it. -/
theorem runSteps_writeSteps_iff {pieces : List String} :
    runSteps (writeSteps target pieces) t = (none, u) ↔ ∃ made source place,
      runSteps (parentSteps target) t = (none, made) ∧
      made.locate (besides target) = .ok source ∧ made.isDirectory source = false ∧
      FileTree.wantsDirectory (besides target) = false ∧
      made.locate target = .ok place ∧ made.isDirectory place = false ∧
      FileTree.NamesFile target ∧
      u = (made.erase source).set place (.file (String.join pieces)) := by
  unfold writeSteps
  rw [runSteps_append_iff]
  simp only [runSteps_append_iff]
  constructor
  · rintro ⟨filled, ⟨made, hmade, hfilled⟩, hmoved⟩
    obtain ⟨source, hsource, hfree, hwants, rfl⟩ := runSteps_fill_iff.1 hfilled
    obtain ⟨place, hplace, hold, hnames, rfl⟩ := (rename_filled_iff hsource hfree).1 hmoved
    exact ⟨made, source, place, hmade, hsource, hfree, hwants, hplace, hold, hnames, rfl⟩
  · rintro ⟨made, source, place, hmade, hsource, hfree, hwants, hplace, hold, hnames, rfl⟩
    refine ⟨made.set source (.file (String.join pieces)), ⟨made, hmade, ?_⟩, ?_⟩
    · exact runSteps_fill_iff.2 ⟨source, hsource, hfree, hwants, rfl⟩
    · exact (rename_filled_iff hsource hfree).2 ⟨place, hplace, hold, hnames, rfl⟩

/-- The directory of a file is made once: where it is there already nothing is done. -/
theorem runSteps_parentSteps_again (h : runSteps (parentSteps target) t = (none, made))
    (hkeeps : made.KeepsDirectories u) : runSteps (parentSteps target) u = (none, u) := by
  unfold parentSteps at h ⊢
  split at h
  · next parent _ =>
    split at h
    · next hempty =>
      rw [if_pos hempty, runSteps_nil]
    · next hnonempty =>
      rw [if_neg hnonempty]
      obtain ⟨next, hnext, h⟩ := runSteps_cons_iff.1 h
      rw [runSteps_nil] at h
      cases h
      have hmade : Step.run u (.makeDirectories parent) = (u, none) :=
        FileTree.makeAll_again hnext hkeeps
      exact runSteps_cons_iff.2 ⟨u, hmade, rfl⟩
  · rfl

/-- Moving a file to a place where no directory stands touches no directory. -/
theorem FileTree.sameDirectories_moved (hfree : made.isDirectory source = false)
    (hold : made.isDirectory place = false) (content : String) :
    made.SameDirectories ((made.erase source).set place (.file content)) := by
  have herased := FileTree.sameDirectories_erase hfree
  exact herased.trans (FileTree.sameDirectories_set_file ((herased place).symm.trans hold) content)

/-- Writing a file once more leaves everything as it is. -/
theorem runSteps_writeSteps_again {pieces : List String}
    (h : runSteps (writeSteps target pieces) t = (none, u)) :
    runSteps (writeSteps target pieces) u = (none, u) := by
  obtain ⟨made, source, place, hmade, hsource, hfree, hwants, hplace, hold, hnames, hu⟩ :=
    runSteps_writeSteps_iff.1 h
  have hsame : made.SameDirectories u := by
    rw [hu]
    exact FileTree.sameDirectories_moved hfree hold _
  refine runSteps_writeSteps_iff.2 ⟨u, source, place, runSteps_parentSteps_again hmade hsame.keeps,
    hsame.locate_iff.1 hsource, (hsame source).symm.trans hfree, hwants,
    hsame.locate_iff.1 hplace, (hsame place).symm.trans hold, hnames, ?_⟩
  have hne : place ≠ [] := FileTree.ne_nil_of_isDirectory_eq_false hold
  rw [hu, FileTree.set_erase_again _ _ _ hne]

/-! ## Storages -/

/-- A storage settles when a write that it took once is taken again and leaves it as it is. -/
def Settles {σ : Type} (storage : Storage (StateM σ)) : Prop :=
  ∀ path content s after, storage.write path content s = (none, after) →
    storage.write path content after = (none, after)

variable {roots : Roots} {e : EfsPath} {content : String}

/-- A write without a path on this machine fails and takes no step. -/
theorem Roots.write_of_error {fault : Error} (h : roots.localPath e = .error fault) :
    (roots.storage Step.take).write e content t = (some fault, t) := by
  unfold Roots.storage
  dsimp only
  rw [h]
  rfl

/-- A write with a path on this machine does what its steps do. -/
theorem Roots.write_eq (h : roots.localPath e = .ok target) :
    (roots.storage Step.take).write e content t =
      ((runSteps (writeSteps target [content]) t).1.map .io,
        (runSteps (writeSteps target [content]) t).2) := by
  unfold Roots.storage
  dsimp only
  rw [h]
  rfl

/-- A mounted file system takes a write when its place has a path on this machine, and all the steps
succeed by which a file is written there. -/
theorem Roots.write_eq_none_iff : (roots.storage Step.take).write e content t = (none, u) ↔
    ∃ target, roots.localPath e = .ok target ∧
      runSteps (writeSteps target [content]) t = (none, u) := by
  unfold Roots.storage
  dsimp only
  cases hlocal : roots.localPath e with
  | error fault =>
    constructor
    · intro h
      cases h
    · rintro ⟨target, htarget, -⟩
      cases htarget
  | ok target =>
    have hwrite : ∀ result : Option IoFault × FileTree,
        (result.1.map Error.io, result.2) = (none, u) ↔ result = (none, u) := by
      rintro ⟨fault, after⟩
      cases fault <;> simp
    constructor
    · intro h
      exact ⟨target, rfl, (hwrite _).1 h⟩
    · rintro ⟨_, htarget, h⟩
      cases htarget
      exact (hwrite _).2 h

/-- A file that was written to the storage can be written again, and the tree stays as it is. -/
theorem Roots.settles_storage (roots : Roots) : (roots.storage Step.take).Settles := by
  intro e content t u h
  obtain ⟨target, htarget, hsteps⟩ := Roots.write_eq_none_iff.1 h
  exact Roots.write_eq_none_iff.2 ⟨target, htarget, runSteps_writeSteps_again hsteps⟩

end JobStaging.Storage
