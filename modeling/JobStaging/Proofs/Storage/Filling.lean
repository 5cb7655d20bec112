import JobStaging.Proofs.Path.Components
import JobStaging.Proofs.Storage.Writing

/-!
# The file beside a target

Before a file takes the place of another it is filled beside it. All steps up to then touch nothing
but that file and directories that were not there, on the way down to it, whether they succeed or
fail: `OnlyFills` says so of two trees, and every such step keeps it (`OnlyFills.run`). The place
beside is never the place of the target itself, however the path of the target is written
(`locate_besides_ne`), so until then the target is left alone.
-/

set_option autoImplicit false

namespace JobStaging

namespace Path

variable {p parent : Path}

/-- The directory of a path is reached by all of its steps but the last. -/
theorem steps_of_parent? (h : p.parent? = some parent) : parent.steps = p.steps.dropLast := by
  unfold parent? at h
  split at h
  · cases h
  · next hsteps =>
    have hbusy : ((p.parts.reverse.dropWhile isIdle).filter fun part => !isIdle part) =
        (p.parts.filter fun part => !isIdle part).reverse := by
      rw [filter_dropWhile_isIdle, List.filter_reverse]
    have hmem : ∀ part ∈ p.parts.reverse.dropWhile isIdle, '/' ∉ part := fun part hpart =>
      Text.notMem_of_mem_split (List.mem_reverse.1 ((List.dropWhile_sublist _).subset hpart))
    dsimp only at h
    cases htrimmed : p.parts.reverse.dropWhile isIdle with
    | nil =>
      rw [htrimmed, List.filter_nil, eq_comm, List.reverse_eq_nil_iff] at hbusy
      exact absurd (congrArg (List.map Component.ofPart) hbusy) hsteps
    | cons last rest =>
      have hlast : isIdle last = false := by
        have hhead := List.head?_dropWhile_not isIdle p.parts.reverse
        rw [htrimmed] at hhead
        simpa using hhead
      rw [htrimmed] at h hbusy hmem
      -- What is left of the parts before the last one makes all steps but the last.
      have hleft : p.steps = ((rest.dropWhile isIdle).reverse.filter fun part => !isIdle part).map
          Component.ofPart ++ [.ofPart last] := by
        rw [List.filter_cons_of_pos (by simp [hlast]), ← filter_dropWhile_isIdle rest,
          eq_comm, List.reverse_eq_iff] at hbusy
        unfold steps
        rw [hbusy, List.filter_reverse]
        simp
      rw [hleft, List.dropLast_concat, ← Option.some.inj h]
      split
      · next hroot =>
        rw [List.drop_one, List.tail_cons] at hroot
        rw [hroot.1]
        rfl
      · apply steps_joinWith
        intro part hpart
        refine hmem part (List.mem_cons_of_mem _ ?_)
        exact (List.dropWhile_sublist _).subset (List.mem_reverse.1 hpart)

end Path

namespace Storage

variable {t u v made : FileTree} {place base : Place} {p target : Path} {steps : List Step}
  {way longer : List Path.Component}

namespace FileTree

/-- The text of the file at a place, if a file stands there. -/
def textAt (t : FileTree) (place : Place) : Option String :=
  match t.node? place with
  | some (.file content) => some content
  | _ => none

/-- What stands where a path leads, if it leads anywhere. -/
def nodeOf (t : FileTree) (p : Path) : Option Node :=
  match t.locate p with
  | .ok place => t.node? place
  | .error _ => none

/-- The text at a place depends on what stands there only. -/
theorem textAt_congr (h : u.node? place = t.node? place) : u.textAt place = t.textAt place := by
  unfold textAt
  rw [h]

/-- What stands where a path leads, when its place is known. -/
theorem nodeOf_of_locate (h : t.locate p = .ok place) : t.nodeOf p = t.node? place := by
  unfold nodeOf
  rw [h]

/-- What stands where a path leads stands at a place. -/
theorem nodeOf_eq_some_iff {node : Node} : t.nodeOf p = some node ↔
    ∃ place, t.locate p = .ok place ∧ t.node? place = some node := by
  unfold nodeOf
  cases t.locate p <;> simp

/-- The text that can be read at a path is that of the file at its place. -/
theorem read_eq_ok_iff {content : String} : t.read p = .ok content ↔ ∃ place,
    t.locate p = .ok place ∧ t.node? place = some (.file content) ∧ wantsDirectory p = false := by
  unfold read
  rw [Fallible.bind_eq_ok_iff]
  refine exists_congr fun place => and_congr_right fun _ => ?_
  cases t.node? place with
  | none => simp
  | some node => cases node <;> cases wantsDirectory p <;> simp

/-! ## More directories -/

/-- Steps pass a place when some first ones of them lead there. -/
def Passes (t : FileTree) (way : List Path.Component) (place : Place) : Prop :=
  ∃ front, front <+: way ∧ t.walk [] front = .ok place

/-- What some steps pass, longer ones pass too. -/
theorem Passes.mono (h : t.Passes way place) (hway : way <+: longer) : t.Passes longer place := by
  obtain ⟨front, hfront, hwalk⟩ := h
  exact ⟨front, hfront.trans hway, hwalk⟩

/-- It is passed still when all directories are kept. -/
theorem Passes.keeps (h : t.Passes way place) (hkeeps : t.KeepsDirectories u) :
    u.Passes way place := by
  obtain ⟨front, hfront, hwalk⟩ := h
  exact ⟨front, hfront, walk_of_keeps hkeeps hwalk⟩

/-- A tree grows along a way when directories come to it that the way passes. -/
def Grows (way : List Path.Component) (t u : FileTree) : Prop :=
  ∀ place, u.node? place = t.node? place ∨
    t.node? place = none ∧ u.node? place = some .directory ∧ u.Passes way place

/-- A tree grows by nothing as well. -/
theorem Grows.refl (way : List Path.Component) (t : FileTree) : Grows way t t := fun _ => .inl rfl

/-- What came along a way came along every longer one. -/
theorem Grows.mono (h : Grows way t u) (hway : way <+: longer) : Grows longer t u := by
  intro place
  rcases h place with hsame | ⟨hnone, hdir, hpasses⟩
  · exact .inl hsame
  · exact .inr ⟨hnone, hdir, hpasses.mono hway⟩

/-- No directory is lost when others come to a tree. -/
theorem Grows.keeps (h : Grows way t u) : t.KeepsDirectories u := by
  intro place hplace
  rw [isDirectory_iff] at hplace ⊢
  rcases h place with hsame | ⟨hnone, -⟩
  · rw [hsame, hplace]
  · rw [hnone] at hplace
    cases hplace

/-- Directories may come to a tree twice along one way. -/
theorem Grows.trans (h : Grows way t u) (h' : Grows way u v) : Grows way t v := by
  intro place
  rcases h' place with hsame | ⟨hnone, hdir, hpasses⟩
  · rw [hsame]
    rcases h place with hold | ⟨hnone, hdir, hpasses⟩
    · exact .inl hold
    · exact .inr ⟨hnone, hdir, hpasses.keeps h'.keeps⟩
  · rcases h place with hsame | ⟨-, hthere, -⟩
    · exact .inr ⟨hsame ▸ hnone, hdir, hpasses⟩
    · rw [hnone] at hthere
      cases hthere

/-- No text changes when directories come to a tree. -/
theorem Grows.textAt_eq (h : Grows way t u) (place : Place) : u.textAt place = t.textAt place := by
  rcases h place with hsame | ⟨hnone, hdir, -⟩
  · exact textAt_congr hsame
  · simp [textAt, hnone, hdir]

/-- A directory that is made comes to the tree at the end of its way. -/
theorem grows_of_makeDirectory (h : t.makeDirectory way = .ok made) : Grows way t made := by
  obtain ⟨place, hwalk, h⟩ := Fallible.bind_eq_ok_iff.1 h
  cases hnode : t.node? place with
  | some held => simp [hnode] at h
  | none =>
    rw [hnode] at h
    cases h
    have hfree : t.isDirectory place = false := by simp [isDirectory, hnode]
    have hpasses : (t.set place .directory).Passes way place :=
      ⟨way, List.prefix_rfl, walk_of_keeps (keepsDirectories_set hfree .directory) hwalk⟩
    intro other
    rw [node?_set _ _ _ _ (ne_nil_of_isDirectory_eq_false hfree)]
    split
    · next hsame =>
      subst hsame
      exact .inr ⟨hnode, rfl, hpasses⟩
    · exact .inl rfl

/-- Making directories does nothing else, also when not all of them can be made. -/
theorem grows_makeDirectories (t : FileTree) (steps : List Path.Component) :
    Grows steps.reverse t (t.makeDirectories steps).1 := by
  induction steps with
  | nil => exact .refl [] t
  | cons step up ih =>
    -- The steps are given from the last: the directory itself is tried first, and those above it
    -- are made only where that fails.
    have hup : up.reverse <+: (step :: up).reverse := by
      rw [List.reverse_cons]
      exact List.prefix_append up.reverse [step]
    unfold makeDirectories
    dsimp only
    split
    · next hmade => exact grows_of_makeDirectory hmade
    · split
      · next habove =>
        rw [habove] at ih
        exact ih.mono hup
      · next habove =>
        rw [habove] at ih
        split
        · next hmade => exact (ih.mono hup).trans (grows_of_makeDirectory hmade)
        · exact ih.mono hup
    · exact .refl _ t

/-- A path's directories come to the tree along the path. -/
theorem grows_makeAll (t : FileTree) (p : Path) : Grows p.steps t (t.makeAll p).1 := by
  unfold makeAll
  split
  · exact .refl _ t
  · have hgrows := grows_makeDirectories t p.steps.reverse
    rwa [List.reverse_reverse] at hgrows

/-! ## Filling one file -/

/-- Nothing happened to a tree but that directories came to it on the way down to a target and the
file beside the target was filled. -/
def OnlyFills (target : Path) (t u : FileTree) : Prop :=
  ∀ place, u.node? place = t.node? place ∨
    (t.node? place = none ∧ u.node? place = some .directory ∧
      u.Passes target.steps.dropLast place) ∨
    u.locate (besides target) = .ok place ∧ t.isDirectory place = false ∧
      ∃ text, u.node? place = some (.file text)

/-- Nothing at all may happen. -/
theorem OnlyFills.refl (target : Path) (t : FileTree) : OnlyFills target t t := fun _ => .inl rfl

/-- No directory is lost. -/
theorem OnlyFills.keeps (h : OnlyFills target t u) : t.KeepsDirectories u := by
  intro place hplace
  rcases h place with hsame | ⟨hnone, -⟩ | ⟨-, hfree, -⟩
  · rw [isDirectory_iff] at hplace ⊢
    rw [hsame, hplace]
  · rw [isDirectory_iff, hnone] at hplace
    cases hplace
  · rw [hfree] at hplace
    cases hplace

/-- More directories may come on the way down to the target. -/
theorem OnlyFills.grow (h : OnlyFills target t u) (hgrows : Grows target.steps.dropLast u v) :
    OnlyFills target t v := by
  intro place
  rcases hgrows place with hsame | ⟨hnone, hdir, hpasses⟩
  · rw [hsame]
    rcases h place with hold | ⟨hnone, hdir, hpasses⟩ | ⟨hplace, hfree, hfile⟩
    · exact .inl hold
    · exact .inr (.inl ⟨hnone, hdir, hpasses.keeps hgrows.keeps⟩)
    · exact .inr (.inr ⟨locate_of_keeps hgrows.keeps hplace, hfree, hfile⟩)
  · rcases h place with hold | ⟨-, hthere, -⟩ | ⟨-, -, text, hthere⟩
    · exact .inr (.inl ⟨hold ▸ hnone, hdir, hpasses⟩)
    · rw [hnone] at hthere
      cases hthere
    · rw [hnone] at hthere
      cases hthere

/-- The file beside the target may be filled again. -/
theorem OnlyFills.fill (h : OnlyFills target t u) (hplace : u.locate (besides target) = .ok place)
    (hfree : u.isDirectory place = false) (text : String) :
    OnlyFills target t (u.set place (.file text)) := by
  have hkeeps := keepsDirectories_set hfree (.file text)
  intro other
  rw [node?_set _ _ _ _ (ne_nil_of_isDirectory_eq_false hfree)]
  split
  · next hsame =>
    subst hsame
    refine .inr (.inr ⟨locate_of_keeps hkeeps hplace, ?_, text, rfl⟩)
    rw [Bool.eq_false_iff]
    intro hdir
    rw [h.keeps _ hdir] at hfree
    cases hfree
  · rcases h other with hold | ⟨hnone, hdir, hpasses⟩ | ⟨hother, hfree', hfile⟩
    · exact .inl hold
    · exact .inr (.inl ⟨hnone, hdir, hpasses.keeps hkeeps⟩)
    · exact .inr (.inr ⟨locate_of_keeps hkeeps hother, hfree', hfile⟩)

/-- No text changes but that of the file that is filled. -/
theorem OnlyFills.locate_of_textAt_ne (h : OnlyFills target t u)
    (hne : u.textAt place ≠ t.textAt place) : u.locate (besides target) = .ok place := by
  rcases h place with hsame | ⟨hnone, hdir, -⟩ | ⟨hplace, -⟩
  · exact absurd (textAt_congr hsame) hne
  · simp [textAt, hnone, hdir] at hne
  · exact hplace

end FileTree

open FileTree

/-- A step makes ready for a target when it makes directories on the way down to it or fills the
file beside it. -/
def Step.MakesReady (target : Path) : Step → Prop
  | .makeDirectories path => path.steps <+: target.steps.dropLast
  | .create q => q = besides target
  | .append q _ => q = besides target
  | .rename _ _ => False

/-- Whether such a step succeeds or fails, it does nothing else. -/
theorem FileTree.OnlyFills.run {step : Step} (h : OnlyFills target t u)
    (hstep : step.MakesReady target) : OnlyFills target t (step.run u).1 := by
  cases step with
  | makeDirectories path => exact h.grow ((grows_makeAll u path).mono hstep)
  | create q =>
    obtain rfl : q = besides target := hstep
    unfold Step.run
    dsimp only
    cases hcreate : u.create (besides target) with
    | error fault => exact h
    | ok opened =>
      obtain ⟨place, hplace, hfree, -, rfl⟩ := create_eq_ok_iff.1 hcreate
      exact h.fill hplace hfree ""
  | append q text =>
    obtain rfl : q = besides target := hstep
    unfold Step.run
    dsimp only
    cases happend : u.append (besides target) text with
    | error fault => exact h
    | ok filled =>
      obtain ⟨place, held, hplace, hnode, rfl⟩ := append_eq_ok_iff.1 happend
      exact h.fill hplace (by simp [isDirectory, hnode]) (held ++ text)
  | rename source target => exact hstep.elim

/-- So do all of them together, up to the first that fails. -/
theorem FileTree.OnlyFills.runSteps (h : OnlyFills target t u)
    (hsteps : ∀ step ∈ steps, step.MakesReady target) :
    OnlyFills target t (runSteps steps u).2 := by
  induction steps generalizing u with
  | nil => exact h
  | cons step rest ih =>
    rw [List.forall_mem_cons] at hsteps
    have hnext := h.run hsteps.1
    cases hfault : (step.run u).2 with
    | none =>
      rw [runSteps_cons_of_none rest hfault]
      exact ih hnext hsteps.2
    | some fault =>
      rw [runSteps_cons_of_some rest hfault]
      exact hnext

/-- Making the directory of a target makes ready for it. -/
theorem makesReady_of_mem_parentSteps {step : Step} (h : step ∈ parentSteps target) :
    step.MakesReady target := by
  unfold parentSteps at h
  split at h
  · next parent hparent =>
    split at h
    · cases h
    · obtain rfl := List.mem_singleton.1 h
      have hsteps : parent.steps <+: target.steps.dropLast :=
        ⟨[], (List.append_nil _).trans (Path.steps_of_parent? hparent)⟩
      exact hsteps
  · cases h

/-- Making the directory of a file adds directories at most. -/
theorem grows_of_parentSteps {fault : Option IoFault}
    (h : runSteps (parentSteps target) t = (fault, made)) :
    Grows target.steps.dropLast t made := by
  unfold parentSteps at h
  split at h
  · next parent hparent =>
    split at h
    · cases h
      exact .refl _ t
    · rw [runSteps_singleton] at h
      cases h
      rw [← Path.steps_of_parent? hparent]
      exact grows_makeAll t parent
  · cases h
    exact .refl _ t

/-! ## The place beside the target -/

/-- Text without a separator behind another belongs to the last piece. -/
theorem exists_split_append {sep : Char} {ext : List Char} (cs : List Char) (h : sep ∉ ext) :
    ∃ before last, Text.split sep cs = before ++ [last] ∧
      Text.split sep (cs ++ ext) = before ++ [last ++ ext] := by
  induction cs with
  | nil => exact ⟨[], [], rfl, Text.split_of_notMem h⟩
  | cons c cs ih =>
    obtain ⟨before, last, hcs, hboth⟩ := ih
    rw [List.cons_append]
    by_cases hc : c = sep
    · refine ⟨[] :: before, last, ?_, ?_⟩
      · rw [Text.split, if_pos hc, hcs, List.cons_append]
      · rw [Text.split, if_pos hc, hboth, List.cons_append]
    · rw [Text.split_cons_of_ne _ hc, Text.split_cons_of_ne _ hc, hcs, hboth]
      cases before with
      | nil => exact ⟨[], c :: last, rfl, rfl⟩
      | cons first before => exact ⟨(c :: first) :: before, last, rfl, rfl⟩

/-- What comes behind the name of a file for the file beside it. -/
def besidesEnding : List Char := ['.', 't', 'm', 'p']

/-- The path of the file beside a target has no slash at its end. -/
theorem wantsDirectory_besides (target : Path) : wantsDirectory (besides target) = false := by
  have hchars : (besides target).chars = target.chars ++ besidesEnding := String.toList_append
  unfold wantsDirectory
  rw [hchars, List.getLast?_append_of_ne_nil _ (by decide)]
  rfl

/-- The way to the file beside is the way to the target up to its last part, and then that part with
an ending. -/
theorem exists_route_besides (target : Path) : ∃ before last,
    target.route = before ++ (if last = [] then [] else [.ofRoutePart last]) ∧
      (besides target).route = before ++ [.name (String.ofList (last ++ besidesEnding))] := by
  have hchars : (besides target).chars = target.chars ++ besidesEnding := String.toList_append
  have hending : '/' ∉ besidesEnding := by decide
  obtain ⟨before, last, htarget, hbeside⟩ := exists_split_append target.chars hending
  have hlong : 4 ≤ (last ++ besidesEnding).length := by simp [besidesEnding]
  have hne : ∀ part : List Char, part.length < 4 → last ++ besidesEnding ≠ part := by
    rintro part hshort rfl
    omega
  refine ⟨(before.filter fun part => part != []).map .ofRoutePart, last, ?_, ?_⟩
  · unfold Path.route Path.parts
    rw [htarget, List.filter_append, List.map_append]
    by_cases hlast : last = [] <;> simp [hlast]
  · unfold Path.route Path.parts
    rw [hchars, hbeside, List.filter_append, List.map_append,
      List.filter_cons_of_pos (by simpa using hne [] (by decide)), List.filter_nil,
      List.map_singleton, Path.Component.ofRoutePart, if_neg (hne ['.'] (by decide)),
      Path.Component.ofPart, if_neg (hne ['.', '.'] (by decide))]

/-- A step that is no name leads no further down. -/
theorem length_onward_le {c : Path.Component} (hname : ∀ name, c ≠ .name name) (here : Place) :
    (onward here c).length ≤ here.length := by
  cases c with
  | root => exact Nat.le_refl _
  | here => exact Nat.le_refl _
  | up => simp [onward]
  | name name => exact absurd rfl (hname name)

/-- A single step leads where it points. -/
theorem eq_onward_of_walk {c : Path.Component} (h : t.walk base [c] = .ok place) :
    place = onward base c := by
  obtain ⟨-, -, h⟩ := walk_cons_eq_ok_iff.1 h
  cases h
  rfl

/-- The file beside the target never stands at the place of the target. -/
theorem locate_besides_ne (h : t.locate target = .ok place) :
    t.locate (besides target) ≠ .ok place := by
  intro hbeside
  obtain ⟨_, -, h⟩ := Fallible.bind_eq_ok_iff.1 h
  obtain ⟨_, -, hbeside⟩ := Fallible.bind_eq_ok_iff.1 hbeside
  obtain ⟨before, last, htarget, hroute⟩ := exists_route_besides target
  rw [hroute, walk_append_eq_ok_iff] at hbeside
  rw [htarget, walk_append_eq_ok_iff] at h
  obtain ⟨base, hbase, hbeside⟩ := hbeside
  obtain ⟨base', hbase', h⟩ := h
  obtain rfl : base = base' := Except.ok.inj (hbase.symm.trans hbase')
  -- Both ways part after `base`. The file beside lies one step below; the target does not, unless
  -- its last part is a name, and then it is another name.
  have hplace : place = base ++ [String.ofList (last ++ besidesEnding)] := eq_onward_of_walk hbeside
  have hdown : ¬ place.length ≤ base.length := by simp [hplace]
  by_cases hempty : last = []
  · rw [if_pos hempty] at h
    cases h
    exact hdown (Nat.le_refl _)
  · rw [if_neg hempty] at h
    have hlast := eq_onward_of_walk h
    by_cases hdot : last = ['.']
    · rw [hdot] at hlast
      exact hdown (hlast ▸ length_onward_le (by simp [Path.Component.ofRoutePart]) base)
    · by_cases hdots : last = ['.', '.']
      · rw [hdots] at hlast
        exact hdown (hlast ▸ length_onward_le
          (by simp [Path.Component.ofRoutePart, Path.Component.ofPart]) base)
      · rw [Path.Component.ofRoutePart, if_neg hdot, Path.Component.ofPart, if_neg hdots] at hlast
        have hsame : String.ofList last = String.ofList (last ++ besidesEnding) := by
          simpa [onward] using hlast.symm.trans hplace
        rw [String.ofList_inj] at hsame
        simp [besidesEnding] at hsame

end Storage

end JobStaging
