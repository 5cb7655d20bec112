import JobStaging.Proofs.Storage.Filling
import JobStaging.Proofs.Storage.LocalPath

/-!
# Targets that are left alone

Until the last step of a write only directories come to the tree, and the file beside the target is
filled. What the path of the target led to it leads to still. Had it led to nothing, it might lead
somewhere now, because there are directories that were not there. In a proper tree it does not: what
stands below a new directory is new as well, and the new directories all lie above the target. But a
path that goes up again leaves the new directories, and can come to what stood elsewhere all the
time. So a target that was not there is there before its time only if its path goes up from a place
where nothing stood (`goesUp_of_nodeOf`). Only the root of a mounted file system can have a path
that goes up (`not_goesUpFromNothing`).
-/

set_option autoImplicit false

namespace JobStaging.Storage

open FileTree

variable {t u : FileTree} {place here gone base : Place} {p target : Path}
  {way : List Path.Component} {roots : Roots} {e : EfsPath}

namespace FileTree

/-! ## Proper trees -/

/-- In a proper tree everything stands in a directory. -/
def Grounded (t : FileTree) : Prop :=
  ∀ place name, t.node? (place ++ [name]) ≠ none → t.isDirectory place = true

/-- In a proper tree a place is a directory when something stands anywhere below it. -/
theorem Grounded.isDirectory (h : t.Grounded) {names : List String} (hne : names ≠ [])
    (hthere : t.node? (place ++ names) ≠ none) : t.isDirectory place = true := by
  induction names using List.reverseRecOn with
  | nil => exact absurd rfl hne
  | append_singleton names name ih =>
    rw [← List.append_assoc] at hthere
    have hdir := h _ _ hthere
    by_cases hnil : names = []
    · rwa [hnil, List.append_nil] at hdir
    · refine ih hnil ?_
      rw [isDirectory_iff.1 hdir]
      simp

/-- A tree is proper if each of its entries stands in a directory. -/
theorem grounded_of_all (h : (t.entries.all fun e => t.isDirectory e.1.dropLast) = true) :
    t.Grounded := by
  intro place name hthere
  unfold node? at hthere
  rw [if_neg (by simp)] at hthere
  obtain ⟨node, hnode⟩ := Option.ne_none_iff_exists'.1 hthere
  obtain ⟨before, after, hentries, -⟩ := List.lookup_eq_some_iff.1 hnode
  have hentry := List.all_eq_true.1 h (place ++ [name], node) (by simp [hentries])
  simpa using hentry

/-! ## Ways that come to nothing -/

/-- Some first steps of a path lead to a place where nothing stands, and one of the others leads up
from there. -/
def GoesUpFromNothing (t : FileTree) (p : Path) : Prop :=
  ∃ before after gone, p.route = before ++ after ∧ t.walk [] before = .ok gone ∧
    t.node? gone = none ∧ .up ∈ after

/-- A way that is open in one tree is open in another, or there it comes to a place that is not a
directory. -/
theorem walk_cases (h : u.walk here way = .ok place) :
    t.walk here way = .ok place ∨ ∃ before after gone, way = before ++ after ∧
      t.walk here before = .ok gone ∧ t.isDirectory gone = false ∧ u.isDirectory gone = true ∧
        u.walk gone after = .ok place := by
  induction way generalizing here with
  | nil => exact .inl h
  | cons step rest ih =>
    obtain ⟨hhere, hfits, hrest⟩ := walk_cons_eq_ok_iff.1 h
    cases hdir : t.isDirectory here with
    | false => exact .inr ⟨[], step :: rest, here, rfl, rfl, hdir, hhere, h⟩
    | true =>
      rcases ih hrest with hopen | ⟨before, after, gone, rfl, hbefore, hclosed⟩
      · exact .inl (walk_cons_eq_ok_iff.2 ⟨hdir, hfits, hopen⟩)
      · exact .inr ⟨step :: before, after, gone, rfl,
          walk_cons_eq_ok_iff.2 ⟨hdir, hfits, hbefore⟩, hclosed⟩

/-- Whoever walks a way may leave out every step that leads nowhere. -/
theorem walk_filter (h : t.walk here way = .ok place) :
    t.walk here (way.filter fun c => c != .here) = .ok place := by
  induction way generalizing here with
  | nil => exact h
  | cons step rest ih =>
    obtain ⟨hhere, hfits, hrest⟩ := walk_cons_eq_ok_iff.1 h
    by_cases hstep : step = .here
    · subst hstep
      exact ih hrest
    · rw [List.filter_cons_of_pos (by simpa using hstep)]
      exact walk_cons_eq_ok_iff.2 ⟨hhere, hfits, ih hrest⟩

/-- A place that a way passes before its end is a directory. -/
theorem isDirectory_of_walk_append {front rest : List Path.Component} (hne : rest ≠ [])
    (h : t.walk here (front ++ rest) = .ok place) :
    ∃ base, t.walk here front = .ok base ∧ t.isDirectory base = true := by
  obtain ⟨base, hfront, hrest⟩ := walk_append_eq_ok_iff.1 h
  obtain ⟨step, rest, rfl⟩ := List.exists_cons_of_ne_nil hne
  exact ⟨base, hfront, (walk_cons_eq_ok_iff.1 hrest).1⟩

/-- A place that a path passes before its last step is the root, or steps are left from there. -/
theorem Passes.cases_of_dropLast (h : t.Passes p.steps.dropLast place) :
    place = [] ∨ ∃ front rest, p.steps = front ++ rest ∧ rest ≠ [] ∧
      t.walk [] front = .ok place := by
  obtain ⟨front, ⟨more, hfront⟩, hwalk⟩ := h
  rcases List.eq_nil_or_concat p.steps with hnil | ⟨init, last, hsteps⟩
  · rw [hnil, List.dropLast_nil, List.append_eq_nil_iff] at hfront
    rw [hfront.1] at hwalk
    cases hwalk
    exact .inl rfl
  · rw [hsteps, List.concat_eq_append, List.dropLast_concat] at hfront
    refine .inr ⟨front, more ++ [last], ?_, by simp, hwalk⟩
    rw [hsteps, List.concat_eq_append, ← hfront, List.append_assoc]

/-! ## Targets before the last step -/

/-- Where the way to a target is open, no directory comes to its place. -/
theorem OnlyFills.node?_of_walk (h : OnlyFills target t u) (hlocate : u.locate target = .ok place)
    (hopen : t.walk [] target.route = .ok place) : u.node? place = t.node? place := by
  rcases h place with hsame | ⟨hnone, -, hpasses⟩ | ⟨hbeside, -⟩
  · exact hsame
  · have hsteps := walk_filter hopen
    rw [target.filter_route] at hsteps
    rcases hpasses.cases_of_dropLast with rfl | ⟨front, rest, hsplit, hne, hfront⟩
    · simp at hnone
    · -- The way passes its own end before the last step, so a directory was there before.
      rw [hsplit] at hsteps
      obtain ⟨base, hbase, hdir⟩ := isDirectory_of_walk_append hne hsteps
      obtain rfl : base = place := Except.ok.inj ((walk_of_keeps h.keeps hbase).symm.trans hfront)
      rw [isDirectory_iff, hnone] at hdir
      cases hdir
  · exact absurd hbeside (locate_besides_ne hlocate)

/-- Where the way to a target is closed, and only names are left from there, no directory comes to
its place: the directories on the way down to it lie above. -/
theorem not_passes_of_gone {before : List Path.Component} {names : List String}
    (hkeeps : t.KeepsDirectories u) (hsteps : p.steps = before ++ names.map .name)
    (hbefore : t.walk [] before = .ok gone) (hnone : t.node? (gone ++ names) = none) :
    ¬ u.Passes p.steps.dropLast (gone ++ names) := by
  intro hpasses
  have hgone : u.walk [] before = .ok gone := walk_of_keeps hkeeps hbefore
  rcases hpasses.cases_of_dropLast with hroot | ⟨front, rest, hsplit, hne, hfront⟩
  · simp [hroot] at hnone
  · rcases List.append_eq_append_iff.1 (hsteps.symm.trans hsplit) with
      ⟨passed, rfl, hnames⟩ | ⟨left, rfl, hrest⟩
    · -- Some of the names are passed, but not all.
      obtain ⟨passed, others, rfl, rfl, rfl⟩ := List.map_eq_append_iff.1 hnames
      obtain ⟨base, hbase, hpassed⟩ := walk_append_eq_ok_iff.1 hfront
      obtain rfl : gone = base := Except.ok.inj (hgone.symm.trans hbase)
      have hothers : passed ++ others = passed := List.append_cancel_left (walk_names hpassed)
      exact hne (congrArg (List.map Path.Component.name) (List.append_right_eq_self.1 hothers))
    · by_cases hleft : left = []
      · subst hleft
        rw [List.append_nil] at hgone
        have hnames : gone ++ names = gone := Except.ok.inj (hfront.symm.trans hgone)
        rw [hrest, List.append_right_eq_self.1 hnames] at hne
        exact hne rfl
      · -- The place was a directory already, as the way to `gone` leads through it.
        obtain ⟨base, hbase, hdir⟩ := isDirectory_of_walk_append hleft hbefore
        obtain rfl : base = gone ++ names :=
          Except.ok.inj ((walk_of_keeps hkeeps hbase).symm.trans hfront)
        rw [isDirectory_iff, hnone] at hdir
        cases hdir

/-- Below a place where nothing stood nothing comes to a target that is reached by names from
there. -/
theorem OnlyFills.node?_of_gone (h : OnlyFills target t u) (hgrounded : t.Grounded)
    {before after : List Path.Component} (hroute : target.route = before ++ after)
    (hbefore : t.walk [] before = .ok gone) (hgone : t.node? gone = none) (hup : .up ∉ after)
    (hlocate : u.locate target = .ok place) (hafter : u.walk gone after = .ok place) :
    u.node? place = none := by
  have hsteps : target.steps = (before.filter fun c => c != .here) ++
      after.filter fun c => c != .here := by
    rw [← target.filter_route, hroute, List.filter_append]
  obtain ⟨names, hnames⟩ : ∃ names : List String,
      (after.filter fun c => c != .here) = names.map .name := by
    refine Path.exists_names_of_mem_steps (p := target) (fun c hc => ?_) fun hmem =>
      hup (List.mem_filter.1 hmem).1
    rw [hsteps]
    exact List.mem_append_right _ hc
  rw [hnames] at hsteps
  obtain rfl : place = gone ++ names := walk_names (hnames ▸ walk_filter hafter)
  have hnone : t.node? (gone ++ names) = none := by
    by_contra hthere
    by_cases hnil : names = []
    · rw [hnil, List.append_nil] at hthere
      exact hthere hgone
    · have hdir := hgrounded.isDirectory hnil hthere
      rw [isDirectory_iff, hgone] at hdir
      cases hdir
  rcases h (gone ++ names) with hsame | ⟨-, -, hpasses⟩ | ⟨hbeside, -⟩
  · rw [hsame, hnone]
  · exact absurd hpasses (not_passes_of_gone h.keeps hsteps (walk_filter hbefore) hnone)
  · exact absurd hbeside (locate_besides_ne hlocate)

/-- In a proper tree a target that led to nothing leads to something now only if its path goes up
from a place where nothing stood. -/
theorem OnlyFills.goesUp_of_nodeOf (h : OnlyFills target t u) (hgrounded : t.Grounded)
    (hnothing : t.nodeOf target = none) (hthere : u.nodeOf target ≠ none) :
    t.GoesUpFromNothing target := by
  obtain ⟨node, hnode⟩ := Option.ne_none_iff_exists'.1 hthere
  obtain ⟨place, hlocate, hnode⟩ := nodeOf_eq_some_iff.1 hnode
  obtain ⟨_, htext, hwalk⟩ := Fallible.bind_eq_ok_iff.1 hlocate
  rcases walk_cases hwalk with hopen | ⟨before, after, gone, hroute, hbefore, hclosed, hdir, hafter⟩
  · have hold : t.locate target = .ok place := Fallible.bind_eq_ok_iff.2 ⟨(), htext, hopen⟩
    rw [nodeOf_of_locate hold, ← h.node?_of_walk hlocate hopen, hnode] at hnothing
    cases hnothing
  · -- Where the way was closed a directory has come, so nothing stood there.
    have hgone : t.node? gone = none := by
      rw [isDirectory_iff] at hdir
      rcases h gone with hsame | ⟨hnone, -⟩ | ⟨-, -, text, hfile⟩
      · rw [isDirectory_eq_false_iff, ← hsame, hdir] at hclosed
        exact absurd rfl hclosed
      · exact hnone
      · rw [hfile] at hdir
        cases hdir
    by_contra hnot
    have hup : .up ∉ after := fun hup => hnot ⟨before, after, gone, hroute, hbefore, hgone, hup⟩
    rw [h.node?_of_gone hgrounded hroute hbefore hgone hup hlocate hafter] at hnode
    cases hnode

end FileTree

/-- What a call has left of its target. -/
structure Untouched (target : Path) (t u : FileTree) : Prop where
  /-- At the place of the target stands what stood there, or a directory where nothing did. -/
  held : ∀ place, u.locate target = .ok place → u.node? place = t.node? place ∨
    t.node? place = none ∧ u.node? place = some .directory
  /-- What the path led to, it still leads to. -/
  kept : ∀ node, t.nodeOf target = some node → u.nodeOf target = some node
  /-- If the path led to nothing, in a proper tree, it leads to nothing now, unless it goes up from
  a place where nothing stood. -/
  absent : t.Grounded → t.nodeOf target = none → u.nodeOf target ≠ none →
    t.GoesUpFromNothing target

/-- Filling the file beside leaves the target alone. -/
theorem untouched_of_onlyFills (h : OnlyFills target t u) : Untouched target t u := by
  refine ⟨?_, ?_, fun hgrounded => h.goesUp_of_nodeOf hgrounded⟩
  · intro place hplace
    rcases h place with hsame | ⟨hnone, hdir, -⟩ | ⟨hbeside, -⟩
    · exact .inl hsame
    · exact .inr ⟨hnone, hdir⟩
    · exact absurd hbeside (locate_besides_ne hplace)
  · intro node hnode
    obtain ⟨place, hplace, hthere⟩ := nodeOf_eq_some_iff.1 hnode
    have hlater := locate_of_keeps h.keeps hplace
    refine nodeOf_eq_some_iff.2 ⟨place, hlater, ?_⟩
    rcases h place with hsame | ⟨hnone, -⟩ | ⟨hbeside, -⟩
    · rw [hsame, hthere]
    · rw [hnone] at hthere
      cases hthere
    · exact absurd hbeside (locate_besides_ne hlater)

/-- A path whose components do not lead up takes no step up. -/
theorem up_notMem_route (h : .up ∉ p.components) : .up ∉ p.route := by
  intro hup
  have hsteps : Path.Component.up ∈ p.steps := by
    rw [← p.filter_route]
    exact List.mem_filter.2 ⟨hup, rfl⟩
  exact h (List.mem_append_right _ hsteps)

/-- Below a root that does not go up, no path of a file system does. -/
theorem not_goesUpFromNothing {root : Path} (hlocal : roots.localPath e = .ok target)
    (hroot : roots.directories.get? e.fileSystem = some root) (hup : .up ∉ root.components) :
    ¬ t.GoesUpFromNothing target := by
  rintro ⟨before, after, gone, hroute, -, -, hmem⟩
  obtain ⟨root', hroot', -, rfl⟩ := Roots.localPath_eq_ok_iff.1 hlocal
  obtain rfl : root = root' := Option.some.inj (hroot.symm.trans hroot')
  rw [Path.route_descend fun _ h => Path.isSegment_of_mem_names h] at hroute
  have hdown : .up ∈ root.route ++ e.path.names.map Path.Component.name := by
    rw [hroute]
    exact List.mem_append_right _ hmem
  simp [up_notMem_route hup] at hdown

end JobStaging.Storage
