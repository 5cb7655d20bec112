import Mathlib.Algebra.Order.BigOperators.Group.List
import Mathlib.Algebra.Order.Ring.Nat
import Mathlib.Data.List.Forall2
import Mathlib.Data.List.Induction
import Mathlib.Data.List.MinMax

/-!
# Lists and texts

Facts about lists that have nothing to do with staging, where the library stops short of them. A
list that is cut at an item may be cut elsewhere too, and `append_cons_eq_append_cons_iff` says what
the cuts of one list have to do with each other; `append_separator_eq_iff` is the same for texts,
and `concat_eq_append_cons_iff` for a cut at the last item or before it. Then come lists that are
related item by item, lists of entries under names that differ, and the first of the least items.
-/

set_option autoImplicit false

namespace JobStaging.Lists

variable {α β : Type}

/-! ## Cuts -/

/-- Lists with a separator in each are the same when they are cut at the same place, or when one
part before the cut holds the cut of the other. -/
theorem append_cons_eq_append_cons_iff {sep : α} {xs ys before after : List α} :
    xs ++ sep :: before = ys ++ sep :: after ↔ xs = ys ∧ before = after ∨
      (∃ more, ys = xs ++ sep :: more ∧ before = more ++ sep :: after) ∨
      ∃ more, xs = ys ++ sep :: more ∧ after = more ++ sep :: before := by
  -- Of two cuts one lies before the other, and the part between them is empty or starts with `sep`.
  have hcut : ∀ us vs : List α, ∀ x y : List α, (∃ as, vs = us ++ as ∧ sep :: x = as ++ sep :: y) ↔
      us = vs ∧ x = y ∨ ∃ more, vs = us ++ sep :: more ∧ x = more ++ sep :: y := by
    intro us vs x y
    constructor
    · rintro ⟨as, rfl, hx⟩
      cases as with
      | nil =>
        rw [List.append_nil]
        exact .inl ⟨rfl, (List.cons.inj hx).2⟩
      | cons a more =>
        obtain ⟨rfl, hrest⟩ := List.cons.inj hx
        exact .inr ⟨more, rfl, hrest⟩
    · rintro (⟨rfl, rfl⟩ | ⟨more, rfl, rfl⟩)
      · exact ⟨[], (List.append_nil _).symm, rfl⟩
      · exact ⟨sep :: more, rfl, rfl⟩
  rw [List.append_eq_append_iff, hcut, hcut]
  constructor
  · rintro ((⟨hxs, hbefore⟩ | h) | (⟨hxs, hbefore⟩ | h))
    · exact .inl ⟨hxs, hbefore⟩
    · exact .inr (.inl h)
    · exact .inl ⟨hxs.symm, hbefore.symm⟩
    · exact .inr (.inr h)
  · rintro (⟨hxs, hbefore⟩ | h | h)
    · exact .inl (.inl ⟨hxs, hbefore⟩)
    · exact .inl (.inr h)
    · exact .inr (.inr h)

/-- Of two texts that are joined to others by a separator, the first runs into the other when it
goes on with the separator and with the beginning of what the other is joined to. -/
def RunsInto (sep f p g q : String) : Prop := ∃ more, g = f ++ sep ++ more ∧ p = more ++ sep ++ q

/-- For a separator of one character, the same in terms of characters. -/
theorem runsInto_singleton_iff {sep : Char} {f p g q : String} :
    RunsInto (String.singleton sep) f p g q ↔ ∃ more : List Char,
      g.toList = f.toList ++ sep :: more ∧ p.toList = more ++ sep :: q.toList := by
  constructor
  · rintro ⟨more, rfl, rfl⟩
    exact ⟨more.toList, by simp, by simp⟩
  · rintro ⟨more, hg, hp⟩
    refine ⟨String.ofList more, String.ext ?_, String.ext ?_⟩
    · rw [hg]
      simp
    · rw [hp]
      simp

/-- Pairs of texts that are joined by a separator are told by the result, unless one of the first
texts runs into the other pair. -/
theorem append_separator_eq_iff (sep : Char) {f p g q : String} :
    f ++ String.singleton sep ++ p = g ++ String.singleton sep ++ q ↔ f = g ∧ p = q ∨
      RunsInto (String.singleton sep) f p g q ∨ RunsInto (String.singleton sep) g q f p := by
  have hchars : ∀ f p : String,
      (f ++ String.singleton sep ++ p).toList = f.toList ++ sep :: p.toList := by simp
  rw [← String.toList_inj, hchars, hchars, append_cons_eq_append_cons_iff, String.toList_inj,
    String.toList_inj, ← runsInto_singleton_iff, ← runsInto_singleton_iff]

/-- Where a list is cut before its last item or at it. -/
theorem concat_eq_append_cons_iff {before after xs : List α} {x y : α} :
    xs ++ [y] = before ++ x :: after ↔
      xs = before ∧ y = x ∧ after = [] ∨
        ∃ rest, after = rest ++ [y] ∧ xs = before ++ x :: rest := by
  constructor
  · intro h
    rcases List.eq_nil_or_concat after with rfl | ⟨rest, last, rfl⟩
    · obtain ⟨hxs, hy⟩ := List.append_inj' h rfl
      exact .inl ⟨hxs, List.singleton_inj.1 hy, rfl⟩
    · have h' : xs ++ [y] = (before ++ x :: rest) ++ [last] := by simpa using h
      obtain ⟨hxs, hy⟩ := List.append_inj' h' rfl
      rw [List.singleton_inj.1 hy]
      exact .inr ⟨rest, List.concat_eq_append, hxs⟩
  · rintro (⟨rfl, rfl, rfl⟩ | ⟨rest, rfl, rfl⟩)
    · rfl
    · simp

/-! ## Items that are related one by one -/

/-- Where lists are related item by item, every second item has a first one. -/
theorem exists_mem_of_forall₂ {related : α → β → Prop} {xs : List α} {ys : List β}
    (h : List.Forall₂ related xs ys) {y : β} (hy : y ∈ ys) : ∃ x ∈ xs, related x y := by
  induction h with
  | nil => cases hy
  | @cons x first _ _ hfirst _ ih =>
    rcases List.mem_cons.1 hy with rfl | hy
    · exact ⟨x, List.mem_cons_self, hfirst⟩
    · obtain ⟨x', hmem, hx'⟩ := ih hy
      exact ⟨x', List.mem_cons_of_mem _ hmem, hx'⟩

/-- Where lists are related item by item, the second items are those of the second list. -/
theorem forall₂_and_mem {related : α → β → Prop} {xs : List α} {ys : List β}
    (h : List.Forall₂ related xs ys) : List.Forall₂ (fun x y => y ∈ ys ∧ related x y) xs ys := by
  have hflip : List.Forall₂ (fun y x => y ∈ ys ∧ related x y) ys xs :=
    (List.forall₂_and_left ys xs).2 ⟨fun _ hy => hy, h.flip⟩
  exact hflip.flip

/-- What is found for some names, where something is found exactly for those that pass a test,
belongs name by name to the names that pass. -/
theorem forall₂_filter {found : β → Option α → Prop} {test : β → Bool}
    {names : List β} {finds : List (Option α)} (h : List.Forall₂ found names finds)
    (htest : ∀ n f, found n f → test n = f.isSome) :
    List.Forall₂ (fun n a => found n (some a)) (names.filter test) (finds.filterMap id) := by
  induction h with
  | nil => exact .nil
  | @cons n f names finds hfound _ ih =>
    cases f with
    | none =>
      rw [List.filter_cons_of_neg (by simp [htest n none hfound])]
      exact ih
    | some a =>
      rw [List.filter_cons_of_pos (by simp [htest n (some a) hfound])]
      exact .cons hfound ih

/-! ## Names that differ -/

/-- Where names differ, those entries that go by the name of one of them are that one alone. -/
theorem filter_eq_singleton {entries : List (String × α)} {e : String × α}
    (hnodup : (entries.map Prod.fst).Nodup) (he : e ∈ entries) :
    entries.filter (fun e' => e'.1 == e.1) = [e] := by
  induction entries with
  | nil => exact absurd he List.not_mem_nil
  | cons first rest ih =>
    rw [List.map_cons, List.nodup_cons] at hnodup
    rcases List.mem_cons.1 he with rfl | he
    · have hrest : rest.filter (fun e' => e'.1 == e.1) = [] := by
        rw [List.filter_eq_nil_iff]
        intro e' he' hname
        exact hnodup.1 (eq_of_beq hname ▸ List.mem_map_of_mem he')
      rw [List.filter_cons, if_pos (beq_self_eq_true _), hrest]
    · have hne : first.1 ≠ e.1 := fun hname => hnodup.1 (hname ▸ List.mem_map_of_mem he)
      rw [List.filter_cons_of_neg (by simpa using hne)]
      exact ih hnodup.2 he

/-- Names that differ and are all among others have no greater sum of weights than those. -/
theorem sum_le_sum_of_subset {names others : List String} (weight : String → Nat)
    (hnodup : names.Nodup) (hsubset : names ⊆ others) :
    (names.map weight).sum ≤ (others.map weight).sum := by
  obtain ⟨same, hperm, hsublist⟩ := List.subperm_of_subset hnodup hsubset
  calc (names.map weight).sum = (same.map weight).sum := ((hperm.map weight).sum_eq).symm
    _ ≤ (others.map weight).sum :=
      (hsublist.map weight).sum_le_sum fun n _ => Nat.zero_le n

/-! ## Least items -/

/-- A least member of a list is the first one exactly when all before it are greater. -/
theorem exists_split_of_argmin {size : α → ℕ} {xs : List α} {x : α}
    (h : xs.argmin size = some x) : ∃ before after, xs = before ++ x :: after ∧
      (∀ y ∈ before, size x < size y) ∧ ∀ y ∈ after, size x ≤ size y := by
  induction xs using List.reverseRecOn generalizing x with
  | nil => cases h
  | append_singleton earlier last ih =>
    rw [List.argmin_concat] at h
    cases hheld : earlier.argmin size with
    | none =>
      rw [hheld] at h
      cases h
      rw [List.argmin_eq_none.1 hheld]
      exact ⟨[], [], rfl, by simp, by simp⟩
    | some held =>
      rw [hheld] at h
      obtain ⟨before, after, rfl, hbefore, hafter⟩ := ih hheld
      by_cases hless : size last < size held
      · -- The last one is less than the least so far, and so than all before it.
        simp only [if_pos hless, Option.some.injEq] at h
        subst h
        refine ⟨before ++ held :: after, [], rfl, ?_, by simp⟩
        intro y hy
        rcases List.mem_append.1 hy with hy | hy
        · exact hless.trans (hbefore y hy)
        · rcases List.mem_cons.1 hy with rfl | hy
          · exact hless
          · exact hless.trans_le (hafter y hy)
      · simp only [if_neg hless, Option.some.injEq] at h
        subst h
        refine ⟨before, after ++ [last], by simp, hbefore, ?_⟩
        intro y hy
        rcases List.mem_append.1 hy with hy | hy
        · exact hafter y hy
        · rw [List.mem_singleton.1 hy]
          exact not_lt.1 hless

end JobStaging.Lists
