import JobStaging.Inventory

/-!
# Lookups

Staging asks for file systems and access points while it goes on, and may fail at each answer. A
`Traced` value is such a piece of work: its outcome and the questions that were asked, in order. A
`Resolver` is whatever answers them; an inventory is one.
-/

set_option autoImplicit false

namespace JobStaging

/-- A question for a resource, by identifier or name and environment. -/
inductive Query where
  | fileSystem (name : String) (envBase : Option String)
  | accessPoint (name : String) (fileSystem envBase : Option String)
  deriving DecidableEq, Repr

/-- The outcome of a piece of work and the questions asked for it, the first one first. -/
structure Traced (α : Type) where
  outcome : Except Error α
  queries : List Query

namespace Traced

variable {α β : Type}

/-- An outcome for which nothing was asked. -/
def ofExcept (outcome : Except Error α) : Traced α := ⟨outcome, []⟩

/-- A step that may reject, for which nothing was asked. -/
def check (outcome : Except Rejection α) : Traced α := ofExcept (outcome.mapError .invalidInput)

/-- Fails with an error. -/
def fail (e : Error) : Traced α := ⟨.error e, []⟩

/-- One piece of work after another; after an error nothing more is asked. -/
def andThen (t : Traced α) (f : α → Traced β) : Traced β :=
  match t.outcome with
  | .ok a => ⟨(f a).outcome, t.queries ++ (f a).queries⟩
  | .error e => ⟨.error e, t.queries⟩

/-- Pieces of work are done one after the other. -/
instance : Monad Traced where
  pure a := ofExcept (.ok a)
  bind := andThen

/-- What is given has itself for its outcome. -/
@[simp] theorem outcome_pure (a : α) : (pure a : Traced α).outcome = .ok a := rfl

/-- Nothing is asked for what is given. -/
@[simp] theorem queries_pure (a : α) : (pure a : Traced α).queries = [] := rfl

/-- An outcome that was there is the outcome. -/
@[simp] theorem outcome_ofExcept (o : Except Error α) : (ofExcept o).outcome = o := rfl

/-- Nothing is asked for an outcome that was there. -/
@[simp] theorem queries_ofExcept (o : Except Error α) : (ofExcept o).queries = [] := rfl

/-- The outcome of two pieces of work is that of the second after the first. -/
@[simp] theorem outcome_bind (t : Traced α) (f : α → Traced β) :
    (t >>= f).outcome = t.outcome >>= fun a => (f a).outcome := by
  show (andThen t f).outcome = _
  unfold andThen
  split <;> simp_all [bind, Except.bind]

/-- After a first piece of work that succeeds come the questions of the second. -/
theorem queries_bind_of_ok {t : Traced α} {a : α} (f : α → Traced β) (h : t.outcome = .ok a) :
    (t >>= f).queries = t.queries ++ (f a).queries := by
  show (andThen t f).queries = _
  simp [andThen, h]

/-- After a first piece of work that fails nothing is asked. -/
theorem queries_bind_of_error {t : Traced α} {e : Error} (f : α → Traced β)
    (h : t.outcome = .error e) : (t >>= f).queries = t.queries := by
  show (andThen t f).queries = _
  simp [andThen, h]

end Traced

/-- What answers questions for resources. -/
structure Resolver where
  fileSystem : String → Option String → Except Error FileSystem
  accessPoint : String → Option String → Option String → Except Error AccessPoint

namespace Resolver

/-- Asks for a file system. -/
def askFileSystem (r : Resolver) (name : String) (envBase : Option String) : Traced FileSystem :=
  ⟨r.fileSystem name envBase, [.fileSystem name envBase]⟩

/-- Asks for an access point. -/
def askAccessPoint (r : Resolver) (name : String) (fileSystem envBase : Option String) :
    Traced AccessPoint :=
  ⟨r.accessPoint name fileSystem envBase, [.accessPoint name fileSystem envBase]⟩

end Resolver

/-- An inventory answers from what it lists. -/
def Inventory.resolver (i : Inventory) : Resolver := ⟨i.fileSystem, i.accessPoint⟩

end JobStaging
