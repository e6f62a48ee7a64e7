import ComponentTags.Scope

/-!
# Names resolved one after another

A resolver finds the scopes of components under one naming. It remembers the scope of each name as the name was
written, so that a name is worked out once. Names that are written differently can have the same scope, which is
put into use once.
-/

namespace ComponentTags

theorem Registry.mem_add (registry : Registry) (scope : Scope) : scope ∈ registry.add scope := by
  unfold add
  split
  · next h => simpa using h
  · simp

theorem Registry.mem_add_of_mem {registry : Registry} {scope : Scope} (h : scope ∈ registry) (other : Scope) :
    scope ∈ registry.add other := by
  unfold add
  split
  · exact h
  · exact List.mem_append_left _ h

/-- What a resolver knows. -/
structure Resolver where
  /-- How the names of files and scopes are made. -/
  naming : Naming
  /-- The names that were worked out, each with its scope. -/
  known : List (Text × Scope) := []
  /-- The scopes in use, in the order of first use. -/
  imports : Registry := []
  /-- A scope is remembered for its own name, and it is in use. -/
  remembered : ∀ entry ∈ known, entry.2 = naming.scope entry.1 ∧ entry.2 ∈ imports := by simp
  deriving DecidableEq, Repr

/-- A resolver that was not asked for anything yet. -/
def Resolver.fresh (naming : Naming) : Resolver where
  naming := naming

/-- Work out the scope of a component, put it into use and remember it. -/
def Resolver.learn (r : Resolver) (component : Text) : Resolver where
  naming := r.naming
  known := (component, r.naming.scope component) :: r.known
  imports := r.imports.add (r.naming.scope component)
  remembered := by
    refine List.forall_mem_cons.mpr ⟨⟨rfl, r.imports.mem_add _⟩, fun entry hentry => ?_⟩
    have hknown := r.remembered entry hentry
    exact ⟨hknown.1, Registry.mem_add_of_mem hknown.2 _⟩

/-- The scope of a component, and what the resolver knows then. A name that was resolved before is looked up. -/
def Resolver.resolve (r : Resolver) (component : Text) : Scope × Resolver :=
  match r.known.lookup component with
  | some scope => (scope, r)
  | none => (r.naming.scope component, r.learn component)

/-- The scopes of components that are resolved one after another, and what the resolver knows in the end. -/
def Resolver.resolveAll (r : Resolver) : List Text → List Scope × Resolver
  | [] => ([], r)
  | component :: components =>
    let (scope, next) := r.resolve component
    let (scopes, last) := next.resolveAll components
    (scope :: scopes, last)

end ComponentTags
