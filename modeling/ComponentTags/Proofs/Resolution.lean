import ComponentTags.Expansion
import ComponentTags.Proofs.Registry
import ComponentTags.Resolver

/-!
# Resolved names and the scopes in use

A resolver looks names up as they were written, while scopes are told apart by identifiers. Its memory makes no
difference: every name has the scope that a resolver without memory gives it, and the scopes in use are those that a
registry gets from the same names. They only grow at their end. After a run they are the scopes of the run in the
order of first use, and neither two of their names nor two of their files are the same.

So an expansion may ask a resolver for its scopes in place of a registry. It writes the same text or meets the same
failure, and the same scopes are in use at its end. What is proved of expansions with a registry holds of those with a
resolver, also where the resolver goes from one request to the next.
-/

namespace ComponentTags

namespace Resolver

/-- What is remembered of a name is its scope, and that is in use. -/
theorem of_lookup {r : Resolver} {component : Text} {scope : Scope} (h : r.known.lookup component = some scope) :
    scope = r.naming.scope component ∧ scope ∈ r.imports := by
  obtain ⟨front, back, hknown, -⟩ := List.lookup_eq_some_iff.mp h
  refine r.remembered (component, scope) ?_
  rw [hknown]
  exact List.mem_append_right _ List.mem_cons_self

/-- A step gives the scope of its component, whatever is remembered. -/
theorem resolve_scope (r : Resolver) (component : Text) : (r.resolve component).1 = r.naming.scope component := by
  unfold resolve
  cases h : r.known.lookup component with
  | some scope => exact (of_lookup h).1
  | none => rfl

/-- A step leaves the naming as it is. -/
theorem resolve_naming (r : Resolver) (component : Text) : (r.resolve component).2.naming = r.naming := by
  unfold resolve
  cases r.known.lookup component <;> rfl

/-- A run leaves the naming as it is. -/
theorem resolveAll_naming (r : Resolver) (components : List Text) : (r.resolveAll components).2.naming = r.naming := by
  induction components generalizing r with
  | nil => rfl
  | cons component components ih =>
    have hbehind := ih (r.resolve component).2
    rw [resolve_naming] at hbehind
    simpa only [resolveAll] using hbehind

/-- A step puts the scope of its component into use. Where it is remembered it is in use already. -/
theorem resolve_imports (r : Resolver) (component : Text) :
    (r.resolve component).2.imports = r.imports.add (r.naming.scope component) := by
  unfold resolve
  cases h : r.known.lookup component with
  | some scope =>
    have hknown := of_lookup h
    rw [hknown.1] at hknown
    simp [Registry.add, hknown.2]
  | none => rfl

/-- A run gives the scope of each component. -/
theorem resolveAll_scopes (r : Resolver) (components : List Text) :
    (r.resolveAll components).1 = components.map r.naming.scope := by
  induction components generalizing r with
  | nil => rfl
  | cons component components ih =>
    have hbehind := ih (r.resolve component).2
    rw [resolve_naming] at hbehind
    simp only [resolveAll, resolve_scope, hbehind, List.map_cons]

/-- A run puts the scopes of its components into use, one after another. -/
theorem resolveAll_imports (r : Resolver) (components : List Text) :
    (r.resolveAll components).2.imports = (components.map r.naming.scope).foldl Registry.add r.imports := by
  induction components generalizing r with
  | nil => rfl
  | cons component components ih =>
    have hbehind := ih (r.resolve component).2
    rw [resolve_naming, resolve_imports] at hbehind
    simpa only [resolveAll, List.map_cons, List.foldl_cons] using hbehind

/-- The scopes in use after a run begin with those after its first part. -/
theorem imports_front (r : Resolver) (front back : List Text) :
    (r.resolveAll front).2.imports <+: (r.resolveAll (front ++ back)).2.imports := by
  rw [resolveAll_imports, resolveAll_imports, List.map_append, List.foldl_append,
    Registry.foldl_add ((front.map r.naming.scope).foldl Registry.add r.imports)]
  exact List.prefix_append _ _

/-- The scope that a fresh resolver gives to a component of a run is in use after the run. -/
theorem mem_imports (naming : Naming) {components : List Text} {component : Text} (h : component ∈ components) :
    naming.scope component ∈ ((fresh naming).resolveAll components).2.imports := by
  have hmem : naming.scope component ∈ components.map naming.scope := List.mem_map_of_mem h
  rw [resolveAll_imports]
  simpa only [fresh, Registry.foldl_add_nil, List.mem_eraseDups] using hmem

/-- The scopes in use after a run of a fresh resolver are the imports of the identifiers of its components. -/
theorem imports_fresh (naming : Naming) (components : List Text) :
    ((fresh naming).resolveAll components).2.imports =
      (components.map macroName).eraseDups.map naming.importOf := by
  rw [resolveAll_imports]
  exact Registry.foldl_add_scope naming components

/-- A fresh resolver is asked for components one after another. Each answer is the scope that a fresh resolver gives to
that component, made of its identifier. Between any two moments of a run, the scopes in use before come first among
those in use later, and the scope of a component asked for in between is among the latter. In the end the scopes in use
are the answers without repetitions, each where it was given first, and they differ both in their names and in their
files. -/
theorem resolveAll_canonical (naming : Naming) (components : List Text) :
    let scopeOf (component : Text) := ((fresh naming).resolve component).1
    let after (front : List Text) := ((fresh naming).resolveAll front).2
    (∀ component, scopeOf component =
      ⟨macroName component ++ naming.scopeSuffix, macroName component ++ '.' :: naming.extension⟩) ∧
    ((fresh naming).resolveAll components).1 = components.map scopeOf ∧
    (∀ front component behind,
      ((after front).resolve component).1 = scopeOf component ∧
      (after front).imports <+: (after (front ++ component :: behind)).imports ∧
      scopeOf component ∈ (after (front ++ component :: behind)).imports) ∧
    (after components).imports = (components.map scopeOf).eraseDups ∧
    ((after components).imports.map (·.name)).Nodup ∧ ((after components).imports.map (·.path)).Nodup := by
  intro scopeOf after
  have hscopeOf (component : Text) : scopeOf component = naming.scope component :=
    (fresh naming).resolve_scope component
  have hscopes : components.map scopeOf = components.map naming.scope :=
    List.map_congr_left fun component _ => hscopeOf component
  refine ⟨hscopeOf, ?_, fun front component behind => ⟨?_, ?_, ?_⟩, ?_, ?_, ?_⟩
  · rw [resolveAll_scopes, hscopes]
    rfl
  · rw [hscopeOf, resolve_scope, resolveAll_naming]
    rfl
  · exact (fresh naming).imports_front front (component :: behind)
  · rw [hscopeOf]
    exact mem_imports naming (by simp)
  · rw [hscopes, resolveAll_imports]
    exact Registry.foldl_add_nil _
  · rw [imports_fresh]
    exact naming.nodup_importOf_name _
  · rw [imports_fresh]
    exact naming.nodup_importOf_path _

/-- Three spellings of one scope, and a fourth name between two of them. -/
example : ((fresh {}).resolveAll ["A-b".toList, "C".toList, "a.B".toList, "A_B".toList]).2.imports =
    [⟨"a_b_scope".toList, "a_b.html".toList⟩, ⟨"c_scope".toList, "c.html".toList⟩] := by
  decide +kernel

end Resolver

/-- How an expansion by way of a resolver came out, and what the resolver knows at its end. -/
structure Resolved where
  /-- The expanded text, or what stopped the expansion. -/
  outcome : Except Failure Text
  /-- The resolver, with all that was asked of it by then. -/
  resolver : Resolver

mutual

/-- The expansion of a node that asks a resolver for the scopes of components. -/
def Node.expandBy (options : Options) (text : Text) (r : Resolver) : Node → Resolved
  | .text value _ => ⟨.ok value, r⟩
  | .component c content failure =>
    let (scope, r) := r.resolve c.name
    match Node.expandAllBy options text r failure content with
    | ⟨.error e, r⟩ => ⟨.error e, r⟩
    | ⟨.ok inner, r⟩ =>
      match attributesIn text c.attributes with
      | .error e => ⟨.error e, r⟩
      | .ok attributes =>
        let content := c.closing.map fun _ => inner
        ⟨.ok (Directive.component options.closeSelfClosing scope.name c.name
          (attributes.map (·.item)) content), r⟩

/-- The expansion of nodes one after another; the resolver goes from each to the next. -/
def Node.expandAllBy (options : Options) (text : Text) (r : Resolver) (failure : Option Failure) :
    List Node → Resolved
  | [] =>
    match failure with
    | none => ⟨.ok [], r⟩
    | some e => ⟨.error e, r⟩
  | node :: nodes =>
    match Node.expandBy options text r node with
    | ⟨.error e, r⟩ => ⟨.error e, r⟩
    | ⟨.ok front, r⟩ =>
      match Node.expandAllBy options text r failure nodes with
      | ⟨.error e, r⟩ => ⟨.error e, r⟩
      | ⟨.ok back, r⟩ => ⟨.ok (front ++ back), r⟩

end

/-- The expansion of a text that asks a resolver for the scopes of components. -/
def expandBodyBy (options : Options) (text : Text) (r : Resolver) : Resolved :=
  let outline := Outline.ofText text
  Node.expandAllBy options text r outline.failure outline.nodes

/-- An expansion by way of a resolver goes along with one by way of a registry. -/
structure Resolved.Simulates (x : Resolved) (y : Expanded) (naming : Naming) : Prop where
  /-- Both write the same text, or meet the same failure. -/
  outcome_eq : x.outcome = y.outcome
  /-- The same scopes are in use. -/
  imports_eq : x.resolver.imports = y.registry
  /-- The resolver goes on with the same naming. -/
  naming_eq : x.resolver.naming = naming

/-- The expansion by way of a registry is read off from the one by way of a resolver. -/
theorem Resolved.Simulates.expanded_eq {x : Resolved} {y : Expanded} {naming : Naming} (h : x.Simulates y naming) :
    y = ⟨x.outcome, x.resolver.imports⟩ := by
  rw [h.outcome_eq, h.imports_eq]

section Simulation

variable (options : Options) (text : Text)

mutual

/-- A node: the scope of a component is the one that a registry gives, and the content is expanded with the same scopes
in use. -/
theorem Node.expandBy_simulates :
    (node : Node) → (r : Resolver) → r.naming = options.toNaming →
      (Node.expandBy options text r node).Simulates (Node.expand options text r.imports node) options.toNaming
  | .text value extent, r, hnaming => ⟨rfl, rfl, hnaming⟩
  | .component c content failure, r, hnaming => by
    have hscope := r.resolve_scope c.name
    have himports := r.resolve_imports c.name
    have hnext := r.resolve_naming c.name
    rw [hnaming] at hscope himports hnext
    have hcontent := Node.expandAllBy_simulates content (r.resolve c.name).2 hnext failure
    rw [himports] at hcontent
    have hkept := hcontent.naming_eq
    simp only [Node.expandBy, Node.expand, Registry.resolve, hscope, hcontent.expanded_eq]
    generalize Node.expandAllBy options text (r.resolve c.name).2 failure content = x at hkept ⊢
    obtain ⟨outcome, after⟩ := x
    cases outcome with
    | error e => exact ⟨rfl, rfl, hkept⟩
    | ok inner => cases attributesIn text c.attributes <;> exact ⟨rfl, rfl, hkept⟩

/-- Nodes one after another: what the resolver knows behind the first one goes along with the scopes in use there. -/
theorem Node.expandAllBy_simulates :
    (nodes : List Node) → (r : Resolver) → r.naming = options.toNaming → (failure : Option Failure) →
      (Node.expandAllBy options text r failure nodes).Simulates
        (Node.expandAll options text r.imports failure nodes) options.toNaming
  | [], r, hnaming, failure => by cases failure <;> exact ⟨rfl, rfl, hnaming⟩
  | node :: nodes, r, hnaming, failure => by
    have hnode := Node.expandBy_simulates node r hnaming
    have hkept := hnode.naming_eq
    simp only [Node.expandAllBy, Node.expandAll, hnode.expanded_eq]
    generalize Node.expandBy options text r node = x at hkept ⊢
    obtain ⟨outcome, after⟩ := x
    cases outcome with
    | error e => exact ⟨rfl, rfl, hkept⟩
    | ok front =>
      have hrest := Node.expandAllBy_simulates nodes after hkept failure
      have hlast := hrest.naming_eq
      simp only [hrest.expanded_eq]
      generalize Node.expandAllBy options text after failure nodes = y at hlast ⊢
      obtain ⟨outcome, last⟩ := y
      cases outcome <;> exact ⟨rfl, rfl, hlast⟩

end

/-- An expansion that asks a resolver goes along with one that asks a registry of the same scopes, whatever the resolver
was asked before. -/
theorem expandBodyBy_simulates {r : Resolver} (h : r.naming = options.toNaming) :
    (expandBodyBy options text r).Simulates (expandBody options text r.imports) options.toNaming :=
  Node.expandAllBy_simulates options text _ r h _

end Simulation

end ComponentTags
