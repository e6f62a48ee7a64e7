import ComponentTags.Dump
import ComponentTags.Proofs.OpeningOrder

/-!
# A dump shows the components that are called

A dump and an expansion go through the same outline in different ways: the dump reads the attributes of a component
before its content, the expansion after it. Where several attribute lists are at fault they stop at different ones.
Still one of them comes to its end exactly if the other does, and then the components that are dumped are those that are
called, in the same order and with the same attributes.

A dump is read here by its entries, not by its lines: an attribute's value may hold line feeds.
-/

namespace ComponentTags

/-- What a dump says of one thing, at some depth. -/
inductive DumpEntry where
  /-- A piece of text. -/
  | text (depth : Nat) (value : Text)
  /-- A component with its attributes. -/
  | component (depth : Nat) (c : Component) (attributes : List Attribute)
  /-- The heading of a component's content. -/
  | content (depth : Nat)

/-- A line, letter by letter, with two blanks in front for each level of depth. -/
def spelledLine (depth : Nat) (content : Text) : Text := List.replicate (2 * depth) ' ' ++ content ++ ['\n']

/-- The lines of an entry, letter by letter. That of a component has its name, its form and the position of its opening
tag, and those of its attributes come behind it. -/
def DumpEntry.lines (index : LineIndex) : DumpEntry → Text
  | text depth value => spelledLine depth ("Text(".toList ++ quoted value ++ ")".toList)
  | component depth c attributes =>
    let position := index.position c.opening.start
    spelledLine depth ("Tag <".toList ++ c.name ++ "> ".toList ++
        (if c.closing.isSome then "paired".toList else "self-closing".toList) ++ " @".toList ++
        (toString position.line).toList ++ ":".toList ++ (toString position.column).toList) ++
      attributes.flatMap fun
        | .shorthand name => spelledLine (depth + 1) ("Shorthand ".toList ++ name)
        | .named name value => spelledLine (depth + 1) ("Named ".toList ++ name ++ '=' :: value)
  | content depth => spelledLine depth "Children".toList

/-- A piece of text is dumped like that. -/
theorem DumpEntry.lines_text (index : LineIndex) (depth : Nat) (value : Text) :
    (text depth value).lines index = dumpLine depth ("Text(".toList ++ quoted value ++ ")".toList) := rfl

/-- A component is dumped like that. -/
theorem DumpEntry.lines_component (index : LineIndex) (depth : Nat) (c : Component) (attributes : List Attribute) :
    (component depth c attributes).lines index =
      c.dumpLine index depth ++ attributes.flatMap (Attribute.dumpLine (depth + 1)) := by
  have hattribute : Attribute.dumpLine (depth + 1) = fun
      | .shorthand name => spelledLine (depth + 1) ("Shorthand ".toList ++ name)
      | .named name value => spelledLine (depth + 1) ("Named ".toList ++ name ++ '=' :: value) := by
    funext a
    cases a <;> rfl
  rw [hattribute]
  rfl

/-- The heading of a component's content is dumped like that. -/
theorem DumpEntry.lines_content (index : LineIndex) (depth : Nat) :
    (content depth).lines index = dumpLine depth "Children".toList := rfl

/-- The component that an entry shows. -/
def DumpEntry.called? : DumpEntry → Option Called
  | component _ c attributes => some ⟨c.name, c.closing.isSome, attributes⟩
  | text _ _ | content _ => none

mutual

/-- The entries of a node. -/
def Node.entries (text : Text) (depth : Nat) : Node → List DumpEntry
  | .text value _ => [.text depth value]
  | .component c content _ =>
    .component depth c (c.called text).attributes ::
      if c.closing.isSome then .content (depth + 1) :: Node.entriesAll text (depth + 2) content else []

/-- The entries of nodes one after another. -/
def Node.entriesAll (text : Text) (depth : Nat) : List Node → List DumpEntry
  | [] => []
  | node :: nodes => Node.entries text depth node ++ Node.entriesAll text depth nodes

end

/-- The entries of an outline of a text. -/
def Outline.entries (text : Text) (o : Outline) : List DumpEntry := Node.entriesAll text 1 o.nodes

@[simp] theorem Dump.lines_prepend (front : Text) (d : Dump) : (d.prepend front).lines = front ++ d.lines := rfl

@[simp] theorem Dump.failure_prepend (front : Text) (d : Dump) : (d.prepend front).failure = d.failure := rfl

/-- Two dumps one behind the other come to their end exactly if both do. -/
theorem Dump.append_failure_eq_none_iff {a b : Dump} :
    (a.append b).failure = none ↔ a.failure = none ∧ b.failure = none := by
  unfold append
  cases ha : a.failure <;> simp

/-- Two dumps one behind the other fail as one of them does. -/
theorem Dump.append_failure_eq_some {a b : Dump} {e : Failure} (h : (a.append b).failure = some e) :
    a.failure = some e ∨ b.failure = some e := by
  unfold append at h
  cases ha : a.failure <;> simp_all

/-- A dump that comes to its end is followed by the lines of the next one. -/
theorem Dump.lines_append {a : Dump} (h : a.failure = none) (b : Dump) : (a.append b).lines = a.lines ++ b.lines := by
  rw [append, h]
  rfl

section Nodes

variable {text : Text} {index : LineIndex}

mutual

/-- A dump of a node that comes to its end consists of its entries. -/
theorem Node.dump_lines {depth : Nat} :
    (node : Node) → (Node.dump text index depth node).failure = none →
      (Node.dump text index depth node).lines = (node.entries text depth).flatMap (·.lines index)
  | .text value extent, _ => by simp [Node.dump, Node.entries, DumpEntry.lines_text]
  | .component c content failure, h => by
    cases ha : attributesIn text c.attributes with
    | error e => simp [Node.dump, ha] at h
    | ok found =>
      cases hc : c.closing with
      | none =>
        simp [Node.dump, Node.entries, DumpEntry.lines_component, Component.called, ha, hc, List.flatMap_map]
      | some closing =>
        have hcontent : (Node.dumpAll text index (depth + 2) failure content).failure = none := by
          simpa [Node.dump, ha, hc] using h
        have hlines := Node.dumpAll_lines content hcontent
        simp [Node.dump, Node.entries, DumpEntry.lines_component, DumpEntry.lines_content, Component.called, ha, hc,
          hlines, List.flatMap_map]

/-- Dumps of nodes one after another consist of their entries. -/
theorem Node.dumpAll_lines {depth : Nat} {failure : Option Failure} :
    (nodes : List Node) → (Node.dumpAll text index depth failure nodes).failure = none →
      (Node.dumpAll text index depth failure nodes).lines = (Node.entriesAll text depth nodes).flatMap (·.lines index)
  | [], _ => rfl
  | node :: nodes, h => by
    rw [Node.dumpAll] at h ⊢
    obtain ⟨hnode, hnodes⟩ := Dump.append_failure_eq_none_iff.mp h
    rw [Dump.lines_append hnode, Node.dump_lines node hnode, Node.dumpAll_lines nodes hnodes, Node.entriesAll,
      List.flatMap_append]

end

/-- Dumps of nodes come to their end exactly if expansions do, if that holds of each node. -/
theorem Node.dumpAll_failure_iff {depth : Nat} {failure : Option Failure} {nodes : List Node}
    (h : ∀ node ∈ nodes, (Node.dump text index depth node).failure = none ↔ (node.course text).failure = none) :
    (Node.dumpAll text index depth failure nodes).failure = none ↔
      (Node.courseAll text failure nodes).failure = none := by
  induction nodes with
  | nil => rfl
  | cons node nodes ih =>
    rw [List.forall_mem_cons] at h
    rw [Node.dumpAll, Node.courseAll, Dump.append_failure_eq_none_iff, Course.append_failure_eq_none_iff, h.1, ih h.2]

/-- A dump of a node comes to its end exactly if an expansion does. -/
theorem Node.Formed.dump_failure_iff {node : Node} (h : node.Formed) (depth : Nat) :
    (Node.dump text index depth node).failure = none ↔ (node.course text).failure = none := by
  induction h generalizing depth with
  | text value extent => simp [Node.dump, Node.course]
  | @selfClosing c hc =>
    cases ha : attributesIn text c.attributes <;>
      simp [Node.dump, Node.course, Node.courseAll, Course.append, Component.attributeFailure, ha, hc]
  | @paired c closing content hc _ ih =>
    have hcontent : (Node.dumpAll text index (depth + 2) none content).failure = none ↔
        (Node.courseAll text none content).failure = none :=
      Node.dumpAll_failure_iff fun node hnode => ih node hnode (depth + 2)
    simp only [Node.course, Course.append_failure_eq_none_iff]
    rw [← hcontent]
    cases ha : attributesIn text c.attributes <;> simp [Node.dump, Component.attributeFailure, ha, hc]

/-- Dumps of nodes fail as one of them does, or for the failure behind the last one. -/
theorem Node.dumpAll_failure_eq_some {depth : Nat} {failure : Option Failure} {nodes : List Node} {e : Failure}
    (h : (Node.dumpAll text index depth failure nodes).failure = some e) :
    failure = some e ∨ ∃ node ∈ nodes, (Node.dump text index depth node).failure = some e := by
  induction nodes with
  | nil => exact .inl h
  | cons node nodes ih =>
    rw [Node.dumpAll] at h
    rcases Dump.append_failure_eq_some h with hnode | hnodes
    · exact .inr ⟨node, List.mem_cons_self, hnode⟩
    · rcases ih hnodes with hfailure | ⟨other, hmem, hother⟩
      · exact .inl hfailure
      · exact .inr ⟨other, List.mem_cons_of_mem _ hmem, hother⟩

/-- A dump of a node fails for the attribute list of one of its components. -/
theorem Node.Formed.dump_failure_eq_some {node : Node} (h : node.Formed) {depth : Nat} {e : Failure}
    (he : (Node.dump text index depth node).failure = some e) :
    ∃ c ∈ node.preorder, attributesIn text c.attributes = .error e := by
  induction h generalizing depth with
  | text value extent => simp [Node.dump] at he
  | @selfClosing c hc =>
    refine ⟨c, List.mem_cons_self, ?_⟩
    cases ha : attributesIn text c.attributes <;> simp_all [Node.dump]
  | @paired c closing content hc _ ih =>
    cases ha : attributesIn text c.attributes with
    | error e' =>
      obtain rfl : e' = e := by simpa [Node.dump, ha] using he
      exact ⟨c, List.mem_cons_self, ha⟩
    | ok found =>
      have hcontent : (Node.dumpAll text index (depth + 2) none content).failure = some e := by
        simpa [Node.dump, ha, hc] using he
      rcases Node.dumpAll_failure_eq_some hcontent with hnone | ⟨node, hnode, hfailure⟩
      · cases hnone
      · obtain ⟨inner, hinner, herror⟩ := ih node hnode hfailure
        refine ⟨inner, List.mem_cons_of_mem _ ?_, herror⟩
        rw [Node.preorderAll_eq_flatMap]
        exact List.mem_flatMap.mpr ⟨node, hnode, hinner⟩

/-- Entries of nodes one after another show the components of all of them, if that holds of each node. -/
theorem Node.called_entriesAll {depth : Nat} {nodes : List Node}
    (h : ∀ node ∈ nodes, (node.entries text depth).filterMap DumpEntry.called? =
      node.preorder.map (·.called text)) :
    (Node.entriesAll text depth nodes).filterMap DumpEntry.called? =
      (Node.preorderAll nodes).map (·.called text) := by
  induction nodes with
  | nil => rfl
  | cons node nodes ih =>
    rw [List.forall_mem_cons] at h
    rw [Node.entriesAll, Node.preorderAll, List.filterMap_append, List.map_append, h.1, ih h.2]

/-- The entries of a node show its components in the order of their opening tags. -/
theorem Node.Formed.called_entries {node : Node} (h : node.Formed) (depth : Nat) :
    (node.entries text depth).filterMap DumpEntry.called? = node.preorder.map (·.called text) := by
  have hshown (c : Component) (depth : Nat) :
      (DumpEntry.component depth c (c.called text).attributes).called? = some (c.called text) := rfl
  induction h generalizing depth with
  | text value extent => rfl
  | @selfClosing c hc =>
    rw [Node.entries, Node.preorder, List.filterMap_cons_some (hshown c depth), hc]
    rfl
  | @paired c closing content hc _ ih =>
    have hheading : (DumpEntry.content (depth + 1)).called? = none := rfl
    have hcontent := Node.called_entriesAll fun node hnode => ih node hnode (depth + 2)
    rw [Node.entries, Node.preorder, List.filterMap_cons_some (hshown c depth), hc, if_pos Option.isSome_some,
      List.filterMap_cons_none hheading, hcontent, List.map_cons]

end Nodes

/-- A dump of a text comes to its end exactly if an expansion does. -/
theorem dumpText_failure_iff (text : Text) :
    (dumpText text).failure = none ↔ ((Outline.ofText text).course text).failure = none :=
  Node.dumpAll_failure_iff fun node hnode => (Outline.formed text _ node hnode).dump_failure_iff 1

/-- A dump of a text that comes to its end consists of its entries below a heading. -/
theorem dumpText_lines {text : Text} (h : (dumpText text).failure = none) :
    (dumpText text).lines = "Template\n".toList ++
      ((Outline.ofText text).entries text).flatMap (·.lines (LineIndex.ofText text)) := by
  have hheading : "Template\n".toList = dumpLine 0 "Template".toList := by decide +kernel
  rw [Outline.entries, ← Node.dumpAll_lines _ h, hheading]
  rfl

/-- The entries of a text show the components that its expansion calls. -/
theorem Outline.called_entries (options : Options) (text : Text) :
    ((ofText text).entries text).filterMap DumpEntry.called? =
      (((ofText text).pieces options text).filterMap Piece.call?).map (·.2) := by
  rw [calls_eq, List.map_map]
  exact Node.called_entriesAll fun node hnode => (formed text _ node hnode).called_entries 1

/-- A dump that stops, stops at a fault of the text. -/
theorem dumpText_failure_wellPlaced {text : Text} {e : Failure} (h : (dumpText text).failure = some e) :
    e.WellPlaced text := by
  rcases Node.dumpAll_failure_eq_some h with hscan | ⟨node, hnode, hfailure⟩
  · rw [Outline.ofText, Outline.failure_ofWindow] at hscan
    exact scanText_failure_wellPlaced hscan
  · obtain ⟨c, hc, herror⟩ := (Outline.formed text _ node hnode).dump_failure_eq_some hfailure
    have hmem : c ∈ (Outline.ofText text).preorder := by
      rw [Outline.preorder, Node.preorderAll_eq_flatMap]
      exact List.mem_flatMap.mpr ⟨node, hnode, hc⟩
    obtain ⟨selfClosing, hl⟩ := Outline.opening_mem_lexWindow _ hmem
    exact Lexeme.FailsWith.wellPlaced hl herror

end ComponentTags
