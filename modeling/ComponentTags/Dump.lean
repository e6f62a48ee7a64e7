import ComponentTags.Attribute
import ComponentTags.Outline
import ComponentTags.Report

/-!
# Dumps of outlines

A dump lists the nodes of an outline, one to a line and indented by depth, for a person to read. The attributes of a
component come before its content. What was written before a failure is kept.
-/

namespace ComponentTags

/-- What was written, and the failure that stopped the writing. -/
structure Dump where
  /-- The lines written. -/
  lines : Text
  /-- The failure behind the last line, if any. -/
  failure : Option Failure

/-- Lines in front of a dump. -/
def Dump.prepend (front : Text) (dump : Dump) : Dump := ⟨front ++ dump.lines, dump.failure⟩

/-- One dump behind another, unless that one stopped at a failure. -/
def Dump.append (a b : Dump) : Dump :=
  match a.failure with
  | none => b.prepend a.lines
  | some e => ⟨a.lines, some e⟩

/-- A line at a depth. -/
def dumpLine (depth : Nat) (content : Text) : Text :=
  List.replicate (2 * depth) ' ' ++ content ++ ['\n']

/-- The line of an attribute. -/
def Attribute.dumpLine (depth : Nat) : Attribute → Text
  | shorthand name => ComponentTags.dumpLine depth ("Shorthand ".toList ++ name)
  | named name value => ComponentTags.dumpLine depth ("Named ".toList ++ name ++ '=' :: value)

/-- The line of a component: its name, its form, and the position of its opening tag. -/
def Component.dumpLine (index : LineIndex) (depth : Nat) (c : Component) : Text :=
  let position := index.position c.opening.start
  let form := if c.closing.isSome then "paired".toList else "self-closing".toList
  ComponentTags.dumpLine depth
    ("Tag <".toList ++ c.name ++ "> ".toList ++ form ++ " @".toList ++ decimal position.line ++
      ":".toList ++ decimal position.column)

mutual

/-- The dump of a node of the outline of a text. -/
def Node.dump (text : Text) (index : LineIndex) (depth : Nat) : Node → Dump
  | .text value _ => ⟨dumpLine depth ("Text(".toList ++ quoted value ++ ")".toList), none⟩
  | .component c content failure =>
    Dump.prepend (c.dumpLine index depth) <|
      match attributesIn text c.attributes with
      | .error e => ⟨[], some e⟩
      | .ok attributes =>
        Dump.prepend (attributes.flatMap fun a => a.item.dumpLine (depth + 1)) <|
          if c.closing.isSome then
            Dump.prepend (dumpLine (depth + 1) "Children".toList)
              (Node.dumpAll text index (depth + 2) failure content)
          else ⟨[], none⟩

/-- The dump of nodes one after another; the failure behind the last one is met last. -/
def Node.dumpAll (text : Text) (index : LineIndex) (depth : Nat) (failure : Option Failure) :
    List Node → Dump
  | [] => ⟨[], failure⟩
  | node :: nodes =>
    Dump.append (Node.dump text index depth node) (Node.dumpAll text index depth failure nodes)

end

/-- The dump of a text. -/
def dumpText (text : Text) : Dump :=
  let outline := Outline.ofText text
  Dump.prepend (dumpLine 0 "Template".toList)
    (Node.dumpAll text (LineIndex.ofText text) 1 outline.failure outline.nodes)

end ComponentTags
