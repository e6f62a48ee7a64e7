import ComponentTags.Mark

/-!
# Segments: text and components of one level

A window of a template is cut into plain text and components. A component reaches from its opening tag to the
closing tag that matches it; what lies between is left for a later look at that smaller window. The cut stops at
the first failure, and the segments before it are kept.
-/

namespace ComponentTags

/-- A component of a template. -/
structure Component where
  /-- Its name. -/
  name : Text
  /-- The extent of its attribute list. -/
  attributes : Extent
  /-- The extent of its opening tag. -/
  opening : Extent
  /-- The extent of its closing tag; a self-closing component has none. -/
  closing : Option Extent
  deriving DecidableEq, Repr

/-- A component reaches to the end of its last tag. -/
def Component.extent (c : Component) : Extent := ⟨c.opening.start, (c.closing.getD c.opening).stop⟩

/-- The window between the two tags of a component. -/
def Component.content? (c : Component) : Option Extent :=
  c.closing.map fun closing => ⟨c.opening.stop, closing.start⟩

/-- The component that an opening mark at `offset` begins and a closing tag, if any, ends. -/
def Component.ofMark (m : OpeningMark) (offset : Nat) (closing : Option Extent) : Component where
  name := m.name
  attributes := ⟨offset + m.attributesStart, offset + m.attributesStop⟩
  opening := ⟨offset, offset + m.size⟩
  closing := closing

/-- A piece of a window. -/
inductive Segment where
  /-- Text that is copied as it is. -/
  | text (value : Text) (extent : Extent)
  /-- A component with all that it holds. -/
  | component (c : Component)
  deriving DecidableEq, Repr

/-- The stretch that a segment covers. -/
def Segment.extent : Segment → Extent
  | text _ extent => extent
  | component c => c.extent

/-- The segments found, and what stopped the search before the end of the window. -/
structure Scan where
  /-- The segments in the order of the text. -/
  segments : List Segment
  /-- The failure behind the last segment, if any. -/
  failure : Option Failure

/-- One more segment in front. -/
def Scan.cons (s : Segment) (scan : Scan) : Scan := ⟨s :: scan.segments, scan.failure⟩

/-- A component whose closing tag is looked for. -/
structure Opened where
  /-- Its name. -/
  name : Text
  /-- The offset of its `<`. -/
  start : Nat
  deriving DecidableEq, Repr

/-- The fault of a component that is never closed lies at its `<` and name. -/
def Opened.neverClosed (o : Opened) : Failure :=
  .because (.neverClosed o.name) o.start (o.start + o.name.length + 1)

/-- The extent of the closing tag for the outermost of the open components, looked for from `offset` on. Components
opened on the way are closed on the way, the innermost first. -/
def findClosing (innermost : Opened) (outer : List Opened) (offset : Nat) :
    Nat → Text → Except Failure Extent
  | 0, _ | _ + 1, [] => .error innermost.neverClosed
  | left + 1, c :: rest =>
    if c == '<' then
      match markAt? left rest with
      | .error e => .error (e.shift offset)
      | .ok none => findClosing innermost outer (offset + 1) left rest
      | .ok (some (.closing m)) =>
        if m.name == innermost.name then
          match outer with
          | [] => .ok ⟨offset, offset + m.size⟩
          | o :: outer =>
            findClosing o outer (offset + m.size) (left - (m.size - 1)) (rest.drop (m.size - 1))
        else .error (.because (.closesOther m.name innermost.name) offset (offset + m.size))
      | .ok (some (.opening m)) =>
        if m.selfClosing then
          findClosing innermost outer (offset + m.size) (left - (m.size - 1)) (rest.drop (m.size - 1))
        else
          findClosing ⟨m.name, offset⟩ (innermost :: outer) (offset + m.size) (left - (m.size - 1))
            (rest.drop (m.size - 1))
    else findClosing innermost outer (offset + 1) left rest
termination_by left => left
decreasing_by all_goals omega

/-- The closing tag of the component that an opening mark at `offset` begins; `left` and `rest` are what follows the
`<` of the mark. -/
def closingOf? (m : OpeningMark) (offset left : Nat) (rest : Text) : Except Failure (Option Extent) :=
  if m.selfClosing then .ok none
  else match findClosing ⟨m.name, offset⟩ [] (offset + m.size) (left - (m.size - 1))
      (rest.drop (m.size - 1)) with
    | .error e => .error e
    | .ok extent => .ok (some extent)

/-- The text that has been read since `textStart`, last character first, as a segment unless its extent is empty. -/
def pendingText (textStart stop : Nat) (pending : Text) : List Segment :=
  if textStart < stop then [.text pending.reverse ⟨textStart, stop⟩] else []

/-- Cut a window into segments. The window goes on at `offset` for `left` places, the template there with the given
text. The characters of `pending`, last one first, have been read since `textStart` and belong to no component. -/
def scanFrom (textStart : Nat) (pending : Text) (offset : Nat) : Nat → Text → Scan
  | 0, _ => ⟨pendingText textStart offset pending, none⟩
  | left + 1, [] => ⟨pendingText textStart (offset + left + 1) pending, none⟩
  | left + 1, c :: rest =>
    if c == '<' then
      match markAt? left rest with
      | .error e => ⟨[], some (e.shift offset)⟩
      | .ok none => scanFrom textStart (c :: pending) (offset + 1) left rest
      | .ok (some (.closing m)) =>
        ⟨[], some (.because (.closesNothing m.name) offset (offset + m.size))⟩
      | .ok (some (.opening m)) =>
        let before := pendingText textStart offset pending
        match closingOf? m offset left rest with
        | .error e => ⟨before, some e⟩
        | .ok closing =>
          let component := Component.ofMark m offset closing
          let size := component.extent.stop - offset
          let following :=
            scanFrom (offset + size) [] (offset + size) (left - (size - 1)) (rest.drop (size - 1))
          ⟨before ++ .component component :: following.segments, following.failure⟩
    else scanFrom textStart (c :: pending) (offset + 1) left rest
termination_by left => left
decreasing_by all_goals omega

/-- The segments of the window of a text. The window may end before it starts, and past the end of the text. -/
def scanWindow (text : Text) (window : Extent) : Scan :=
  scanFrom window.start [] window.start (window.stop - window.start) (text.drop window.start)

/-- The segments of a whole text. -/
def scanText (text : Text) : Scan := scanWindow text ⟨0, text.length⟩

end ComponentTags
