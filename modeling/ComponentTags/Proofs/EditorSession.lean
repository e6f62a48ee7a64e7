import ComponentTags.Diagnostic
import ComponentTags.Proofs.LineCounting

/-!
# Diagnostics over an editing session

However many documents an editor has opened and changed, each notification is answered by one publication, for the
document of that notification. What is published depends on the text of the notification alone: nothing is left of
earlier texts or of other documents. There is no diagnostic exactly if the text expands, and otherwise there is one,
with the message and the kind of the fault. Its range leads back to the two ends of the fault in the text, and it is
never empty.

The texts are kept elsewhere. All that is asked of the keeper is that a document has the text that was stored last. How
the publications are sent is not covered.
-/

namespace ComponentTags

/-- The document that a notification is about. -/
def Notification.uri : Notification → Text
  | opened uri _ | changed uri _ => uri

/-- The text that the document has from then on. -/
def Notification.text : Notification → Text
  | opened _ text | changed _ text => text

/-- The text that notifications have stored last for a document, if it has come up at all. -/
def storedLast? (past : List Notification) (uri : Text) : Option Text :=
  (past.reverse.find? (·.uri == uri)).map (·.text)

/-- The keeper of the texts gives for each document the text that was stored last. Of documents that have not come up
nothing is asked. -/
def KeepsLast (source : List Notification → Text → Text) : Prop :=
  ∀ past uri text, storedLast? past uri = some text → source past uri = text

/-- A notification stores its own text last. -/
theorem storedLast?_concat (past : List Notification) (notification : Notification) :
    storedLast? (past ++ [notification]) notification.uri = some notification.text := by
  simp [storedLast?]

/-- One step: what a notification has brought is diagnosed, whether it has opened the document or changed it. -/
theorem KeepsLast.answer_eq {source : List Notification → Text → Text} (h : KeepsLast source)
    (past : List Notification) (notification : Notification) :
    notification.answer (source (past ++ [notification])) =
      [⟨notification.uri, diagnose notification.text⟩] := by
  have htext := h _ _ _ (storedLast?_concat past notification)
  cases notification with
  | opened uri text =>
    rw [Notification.uri, Notification.text] at htext
    rw [Notification.answer, didOpen, validate, htext]
    rfl
  | changed uri text =>
    rw [Notification.uri, Notification.text] at htext
    rw [Notification.answer, didChange, validate, htext]
    rfl

/-- A whole session, after any notifications that have come before. -/
theorem KeepsLast.publications_eq_map {source : List Notification → Text → Text} (h : KeepsLast source)
    (past notifications : List Notification) :
    publications source past notifications =
      notifications.map fun notification => [⟨notification.uri, diagnose notification.text⟩] := by
  induction notifications generalizing past with
  | nil => rfl
  | cons notification rest ih => rw [publications, List.map_cons, h.answer_eq, ih]

/-- The range of a diagnostic shows a stretch of the text. Line and character lead to both ends of the stretch, and the
first end comes before the second one. -/
structure Diagnostic.Marks (d : Diagnostic) (text : Text) (e : Extent) : Prop where
  start_eq : placeOf? text d.startLine d.startCharacter = some e.start
  stop_eq : placeOf? text d.stopLine d.stopCharacter = some e.stop
  before : d.startLine < d.stopLine ∨ d.startLine = d.stopLine ∧ d.startCharacter < d.stopCharacter
  start_lt : e.start < e.stop
  stop_le : e.stop ≤ text.length

/-- The diagnostic of a fault that lies in the text. -/
theorem Diagnostic.ofFault_marks {text : Text} {f : Fault} (h : f.WellPlaced text) :
    (ofFault text f).Marks text f.extent := by
  have hlt := h.start_lt_stop
  have hle := h.stop_le
  have horder := LineIndex.position_lt text hlt
  refine ⟨LineIndex.placeOf?_position (by omega), LineIndex.placeOf?_position hle, ?_, hlt, hle⟩
  simp only [ofFault, LineIndex.span, LineIndex.spanOf]
  omega

/-- A text that expands has no diagnostics. -/
theorem diagnose_of_ok {text out : Text} (h : expand {} text = .ok out) : diagnose text = [] := by
  simp only [diagnose, h]

/-- A text that does not expand has a fault, and the diagnostic of that. -/
theorem diagnose_of_error {text : Text} {e : Failure} (h : expand {} text = .error e) :
    ∃ f, e = .fault f ∧ f.WellPlaced text ∧ diagnose text = [Diagnostic.ofFault text f] := by
  obtain ⟨f, rfl, hplaced⟩ := expandDocument_error_wellPlaced h
  exact ⟨f, rfl, hplaced, by simp only [diagnose, h]⟩

theorem diagnose_eq_nil_iff {text : Text} : diagnose text = [] ↔ ∃ out, expand {} text = .ok out := by
  constructor
  · intro hnone
    cases h : expand {} text with
    | ok out => exact ⟨out, rfl⟩
    | error e =>
      obtain ⟨f, -, -, hsome⟩ := diagnose_of_error h
      rw [hsome] at hnone
      cases hnone
  · rintro ⟨out, h⟩
    exact diagnose_of_ok h

/-- Each notification of a session is answered by one publication, for its document and about its text. The publication
is empty exactly if the text expands. If not, it holds one diagnostic, an error with the message and the kind of the
fault, and the range shows the extent of the fault. -/
theorem publications_exact {source : List Notification → Text → Text} (hsource : KeepsLast source)
    (past notifications : List Notification) :
    publications source past notifications =
      notifications.map (fun notification => [⟨notification.uri, diagnose notification.text⟩]) ∧
    ∀ text, (diagnose text = [] ↔ ∃ out, expand {} text = .ok out) ∧
      ∀ e, expand {} text = .error e → ∃ f d, e = .fault f ∧ diagnose text = [d] ∧
        d.message = f.cause.message ∧ d.severity = 1 ∧ d.code = f.cause.kind.label ∧ d.tool = "jrsx".toList ∧
        d.Marks text f.extent := by
  refine ⟨hsource.publications_eq_map past notifications, fun text => ⟨diagnose_eq_nil_iff, fun e h => ?_⟩⟩
  obtain ⟨f, hfault, hplaced, hdiagnose⟩ := diagnose_of_error h
  exact ⟨f, Diagnostic.ofFault text f, hfault, hdiagnose, rfl, rfl, rfl, rfl, Diagnostic.ofFault_marks hplaced⟩

/-- Two documents, of which the first is mended later. Its fault goes over three lines, and that of the second one ends
with the text. A document that has not come up is empty for the keeper of the texts. -/
theorem publications_exact_mended :
    let page := "file:///page.html".toList
    let card := "file:///card.html".toList
    let faulty := "x\n<A b=\n\n/>".toList
    let endless := "ok <A".toList
    let first : Diagnostic := ⟨1, 3, 3, 0, "missing value for attribute 'b'".toList, 1, "malformed-attribute".toList,
      "jrsx".toList⟩
    let second : Diagnostic := ⟨0, 3, 0, 5, "unterminated tag <A".toList, 1, "unterminated-tag".toList, "jrsx".toList⟩
    publications (fun past uri => (storedLast? past uri).getD []) []
        [.opened page faulty, .opened card endless, .changed page "x\n<A b/>".toList] =
        [[⟨page, [first]⟩], [⟨card, [second]⟩], [⟨page, []⟩]] ∧
      first.Marks faulty ⟨5, 9⟩ ∧ second.Marks endless ⟨3, 5⟩ := by
  intro page card faulty endless first second
  have hkeeps : KeepsLast fun past uri => (storedLast? past uri).getD [] := by
    intro past uri text hstored
    simp only [hstored, Option.getD_some]
  have hfaulty : expand {} faulty = .error (.because (.missingValue "b".toList) 5 9) := by decide +kernel
  have hendless : expand {} endless = .error (.because (.tagNotEnded "A".toList) 3 5) := by decide +kernel
  have hfirst : diagnose faulty = [first] := by decide +kernel
  have hsecond : diagnose endless = [second] := by decide +kernel
  have hmended : diagnose "x\n<A b/>".toList = [] := by decide +kernel
  obtain ⟨hpublished, hdiagnosed⟩ := publications_exact hkeeps []
    [.opened page faulty, .opened card endless, .changed page "x\n<A b/>".toList]
  simp only [List.map_cons, List.map_nil, Notification.uri, Notification.text, hfirst, hsecond, hmended] at hpublished
  obtain ⟨f, d, hf, hd, -, -, -, -, hmarks⟩ := (hdiagnosed faulty).2 _ hfaulty
  obtain ⟨g, d', hg, hd', -, -, -, -, hmarks'⟩ := (hdiagnosed endless).2 _ hendless
  cases hf
  cases hg
  cases hfirst.symm.trans hd
  cases hsecond.symm.trans hd'
  exact ⟨hpublished, hmarks, hmarks'⟩

end ComponentTags
