import ComponentTags.Proofs.DumpReading
import ComponentTags.Proofs.FaultCharacters
import ComponentTags.Proofs.ScanTurns

/-!
# Every reading of a template comes to its end

The loops that read a window advance with each turn and stop at the end of the window. The content of a component is a
shorter window within the one in which the component was found, so that the outline of a window needs no more calls
within calls than the window has places, and one more. Where the window lies within its text, the cut, the reading of
attributes, the expansion and the dump all end, with a result or with a fault of the template.

How deep the calls of a running program may be nested is not limited here.
-/

namespace ComponentTags

/-- A window that lies within its text can be read to its end. -/
theorem Extent.left_le_length {text : Text} {window : Extent} (hlength : window.stop ≤ text.length) :
    window.stop - window.start ≤ (text.drop window.start).length := by
  rw [List.length_drop]
  omega

/-- The content of a component is a window within the one in which the component was found, and shorter: the tags of the
component stand before and behind it. -/
theorem scanWindow_content_within {text : Text} {window content : Extent} {c : Component}
    (hlength : window.stop ≤ text.length) (hc : .component c ∈ (scanWindow text window).segments)
    (hcontent : c.content? = some content) :
    window.start < content.start ∧ content.start ≤ content.stop ∧ content.stop < window.stop := by
  obtain ⟨closing, hclosing, rfl⟩ := Option.map_eq_some_iff.mp hcontent
  obtain ⟨reached, -, hreached, htiles, -⟩ : (scanWindow text window).TilesFront text
      ⟨window.start, window.start + (window.stop - window.start)⟩ :=
    scanFrom_tilesFront rfl rfl (Extent.left_le_length hlength)
  have hplaced : c.PlacedIn text ⟨window.start, reached⟩ := htiles.placed _ hc
  obtain ⟨hbehind, hlt, hstop⟩ := hplaced.closing closing hclosing
  have hstart := hplaced.start_le
  have hname := hplaced.opening_lt
  have hlist := hplaced.attributes_le
  have hend := hplaced.attributes_lt
  dsimp only at hreached hstart hstop ⊢
  omega

/-- The outline of a window by calls that are nested at most `depth` deep, and nothing if that is not enough. A call is
made for the content of each component of the window. -/
def Outline.nested? (text : Text) : Nat → Extent → Option Outline
  | 0, _ => none
  | depth + 1, window => do
    let nodes ← (scanWindow text window).segments.mapM fun
      | .text value extent => some (.text value extent)
      | .component c =>
        match c.content? with
        | none => some (.component c [] none)
        | some content =>
          (Outline.nested? text depth content).map fun inner => .component c inner.nodes inner.failure
    return ⟨nodes, (scanWindow text window).failure⟩

/-- A function that gives a value for each item of a list gives all of them. -/
theorem mapM_eq_some_map {α β : Type} {f : α → Option β} {g : α → β} {l : List α} (h : ∀ a ∈ l, f a = some (g a)) :
    l.mapM f = some (l.map g) := by
  induction l with
  | nil => rfl
  | cons a l ih =>
    rw [List.forall_mem_cons] at h
    rw [List.mapM_cons, h.1, ih h.2]
    rfl

/-- Calls nested as deep as the window has places, and one more, make its outline. The induction is on the depth, and
each content has fewer places than its window. -/
theorem Outline.nested?_eq {text : Text} {depth : Nat} {window : Extent} (h : window.stop - window.start < depth) :
    nested? text depth window = some (ofWindow text window) := by
  induction depth generalizing window with
  | zero => omega
  | succ depth ih =>
    rw [nested?, ofWindow_eq, mapM_eq_some_map (g := Segment.node text)]
    · rfl
    intro s hs
    cases s with
    | text value extent => rfl
    | component c =>
      simp only [Segment.node]
      cases hcontent : c.content? with
      | none => rfl
      | some content =>
        have hlt : content.stop - content.start < window.stop - window.start := scanFrom_content_lt hs hcontent
        simp only
        rw [ih (by omega)]
        rfl

/-- The failure is a fault of the template, not an attempt to read past its end. -/
def Failure.IsFault (e : Failure) : Prop := ∃ f, e = .fault f

/-- A failure that lies in the text is a fault. -/
theorem Failure.WellPlaced.isFault {text : Text} {e : Failure} (h : e.WellPlaced text) : e.IsFault := by
  obtain ⟨f, hf, -⟩ := h
  exact ⟨f, hf⟩

/-- The cut of a window that lies within its text is stopped by a fault only. -/
theorem scanWindow_failure_isFault {text : Text} {window : Extent} (hlength : window.stop ≤ text.length) {e : Failure}
    (h : (scanWindow text window).failure = some e) : e.IsFault := by
  rw [scanWindow_failure, Lexing.firstFailure] at h
  cases hnest : nestAll [] (lexWindow text window).lexemes with
  | error e' =>
    rw [hnest] at h
    cases h
    obtain ⟨f, hf, -⟩ := nestAll_error_kind hnest
    exact ⟨f, hf⟩
  | ok stack =>
    rw [hnest] at h
    cases hlex : (lexWindow text window).failure with
    | some e' =>
      simp only [hlex] at h
      cases h
      obtain ⟨-, -, f, -, -, -, rfl⟩ := lexFrom_failure hlex (Extent.left_le_length hlength)
      exact ⟨_, rfl⟩
    | none =>
      simp only [hlex] at h
      obtain ⟨o, -, rfl⟩ := Option.map_eq_some_iff.mp h
      exact ⟨_, rfl⟩

/-- Attributes in a window that lies within its text are refused for a fault only. -/
theorem attributesIn_isFault {text : Text} {window : Extent} (hlength : window.stop ≤ text.length) {e : Failure}
    (h : attributesIn text window = .error e) : e.IsFault := by
  obtain ⟨f, hf, -⟩ := attributesIn_error h hlength
  exact ⟨f, hf⟩

/-- A request is refused for a fault only. -/
theorem answer_isFault {options : Options} {text : Text} {registry : Registry} {request : Request} {e : Failure}
    (h : (answer options text registry request).outcome = .error e) : e.IsFault := by
  cases request with
  | document => exact (expandDocument_error_wellPlaced h).isFault
  | body =>
    have hbody : (expandBody options text registry).outcome = .error e := h
    have hdocument : (expandDocument options text registry).outcome = .error e := by
      rw [expandDocument_eq, hbody]
      rfl
    exact (expandDocument_error_wellPlaced hdocument).isFault

/-- Each loop that reads a window advances with every turn that goes on, stays in the window, and comes to what the
library computes there. The two loops that read quoted texts may leave the window, to report a quote that is not
closed. -/
structure LoopsEnd (source : Text) (window : Extent) : Prop where
  /-- The cut of the window. -/
  scan : (scanLoop source window.stop).EndsWith window.stop (fun _ => False) ⟨window.start, window.start, []⟩
    (scanWindow source window)
  /-- The search for a closing tag, from any place on and with any components open. -/
  closing : ∀ place innermost outer, (closingLoop source window.stop).EndsWith window.stop (fun _ => False)
    ⟨place, innermost, outer⟩ (findClosing innermost outer place (window.stop - place) (source.drop place))
  /-- The search for the end of an opening tag, from any place on. -/
  tagSearch : ∀ place, (tagEndLoop source window.stop).EndsWith window.stop
    (fun r => ∃ start, r = .error (.because .openQuote start (start + 1))) ⟨place, none, []⟩
    (tagEnd [] place (window.stop - place) (source.drop place))
  /-- The reading of attributes. -/
  attributes : (attributeLoop source window.stop).EndsWith window.stop (fun _ => False) ⟨window.start, []⟩
    (attributesIn source window)
  /-- The reading of a bare value, from any place on. -/
  bareValue : ∀ name place, (bareLoop source window.stop name).EndsWith window.stop (fun _ => False) ⟨place, []⟩
    ((bareSize name [] place (window.stop - place) (source.drop place)).map (place + ·))
  /-- The reading of a quoted text, from any place on. -/
  quoted : ∀ quote place, (quoteLoop source window.stop quote).EndsWith window.stop (· = .unclosed) place
    ((quoteEnd quote (window.stop - place) (source.drop place)).skip place)

/-- All loops over a window that lies within its text come to their end. -/
theorem loopsEnd {source : Text} {window : Extent} (hle : window.start ≤ window.stop)
    (hlength : window.stop ≤ source.length) : LoopsEnd source window where
  scan := by
    have hstart : Cut.value source window.stop ⟨window.start, window.start, []⟩ = scanWindow source window := by
      simp [Cut.value, Extent.slice, scanWindow]
    rw [← hstart]
    exact (scanLoop_advances source window.stop).endsWith (scanLoop_computes hlength) ⟨Nat.le_refl _, hle⟩
  closing place innermost outer :=
    (closingLoop_advances source window.stop).endsWith (closingLoop_computes hlength) trivial
  tagSearch place := (tagEndLoop_advances source window.stop).endsWith (tagEndLoop_computes source window.stop) trivial
  attributes := by
    have hstart : (attributesIn source window).map (([] : List (Placed Attribute)) ++ ·) =
        attributesIn source window := by
      cases attributesIn source window <;> rfl
    rw [← hstart]
    exact (attributeLoop_advances hlength).endsWith (attributeLoop_computes source window.stop) trivial
  bareValue name place :=
    (bareLoop_advances source window.stop name).endsWith (bareLoop_computes source window.stop name) trivial
  quoted quote place :=
    (quoteLoop_advances source window.stop quote).endsWith (quoteLoop_computes source window.stop quote) trivial

/-- The calls for the contents of components are made on windows that lie within the one of the component and are
shorter, and calls nested as deep as the window has places, and one more, make the whole outline. The expansion and the
dump of a text go through its outline. -/
structure CallsEnd (source : Text) (window : Extent) : Prop where
  /-- The content of a component. -/
  content : ∀ c content, .component c ∈ (scanWindow source window).segments → c.content? = some content →
    window.start ≤ content.start ∧ content.start ≤ content.stop ∧ content.stop ≤ window.stop ∧
      content.stop - content.start < window.stop - window.start
  /-- The outline of the window. -/
  outline : ∀ depth, window.stop - window.start < depth →
    Outline.nested? source depth window = some (Outline.ofWindow source window)

/-- Every loop over a window that lies within its text ends, and so do the calls within calls that make the outline of
the window. The cut, the reading of attributes, the expansion and the dump come to a result or to a fault of the
template, whatever the text is. -/
theorem readers_end (source : Text) (window : Extent) (hle : window.start ≤ window.stop)
    (hlength : window.stop ≤ source.length) :
    LoopsEnd source window ∧ CallsEnd source window ∧
      (∀ e, (scanWindow source window).failure = some e → e.IsFault) ∧
      (∀ e, attributesIn source window = .error e → e.IsFault) ∧
      (∀ options registry request e, (answer options source registry request).outcome = .error e → e.IsFault) ∧
      (∀ e, (dumpText source).failure = some e → e.IsFault) := by
  refine ⟨loopsEnd hle hlength, ⟨?_, ?_⟩, ?_, ?_, ?_, ?_⟩
  · intro c content hc hcontent
    have hwithin := scanWindow_content_within hlength hc hcontent
    omega
  · exact fun depth hdepth => Outline.nested?_eq hdepth
  · exact fun e he => scanWindow_failure_isFault hlength he
  · exact fun e he => attributesIn_isFault hlength he
  · exact fun options registry request e he => answer_isFault he
  · exact fun e he => (dumpText_failure_wellPlaced he).isFault

/-- A component within another one, and a tag whose quote stands open behind a backslash at the end of the text. -/
theorem readers_end_nested :
    let source := "<A><B/></A>".toList
    let refused := "<A b='\\".toList
    (scanWindow source ⟨0, 11⟩).segments = [.component ⟨"A".toList, ⟨2, 2⟩, ⟨0, 3⟩, some ⟨7, 11⟩⟩] ∧
      Outline.nested? source 12 ⟨0, 11⟩ = some (Outline.ofWindow source ⟨0, 11⟩) ∧ 7 - 3 < 11 - 0 ∧
      (tagEndLoop refused 7).turn ⟨6, some ('\x27', 5), []⟩ = .goOn ⟨8, some ('\x27', 5), []⟩ ∧
      (scanLoop refused 7).run? 8 ⟨0, 0, []⟩ = some ⟨[], some (.because .openQuote 5 6)⟩ ∧
      (Failure.because .openQuote 5 6).IsFault := by
  intro source refused
  have hcut : (scanWindow source ⟨0, 11⟩).segments = [.component ⟨"A".toList, ⟨2, 2⟩, ⟨0, 3⟩, some ⟨7, 11⟩⟩] := by
    decide +kernel
  have hsegments : (scanWindow refused ⟨0, 7⟩).segments = [] := by decide +kernel
  have hfailure : (scanWindow refused ⟨0, 7⟩).failure = some (.because .openQuote 5 6) := by decide +kernel
  have hscan : scanWindow refused ⟨0, 7⟩ = ⟨[], some (.because .openQuote 5 6)⟩ := by
    rw [← hsegments, ← hfailure]
  obtain ⟨-, hcalls, -⟩ := readers_end source ⟨0, 11⟩ (by decide) (by decide)
  obtain ⟨hloops, -, hfault, -⟩ := readers_end refused ⟨0, 7⟩ (by decide) (by decide)
  have hcontent := hcalls.content _ ⟨3, 7⟩ (by rw [hcut]; exact List.mem_singleton_self _) rfl
  have hrun := hloops.scan.2 8 (by decide)
  rw [hscan] at hrun
  exact ⟨hcut, hcalls.outline 12 (by decide), hcontent.2.2.2, rfl, hrun, hfault _ hfailure⟩

end ComponentTags
