import ComponentTags.Proofs.ContentWindow

/-!
# Faults are shown by characters of the text

A template is refused for one of three kinds of fault. Wherever the fault is found, in the text itself or in the content
of a component at any depth, it is shown by at least one character, and these characters lie in the text. A tag that is
not ended, not closed or closes nothing is shown from its `<` on. No place past the end of the text is ever read.

The ends of the shown stretch have proper lines and columns: the line exists, and it does not begin behind the place.
-/

namespace ComponentTags

/-- The fault is of a kind that templates are refused for, and it is shown by characters of the text. A fault of a tag
is shown from the `<` of the tag on. -/
structure Fault.WellPlaced (text : Text) (f : Fault) : Prop where
  kind_ne : f.cause.kind ≠ .general
  start_lt_stop : f.extent.start < f.extent.stop
  stop_le : f.extent.stop ≤ text.length
  at_mark : f.cause.kind ≠ .malformedAttribute → text[f.extent.start]? = some '<'

/-- The failure is such a fault. -/
def Failure.WellPlaced (text : Text) (e : Failure) : Prop := ∃ f, e = .fault f ∧ f.WellPlaced text

/-- A malformed attribute before the end of the text lies in the text. -/
theorem Failure.IsMalformedBefore.wellPlaced {text : Text} {stop : Nat} {e : Failure} (h : e.IsMalformedBefore stop)
    (hs : stop ≤ text.length) : e.WellPlaced text := by
  obtain ⟨f, rfl, hk, hlt, hle⟩ := h
  exact ⟨f, rfl, by simp [hk], hlt, Nat.le_trans hle hs, fun hne => absurd hk hne⟩

/-- An opened component stands in the text: there is its `<`, and its name fits behind it. -/
def Opened.Within (text : Text) (o : Opened) : Prop :=
  text[o.start]? = some '<' ∧ o.start + o.name.length + 1 ≤ text.length

/-- A tag that is never closed is shown at its own place. -/
theorem Opened.Within.neverClosed_wellPlaced {text : Text} {o : Opened} (h : o.Within text) :
    o.neverClosed.WellPlaced text :=
  ⟨_, rfl, by simp [Cause.kind], Nat.lt_succ_of_le (Nat.le_add_right _ _), h.2, fun _ => h.1⟩

/-- What a pass over lexemes leaves stands in the text: the components that are open, or the tag that does not fit. -/
def PassWithin (text : Text) : Except Failure (List Opened) → Prop
  | .ok stack => ∀ o ∈ stack, o.Within text
  | .error e => e.WellPlaced text

/-- The step over one lexeme. -/
theorem nestStep_within {text : Text} {stack : List Opened} {l : Lexeme} (hs : ∀ o ∈ stack, o.Within text)
    (hl : l.Within text text.length) : PassWithin text (nestStep stack l) := by
  cases l with
  | character c => exact hs
  | opening name attributes extent selfClosing =>
    cases selfClosing with
    | true => exact hs
    | false =>
      obtain ⟨hmark, -, hstart, hlo, hhi, hle⟩ := hl
      have hopened : Opened.Within text ⟨name, extent.start⟩ := ⟨hmark, by dsimp only; omega⟩
      exact List.forall_mem_cons.mpr ⟨hopened, hs⟩
  | closing name extent =>
    obtain ⟨hmark, hlt, hle⟩ := hl
    cases stack with
    | nil => exact ⟨_, rfl, by simp [Cause.kind], hlt, hle, fun _ => hmark⟩
    | cons innermost outer =>
      dsimp only [nestStep]
      split
      · exact (List.forall_mem_cons.mp hs).2
      · exact ⟨_, rfl, by simp [Cause.kind], hlt, hle, fun _ => hmark⟩

/-- The whole pass. -/
theorem nestAll_within {text : Text} {stack : List Opened} {ls : List Lexeme} (hs : ∀ o ∈ stack, o.Within text)
    (hl : ∀ l ∈ ls, l.Within text text.length) : PassWithin text (nestAll stack ls) := by
  induction ls generalizing stack with
  | nil => exact hs
  | cons l ls ih =>
    rw [List.forall_mem_cons] at hl
    have hstep := nestStep_within hs hl.1
    rw [nestAll]
    cases h : nestStep stack l with
    | error e =>
      rw [h] at hstep
      exact hstep
    | ok next =>
      rw [h] at hstep
      exact ih hstep hl.2

/-- The fault of an opening tag that ends the lexemes of a text. -/
theorem lexText_failure_wellPlaced {text : Text} {e : Failure} (h : (lexText text).failure = some e) :
    e.WellPlaced text := by
  obtain ⟨front, rest, f, ht, hlt, ho, rfl⟩ := lexFrom_failure h (by simp)
  rw [List.drop_zero] at ht
  have hlength : text.length = front.length + (rest.length + 1) := by rw [ht]; simp
  have hmark : text[front.length]? = some '<' := by rw [ht]; simp
  dsimp only at ho
  rcases openingMark?_error ho (by omega) with ⟨f', hf, hk, hlo, hhi⟩ | ⟨name, hname, hle⟩
  · obtain rfl := Failure.fault.inj hf
    refine ⟨_, rfl, ?_, ?_, ?_, ?_⟩
    · simp [hk]
    · simp only [Extent.shift]
      omega
    · simp only [Extent.shift]
      omega
    · intro hne
      exact absurd hk hne
  · obtain rfl := Failure.fault.inj hname
    refine ⟨_, rfl, by simp [Cause.kind], ?_, ?_, ?_⟩
    · simp only [Extent.shift]
      omega
    · simp only [Extent.shift]
      omega
    · intro _
      simpa [Extent.shift] using hmark

/-- What stops the cut of a text. -/
theorem scanText_failure_wellPlaced {text : Text} {e : Failure} (h : (scanText text).failure = some e) :
    e.WellPlaced text := by
  have hpass : PassWithin text (nestAll [] (lexText text).lexemes) :=
    nestAll_within (by simp) fun l hl => within_of_mem_lexText hl
  rw [scanText, scanWindow_failure, Lexing.firstFailure, ← lexText] at h
  cases hnest : nestAll [] (lexText text).lexemes with
  | error e' =>
    rw [hnest] at h hpass
    obtain rfl := Option.some.inj h
    exact hpass
  | ok stack =>
    rw [hnest] at h hpass
    dsimp only at h
    split at h
    · next e' he =>
      obtain rfl := Option.some.inj h
      exact lexText_failure_wellPlaced he
    · cases stack with
      | nil => cases h
      | cons o outer =>
        obtain rfl := Option.some.inj h
        exact (hpass o List.mem_cons_self).neverClosed_wellPlaced

/-- An attribute list at fault. -/
theorem Lexeme.FailsWith.wellPlaced {text : Text} {e : Failure} {l : Lexeme} (hl : l ∈ (lexText text).lexemes)
    (h : l.FailsWith text e) : e.WellPlaced text := by
  have hwithin := within_of_mem_lexText hl
  cases l with
  | character c => exact h.elim
  | closing name extent => exact h.elim
  | opening name attributes extent selfClosing =>
    obtain ⟨-, -, -, hlo, hhi, hle⟩ := hwithin
    exact (attributesIn_malformed h (by omega)).wellPlaced (by omega)

/-- Whatever a document is refused for is a fault that lies in its text. -/
theorem expandDocument_error_wellPlaced {options : Options} {text : Text} {registry : Registry} {e : Failure}
    (h : (expandDocument options text registry).outcome = .error e) : e.WellPlaced text := by
  rcases expandBody_error (expandBody_of_expandDocument_error h) with hscan | ⟨l, hl, hfails⟩
  · exact scanText_failure_wellPlaced hscan
  · exact hfails.wellPlaced hl

/-- The search by halves ends between a line that starts at or before the offset and one that starts behind it, unless
these lie outside of the interval. -/
theorem LineIndex.linesUpTo_between (index : LineIndex) (offset : Int) {lo hi : Nat} (h : lo ≤ hi) :
    lo ≤ index.linesUpTo offset lo hi ∧ index.linesUpTo offset lo hi ≤ hi ∧
      (lo < index.linesUpTo offset lo hi →
        (index.starts.getD (index.linesUpTo offset lo hi - 1) 0 : Nat) ≤ offset) ∧
      (index.linesUpTo offset lo hi < hi → offset < (index.starts.getD (index.linesUpTo offset lo hi) 0 : Nat)) := by
  fun_induction LineIndex.linesUpTo index offset lo hi with
  | case1 lo hi hlt mid hbefore ih =>
    obtain ⟨hlo, hhi, hle, hbehind⟩ := ih (by omega)
    refine ⟨hlo, by omega, hle, fun _ => ?_⟩
    rcases Nat.lt_or_eq_of_le hhi with hless | heq
    · exact hbehind hless
    · rw [heq]
      exact hbefore
  | case2 lo hi hlt mid hbefore ih =>
    obtain ⟨hlo, hhi, hle, hbehind⟩ := ih (by omega)
    refine ⟨by omega, hhi, fun _ => ?_, hbehind⟩
    rcases Nat.lt_or_eq_of_le hlo with hless | heq
    · exact hle hless
    · rw [← heq, Nat.add_sub_cancel]
      omega
  | case3 lo hi hnot => exact ⟨Nat.le_refl _, h, fun hlt => absurd hlt (Nat.lt_irrefl _), fun hlt => absurd hlt hnot⟩

/-- A position that the index gives to its offset. Its line is one of the lines of the text, and the column counts from
the start of that line. -/
def LineIndex.Locates (index : LineIndex) (p : Position) : Prop :=
  p = index.position p.offset ∧ 1 ≤ p.line ∧ p.line ≤ index.starts.size ∧ 1 ≤ p.column

/-- The index of a text gives each offset a position in one of the lines. -/
theorem LineIndex.locates_position (text : Text) (offset : Nat) :
    (ofText text).Locates ((ofText text).position offset) := by
  obtain ⟨-, hhi, hle, hbehind⟩ := (ofText text).linesUpTo_between offset (Nat.zero_le (ofText text).starts.size)
  have hfirst : (ofText text).starts.getD 0 0 = 0 := by simp [ofText]
  have hsize : 0 < (ofText text).starts.size := by simp [ofText]
  have hpos : 0 < (ofText text).linesUpTo offset 0 (ofText text).starts.size := by
    by_contra hzero
    rw [Nat.eq_zero_of_not_pos hzero, hfirst] at hbehind
    have hnone := hbehind hsize
    omega
  have hstart := hle hpos
  refine ⟨rfl, ?_, ?_, ?_⟩
  · dsimp only [position]
    omega
  · dsimp only [position]
    omega
  · dsimp only [position]
    rw [lineStart, if_neg (Nat.ne_of_gt hpos)]
    omega

/-- The expansion of a text has a result, or it is refused for a fault of one of three kinds. The span of the fault is
not empty and lies in the text. A fault that is not about an attribute is shown from a `<` on. Faults carry offsets, and
lines and columns are given to them by the index of the text in the end, so that both ends are positions of that index
by construction; what is shown of them is that they lie in the lines of the text. -/
theorem expandDocument_fault_span (options : Options) (text : Text) (registry : Registry) :
    (∃ out, (expandDocument options text registry).outcome = .ok out) ∨
      ∃ f, (expandDocument options text registry).outcome = .error (.fault f) ∧
        (f.cause.kind = .unterminatedTag ∨ f.cause.kind = .malformedAttribute ∨
          f.cause.kind = .unmatchedClosingTag) ∧
        let index := LineIndex.ofText text
        let span := index.span f.extent
        0 ≤ span.start.offset ∧ span.start.offset < span.stop.offset ∧ span.stop.offset ≤ text.length ∧
          index.Locates span.start ∧ index.Locates span.stop ∧
          (f.cause.kind ≠ .malformedAttribute → text[span.start.offset.toNat]? = some '<') := by
  cases h : (expandDocument options text registry).outcome with
  | ok out => exact .inl ⟨out, rfl⟩
  | error e =>
    obtain ⟨f, rfl, hplaced⟩ := expandDocument_error_wellPlaced h
    refine .inr ⟨f, rfl, ?_, ?_⟩
    · have hkind := hplaced.kind_ne
      cases hk : f.cause.kind with
      | general => exact absurd hk hkind
      | unterminatedTag => exact .inl rfl
      | malformedAttribute => exact .inr (.inl rfl)
      | unmatchedClosingTag => exact .inr (.inr rfl)
    · have hlt := hplaced.start_lt_stop
      have hle := hplaced.stop_le
      refine ⟨Int.natCast_nonneg _, Int.ofNat_lt.mpr hlt, Int.ofNat_le.mpr hle, LineIndex.locates_position text _,
        LineIndex.locates_position text _, hplaced.at_mark⟩

end ComponentTags
