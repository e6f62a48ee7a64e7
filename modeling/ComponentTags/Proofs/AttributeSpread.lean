import ComponentTags.Proofs.AttributeGrammar
import ComponentTags.Proofs.Tiling

/-!
# Where the attributes of a list stand

A window is read exactly if its characters form an attribute list, and such a window has one list only: what is read is
the one way to cut the window into attributes and blanks. The attributes stand in the window one behind another, and
between two of them is at least one character. Each is written in the characters of its extent, its value as it stands
there, and every other character of the window is a blank.

The window has to lie within its text.
-/

namespace ComponentTags

/-- The attributes stand in a stretch of a text, one behind another and never side by side. They are written in the
characters of their extents, and what belongs to none of them is blank. -/
structure SpreadOver (text : Text) (stretch : Extent) (found : List (Placed Attribute)) : Prop where
  within : ∀ a ∈ found,
    stretch.start ≤ a.extent.start ∧ a.extent.start < a.extent.stop ∧ a.extent.stop ≤ stretch.stop
  apart : found.Pairwise fun a b => a.extent.stop < b.extent.start
  written : ∀ a ∈ found, a.item.Written (a.extent.slice text)
  blank : ∀ i, stretch.start ≤ i → i < stretch.stop →
    (∀ a ∈ found, i < a.extent.start ∨ a.extent.stop ≤ i) → ∀ c ∈ text[i]?, isBlank c = true

/-- An attribute is written with at least one character, and the first one is no blank. -/
theorem Attribute.Written.exists_cons {a : Attribute} {written : Text} (h : a.Written written) :
    ∃ initial body, written = initial :: body ∧ isBlank initial = false := by
  have hinitial {name : Text} (hn : IsAttributeName name) :
      ∃ initial more, name = initial :: more ∧ isBlank initial = false := by
    obtain ⟨initial, more, hname, hstart, -⟩ := hn
    have hchar := isNameChar_of_isNameStart hstart
    exact ⟨initial, more, hname, (isNameChar_eq_true hchar).1⟩
  cases h with
  | shorthand hn => exact hinitial hn
  | @named name blanks padding value hn _ _ _ =>
    obtain ⟨initial, more, hname, hblank⟩ := hinitial hn
    exact ⟨initial, more ++ (blanks ++ '=' :: (padding ++ value)), by rw [hname]; rfl, hblank⟩

/-- Whatever the attribute, a blank follows it or the window ends. -/
theorem Attribute.EndsBefore.head?_isBlank {a : Attribute} {rest : Text} (h : a.EndsBefore rest) :
    ∀ c ∈ rest.head?, isBlank c = true := by
  cases a with
  | shorthand name => exact h.1
  | named name value => exact h

/-- The place where an attribute begins holds no blank. -/
theorem SpreadOver.not_isBlank {text : Text} {stretch : Extent} {found : List (Placed Attribute)}
    (h : SpreadOver text stretch found) {a : Placed Attribute} (ha : a ∈ found) :
    ∃ c, text[a.extent.start]? = some c ∧ isBlank c = false := by
  obtain ⟨initial, body, hslice, hblank⟩ := (h.written a ha).exists_cons
  refine ⟨initial, ?_, hblank⟩
  have hlt := (h.within a ha).2.1
  have hfirst : (a.extent.slice text).head? = some initial := by rw [hslice]; rfl
  have hpos : a.extent.stop - a.extent.start ≠ 0 := by omega
  rw [Extent.slice, List.head?_take, if_neg hpos, List.head?_drop] at hfirst
  exact hfirst

/-- Blanks hold no attributes. -/
theorem SpreadOver.nil {text blanks behind : Text} {offset : Nat} (ht : text.drop offset = blanks ++ behind)
    (hb : ∀ c ∈ blanks, isBlank c = true) : SpreadOver text ⟨offset, offset + blanks.length⟩ [] where
  within := by simp
  apart := .nil
  written := by simp
  blank := by
    intro i hlo hhi _ c hc
    dsimp only at hlo hhi
    have hplace : text[i]? = blanks[i - offset]? := by
      have hshift : i = offset + (i - offset) := by omega
      rw [hshift, ← List.getElem?_drop, ht, List.getElem?_append_left (by omega)]
      simp
    rw [hplace] at hc
    exact hb c (List.mem_of_getElem? hc)

/-- Blanks, an attribute, and others behind it. Right behind the attribute stands a blank, and no attribute begins with
one. -/
theorem SpreadOver.cons {text blanks written rest behind : Text} {offset : Nat} {a : Attribute}
    {others : List (Placed Attribute)} (ht : text.drop offset = blanks ++ (written ++ rest) ++ behind)
    (hb : ∀ c ∈ blanks, isBlank c = true) (hwritten : a.Written written) (hends : a.EndsBefore rest)
    (h : SpreadOver text ⟨offset + blanks.length + written.length,
      offset + blanks.length + written.length + rest.length⟩ others) :
    SpreadOver text ⟨offset, offset + (blanks ++ (written ++ rest)).length⟩
      (⟨a, ⟨offset + blanks.length, offset + blanks.length + written.length⟩⟩ :: others) := by
  have hlength : (blanks ++ (written ++ rest)).length = blanks.length + written.length + rest.length := by
    simp [Nat.add_assoc]
  have hfront : text.drop offset = blanks ++ (written ++ (rest ++ behind)) := by simpa using ht
  have hmiddle : text.drop (offset + blanks.length) = written ++ (rest ++ behind) := by
    rw [← List.drop_drop, hfront, List.drop_left]
  have hback : text.drop (offset + blanks.length + written.length) = rest ++ behind := by
    rw [← List.drop_drop, hmiddle, List.drop_left]
  have hpos : 0 < written.length := by
    obtain ⟨initial, body, hcons, -⟩ := hwritten.exists_cons
    rw [hcons]
    exact Nat.succ_pos _
  constructor
  · intro b hmem
    rcases List.mem_cons.mp hmem with rfl | hother
    · dsimp only
      omega
    · have hbounds := h.within b hother
      dsimp only at hbounds ⊢
      omega
  · refine List.pairwise_cons.mpr ⟨fun b hother => ?_, h.apart⟩
    have hbounds := h.within b hother
    dsimp only at hbounds ⊢
    rcases Nat.lt_or_eq_of_le hbounds.1 with hlt | heq
    · exact hlt
    · obtain ⟨c, hc, hnot⟩ := h.not_isBlank hother
      rw [← heq, ← List.head?_drop, hback] at hc
      have hrest : rest ≠ [] := by
        rintro rfl
        simp only [List.length_nil] at hbounds
        omega
      rw [List.head?_append_of_ne_nil _ hrest] at hc
      rw [hends.head?_isBlank c hc] at hnot
      cases hnot
  · intro b hmem
    rcases List.mem_cons.mp hmem with rfl | hother
    · rw [Extent.slice_of_drop hmiddle]
      exact hwritten
    · exact h.written b hother
  · intro i hlo hhi hnone c hc
    have hother : ∀ b ∈ others, i < b.extent.start ∨ b.extent.stop ≤ i := by
      intro b hmem
      exact hnone b (List.mem_cons_of_mem _ hmem)
    have hfirst := hnone _ List.mem_cons_self
    dsimp only at hlo hhi hfirst
    rcases hfirst with hbefore | hbehind
    · exact (SpreadOver.nil hfront hb).blank i hlo hbefore (by simp) c hc
    · exact h.blank i hbehind (by dsimp only; omega) hother c hc

/-- The attributes of a list stand where the list says. The induction is on the list, one attribute at a time. -/
theorem AttributeList.spreadOver {offset : Nat} {w : Text} {found : List (Placed Attribute)}
    (h : AttributeList offset w found) {text behind : Text} (ht : text.drop offset = w ++ behind) :
    SpreadOver text ⟨offset, offset + w.length⟩ found := by
  induction h with
  | nil hb => exact .nil ht hb
  | @cons offset blanks written rest a others hb hwritten hends _ ih =>
    have hrest : text.drop (offset + blanks.length + written.length) = rest ++ behind := by
      rw [← List.drop_drop, ← List.drop_drop, ht]
      simp
    exact .cons ht hb hwritten hends (ih hrest)

/-- The characters of a window form one attribute list at most. -/
theorem AttributeList.unique {offset : Nat} {w : Text} {found other : List (Placed Attribute)}
    (h : AttributeList offset w found) (h' : AttributeList offset w other) : other = found := by
  have hread := h.attributesFrom_eq []
  have hread' := h'.attributesFrom_eq []
  rw [hread] at hread'
  exact (Except.ok.inj hread').symm

/-- A window of a text is read exactly if its characters form an attribute list. What is read is the only such list; its
attributes stand in the window in their order and apart from each other, with blanks and nothing else around them. -/
theorem attributesIn_decomposition (text : Text) (window : Extent) (hlo : window.start ≤ window.stop)
    (hhi : window.stop ≤ text.length) :
    ((∃ found, attributesIn text window = .ok found) ↔
      ∃ found, AttributeList window.start (window.slice text) found) ∧
    ∀ found, attributesIn text window = .ok found →
      AttributeList window.start (window.slice text) found ∧
      (∀ other, AttributeList window.start (window.slice text) other → other = found) ∧
      SpreadOver text window found := by
  obtain ⟨w, behind, hdrop, hwindow⟩ := Extent.exists_split hlo hhi
  have hslice : window.slice text = w := by
    rw [hwindow]
    exact Extent.slice_of_drop hdrop
  have hiff (found : List (Placed Attribute)) :
      attributesIn text window = .ok found ↔ AttributeList window.start (window.slice text) found := by
    rw [hslice, ← attributesIn_eq_ok_iff hdrop, ← hwindow]
  refine ⟨exists_congr hiff, fun found h => ?_⟩
  have hlist := (hiff found).mp h
  refine ⟨hlist, fun other hother => hlist.unique hother, ?_⟩
  have hspread := hlist.spreadOver (by rw [hslice]; exact hdrop)
  rwa [hslice, ← hwindow] at hspread

/-- Blanks stand around an equals sign and between brackets, and a backslash hides a quote. The window that ends with
the hidden quote has no list. -/
theorem attributesIn_decomposition_hidden_quote :
    let text := "<X f = (a, ' )') x  q=\"\\\"\" >".toList
    let found : List (Placed Attribute) :=
      [⟨.named "f".toList "(a, ' )')".toList, ⟨3, 16⟩⟩, ⟨.shorthand "x".toList, ⟨17, 18⟩⟩,
        ⟨.named "q".toList "\"\\\"\"".toList, ⟨20, 26⟩⟩]
    attributesIn text ⟨2, 27⟩ = .ok found ∧ AttributeList 2 (Extent.slice text ⟨2, 27⟩) found ∧
      (∀ other, AttributeList 2 (Extent.slice text ⟨2, 27⟩) other → other = found) ∧
      SpreadOver text ⟨2, 27⟩ found ∧ ¬∃ other, AttributeList 2 (Extent.slice text ⟨2, 25⟩) other := by
  intro text found
  have hread : attributesIn text ⟨2, 27⟩ = .ok found := by decide +kernel
  have hrefused : attributesIn text ⟨2, 25⟩ = .error (.because .openQuote 22 23) := by decide +kernel
  obtain ⟨-, hfound⟩ := attributesIn_decomposition text ⟨2, 27⟩ (by decide) (by decide)
  obtain ⟨hiff, -⟩ := attributesIn_decomposition text ⟨2, 25⟩ (by decide) (by decide)
  obtain ⟨hlist, honly, hspread⟩ := hfound found hread
  refine ⟨hread, hlist, honly, hspread, fun hother => ?_⟩
  obtain ⟨other, hother⟩ := hiff.mpr hother
  rw [hrefused] at hother
  cases hother

end ComponentTags
