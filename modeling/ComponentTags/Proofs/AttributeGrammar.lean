import ComponentTags.Proofs.AttributeReading

/-!
# The grammar of attribute lists

An attribute list is made of blanks and attributes, and attributes are divided by blanks. The grammar also says where in
the text each attribute stands. The reader of attribute lists reads a window exactly if the characters of the window
form such a list, and it finds the attributes that the grammar names, at their places. So what is read depends on the
characters of the window alone, and a list that is moved to another place of another text is read as before.

That a window has one list at most is not said here.
-/

namespace ComponentTags

/-- The characters of a window that starts at `offset`, as attributes between blanks. -/
inductive AttributeList : Nat → Text → List (Placed Attribute) → Prop where
  /-- Blanks hold no attributes. -/
  | nil {offset : Nat} {w : Text} : (∀ c ∈ w, isBlank c = true) → AttributeList offset w []
  /-- Blanks, an attribute and the rest of the list. -/
  | cons {offset : Nat} {blanks written rest : Text} {a : Attribute} {others : List (Placed Attribute)} :
      (∀ c ∈ blanks, isBlank c = true) → a.Written written → a.EndsBefore rest →
      AttributeList (offset + blanks.length + written.length) rest others →
      AttributeList offset (blanks ++ (written ++ rest))
        (⟨a, ⟨offset + blanks.length, offset + blanks.length + written.length⟩⟩ :: others)

theorem IsAttributeName.forall_isNameChar {name : Text} (h : IsAttributeName name) :
    ∀ c ∈ name, isNameChar c = true := by
  obtain ⟨initial, more, rfl, hi, hm⟩ := h
  exact List.forall_mem_cons.mpr ⟨isNameChar_of_isNameStart hi, hm⟩

/-- A name is an expression without brackets and quotes. -/
theorem IsAttributeName.expression {name : Text} (h : IsAttributeName name) {plain : Char → Bool}
    (hp : ∀ c, isNameChar c = true → plain c = true) : Expression plain name := by
  refine .of_forall fun c hmem => ?_
  have hname := h.forall_isNameChar c hmem
  obtain ⟨-, hq, ho, hc, -⟩ := isNameChar_eq_true hname
  exact ⟨hq, ho, hc, hp c hname⟩

theorem Expression.of_blanks {blanks : Text} (hb : ∀ c ∈ blanks, isBlank c = true) :
    Expression (fun _ => true) blanks := by
  refine .of_forall fun c hmem => ?_
  obtain ⟨hq, ho, hc, -⟩ := isBlank_eq_true (hb c hmem)
  exact ⟨hq, ho, hc, rfl⟩

/-- What stands before a value is an expression. -/
theorem IsAttributeName.expression_lead {name blanks padding : Text} (hn : IsAttributeName name)
    (hb : ∀ c ∈ blanks, isBlank c = true) (hp : ∀ c ∈ padding, isBlank c = true) :
    Expression (fun _ => true) (name ++ (blanks ++ '=' :: padding)) := by
  have hsign : Expression (fun _ => true) ('=' :: padding) :=
    .character (by decide) (by decide) (by decide) rfl (.of_blanks hp)
  exact (hn.expression fun _ _ => rfl).append ((Expression.of_blanks hb).append hsign)

/-- A written attribute is an expression. -/
theorem Attribute.Written.expression {a : Attribute} {written : Text} (h : a.Written written) :
    Expression (fun _ => true) written := by
  cases h with
  | shorthand hn => exact hn.expression fun _ _ => rfl
  | @named name blanks padding value hn hb hp hv =>
    have hvalue : Expression (fun _ => true) value := hv.expression.mono fun _ _ => rfl
    simpa using (hn.expression_lead hb hp).append hvalue

/-- What has been read is an attribute list. -/
theorem ListRead.attributeList {behind w : Text} {offset : Nat} {found : List (Placed Attribute)}
    (h : ListRead behind offset w (.ok found)) : AttributeList offset w found := by
  generalize hresult : Except.ok found = result at h
  induction h generalizing found with
  | blanks hb =>
    obtain rfl : found = [] := Except.ok.inj hresult
    exact .nil hb
  | refused => cases hresult
  | @found offset blanks initial body rest a others hb hwritten hends _ ih =>
    obtain ⟨others, rfl, rfl⟩ := bind_return_eq_ok hresult.symm
    have hstop : offset + blanks.length + 1 + body.length = offset + blanks.length + (initial :: body).length := by
      rw [List.length_cons]
      omega
    have hothers := ih rfl
    rw [hstop] at hothers ⊢
    exact .cons hb hwritten hends hothers

/-- The first character of a value is no blank. -/
theorem IsValue.exists_cons {plain : Char → Bool} {v : Text} (h : IsValue plain v)
    (hp : ∀ c, plain c = true → isBlank c = false) : ∃ first rest, v = first :: rest ∧ isBlank first = false := by
  cases h with
  | @quoted quote body hq _ => exact ⟨quote, body, rfl, (isQuote_eq_true hq).1⟩
  | @bare first rest hq h =>
    refine ⟨first, rest, rfl, ?_⟩
    cases h with
    | character _ _ _ hplain _ => exact hp first hplain
    | quoted hq _ _ => exact (isQuote_eq_true hq).1
    | bracketed ho _ _ => exact (closerOf?_eq_some ho).2.1

/-- A written attribute is read as such, with all its characters. -/
theorem Attribute.Written.attributeAt_eq {a : Attribute} {written rest : Text} (h : a.Written written)
    (he : a.EndsBefore rest) :
    ∃ initial body, written = initial :: body ∧ isNameStart initial = true ∧ ∀ (offset : Nat) (behind : Text),
      attributeAt initial offset (body ++ rest).length (body ++ rest ++ behind) = .ok (a, body.length) := by
  cases h with
  | shorthand hname =>
    obtain ⟨initial, more, rfl, hi, hm⟩ := hname
    exact ⟨initial, more, rfl, hi, fun offset behind => attributeAt_shorthand offset behind hi hm he.1 he.2⟩
  | @named name blanks padding value hname hblanks hpadding hvalue =>
    obtain ⟨initial, more, rfl, hi, hm⟩ := hname
    refine ⟨initial, more ++ (blanks ++ '=' :: (padding ++ value)), rfl, hi, fun offset behind => ?_⟩
    have hplain (c : Char) (hc : (!isBlank c) = true) : isBlank c = false := by simpa using hc
    have hfirst : ∀ c ∈ (value ++ rest).head?, isBlank c = false := by
      obtain ⟨first, tail, rfl, hf⟩ := hvalue.exists_cons hplain
      simpa using hf
    have hsize := hvalue.valueSize_eq hplain (initial :: more) offset
      (offset + 1 + (more.length + blanks.length + 1 + padding.length))
      (show ValueEnds rest.length (rest ++ behind) from valueEnds_window_iff.mpr he)
    have hread := attributeAt_named offset behind hi hm hblanks hpadding hfirst
    rw [show (value ++ rest).length = value.length + rest.length from List.length_append, List.append_assoc value,
      hsize] at hread
    simpa [Except.map, Nat.add_assoc, Nat.add_comm 1] using hread

/-- An attribute list is read as such, whatever follows the window. -/
theorem AttributeList.attributesFrom_eq {offset : Nat} {w : Text} {found : List (Placed Attribute)}
    (h : AttributeList offset w found) (behind : Text) :
    attributesFrom offset w.length (w ++ behind) = .ok found := by
  induction h with
  | nil hb => exact attributesFrom_blanks _ behind hb
  | @cons offset blanks written rest a others hb hwritten hends _ ih =>
    obtain ⟨initial, body, rfl, hi, hread⟩ := hwritten.attributeAt_eq hends
    have hinitial : isBlank initial = false := (isNameChar_eq_true (isNameChar_of_isNameStart hi)).1
    obtain ⟨hleft, hdrop⟩ := window_behind body rest behind
    have hstop : offset + blanks.length + 1 + body.length = offset + blanks.length + (initial :: body).length := by
      rw [List.length_cons]
      omega
    rw [List.cons_append, attributesFrom_step offset behind hb hinitial, hread, ok_bind]
    dsimp only
    rw [hleft, hdrop, hstop, ih]
    rfl

/-- The window of a text is read exactly if it is an attribute list, and then as that list. -/
theorem attributesIn_eq_ok_iff {text w behind : Text} {start : Nat} {found : List (Placed Attribute)}
    (ht : text.drop start = w ++ behind) :
    attributesIn text ⟨start, start + w.length⟩ = .ok found ↔ AttributeList start w found := by
  rw [attributesIn, ht, show start + w.length - start = w.length by omega]
  constructor
  · intro h
    have hread := attributesFrom_read start w behind
    rw [h] at hread
    exact hread.attributeList
  · intro h
    exact h.attributesFrom_eq behind

/-- The characters of a stretch of a text. -/
theorem Extent.exists_split {text : Text} {e : Extent} (hlo : e.start ≤ e.stop) (hhi : e.stop ≤ text.length) :
    ∃ w behind, text.drop e.start = w ++ behind ∧ e = ⟨e.start, e.start + w.length⟩ := by
  refine ⟨(text.drop e.start).take (e.stop - e.start), _, (List.take_append_drop _ _).symm, ?_⟩
  have hlength : ((text.drop e.start).take (e.stop - e.start)).length = e.stop - e.start := by
    rw [List.length_take, List.length_drop]
    omega
  rw [hlength, Nat.add_sub_cancel' hlo]

/-- Each attribute of a list is one that is written in it. -/
theorem AttributeList.written {offset : Nat} {w : Text} {found : List (Placed Attribute)}
    (h : AttributeList offset w found) : ∀ a ∈ found, ∃ written, a.item.Written written := by
  induction h with
  | nil => simp
  | cons _ hwritten _ _ ih => exact List.forall_mem_cons.mpr ⟨⟨_, hwritten⟩, ih⟩

/-- What is read from a stretch of a text is written there. -/
theorem attributesIn_written {text : Text} {window : Extent} {found : List (Placed Attribute)}
    (h : attributesIn text window = .ok found) (hlo : window.start ≤ window.stop) (hhi : window.stop ≤ text.length) :
    ∀ a ∈ found, ∃ written, a.item.Written written := by
  obtain ⟨w, behind, hdrop, hwindow⟩ := Extent.exists_split hlo hhi
  rw [hwindow, attributesIn_eq_ok_iff hdrop] at h
  exact h.written

/-- The same list at another place. -/
theorem AttributeList.move {offset : Nat} {w : Text} {found : List (Placed Attribute)}
    (h : AttributeList offset w found) (other : Nat) :
    ∃ moved, AttributeList other w moved ∧ moved.map (·.item) = found.map (·.item) := by
  induction h generalizing other with
  | nil hb => exact ⟨[], .nil hb, rfl⟩
  | @cons offset blanks written rest a others hb hwritten hends _ ih =>
    obtain ⟨moved, hmoved, hitems⟩ := ih (other + blanks.length + written.length)
    exact ⟨_, .cons hb hwritten hends hmoved, by simp [hitems]⟩

/-- A list that is read in one text is read in another text that holds the same characters. -/
theorem attributesIn_move {text other w behind following : Text} {start place : Nat}
    {found : List (Placed Attribute)} (ht : text.drop start = w ++ behind) (ho : other.drop place = w ++ following)
    (h : attributesIn text ⟨start, start + w.length⟩ = .ok found) :
    ∃ moved, attributesIn other ⟨place, place + w.length⟩ = .ok moved ∧
      moved.map (·.item) = found.map (·.item) := by
  obtain ⟨moved, hmoved, hitems⟩ := ((attributesIn_eq_ok_iff ht).mp h).move place
  exact ⟨moved, (attributesIn_eq_ok_iff ho).mpr hmoved, hitems⟩

end ComponentTags
