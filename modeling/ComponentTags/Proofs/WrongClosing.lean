import ComponentTags.Proofs.LineCounting
import ComponentTags.Proofs.MarkContext
import ComponentTags.Proofs.Tiling

/-!
# Wrong closing tags

A closing tag that closes nothing, or another component than the innermost open one, is reported whatever follows it.
Names, attribute lists and closing tags are searched for without any limit but the end of the text, but no search that
ends before the wrong tag has read on behind it.

Each search is compared with the same search in another window. Both windows begin with the same characters up to the
end of the tag that decides the search. Marks are recognised in both by their own characters, and a `<` that begins no
mark in one begins none in the other, because the `<` of the deciding tag follows it.

Other faults are not covered: they can depend on what follows.
-/

namespace ComponentTags

/-- What a function makes of a window is decided by the front of its text: it makes the same of every window that holds
the front and lies within its text, whatever stands behind the front. -/
def DecidedBy {α : Type} (read : Nat → Text → α) (left : Nat) (front back : Text) : Prop :=
  front.length ≤ left ∧ ∀ other behind, front.length ≤ other → other ≤ (front ++ behind).length →
    read other (front ++ behind) = read left (front ++ back)

section Steps

variable {α β γ : Type} {read : Nat → Text → α} {next : Nat → Text → β} {pass : Nat → Text → γ}
variable {left : Nat} {front back passed : Text}

/-- A mark is decided by its own characters. -/
theorem decidedBy_markAt? {rest : Text} {m : Mark} (h : markAt? left rest = .ok (some m)) :
    ∃ body back, rest = body ++ back ∧ m.size = body.length + 1 ∧ DecidedBy markAt? left body back := by
  obtain ⟨body, back, hrest, hsize, hle, hany⟩ := markAt?_eq_some h
  rw [hrest] at h
  refine ⟨body, back, hrest, hsize, by omega, fun other behind hother _ => ?_⟩
  rw [hany other behind hother, h]

/-- A `<` that begins no mark begins none in another window, if a `<` stands in the front that both share. -/
theorem markAt?_shared (h : markAt? left (front ++ back) = .ok none) (hmark : '<' ∈ front) (hle : front.length ≤ left)
    {other : Nat} {behind : Text} (hother : other ≤ (front ++ behind).length) :
    markAt? other (front ++ behind) = .ok none := by
  obtain ⟨before, after, hfront⟩ := List.append_of_mem hmark
  rw [hfront, List.append_assoc, List.cons_append] at h hother ⊢
  rw [hfront, List.length_append] at hle
  refine markAt?_context h (by omega) ?_ divides_mark hother
  intro c hc
  have hc : '<' = c := by simpa using hc
  rw [← hc]
  exact divides_mark.1

/-- One character of text more in front. -/
theorem DecidedBy.character {c : Char} {read next : Nat → Text → α} (h : DecidedBy next left front back)
    (hmark : '<' ∈ front) (hplain : c = '<' → markAt? left (front ++ back) = .ok none)
    (hstep : ∀ other rest, (c = '<' → markAt? other rest = .ok none) → read (other + 1) (c :: rest) = next other rest) :
    DecidedBy read (left + 1) (c :: front) back := by
  obtain ⟨hle, hsame⟩ := h
  refine ⟨Nat.succ_le_succ hle, fun other behind hfits hother => ?_⟩
  obtain ⟨other, rfl⟩ : ∃ n, other = n + 1 := Nat.exists_eq_succ_of_ne_zero (by simp at hfits; omega)
  have hfits : front.length ≤ other := by simpa using hfits
  have hother : other ≤ (front ++ behind).length := by simpa using hother
  have hboth : c = '<' → markAt? other (front ++ behind) = .ok none :=
    fun hc => markAt?_shared (hplain hc) hmark hle hother
  rw [List.cons_append, List.cons_append, hstep other _ hboth, hstep left _ hplain, hsame other behind hfits hother]

/-- A mark or a component more in front, which is passed in both windows. -/
theorem DecidedBy.append {c : Char} (hpass : DecidedBy pass left passed (front ++ back))
    (h : DecidedBy next (left - passed.length) front back) (make : β → α)
    (hstep : ∀ other rest, pass other (passed ++ rest) = pass left (passed ++ (front ++ back)) →
      read (other + 1) (c :: (passed ++ rest)) = make (next (other - passed.length) rest)) :
    DecidedBy read (left + 1) (c :: (passed ++ front)) back := by
  obtain ⟨hle, hpassed⟩ := hpass
  obtain ⟨hbehind, hsame⟩ := h
  refine ⟨?_, fun other behind hfits hother => ?_⟩
  · simp only [List.length_cons, List.length_append]
    omega
  · obtain ⟨other, rfl⟩ : ∃ n, other = n + 1 := Nat.exists_eq_succ_of_ne_zero (by simp at hfits; omega)
    simp only [List.cons_append, List.length_cons, List.length_append] at hfits hother
    have hshared : pass other (passed ++ (front ++ behind)) = pass left (passed ++ (front ++ back)) :=
      hpassed other _ (by omega) (by simp only [List.length_append]; omega)
    have hrest : next (other - passed.length) (front ++ behind) = next (left - passed.length) (front ++ back) :=
      hsame _ behind (by omega) (by simp only [List.length_append]; omega)
    rw [List.cons_append, List.cons_append, List.append_assoc, List.append_assoc, hstep other _ hshared, hrest,
      ← hstep left _ rfl]

/-- The mark that decides. -/
theorem DecidedBy.last {c : Char} (hpass : DecidedBy pass left passed back) {result : α}
    (hstep : ∀ other rest, pass other (passed ++ rest) = pass left (passed ++ back) →
      read (other + 1) (c :: (passed ++ rest)) = result) :
    DecidedBy read (left + 1) (c :: passed) back := by
  have hnothing : DecidedBy (fun _ _ => result) (left - passed.length) [] back :=
    ⟨Nat.zero_le _, fun _ _ _ _ => rfl⟩
  have hlast : DecidedBy read (left + 1) (c :: (passed ++ [])) back := hpass.append hnothing id hstep
  rwa [List.append_nil] at hlast

end Steps

/-- What a function makes of a window at `offset` is decided by the text before `stop`, and a `<` stands there. -/
def DecidedUpTo {α : Type} (read : Nat → Text → α) (offset left : Nat) (text : Text) (stop : Nat) : Prop :=
  ∃ front back, text = front ++ back ∧ offset + front.length = stop ∧ '<' ∈ front ∧ DecidedBy read left front back

section Stretches

variable {α β γ : Type} {read : Nat → Text → α} {next : Nat → Text → β} {pass : Nat → Text → γ}
variable {offset left stop : Nat} {passed back : Text}

/-- One character of text more in front. -/
theorem DecidedUpTo.character {c : Char} {rest : Text} {read next : Nat → Text → α}
    (h : DecidedUpTo next (offset + 1) left rest stop) (hplain : c = '<' → markAt? left rest = .ok none)
    (hstep : ∀ other rest, (c = '<' → markAt? other rest = .ok none) → read (other + 1) (c :: rest) = next other rest) :
    DecidedUpTo read offset (left + 1) (c :: rest) stop := by
  obtain ⟨front, back, hrest, hstop, hmark, hdecided⟩ := h
  rw [hrest] at hplain ⊢
  refine ⟨c :: front, back, rfl, ?_, List.mem_cons_of_mem c hmark, hdecided.character hmark hplain hstep⟩
  rw [List.length_cons]
  omega

/-- A tag is passed, and what follows is decided by the text before `stop`. -/
theorem DecidedUpTo.append (hpass : DecidedBy pass left passed back)
    (h : DecidedUpTo next (offset + (passed.length + 1)) (left - passed.length) back stop) (make : β → α)
    (hstep : ∀ other rest, pass other (passed ++ rest) = pass left (passed ++ back) →
      read (other + 1) ('<' :: (passed ++ rest)) = make (next (other - passed.length) rest)) :
    DecidedUpTo read offset (left + 1) ('<' :: (passed ++ back)) stop := by
  obtain ⟨front, behind, hback, hstop, -, hdecided⟩ := h
  rw [hback] at hpass hstep ⊢
  refine ⟨'<' :: (passed ++ front), behind, by simp, ?_, List.mem_cons_self, hpass.append hdecided make hstep⟩
  rw [List.length_cons, List.length_append]
  omega

/-- A tag decides, and `stop` is its end. -/
theorem DecidedUpTo.last (hpass : DecidedBy pass left passed back) {result : α}
    (hstep : ∀ other rest, pass other (passed ++ rest) = pass left (passed ++ back) →
      read (other + 1) ('<' :: (passed ++ rest)) = result) :
    DecidedUpTo read offset (left + 1) ('<' :: (passed ++ back)) (offset + (passed.length + 1)) :=
  ⟨'<' :: passed, back, rfl, rfl, List.mem_cons_self, hpass.last hstep⟩

/-- A mark is passed. -/
theorem DecidedUpTo.mark {rest : Text} {m : Mark} {read next : Nat → Text → α}
    (h : DecidedUpTo next (offset + m.size) (left - (m.size - 1)) (rest.drop (m.size - 1)) stop)
    (hm : markAt? left rest = .ok (some m))
    (hstep : ∀ other rest, markAt? other rest = .ok (some m) →
      read (other + 1) ('<' :: rest) = next (other - (m.size - 1)) (rest.drop (m.size - 1))) :
    DecidedUpTo read offset (left + 1) ('<' :: rest) stop := by
  obtain ⟨body, back, hrest, hsize, hbody⟩ := decidedBy_markAt? hm
  have hbehind : m.size - 1 = body.length := by omega
  rw [hrest] at hm
  rw [hbehind, hsize, hrest, List.drop_left] at h
  rw [hrest]
  refine DecidedUpTo.append hbody h id fun other rest hsame => ?_
  rw [hstep other _ (hsame.trans hm), hbehind, List.drop_left]
  rfl

/-- A mark decides. -/
theorem decidedUpTo_mark {rest : Text} {m : Mark} (hm : markAt? left rest = .ok (some m)) {result : α}
    (hstep : ∀ other rest, markAt? other rest = .ok (some m) → read (other + 1) ('<' :: rest) = result) :
    DecidedUpTo read offset (left + 1) ('<' :: rest) (offset + m.size) := by
  obtain ⟨body, back, hrest, hsize, hbody⟩ := decidedBy_markAt? hm
  rw [hrest] at hm ⊢
  rw [hsize]
  exact DecidedUpTo.last hbody fun other rest hsame => hstep other _ (hsame.trans hm)

end Stretches

/-- The failure is that of a wrong closing tag, which ends at `stop`. -/
def Failure.IsWrongClosing (stop : Nat) (e : Failure) : Prop :=
  ∃ f, e = .fault f ∧ f.cause.kind = .unmatchedClosingTag ∧ f.extent.stop = stop

/-- A tag that is never closed is no wrong closing tag. -/
theorem Opened.not_isWrongClosing (o : Opened) (stop : Nat) : ¬ o.neverClosed.IsWrongClosing stop := by
  rintro ⟨f, hf, hkind, -⟩
  cases hf
  cases hkind

/-- Within the text an opening tag at fault is no wrong closing tag. -/
theorem markAt?_not_isWrongClosing {left : Nat} {text : Text} {e : Failure} (h : markAt? left text = .error e)
    (hl : left ≤ text.length) (offset stop : Nat) : ¬ (e.shift offset).IsWrongClosing stop := by
  rintro ⟨f, hf, hkind, -⟩
  rcases openingMark?_error (markAt?_error h hl).1 hl with ⟨g, rfl, hmalformed, -⟩ | ⟨name, rfl, -⟩
  · cases hf
    rw [hmalformed] at hkind
    cases hkind
  · cases hf
    cases hkind

section Search

variable {innermost o : Opened} {outer : List Opened} {offset left : Nat} {rest : Text}

/-- The search for a closing tag passes over a character of text. -/
theorem findClosing_character {c : Char} (h : c = '<' → markAt? left rest = .ok none) (innermost : Opened)
    (outer : List Opened) (offset : Nat) :
    findClosing innermost outer offset (left + 1) (c :: rest) = findClosing innermost outer (offset + 1) left rest := by
  rw [findClosing.eq_def]
  by_cases hc : c = '<'
  · simp [hc, h hc]
  · simp [hc]

/-- The search ends with a closing tag for the one tag that is open. -/
theorem findClosing_found {m : ClosingMark} (h : markAt? left rest = .ok (some (.closing m)))
    (hname : m.name = innermost.name) :
    findClosing innermost [] offset (left + 1) ('<' :: rest) = .ok ⟨offset, offset + m.size⟩ := by
  rw [findClosing.eq_def]
  simp [h, hname]

/-- A closing tag within the content closes the innermost open tag. -/
theorem findClosing_closes {m : ClosingMark} (h : markAt? left rest = .ok (some (.closing m)))
    (hname : m.name = innermost.name) :
    findClosing innermost (o :: outer) offset (left + 1) ('<' :: rest) =
      findClosing o outer (offset + m.size) (left - (m.size - 1)) (rest.drop (m.size - 1)) := by
  rw [findClosing.eq_def]
  simp [h, hname]

/-- The search is stopped by a closing tag with another name. -/
theorem findClosing_wrong {m : ClosingMark} (h : markAt? left rest = .ok (some (.closing m)))
    (hname : m.name ≠ innermost.name) :
    findClosing innermost outer offset (left + 1) ('<' :: rest) =
      .error (.because (.closesOther m.name innermost.name) offset (offset + m.size)) := by
  rw [findClosing.eq_def]
  simp [h, hname]

/-- An opening mark opens its component, unless it is self-closing. -/
theorem findClosing_opening {m : OpeningMark} (h : markAt? left rest = .ok (some (.opening m))) :
    findClosing innermost outer offset (left + 1) ('<' :: rest) =
      if m.selfClosing then findClosing innermost outer (offset + m.size) (left - (m.size - 1)) (rest.drop (m.size - 1))
      else findClosing ⟨m.name, offset⟩ (innermost :: outer) (offset + m.size) (left - (m.size - 1))
        (rest.drop (m.size - 1)) := by
  rw [findClosing.eq_def]
  simp [h]

end Search

/-- A search for a closing tag came to an end with a closing tag that ends at `stop`: the one looked for, or a wrong
one. -/
def EndsAt (stop : Nat) : Except Failure Extent → Prop
  | .ok e => e.stop = stop
  | .error e => e.IsWrongClosing stop

/-- A search that ends with a closing tag is decided by the text up to the end of that tag. The induction is on the
search; at each step both windows skip the same character or pass the same mark, and go on within the text behind it. -/
theorem findClosing_decided {innermost : Opened} {outer : List Opened} {offset left stop : Nat} {text : Text}
    (hl : left ≤ text.length) (h : EndsAt stop (findClosing innermost outer offset left text)) :
    DecidedUpTo (findClosing innermost outer offset) offset left text stop := by
  have hbehind {left : Nat} {c : Char} {rest : Text} (hl : left + 1 ≤ (c :: rest).length) (n : Nat) :
      left - n ≤ (rest.drop n).length := by
    rw [List.length_cons] at hl
    rw [List.length_drop]
    omega
  fun_induction findClosing innermost outer offset left text with
  | case1 innermost outer offset text => exact absurd h (innermost.not_isWrongClosing stop)
  | case2 innermost outer offset left => simp at hl
  | case3 innermost outer offset left c rest hc e hm =>
    exact absurd h (markAt?_not_isWrongClosing hm (by simpa using hl) offset stop)
  | case4 innermost outer offset left c rest hc hm ih =>
    have hi := ih (by simpa using hl) h
    exact hi.character (fun _ => hm) fun other rest hplain => findClosing_character hplain innermost outer offset
  | case5 innermost offset left c rest hc m hm hname =>
    have hname : m.name = innermost.name := by simpa using hname
    have hstop : offset + m.size = stop := h
    rw [eq_of_beq hc, ← hstop]
    exact decidedUpTo_mark hm fun other rest hother => findClosing_found hother hname
  | case6 innermost offset left c rest hc m hm hname o outer ih =>
    have hname : m.name = innermost.name := by simpa using hname
    have hi := ih (hbehind hl _) h
    rw [eq_of_beq hc]
    exact hi.mark hm fun other rest hother => findClosing_closes hother hname
  | case7 innermost outer offset left c rest hc m hm hname =>
    have hname : m.name ≠ innermost.name := by simpa using hname
    have hstop : offset + m.size = stop := by
      obtain ⟨f, hf, -, hstop⟩ := h
      cases hf
      exact hstop
    rw [eq_of_beq hc, ← hstop]
    exact decidedUpTo_mark hm fun other rest hother => findClosing_wrong hother hname
  | case8 innermost outer offset left c rest hc m hm hself ih =>
    have hi := ih (hbehind hl _) h
    rw [eq_of_beq hc]
    refine hi.mark hm fun other rest hother => ?_
    rw [findClosing_opening hother, if_pos hself]
    rfl
  | case9 innermost outer offset left c rest hc m hm hself ih =>
    have hi := ih (hbehind hl _) h
    rw [eq_of_beq hc]
    refine hi.mark hm fun other rest hother => ?_
    rw [findClosing_opening hother, if_neg hself]
    rfl
  | case10 innermost outer offset left c rest hc ih =>
    have hi := ih (by simpa using hl) h
    refine hi.character (fun hmark => absurd hmark (by simpa using hc)) fun other rest hplain => ?_
    exact findClosing_character hplain innermost outer offset

/-- A self-closing tag has no closing tag. -/
theorem closingOf?_selfClosing {m : OpeningMark} (h : m.selfClosing = true) (offset left : Nat) (rest : Text) :
    closingOf? m offset left rest = .ok none := by
  rw [closingOf?, if_pos h]

/-- The closing tag of any other tag is looked for behind it. -/
theorem closingOf?_paired {m : OpeningMark} (h : m.selfClosing = false) (offset left : Nat) (rest : Text) :
    closingOf? m offset left rest =
      (findClosing ⟨m.name, offset⟩ [] (offset + m.size) (left - (m.size - 1)) (rest.drop (m.size - 1))).map some := by
  rw [closingOf?, if_neg (by simp [h])]
  cases findClosing ⟨m.name, offset⟩ [] (offset + m.size) (left - (m.size - 1)) (rest.drop (m.size - 1)) <;> rfl

/-- The search for the end of the component that `m` begins at `offset` came to an end at `stop`: the component ends
there, or a wrong closing tag does. -/
def OpeningMark.EndsAt (m : OpeningMark) (offset stop : Nat) : Except Failure (Option Extent) → Prop
  | .ok closing => (Component.ofMark m offset closing).extent.stop = stop
  | .error e => e.IsWrongClosing stop

/-- An opening tag and the end of its component are decided by the text up to that end, or up to the end of the wrong
closing tag that is found instead. -/
theorem closingOf?_decided {m : OpeningMark} {offset left stop : Nat} {rest : Text} (hl : left ≤ rest.length)
    (hm : markAt? left rest = .ok (some (.opening m))) (h : m.EndsAt offset stop (closingOf? m offset left rest)) :
    ∃ passed back, rest = passed ++ back ∧ offset + (passed.length + 1) = stop ∧
      DecidedBy (fun left rest => (markAt? left rest, closingOf? m offset left rest)) left passed back := by
  obtain ⟨body, back, hrest, hsize, hle, hbody⟩ := decidedBy_markAt? hm
  have hsize : m.size = body.length + 1 := hsize
  cases hself : m.selfClosing with
  | true =>
    rw [closingOf?_selfClosing hself] at h
    have hstop : offset + m.size = stop := h
    refine ⟨body, back, hrest, by omega, hle, fun other behind hfits hother => ?_⟩
    dsimp only
    rw [hbody other behind hfits hother, closingOf?_selfClosing hself, closingOf?_selfClosing hself]
  | false =>
    have hdrop (behind : Text) : (body ++ behind).drop (m.size - 1) = behind := by
      rw [hsize, Nat.add_sub_cancel, List.drop_left]
    rw [hrest, List.length_append] at hl
    rw [hrest, closingOf?_paired hself, hdrop] at h
    have hsearch : EndsAt stop (findClosing ⟨m.name, offset⟩ [] (offset + m.size) (left - (m.size - 1)) back) := by
      cases hfound : findClosing ⟨m.name, offset⟩ [] (offset + m.size) (left - (m.size - 1)) back with
      | ok e =>
        rw [hfound] at h
        exact h
      | error e =>
        rw [hfound] at h
        exact h
    obtain ⟨front, behind, hback, hstop, -, hfits, hsame⟩ := findClosing_decided (by omega) hsearch
    rw [hback] at hrest hbody
    refine ⟨body ++ front, behind, by rw [hrest, List.append_assoc], ?_, ?_, fun other next hother hwithin => ?_⟩
    · rw [List.length_append]
      omega
    · rw [List.length_append]
      omega
    · simp only [List.length_append] at hother hwithin
      have hmark : markAt? other (body ++ (front ++ next)) = markAt? left (body ++ (front ++ behind)) :=
        hbody other _ (by omega) (by simp only [List.length_append]; omega)
      have hfound : findClosing ⟨m.name, offset⟩ [] (offset + m.size) (other - (m.size - 1)) (front ++ next) =
          findClosing ⟨m.name, offset⟩ [] (offset + m.size) (left - (m.size - 1)) (front ++ behind) :=
        hsame _ next (by omega) (by simp only [List.length_append]; omega)
      dsimp only
      rw [List.append_assoc, List.append_assoc, hmark, closingOf?_paired hself, closingOf?_paired hself, hdrop, hdrop,
        hfound]

section Cut

variable {textStart offset left : Nat} {pending rest : Text}

/-- The cut takes a character of text up into what is pending. -/
theorem scanFrom_character {c : Char} (h : c = '<' → markAt? left rest = .ok none) (textStart : Nat) (pending : Text)
    (offset : Nat) :
    scanFrom textStart pending offset (left + 1) (c :: rest) =
      scanFrom textStart (c :: pending) (offset + 1) left rest := by
  rw [scanFrom.eq_def]
  by_cases hc : c = '<'
  · simp [hc, h hc]
  · simp [hc]

/-- The cut is stopped by a closing tag outside of components. -/
theorem scanFrom_closing {m : ClosingMark} (h : markAt? left rest = .ok (some (.closing m))) :
    scanFrom textStart pending offset (left + 1) ('<' :: rest) =
      ⟨[], some (.because (.closesNothing m.name) offset (offset + m.size))⟩ := by
  rw [scanFrom.eq_def]
  simp [h]

/-- The cut is stopped by a component that has no end, behind the text before it. -/
theorem scanFrom_unclosed {m : OpeningMark} {e : Failure} (h : markAt? left rest = .ok (some (.opening m)))
    (hclosing : closingOf? m offset left rest = .error e) :
    scanFrom textStart pending offset (left + 1) ('<' :: rest) = ⟨pendingText textStart offset pending, some e⟩ := by
  rw [scanFrom.eq_def]
  simp [h, hclosing]

/-- A component, and the text before it, in front of what a cut finds behind it. -/
def Scan.behind (before : List Segment) (c : Component) (following : Scan) : Scan :=
  ⟨before ++ .component c :: following.segments, following.failure⟩

/-- The cut goes on behind a component, which stands behind the text before it. -/
theorem scanFrom_component {m : OpeningMark} {closing : Option Extent} {size : Nat}
    (h : markAt? left rest = .ok (some (.opening m))) (hclosing : closingOf? m offset left rest = .ok closing)
    (hsize : size = (Component.ofMark m offset closing).extent.stop - offset) :
    scanFrom textStart pending offset (left + 1) ('<' :: rest) =
      (scanFrom (offset + size) [] (offset + size) (left - (size - 1)) (rest.drop (size - 1))).behind
        (pendingText textStart offset pending) (.ofMark m offset closing) := by
  rw [scanFrom.eq_def, hsize]
  simp [h, hclosing, Scan.behind]

/-- A component whose end is missed because of a wrong closing tag. -/
theorem scanFrom_decided_of_unclosed {m : OpeningMark} {e : Failure} {stop : Nat} (hl : left ≤ rest.length)
    (hm : markAt? left rest = .ok (some (.opening m))) (hclosing : closingOf? m offset left rest = .error e)
    (he : e.IsWrongClosing stop) :
    DecidedUpTo (scanFrom textStart pending offset) offset (left + 1) ('<' :: rest) stop := by
  have hends : m.EndsAt offset stop (closingOf? m offset left rest) := by
    rw [hclosing]
    exact he
  obtain ⟨passed, back, hrest, hstop, hpassed⟩ := closingOf?_decided hl hm hends
  rw [hrest] at hm hclosing ⊢
  have hsame (other : Nat) (behind : Text)
      (hshared : (markAt? other (passed ++ behind), closingOf? m offset other (passed ++ behind)) =
        (markAt? left (passed ++ back), closingOf? m offset left (passed ++ back))) :
      scanFrom textStart pending offset (other + 1) ('<' :: (passed ++ behind)) =
        ⟨pendingText textStart offset pending, some e⟩ := by
    obtain ⟨hmark, hfound⟩ := Prod.mk.inj hshared
    exact scanFrom_unclosed (hmark.trans hm) (hfound.trans hclosing)
  rw [← hstop]
  exact DecidedUpTo.last hpassed hsame

/-- A component in front of a cut that is decided. -/
theorem scanFrom_decided_of_component {m : OpeningMark} {closing : Option Extent} {size stop : Nat}
    (hl : left ≤ rest.length) (hm : markAt? left rest = .ok (some (.opening m)))
    (hclosing : closingOf? m offset left rest = .ok closing)
    (hsize : size = (Component.ofMark m offset closing).extent.stop - offset)
    (h : DecidedUpTo (scanFrom (offset + size) [] (offset + size)) (offset + size) (left - (size - 1))
      (rest.drop (size - 1)) stop) :
    DecidedUpTo (scanFrom textStart pending offset) offset (left + 1) ('<' :: rest) stop := by
  have hends : m.EndsAt offset (Component.ofMark m offset closing).extent.stop (closingOf? m offset left rest) := by
    rw [hclosing]
    rfl
  obtain ⟨passed, back, hrest, hstop, hpassed⟩ := closingOf?_decided hl hm hends
  have hlength : size = passed.length + 1 := by omega
  rw [hrest] at hm hclosing ⊢
  have hsame (other : Nat) (behind : Text)
      (hshared : (markAt? other (passed ++ behind), closingOf? m offset other (passed ++ behind)) =
        (markAt? left (passed ++ back), closingOf? m offset left (passed ++ back))) :
      scanFrom textStart pending offset (other + 1) ('<' :: (passed ++ behind)) =
        (scanFrom (offset + size) [] (offset + size) (other - passed.length) behind).behind
          (pendingText textStart offset pending) (.ofMark m offset closing) := by
    obtain ⟨hmark, hfound⟩ := Prod.mk.inj hshared
    rw [scanFrom_component (hmark.trans hm) (hfound.trans hclosing) hsize, hlength, Nat.add_sub_cancel, List.drop_left]
  rw [hrest, hlength, Nat.add_sub_cancel, List.drop_left] at h
  rw [hlength] at hsame
  exact DecidedUpTo.append hpassed h
    (Scan.behind (pendingText textStart offset pending) (.ofMark m offset closing)) hsame

end Cut

/-- A cut that is stopped by a wrong closing tag is decided by the text up to the end of that tag. -/
theorem scanFrom_decided {textStart offset left stop : Nat} {pending text : Text} {e : Failure}
    (hl : left ≤ text.length) (h : (scanFrom textStart pending offset left text).failure = some e)
    (he : e.IsWrongClosing stop) : DecidedUpTo (scanFrom textStart pending offset) offset left text stop := by
  fun_induction scanFrom textStart pending offset left text with
  | case1 => cases h
  | case2 => cases h
  | case3 textStart pending offset left c rest hc failure hm =>
    have hfailure : failure.shift offset = e := Option.some.inj h
    rw [← hfailure] at he
    exact absurd he (markAt?_not_isWrongClosing hm (by simpa using hl) offset stop)
  | case4 textStart pending offset left c rest hc hm ih =>
    have hi := ih (by simpa using hl) h
    exact hi.character (fun _ => hm) fun other rest hplain => scanFrom_character hplain textStart pending offset
  | case5 textStart pending offset left c rest hc m hm =>
    have hstop : offset + m.size = stop := by
      obtain ⟨f, hf, -, hstop⟩ := he
      rw [hf] at h
      cases h
      exact hstop
    rw [eq_of_beq hc, ← hstop]
    exact decidedUpTo_mark hm fun other rest hother => scanFrom_closing hother
  | case6 textStart pending offset left c rest hc m hm before failure hfailure =>
    have hfailed : failure = e := Option.some.inj h
    rw [hfailed] at hfailure
    rw [eq_of_beq hc]
    exact scanFrom_decided_of_unclosed (by simpa using hl) hm hfailure he
  | case7 textStart pending offset left c rest hc m hm before closing hclosing component size following ih =>
    rw [List.length_cons] at hl
    have hbehind : left - (size - 1) ≤ (rest.drop (size - 1)).length := by
      rw [List.length_drop]
      omega
    rw [eq_of_beq hc]
    exact scanFrom_decided_of_component (by omega) hm hclosing rfl (ih hbehind h)
  | case8 textStart pending offset left c rest hc ih =>
    have hi := ih (by simpa using hl) h
    refine hi.character (fun hmark => absurd hmark (by simpa using hc)) fun other rest hplain => ?_
    exact scanFrom_character hplain textStart pending offset

/-- A text that is stopped by a wrong closing tag is cut in the same way up to the end of that tag, with any text behind
it. -/
theorem scanText_take_append {text : Text} {e : Failure} {stop : Nat} (h : (scanText text).failure = some e)
    (he : e.IsWrongClosing stop) (more : Text) :
    stop ≤ text.length ∧ scanText (text.take stop ++ more) = scanText text := by
  have hdecided : DecidedUpTo (scanFrom 0 [] 0) 0 text.length text stop := scanFrom_decided (Nat.le_refl _) h he
  obtain ⟨front, back, htext, hstop, -, hle, hsame⟩ := hdecided
  have hfront : text.take stop = front := by
    rw [htext, ← hstop, Nat.zero_add, List.take_left]
  refine ⟨by omega, ?_⟩
  have hother := hsame (front ++ more).length more (by simp) (Nat.le_refl _)
  rw [hfront]
  rw [← htext] at hother
  exact hother

/-- The stretches that the spans of a segment are made of. -/
def Segment.extents : Segment → List Extent
  | .text _ extent => [extent]
  | .component c => [c.extent, c.opening, c.attributes] ++ c.closing.toList

/-- All stretches of a segment end within the one that the segment is placed in. -/
theorem Segment.PlacedIn.extents_le {text : Text} {stretch : Extent} {s : Segment} (h : s.PlacedIn text stretch)
    {e : Extent} (he : e ∈ s.extents) : e.start ≤ stretch.stop ∧ e.stop ≤ stretch.stop := by
  cases s with
  | text value extent =>
    obtain ⟨-, hstop, hne, hvalue⟩ := h
    have hsame : e = extent := by simpa [extents] using he
    have hlt : extent.start < extent.stop := by
      by_contra hnot
      rw [Extent.slice, Nat.sub_eq_zero_of_le (Nat.le_of_not_lt hnot), List.take_zero] at hvalue
      exact hne hvalue
    rw [hsame]
    omega
  | component c =>
    have hopening := h.opening_lt
    have hattributes := h.attributes_le
    have hlt := h.attributes_lt
    have hstop := h.opening_stop_le
    have hextent : c.extent.stop ≤ stretch.stop := by
      cases hclosing : c.closing with
      | none => simpa only [Component.extent, hclosing, Option.getD_none] using hstop
      | some closing => simpa only [Component.extent, hclosing, Option.getD_some] using (h.closing closing hclosing).2.2
    have hstart : c.extent.start = c.opening.start := rfl
    simp only [extents, List.mem_append, List.mem_cons, List.not_mem_nil, or_false, Option.mem_toList] at he
    rcases he with (he | he | he) | he
    · rw [he]
      omega
    · rw [he]
      omega
    · rw [he]
      omega
    · have hclosing := h.closing e he
      omega

/-- All stretches of the segments before a wrong closing tag end before that tag does. They are those of the text that
is cut off there. -/
theorem scanText_extents_le {text : Text} {e : Failure} {stop : Nat} (h : (scanText text).failure = some e)
    (he : e.IsWrongClosing stop) {s : Segment} (hs : s ∈ (scanText text).segments) {extent : Extent}
    (hextent : extent ∈ s.extents) : extent.start ≤ stop ∧ extent.stop ≤ stop := by
  obtain ⟨hstop, hcut⟩ := scanText_take_append h he []
  rw [List.append_nil] at hcut
  have hlength : (text.take stop).length = stop := List.length_take_of_le hstop
  have htiles : (scanText (text.take stop)).TilesFront (text.take stop) ⟨0, 0 + (text.take stop).length⟩ :=
    scanFrom_tilesFront rfl rfl (Nat.le_refl _)
  rw [hcut, hlength, Nat.zero_add] at htiles
  obtain ⟨reached, -, hreached, htiles, -⟩ := htiles
  have hle := (htiles.placed s hs).extents_le hextent
  exact ⟨hle.1.trans hreached, hle.2.trans hreached⟩

/-- A wrong closing tag is reported whatever follows it. If the cut of a text is stopped by one, every text with the
same characters up to the end of that tag has the same segments before it and is stopped by the same fault, and all of
these have the same lines and columns. -/
theorem scanText_wrongClosing_stable {text : Text} {f : Fault} (h : (scanText text).failure = some (.fault f))
    (hkind : f.cause.kind = .unmatchedClosingTag) (more : Text) :
    let other := text.take f.extent.stop ++ more
    (scanText other).failure = some (.fault f) ∧ (scanText other).segments = (scanText text).segments ∧
      (LineIndex.ofText other).span f.extent = (LineIndex.ofText text).span f.extent ∧
      ∀ s ∈ (scanText text).segments, ∀ extent ∈ s.extents,
        (LineIndex.ofText other).span extent = (LineIndex.ofText text).span extent := by
  intro other
  have hwrong : (Failure.fault f).IsWrongClosing f.extent.stop := ⟨f, rfl, hkind, rfl⟩
  obtain ⟨hstop, hsame⟩ := scanText_take_append h hwrong more
  have hspan {extent : Extent} (hle : extent.start ≤ f.extent.stop ∧ extent.stop ≤ f.extent.stop) :
      (LineIndex.ofText other).span extent = (LineIndex.ofText text).span extent := by
    simp only [LineIndex.span, LineIndex.spanOf, other, LineIndex.position_take_append hle.1 hstop,
      LineIndex.position_take_append hle.2 hstop]
  have hplaced : f.extent.start < f.extent.stop := by
    obtain ⟨g, hg, hwell⟩ := scanText_failure_wellPlaced h
    cases hg
    exact hwell.start_lt_stop
  refine ⟨by rw [hsame, h], by rw [hsame], hspan ⟨Nat.le_of_lt hplaced, Nat.le_refl _⟩, fun s hs extent hextent => ?_⟩
  exact hspan (scanText_extents_le h hwrong hs hextent)

/-- The wrong tag on the second line is reported with an unfinished tag behind it, and also with the tag behind it that
would have been right. -/
theorem scanText_wrongClosing_stable_mended :
    let text := "<I/>a<A>\n</C><D".toList
    let f : Fault := ⟨.closesOther "C".toList "A".toList, ⟨9, 13⟩⟩
    let other := "<I/>a<A>\n</C></A>".toList
    (scanText text).failure = some (.fault f) ∧ f.cause.kind = .unmatchedClosingTag ∧
      (scanText other).failure = some (.fault f) ∧
      (scanText other).segments = [.component ⟨"I".toList, ⟨2, 2⟩, ⟨0, 4⟩, none⟩, .text "a".toList ⟨4, 5⟩] ∧
      (LineIndex.ofText other).span f.extent = ⟨⟨2, 1, 9⟩, ⟨2, 5, 13⟩⟩ := by
  intro text f other
  have hfails : (scanText text).failure = some (.fault f) := by decide +kernel
  have hsegments : (scanText text).segments =
      [.component ⟨"I".toList, ⟨2, 2⟩, ⟨0, 4⟩, none⟩, .text "a".toList ⟨4, 5⟩] := by decide +kernel
  have hspan : (LineIndex.ofText text).span f.extent = ⟨⟨2, 1, 9⟩, ⟨2, 5, 13⟩⟩ := by decide +kernel
  obtain ⟨hfailure, hsame, hplace, -⟩ := scanText_wrongClosing_stable hfails rfl "</A>".toList
  exact ⟨hfails, rfl, hfailure, hsame.trans hsegments, hplace.trans hspan⟩

end ComponentTags
