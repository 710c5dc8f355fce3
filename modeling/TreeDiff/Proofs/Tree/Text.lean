import TreeDiff.Proofs.Tree.Alike
import TreeDiff.Tree.Text

/-!
# Reading trees back from texts

A text in which the text of a tree comes first determines the tree and what comes after it, if the
labels have neither parentheses nor commas, and if the rest goes on with a character that can
neither belong to a label nor open the list of the children.

* `Stops`: a text that does not go on with a character of some kind. `append_inj_of_stops` splits
  a text where the characters of that kind stop.
* `Tree.SpelledIn`: the labels of a tree have characters of some kind only.
* `Tree.mem_text`: the characters of the text of a tree.
* `Tree.text_append_inj`: the tree and the rest from the text.
-/

namespace TreeDiff

/-! ## Splitting texts -/

/-- The text does not go on with a character of the kind `P`. -/
def Stops (P : Char → Prop) (r : List Char) : Prop := ∀ c ∈ r.head?, ¬P c

section

variable {P : Char → Prop}

theorem stops_nil : Stops P [] := nofun

theorem stops_cons {c : Char} {r : List Char} : Stops P (c :: r) ↔ ¬P c := by
  simp [Stops]

/-- Where the characters of a kind stop, a text can be split in one way only. -/
theorem append_inj_of_stops {l k r s : List Char} (hl : ∀ c ∈ l, P c) (hk : ∀ c ∈ k, P c)
    (hr : Stops P r) (hs : Stops P s) (h : l ++ r = k ++ s) : l = k ∧ r = s := by
  induction l generalizing k with
  | nil =>
    cases k with
    | nil => exact ⟨rfl, h⟩
    | cons c k =>
      subst h
      exact absurd (hk c List.mem_cons_self) (stops_cons.1 hr)
  | cons c l ih =>
    cases k with
    | nil =>
      subst h
      exact absurd (hl c List.mem_cons_self) (stops_cons.1 hs)
    | cons c' k =>
      obtain ⟨rfl, htail⟩ := List.cons.inj h
      obtain ⟨rfl, hrest⟩ := ih (List.forall_mem_cons.1 hl).2 (List.forall_mem_cons.1 hk).2 htail
      exact ⟨rfl, hrest⟩

end

namespace Tree

/-! ## The text of a tree -/

/-- The text of children in parentheses, if there are any. -/
def bracketed : List (Tree String) → List Char
  | [] => []
  | c :: cs => '(' :: (c.text.toList ++ ((moreText cs).toList ++ [')']))

theorem toList_text (l : String) (cs : List (Tree String)) :
    (node l cs).text.toList = l.toList ++ bracketed cs := by
  cases cs with
  | nil => simp [text, bracketed]
  | cons c cs => simp [text, bracketed]

theorem toList_moreText_cons (c : Tree String) (cs : List (Tree String)) :
    (moreText (c :: cs)).toList = ',' :: ' ' :: (c.text.toList ++ (moreText cs).toList) := by
  simp [moreText]

/-- All labels of the tree have characters of the kind `P` only. -/
def SpelledIn (P : Char → Prop) (t : Tree String) : Prop :=
  ∀ l, t.HasLabel l → ∀ c ∈ l.toList, P c

section

variable {P : Char → Prop} {l : String} {t u : Tree String} {cs ds : List (Tree String)}

theorem SpelledIn.label (h : (node l cs).SpelledIn P) : ∀ c ∈ l.toList, P c :=
  h l .root

theorem SpelledIn.child (h : (node l cs).SpelledIn P) : ∀ c ∈ cs, c.SpelledIn P :=
  fun _ hc k hk => h k (.child hc hk)

theorem spelledIn_node_iff :
    (node l cs).SpelledIn P ↔ (∀ c ∈ l.toList, P c) ∧ ∀ c ∈ cs, c.SpelledIn P := by
  constructor
  · intro h
    exact ⟨h.label, h.child⟩
  · rintro ⟨hl, hcs⟩ k (_ | ⟨hc, hk⟩)
    · exact hl
    · exact hcs _ hc k hk

/-- The characters in which lists of children are written. -/
def IsMark (c : Char) : Prop := c ∈ ['(', ',', ')']

theorem mem_moreText {c : Char} (h : c ∈ (moreText cs).toList) :
    IsMark c ∨ c = ' ' ∨ ∃ d ∈ cs, c ∈ d.text.toList := by
  induction cs with
  | nil => simp [moreText] at h
  | cons d cs ih =>
    simp only [toList_moreText_cons, List.mem_cons, List.mem_append] at h
    obtain rfl | rfl | h | h := h
    · exact .inl (by simp [IsMark])
    · exact .inr (.inl rfl)
    · exact .inr (.inr ⟨d, List.mem_cons_self, h⟩)
    · exact (ih h).imp_right (.imp_right fun ⟨e, he, h⟩ => ⟨e, List.mem_cons_of_mem d he, h⟩)

theorem mem_bracketed {c : Char} (h : c ∈ bracketed cs) :
    IsMark c ∨ c = ' ' ∨ ∃ d ∈ cs, c ∈ d.text.toList := by
  cases cs with
  | nil => simp [bracketed] at h
  | cons d cs =>
    simp only [bracketed, List.mem_cons, List.mem_append, List.not_mem_nil, or_false] at h
    obtain rfl | h | h | rfl := h
    · exact .inl (by simp [IsMark])
    · exact .inr (.inr ⟨d, List.mem_cons_self, h⟩)
    · exact (mem_moreText h).imp_right
        (.imp_right fun ⟨e, he, h⟩ => ⟨e, List.mem_cons_of_mem d he, h⟩)
    · exact .inl (by simp [IsMark])

/-- The text of a tree has the characters of its labels, marks and blanks. -/
theorem mem_text {c : Char} (ht : t.SpelledIn P) (hc : c ∈ t.text.toList) :
    P c ∨ IsMark c ∨ c = ' ' := by
  induction t using Tree.induct with
  | step l cs ih =>
    rw [toList_text, List.mem_append] at hc
    obtain hc | hc := hc
    · exact .inl (ht.label c hc)
    · obtain h | h | ⟨d, hd, h⟩ := mem_bracketed hc
      · exact .inr (.inl h)
      · exact .inr (.inr h)
      · exact ih d hd (ht.child d hd) h

/-! ## Reading it back -/

/-- The text goes on with a character that neither belongs to a label, spelled in `P`, nor opens the
list of the children of the last label. -/
def Ends (P : Char → Prop) (r : List Char) : Prop := Stops (fun c => P c ∨ c = '(') r

theorem Ends.stops {r : List Char} (h : Ends P r) : Stops P r :=
  fun c hc hP => h c hc (.inl hP)

/-- A label ends before the children, and before what comes after the node. -/
theorem stops_bracketed (hP : ∀ c, P c → ¬IsMark c) (cs : List (Tree String)) {r : List Char}
    (hr : Ends P r) : Stops P (bracketed cs ++ r) := by
  cases cs with
  | nil => exact hr.stops
  | cons c cs => exact stops_cons.2 fun h => hP _ h (by simp [IsMark])

/-- A child ends before the next one, and before the closing parenthesis. -/
theorem ends_moreText (hP : ∀ c, P c → ¬IsMark c) (cs : List (Tree String)) (r : List Char) :
    Ends P ((moreText cs).toList ++ ')' :: r) := by
  have hmark : ∀ c, IsMark c → c ≠ '(' → ¬(P c ∨ c = '(') :=
    fun c hc hne => not_or.2 ⟨fun h => hP c h hc, hne⟩
  cases cs with
  | nil =>
    rw [moreText, String.toList_empty, List.nil_append]
    exact stops_cons.2 (hmark ')' (by simp [IsMark]) (by decide))
  | cons c cs =>
    rw [toList_moreText_cons, List.cons_append]
    exact stops_cons.2 (hmark ',' (by simp [IsMark]) (by decide))

/-- The tree, and the rest of the text, can be read from a text that begins with the tree. -/
def ReadsBack (P : Char → Prop) (t : Tree String) : Prop :=
  ∀ u r s, u.SpelledIn P → Ends P r → Ends P s → t.text.toList ++ r = u.text.toList ++ s →
    t = u ∧ r = s

/-- Children are read one after the other, up to the closing parenthesis. -/
theorem siblings_append_inj (hP : ∀ c, P c → ¬IsMark c) {c d : Tree String}
    (hread : ∀ c' ∈ c :: cs, c'.ReadsBack P) (hds : ∀ d' ∈ d :: ds, d'.SpelledIn P)
    {r s : List Char}
    (h : c.text.toList ++ ((moreText cs).toList ++ ')' :: r) =
      d.text.toList ++ ((moreText ds).toList ++ ')' :: s)) : c :: cs = d :: ds ∧ r = s := by
  induction cs generalizing c d ds with
  | nil =>
    obtain ⟨rfl, hmore⟩ := hread c List.mem_cons_self d _ _ (hds d List.mem_cons_self)
      (ends_moreText hP [] r) (ends_moreText hP ds s) h
    cases ds with
    | nil => simpa [moreText] using hmore
    | cons d' ds => simp [moreText] at hmore
  | cons c' cs ih =>
    obtain ⟨rfl, hmore⟩ := hread c List.mem_cons_self d _ _ (hds d List.mem_cons_self)
      (ends_moreText hP (c' :: cs) r) (ends_moreText hP ds s) h
    cases ds with
    | nil => simp [moreText] at hmore
    | cons d' ds =>
      simp only [toList_moreText_cons, List.cons_append, List.append_assoc, List.cons.injEq,
        true_and] at hmore
      obtain ⟨hcs, hrest⟩ :=
        ih (List.forall_mem_cons.1 hread).2 (List.forall_mem_cons.1 hds).2 hmore
      exact ⟨congrArg (c :: ·) hcs, hrest⟩

/-- The children of a node, and what comes after them. -/
theorem bracketed_append_inj (hP : ∀ c, P c → ¬IsMark c) (hread : ∀ c ∈ cs, c.ReadsBack P)
    (hds : ∀ d ∈ ds, d.SpelledIn P) {r s : List Char} (hr : Ends P r) (hs : Ends P s)
    (h : bracketed cs ++ r = bracketed ds ++ s) : cs = ds ∧ r = s := by
  -- only the list of the children opens with a parenthesis
  have hopen : ∀ {cs'} {r' : List Char}, ¬Ends P ('(' :: (cs' ++ r')) :=
    fun h => stops_cons.1 h (.inr rfl)
  cases cs with
  | nil =>
    cases ds with
    | nil => exact ⟨rfl, h⟩
    | cons d ds =>
      subst h
      exact (hopen hr).elim
  | cons c cs =>
    cases ds with
    | nil =>
      subst h
      exact (hopen hs).elim
    | cons d ds =>
      simp only [bracketed, List.cons_append, List.append_assoc, List.cons.injEq, true_and,
        List.nil_append] at h
      exact siblings_append_inj hP hread hds h

theorem readsBack (hP : ∀ c, P c → ¬IsMark c) (ht : t.SpelledIn P) : t.ReadsBack P := by
  induction t using Tree.induct with
  | step l cs ih =>
    rintro ⟨k, ds⟩ r s hu hr hs h
    rw [toList_text, toList_text, List.append_assoc, List.append_assoc] at h
    obtain ⟨hl, h⟩ := append_inj_of_stops ht.label hu.label (stops_bracketed hP cs hr)
      (stops_bracketed hP ds hs) h
    obtain ⟨rfl, hrest⟩ :=
      bracketed_append_inj hP (fun c hc => ih c hc (ht.child c hc)) hu.child hr hs h
    exact ⟨congrArg (node · cs) (String.toList_inj.1 hl), hrest⟩

/-- **The text of a tree can be read back**, the tree and what comes after it. -/
theorem text_append_inj (hP : ∀ c, P c → ¬IsMark c) (ht : t.SpelledIn P) (hu : u.SpelledIn P)
    {r s : List Char} (hr : Ends P r) (hs : Ends P s)
    (h : t.text.toList ++ r = u.text.toList ++ s) : t = u ∧ r = s :=
  readsBack hP ht u r s hu hr hs h

end

end Tree

end TreeDiff
