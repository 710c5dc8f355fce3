import TreeDiff.Proofs.Diff.Unchanged
import TreeDiff.Proofs.Rendering.Writing
import TreeDiff.Proofs.Tree.Text

/-!
# Reading diffs back from their rendering

If all labels are words, the text that a list of diffs is printed as determines the list. A line
determines its depth and what it shows. It does not determine the diff that it begins: a leaf
without an edit is shown just as a matched node over edits. The two are told apart by the depth of
the next line.

* `IsWord`: labels without blanks, ends of lines, parentheses and commas.
* `Diff.HasLabel`, `Diff.OfWords`: the labels of a diff, and diffs all of whose labels are words.
* `Line.body_inj`: the line from its text.
* `joined_inj`: the lines from the text of all of them.
* `Diff.outlineAll_append_inj`: the diffs at a depth from their lines, and from any lines that may
  come after them.
* `printScript_injective`: the diffs from what they are printed as.
-/

namespace TreeDiff

/-! ## Words -/

namespace Rendering

/-- The character is neither a blank, nor the end of a line, nor one in which lists of children are
written. -/
def IsPlain (c : Char) : Prop := c ∉ [' ', '\n', '(', ',', ')']

/-- The label has characters, and each of them is plain. -/
def IsWord (label : String) : Prop := label ≠ "" ∧ ∀ c ∈ label.toList, IsPlain c

instance : DecidablePred IsPlain := fun c => inferInstanceAs (Decidable (c ∉ _))

theorem not_isMark_of_isPlain {c : Char} (h : IsPlain c) : ¬Tree.IsMark c := by
  simp only [IsPlain, Tree.IsMark, List.mem_cons, not_or] at h ⊢
  exact h.2.2

theorem isPlain_of_isAlphanum {c : Char} (h : c.isAlphanum = true) : IsPlain c := by
  rintro hc
  simp only [List.mem_cons, List.not_mem_nil, or_false] at hc
  obtain rfl | rfl | rfl | rfl | rfl := hc <;> exact absurd h (by decide)

/-- Labels of letters and digits are words. -/
theorem isWord_of_isAlphanum {label : String} (hne : label ≠ "")
    (h : ∀ c ∈ label.toList, c.isAlphanum = true) : IsWord label :=
  ⟨hne, fun c hc => isPlain_of_isAlphanum (h c hc)⟩

end Rendering

open Rendering

/-- All labels of the tree are words. -/
def Tree.OfWords (t : Tree String) : Prop := ∀ l, t.HasLabel l → IsWord l

namespace Diff

variable {ℓ : Type}

/-- The label stands in the diff: in a tree of an edit, or at a matched node. -/
inductive HasLabel (l : ℓ) : Diff ℓ → Prop
  | old {e : Edit (Tree ℓ)} {t : Tree ℓ} : e.before? = some t → t.HasLabel l → HasLabel l (edit e)
  | new {e : Edit (Tree ℓ)} {t : Tree ℓ} : e.after? = some t → t.HasLabel l → HasLabel l (edit e)
  | root {ds : List (Diff ℓ)} : HasLabel l (merge l ds)
  | child {k : ℓ} {d : Diff ℓ} {ds : List (Diff ℓ)} :
    d ∈ ds → HasLabel l d → HasLabel l (merge k ds)

theorem hasLabel_copy {l : ℓ} {t : Tree ℓ} (h : t.HasLabel l) : (copy t).HasLabel l := by
  induction h with
  | root => rw [copy_node]; exact .root
  | child hc h ih => rw [copy_node]; exact .child (List.mem_map_of_mem hc) ih

/-- All labels of the diff are words. -/
def OfWords (d : Diff String) : Prop := ∀ l, d.HasLabel l → IsWord l

section

variable {e : Edit (Tree String)} {t : Tree String} {l : String} {ds : List (Diff String)}

theorem OfWords.before (h : (edit e).OfWords) (ht : e.before? = some t) : t.OfWords :=
  fun l hl => h l (.old ht hl)

theorem OfWords.after (h : (edit e).OfWords) (ht : e.after? = some t) : t.OfWords :=
  fun l hl => h l (.new ht hl)

theorem OfWords.of_copy (h : (copy t).OfWords) : t.OfWords := fun l hl => h l (hasLabel_copy hl)

theorem OfWords.label (h : (merge l ds).OfWords) : IsWord l := h l .root

theorem OfWords.child (h : (merge l ds).OfWords) : ∀ d ∈ ds, d.OfWords :=
  fun _ hd k hk => h k (.child hd hk)

end

end Diff

namespace Tree

variable {t u : Tree String}

theorem OfWords.spelledIn (h : t.OfWords) : t.SpelledIn IsPlain := fun l hl => (h l hl).2

theorem ofWords_leaf {l : String} (h : IsWord l) : (leaf l).OfWords := by
  rintro k (_ | ⟨hc, -⟩)
  · exact h
  · cases hc

/-- The text of a tree of words has no end of a line in it. -/
theorem OfWords.ne_newline (h : t.OfWords) : ∀ c ∈ t.text.toList, c ≠ '\n' := by
  rintro c hc rfl
  obtain h | h | h := mem_text h.spelledIn hc
  · exact absurd h (by decide)
  · simp [IsMark] at h
  · exact absurd h (by decide)

/-- The text of a tree of words begins with a character that is plain. -/
theorem OfWords.exists_eq_cons (h : t.OfWords) : ∃ c r, t.text.toList = c :: r ∧ IsPlain c := by
  obtain ⟨l, cs⟩ := t
  obtain ⟨hne, hplain⟩ := h l .root
  obtain ⟨c, r, hl⟩ := List.exists_cons_of_ne_nil fun h => hne (String.toList_inj.1 h)
  rw [toList_text, hl]
  exact ⟨c, r ++ bracketed cs, rfl, hplain c (by simp [hl])⟩

/-- The text of a tree of words does not begin with a plain character and a blank. -/
theorem OfWords.ne_cons_blank (h : t.OfWords) {c : Char} (hc : IsPlain c) (r : List Char) :
    t.text.toList ≠ c :: ' ' :: r := by
  obtain ⟨l, cs⟩ := t
  intro htext
  rw [toList_text] at htext
  have hstops : Stops IsPlain (bracketed cs) := by
    simpa using stops_bracketed (fun _ => not_isMark_of_isPlain) cs (r := []) stops_nil
  obtain ⟨-, hcs⟩ := append_inj_of_stops (k := [c]) (s := ' ' :: r) (h.spelledIn.label)
    (by simpa using hc) hstops (stops_cons.2 (by decide)) htext
  cases cs <;> simp [bracketed] at hcs

theorem OfWords.text_append_inj (ht : t.OfWords) (hu : u.OfWords) {r s : List Char}
    (hr : Ends IsPlain r) (hs : Ends IsPlain s) (h : t.text.toList ++ r = u.text.toList ++ s) :
    t = u ∧ r = s :=
  Tree.text_append_inj (fun _ => not_isMark_of_isPlain) ht.spelledIn hu.spelledIn hr hs h

theorem OfWords.text_inj (ht : t.OfWords) (hu : u.OfWords) (h : t.text = u.text) : t = u :=
  (ht.text_append_inj hu (r := []) (s := []) stops_nil stops_nil (by rw [h])).1

end Tree

/-! ## Lines -/

namespace Rendering

namespace Line

/-- The depth of a line. -/
def depth : Line → Nat
  | .edit depth _ => depth
  | .matched depth _ => depth

/-- The line without its end. -/
def body : Line → List Char
  | .edit depth e =>
    List.replicate (2 * depth) ' ' ++ e.symbol :: ' ' :: (e.valuesWith Tree.text).toList
  | .matched depth text => List.replicate (2 * depth + 2) ' ' ++ text.toList

theorem toList_text (line : Line) : (line.text false).toList = line.body ++ ['\n'] := by
  cases line with
  | edit depth e => simp [text, body, editText, indent]
  | matched depth text =>
    simp [Line.text, body, indent, ← List.replicate_append_replicate]

/-- The line shows an edit of trees of words, or the text of one. -/
def OfWords : Line → Prop
  | .edit _ e => (Diff.edit e).OfWords
  | .matched _ text => ∃ t : Tree String, t.OfWords ∧ t.text = text

theorem isPlain_symbol (e : Edit (Tree String)) : IsPlain e.symbol := by
  cases e with
  | insert new => exact (by decide : IsPlain '+')
  | delete old => exact (by decide : IsPlain '-')
  | replace old new => exact (by decide : IsPlain '~')

/-- The values of an edit, after its symbol, are written without an end of a line. -/
theorem ne_newline_of_mem_values {e : Edit (Tree String)} (h : (Diff.edit e).OfWords) :
    ∀ c ∈ (e.valuesWith Tree.text).toList, c ≠ '\n' := by
  cases e with
  | insert new => exact (h.after rfl).ne_newline
  | delete old => exact (h.before rfl).ne_newline
  | replace old new =>
    simp only [Edit.valuesWith, String.toList_append]
    exact List.forall_mem_append.2
      ⟨List.forall_mem_append.2 ⟨(h.before rfl).ne_newline, by simp⟩, (h.after rfl).ne_newline⟩

/-- An edit can be read back from its symbol and its values. -/
theorem values_inj {e e' : Edit (Tree String)} (h : (Diff.edit e).OfWords)
    (h' : (Diff.edit e').OfWords) (hsymbol : e.symbol = e'.symbol)
    (hvalues : (e.valuesWith Tree.text).toList = (e'.valuesWith Tree.text).toList) : e = e' := by
  have hkind : e.kind = e'.kind := by
    revert hsymbol
    unfold Edit.symbol
    cases e.kind <;> cases e'.kind <;> decide
  cases e <;> cases e' <;> try cases hkind
  case insert new new' =>
    rw [(h.after rfl).text_inj (h'.after rfl) (String.toList_inj.1 hvalues)]
  case delete old old' =>
    rw [(h.before rfl).text_inj (h'.before rfl) (String.toList_inj.1 hvalues)]
  case replace old new old' new' =>
    simp only [Edit.valuesWith, String.toList_append, List.append_assoc] at hvalues
    -- the arrow goes on with a blank, which ends the old tree
    have hends : ∀ r, Tree.Ends IsPlain (" -> ".toList ++ r) := fun r =>
      stops_cons.2 (by decide)
    obtain ⟨rfl, hnew⟩ := (h.before rfl).text_append_inj (h'.before rfl) (hends _) (hends _) hvalues
    rw [(h.after rfl).text_inj (h'.after rfl) (String.toList_inj.1 (List.append_cancel_left hnew))]

/-- A line has no end of a line in front of its own. -/
theorem OfWords.ne_newline {line : Line} (h : line.OfWords) : ∀ c ∈ line.body, c ≠ '\n' := by
  have hblanks : ∀ n, ∀ c ∈ List.replicate n ' ', c ≠ '\n' := fun n c hc => by
    rw [List.eq_of_mem_replicate hc]
    decide
  cases line with
  | edit depth e =>
    have hsymbol : e.symbol ≠ '\n' := fun hc => absurd (hc ▸ isPlain_symbol e) (by decide)
    exact List.forall_mem_append.2 ⟨hblanks _, List.forall_mem_cons.2
      ⟨hsymbol, List.forall_mem_cons.2 ⟨by decide, ne_newline_of_mem_values h⟩⟩⟩
  | matched depth text =>
    obtain ⟨t, ht, rfl⟩ := h
    exact List.forall_mem_append.2 ⟨hblanks _, ht.ne_newline⟩

/-- The blanks in front of a line are told from what comes after them. -/
theorem replicate_append_inj {n k : Nat} {c d : Char} {r s : List Char} (hc : IsPlain c)
    (hd : IsPlain d) (h : List.replicate n ' ' ++ c :: r = List.replicate k ' ' ++ d :: s) :
    n = k ∧ c = d ∧ r = s := by
  have hne : ∀ {c : Char}, IsPlain c → c ≠ ' ' := by
    rintro _ hc rfl
    exact absurd hc (by decide)
  obtain ⟨hn, hrest⟩ := append_inj_of_stops (P := (· = ' '))
    (fun _ => List.eq_of_mem_replicate) (fun _ => List.eq_of_mem_replicate)
    (stops_cons.2 (hne hc)) (stops_cons.2 (hne hd)) h
  exact ⟨(List.replicate_inj.1 hn).1, List.cons.inj hrest⟩

/-- A line can be read back: its depth, and what it shows. -/
theorem body_inj {line line' : Line} (h : line.OfWords) (h' : line'.OfWords)
    (hbody : line.body = line'.body) : line = line' := by
  -- what is shown without an edit has no blank after its first character
  have hne : ∀ {depth depth' : Nat} {e : Edit (Tree String)} {t : Tree String}, t.OfWords →
      body (.edit depth e) ≠ body (.matched depth' t.text) := by
    intro depth depth' e t ht hbody
    obtain ⟨c, r, htext, hc⟩ := ht.exists_eq_cons
    rw [body, body, htext] at hbody
    obtain ⟨-, rfl, rfl⟩ := replicate_append_inj (isPlain_symbol e) hc hbody
    exact ht.ne_cons_blank hc _ htext
  cases line with
  | edit depth e =>
    cases line' with
    | edit depth' e' =>
      obtain ⟨hdepth, hsymbol, hrest⟩ :=
        replicate_append_inj (isPlain_symbol e) (isPlain_symbol e') hbody
      have hdepth : depth = depth' := by omega
      rw [hdepth, values_inj h h' hsymbol (List.cons.inj hrest).2]
    | matched depth' text =>
      obtain ⟨t, ht, rfl⟩ := h'
      exact absurd hbody (hne ht)
  | matched depth text =>
    obtain ⟨t, ht, rfl⟩ := h
    cases line' with
    | edit depth' e => exact absurd hbody.symm (hne ht)
    | matched depth' text =>
      obtain ⟨u, hu, rfl⟩ := h'
      obtain ⟨c, r, htext, hc⟩ := ht.exists_eq_cons
      obtain ⟨d, s, hutext, hd⟩ := hu.exists_eq_cons
      rw [body, body, htext, hutext] at hbody
      obtain ⟨hdepth, rfl, rfl⟩ := replicate_append_inj hc hd hbody
      have hdepth : depth = depth' := by omega
      rw [hdepth, String.toList_inj.1 (htext.trans hutext.symm)]

end Line

/-- The texts of lines, one after the other. -/
def joined (lines : List Line) : List Char := lines.flatMap fun line => line.body ++ ['\n']

/-- The lines can be read back from the text of all of them. -/
theorem joined_inj {lines lines' : List Line} (h : ∀ line ∈ lines, line.OfWords)
    (h' : ∀ line ∈ lines', line.OfWords) (htext : joined lines = joined lines') :
    lines = lines' := by
  induction lines generalizing lines' with
  | nil =>
    cases lines' with
    | nil => rfl
    | cons line' lines' => simp [joined] at htext
  | cons line lines ih =>
    cases lines' with
    | nil => simp [joined] at htext
    | cons line' lines' =>
      obtain ⟨hline, hlines⟩ := List.forall_mem_cons.1 h
      obtain ⟨hline', hlines'⟩ := List.forall_mem_cons.1 h'
      simp only [joined, List.flatMap_cons, List.append_assoc, List.singleton_append] at htext
      have hend : ∀ r, Stops (· ≠ '\n') ('\n' :: r) := fun r => stops_cons.2 (not_not_intro rfl)
      obtain ⟨hbody, hrest⟩ := append_inj_of_stops hline.ne_newline hline'.ne_newline (hend _)
        (hend _) htext
      rw [Line.body_inj hline hline' hbody, ih hlines hlines' (List.cons.inj hrest).2]

end Rendering

namespace Diff

/-! ## Outlines -/

variable {d e : Diff String} {ds es : List (Diff String)} {k : Nat} {R S : List Line}

theorem outline_edit (e : Edit (Tree String)) : outline k (edit e) = [.edit k e] := by
  rw [outline]

/-- A copy is one line. -/
theorem outline_copy (t : Tree String) : outline k (copy t) = [.matched k t.text] := by
  have hunchanged : (copy t).isUnchanged = true := (isUnchanged_iff _).2 (edits_copy t)
  obtain ⟨l, cs⟩ := t
  rw [copy_node] at hunchanged ⊢
  rw [outline, if_pos hunchanged, unchangedLine, ← copy_node, after?_copy]
  rfl

/-- A matched node over edits is a line with its label, over the lines of its children. -/
theorem outline_merge {l : String} (h : (merge l ds).isUnchanged = false) :
    outline k (merge l ds) = .matched k l :: outlineAll (k + 1) ds := by
  rw [outline, if_neg (by simp [h])]

/-- An edit, a copy, or a matched node over edits. -/
theorem cases_outline (d : Diff String) :
    (∃ e, d = edit e) ∨ (∃ t, d = copy t) ∨
      ∃ l ds, d = merge l ds ∧ ds ≠ [] ∧ (merge l ds).isUnchanged = false := by
  cases d with
  | edit e => exact .inl ⟨e, rfl⟩
  | merge l ds =>
    cases h : (merge l ds).isUnchanged with
    | true => exact .inr (.inl (exists_eq_copy_iff.2 ((isUnchanged_iff _).1 h)))
    | false =>
      refine .inr (.inr ⟨l, ds, rfl, ?_, h⟩)
      rintro rfl
      exact absurd ((isUnchanged_iff (merge l [])).2 (by simp)) (by simp [h])

theorem ofWords_of_mem_outline {line : Line} (hd : d.OfWords) (hline : line ∈ outline k d) :
    line.OfWords := by
  induction d using induct generalizing k with
  | atEdit e =>
    rw [outline_edit, List.mem_singleton] at hline
    subst hline
    exact hd
  | atMerge l ds ih =>
    cases h : (merge l ds).isUnchanged with
    | true =>
      obtain ⟨t, ht⟩ := exists_eq_copy_iff.2 ((isUnchanged_iff _).1 h)
      rw [ht] at hd hline
      rw [outline_copy, List.mem_singleton] at hline
      subst hline
      exact ⟨t, hd.of_copy, rfl⟩
    | false =>
      rw [outline_merge h, outlineAll_eq_flatMap, List.mem_cons, List.mem_flatMap] at hline
      obtain rfl | ⟨d, hmem, hline⟩ := hline
      · exact ⟨.leaf l, Tree.ofWords_leaf hd.label, by rw [Tree.leaf, Tree.text]⟩
      · exact ih d hmem (hd.child d hmem) hline

theorem ofWords_of_mem_outlineAll (hds : ∀ d ∈ ds, d.OfWords) :
    ∀ line ∈ outlineAll k ds, line.OfWords := by
  intro line hline
  rw [outlineAll_eq_flatMap, List.mem_flatMap] at hline
  obtain ⟨d, hd, hline⟩ := hline
  exact ofWords_of_mem_outline (hds d hd) hline

/-! ## Reading outlines back -/

/-- The lines go on at a depth below `k`, if they go on. -/
def GoesOnBelow (k : Nat) (R : List Line) : Prop := ∀ line ∈ R.head?, line.depth < k

theorem goesOnBelow_cons {line : Line} : GoesOnBelow k (line :: R) ↔ line.depth < k := by
  simp [GoesOnBelow]

theorem GoesOnBelow.succ (h : GoesOnBelow k R) : GoesOnBelow (k + 1) R :=
  fun line hline => Nat.lt_succ_of_lt (h line hline)

/-- A diff begins with a line at its own depth. -/
theorem exists_outline_eq_cons (k : Nat) (d : Diff String) :
    ∃ line lines, outline k d = line :: lines ∧ line.depth = k := by
  obtain ⟨e, rfl⟩ | ⟨t, rfl⟩ | ⟨l, ds, rfl, -, h⟩ := cases_outline d
  · exact ⟨_, _, outline_edit e, rfl⟩
  · exact ⟨_, _, outline_copy t, rfl⟩
  · exact ⟨_, _, outline_merge h, rfl⟩

/-- Diffs at a depth do not begin below it. -/
theorem not_goesOnBelow_outlineAll {j : Nat} (hj : j ≤ k) (hds : ds ≠ []) :
    ¬GoesOnBelow j (outlineAll k ds ++ R) := by
  obtain ⟨d, ds, rfl⟩ := List.exists_cons_of_ne_nil hds
  obtain ⟨line, lines, h, hdepth⟩ := exists_outline_eq_cons k d
  rw [outlineAll, h, List.cons_append, List.cons_append, goesOnBelow_cons]
  omega

/-- After a diff, its siblings go on below its children. -/
theorem goesOnBelow_outlineAll (ds : List (Diff String)) (hR : GoesOnBelow k R) :
    GoesOnBelow (k + 1) (outlineAll k ds ++ R) := by
  cases ds with
  | nil => exact hR.succ
  | cons d ds =>
    obtain ⟨line, lines, h, hdepth⟩ := exists_outline_eq_cons k d
    rw [outlineAll, h, List.cons_append, List.cons_append, goesOnBelow_cons]
    omega

/-- The diff can be read from its lines, and from any lines that do not go on below its root. -/
def ReadsBack (d : Diff String) : Prop :=
  ∀ k e R S, e.OfWords → GoesOnBelow (k + 1) R → GoesOnBelow (k + 1) S →
    outline k d ++ R = outline k e ++ S → d = e ∧ R = S

/-- Diffs at one depth are read one after the other, up to the first line below this depth. -/
theorem outlineAll_append_inj_of_readsBack (hds : ∀ d ∈ ds, d.ReadsBack)
    (hes : ∀ e ∈ es, e.OfWords) (hR : GoesOnBelow k R) (hS : GoesOnBelow k S)
    (h : outlineAll k ds ++ R = outlineAll k es ++ S) : ds = es ∧ R = S := by
  induction ds generalizing es with
  | nil =>
    cases es with
    | nil => exact ⟨rfl, h⟩
    | cons e es =>
      rw [outlineAll, List.nil_append] at h
      exact absurd (h ▸ hR) (not_goesOnBelow_outlineAll le_rfl (List.cons_ne_nil e es))
  | cons d ds ih =>
    cases es with
    | nil =>
      rw [outlineAll.eq_def k [], List.nil_append] at h
      exact absurd (h ▸ hS) (not_goesOnBelow_outlineAll le_rfl (List.cons_ne_nil d ds))
    | cons e es =>
      rw [outlineAll, outlineAll, List.append_assoc, List.append_assoc] at h
      obtain ⟨hd, hds'⟩ := List.forall_mem_cons.1 hds
      obtain ⟨he, hes'⟩ := List.forall_mem_cons.1 hes
      obtain ⟨rfl, hmore⟩ := hd k e _ _ he (goesOnBelow_outlineAll ds hR)
        (goesOnBelow_outlineAll es hS) h
      obtain ⟨rfl, hrest⟩ := ih hds' hes' hmore
      exact ⟨rfl, hrest⟩

/-- A copy is not read as a matched node over edits, of which the children would come next, one line
deeper. -/
theorem outline_copy_append_ne {t : Tree String} {l : String} (hds : ds ≠ [])
    (h : (merge l ds).isUnchanged = false) (hR : GoesOnBelow (k + 1) R) :
    outline k (copy t) ++ R ≠ outline k (merge l ds) ++ S := by
  intro hlines
  rw [outline_copy, outline_merge h, List.cons_append, List.cons_append, List.cons.injEq,
    List.nil_append] at hlines
  exact not_goesOnBelow_outlineAll le_rfl hds (hlines.2 ▸ hR)

theorem readsBack_edit (f : Edit (Tree String)) : (edit f).ReadsBack := by
  intro k e R S he hR hS h
  obtain ⟨g, rfl⟩ | ⟨t, rfl⟩ | ⟨l, ds, rfl, -, hmerge⟩ := cases_outline e
  · simpa [outline_edit] using h
  · simp [outline_edit, outline_copy] at h
  · simp [outline_edit, outline_merge hmerge] at h

theorem readsBack_copy {t : Tree String} (ht : t.OfWords) : (copy t).ReadsBack := by
  intro k e R S he hR hS h
  obtain ⟨g, rfl⟩ | ⟨u, rfl⟩ | ⟨l, ds, rfl, hds, hmerge⟩ := cases_outline e
  · simp [outline_edit, outline_copy] at h
  · simp only [outline_copy, List.singleton_append, List.cons.injEq, Line.matched.injEq,
      true_and] at h
    exact ⟨congrArg copy (ht.text_inj he.of_copy h.1), h.2⟩
  · exact absurd h (outline_copy_append_ne hds hmerge hR)

theorem readsBack_merge {l : String} (hds : ds ≠ []) (hmerge : (merge l ds).isUnchanged = false)
    (hread : ∀ d ∈ ds, d.ReadsBack) : (merge l ds).ReadsBack := by
  intro k e R S he hR hS h
  obtain ⟨g, rfl⟩ | ⟨u, rfl⟩ | ⟨l', es, rfl, -, hmerge'⟩ := cases_outline e
  · simp [outline_edit, outline_merge hmerge] at h
  · exact absurd h.symm (outline_copy_append_ne hds hmerge hS)
  · simp only [outline_merge hmerge, outline_merge hmerge', List.cons_append, List.cons.injEq,
      Line.matched.injEq, true_and] at h
    obtain ⟨rfl, hall⟩ := h
    obtain ⟨rfl, hrest⟩ := outlineAll_append_inj_of_readsBack hread he.child hR hS hall
    exact ⟨rfl, hrest⟩

theorem readsBack (hd : d.OfWords) : d.ReadsBack := by
  induction d using induct with
  | atEdit f => exact readsBack_edit f
  | atMerge l ds ih =>
    obtain ⟨f, hf⟩ | ⟨t, ht⟩ | ⟨l', ds', hmerge, hds, hchanged⟩ := cases_outline (merge l ds)
    · cases hf
    · rw [ht] at hd ⊢
      exact readsBack_copy hd.of_copy
    · cases hmerge
      exact readsBack_merge hds hchanged fun d hmem => ih d hmem (hd.child d hmem)

/-- Diffs at a depth can be read from their lines, with any lines after them that go on below this
depth. -/
theorem outlineAll_append_inj (hds : ∀ d ∈ ds, d.OfWords) (hes : ∀ e ∈ es, e.OfWords)
    (hR : GoesOnBelow k R) (hS : GoesOnBelow k S)
    (h : outlineAll k ds ++ R = outlineAll k es ++ S) : ds = es ∧ R = S :=
  outlineAll_append_inj_of_readsBack (fun d hd => readsBack (hds d hd)) hes hR hS h

end Diff

/-! ## Printing -/

namespace Rendering

open Diff

/-- The text of a list of diffs is the text of their lines. -/
theorem toList_render (ds : List (Diff String)) :
    (render false ds).toList = joined (outlineAll 0 ds) := by
  simp only [render_eq_join, String.toList_join, joined, List.flatMap_map, Line.toList_text]

/-- The sink takes a text and does not fail. -/
def Takes (f : Writing Unit) (text : String) : Prop :=
  ∀ taken : ByteArray, f ⟨taken, none⟩ = .ok () ⟨taken ++ text.toUTF8, none⟩

/-- A sink without a limit takes the whole text of a list of diffs. -/
theorem takes_printScript (coloured : Bool) (ds : List (Diff String)) :
    Takes (printScript coloured ds) (render coloured ds) := by
  intro taken
  rw [printScript_eq_write]
  rfl

theorem printScript_empty (coloured : Bool) (ds : List (Diff String)) :
    printScript coloured ds (Sink.empty none) = .ok () ⟨(render coloured ds).toUTF8, none⟩ := by
  rw [Sink.empty, takes_printScript, ByteArray.empty_append]

theorem text_toUTF8 (text : String) (room : Option Nat) :
    (⟨text.toUTF8, room⟩ : Sink).text = text := by
  have hdecode : Sink.decodeWithout text.toUTF8 0 = some text := by
    have hvalid : String.fromUTF8? text.toUTF8 = some text := dif_pos text.isValidUTF8
    rw [Sink.decodeWithout, Nat.sub_zero, ByteArray.extract_zero_size, hvalid]
    rfl
  rw [Sink.text, List.findSome?_cons, hdecode]
  rfl

/-- Diffs of words can be read from their text. -/
theorem render_injective {ds es : List (Diff String)} (hds : ∀ d ∈ ds, d.OfWords)
    (hes : ∀ e ∈ es, e.OfWords) (h : render false ds = render false es) : ds = es := by
  have hlines : outlineAll 0 ds = outlineAll 0 es :=
    joined_inj (ofWords_of_mem_outlineAll hds) (ofWords_of_mem_outlineAll hes)
      (by rw [← toList_render, ← toList_render, h])
  exact (outlineAll_append_inj (R := []) (S := []) hds hes nofun nofun (by rw [hlines])).1

/-- **Printing is unambiguous.** Without colours, and to a sink without a limit, every list of diffs
can be printed, and diffs of words that are printed as the same text are the same. -/
theorem printScript_injective {ds es : List (Diff String)} (hds : ∀ d ∈ ds, d.OfWords)
    (hes : ∀ e ∈ es, e.OfWords) :
    ∃ sink sink' : Sink,
      printScript false ds (Sink.empty none) = .ok () sink ∧
      printScript false es (Sink.empty none) = .ok () sink' ∧
      (sink.text = sink'.text → ds = es) := by
  refine ⟨_, _, printScript_empty false ds, printScript_empty false es, fun h => ?_⟩
  rw [text_toUTF8, text_toUTF8] at h
  exact render_injective hds hes h

/-- A leaf, and a node with the same label over an insertion. -/
theorem printScript_injective_leaf :
    ∃ sink sink' : Sink,
      printScript false [merge "a" []] (Sink.empty none) = .ok () sink ∧
      printScript false [merge "a" [edit (.insert (.leaf "b"))]] (Sink.empty none) =
        .ok () sink' ∧ sink.text ≠ sink'.text ∧
      sink.text = "  a\n" ∧ sink'.text = "  a\n  + b\n" := by
  have ha : IsWord "a" := isWord_of_isAlphanum (by decide) (by simp)
  have hb : IsWord "b" := isWord_of_isAlphanum (by decide) (by simp)
  have hleaf : ∀ d ∈ [merge "a" []], d.OfWords := by
    refine List.forall_mem_singleton.2 ?_
    rintro l (_ | _ | _ | ⟨hd, -⟩)
    · exact ha
    · cases hd
  have hnode : ∀ d ∈ [merge "a" [edit (.insert (.leaf "b"))]], d.OfWords := by
    refine List.forall_mem_singleton.2 ?_
    rintro l (_ | _ | _ | ⟨hd, hl⟩)
    · exact ha
    · obtain rfl := List.mem_singleton.1 hd
      obtain ⟨⟨⟩, -⟩ | ⟨⟨rfl⟩, _ | ⟨hc, -⟩⟩ := hl
      · exact hb
      · cases hc
  obtain ⟨sink, sink', hsink, hsink', hinj⟩ := printScript_injective hleaf hnode
  refine ⟨sink, sink', hsink, hsink', fun h => absurd (hinj h) (by decide), ?_, ?_⟩
  · cases (printScript_empty _ _).symm.trans hsink
    rw [text_toUTF8]
    decide +kernel
  · cases (printScript_empty _ _).symm.trans hsink'
    rw [text_toUTF8]
    decide +kernel

end Rendering

end TreeDiff
