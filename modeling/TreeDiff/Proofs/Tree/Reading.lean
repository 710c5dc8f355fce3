import TreeDiff.Proofs.Tree.Text
import TreeDiff.Tree.Reading

/-!
# The text of a tree is read back

The reader finds a tree in its text if no label has parentheses or commas, whatever stands before
and behind the text: after the text of a tree it has this tree, and the same nodes are open as
before.

* `Reader.read_label`, `Reader.read_moreText`: a label, and the children after the first one.
* `Reader.finds_of_unmarked`: the text of a tree.
* `Tree.text_readable`: the reader recovers each tree from its text, and so different trees have
  different texts.
-/

namespace TreeDiff

/-- No label of the tree has parentheses or commas. -/
def Tree.Unmarked (t : Tree String) : Prop := t.SpelledIn fun c => ¬IsMark c

namespace Reader

open TreeDiff.Tree

variable {os : List Opened} {x : Latest}

theorem read_cons {r r' : Reader} {c : Char} (h : r.step c = some r') (cs : List Char) :
    r.read (c :: cs) = r'.read cs := by
  rw [read, List.foldlM_cons, h]
  rfl

theorem read_append {r r' : Reader} {cs : List Char} (h : r.read cs = some r') (ds : List Char) :
    r.read (cs ++ ds) = r'.read ds := by
  unfold read at h ⊢
  rw [List.foldlM_append, h]
  rfl

/-! ## Characters -/

theorem step_label {c : Char} (hc : ¬IsMark c) (l : String) :
    step ⟨.label l, os⟩ c = some ⟨.label (l.push c), os⟩ := by
  simp only [IsMark, List.mem_cons, List.not_mem_nil, or_false, not_or] at hc
  unfold step
  split <;> simp_all

theorem step_comma {l : String} {ts : List (Tree String)} {t : Tree String}
    (hx : x.tree? = some t) :
    step ⟨x, ⟨l, ts⟩ :: os⟩ ',' = some ⟨.comma, ⟨l, t :: ts⟩ :: os⟩ := by
  simp [step, hx]

theorem step_close {l : String} {ts : List (Tree String)} {t : Tree String}
    (hx : x.tree? = some t) :
    step ⟨x, ⟨l, ts⟩ :: os⟩ ')' = some ⟨.closed (.node l (t :: ts).reverse), os⟩ := by
  simp [step, hx]

/-! ## Labels and trees -/

theorem read_label {cs : List Char} (hcs : ∀ c ∈ cs, ¬IsMark c) (l : String) :
    read ⟨.label l, os⟩ cs = some ⟨.label (l ++ String.ofList cs), os⟩ := by
  induction cs generalizing l with
  | nil =>
    rw [String.ofList_nil, String.append_empty]
    rfl
  | cons c cs ih =>
    obtain ⟨hc, hcs⟩ := List.forall_mem_cons.1 hcs
    have hl : l.push c ++ String.ofList cs = l ++ String.ofList (c :: cs) := by
      rw [← String.toList_inj]
      simp
    rw [read_cons (step_label hc l), ih hcs, hl]

/-- After the text of the tree, the reader has the tree, whichever nodes are open. -/
def Finds (t : Tree String) : Prop :=
  ∀ os, ∃ x, read ⟨.label "", os⟩ t.text.toList = some ⟨x, os⟩ ∧ x.tree? = some t

/-- The children after the first, and the parenthesis that closes the list. -/
theorem read_moreText {cs : List (Tree String)} (hcs : ∀ c ∈ cs, Finds c) {t : Tree String}
    (hx : x.tree? = some t) (l : String) (ts : List (Tree String)) :
    read ⟨x, ⟨l, ts⟩ :: os⟩ ((moreText cs).toList ++ [')']) =
      some ⟨.closed (.node l (ts.reverse ++ t :: cs)), os⟩ := by
  induction cs generalizing x t ts with
  | nil =>
    rw [moreText, String.toList_empty, List.nil_append, read_cons (step_close hx),
      List.reverse_cons]
    rfl
  | cons c cs ih =>
    obtain ⟨hc, hcs⟩ := List.forall_mem_cons.1 hcs
    obtain ⟨y, hread, hy⟩ := hc (⟨l, t :: ts⟩ :: os)
    have hblank : step ⟨.comma, ⟨l, t :: ts⟩ :: os⟩ ' ' =
        some ⟨.label "", ⟨l, t :: ts⟩ :: os⟩ := rfl
    rw [toList_moreText_cons, List.cons_append, List.cons_append, List.append_assoc,
      read_cons (step_comma hx), read_cons hblank, read_append hread, ih hcs hy (t :: ts),
      List.reverse_cons, List.append_assoc, List.singleton_append]

theorem finds_of_unmarked {t : Tree String} (ht : t.Unmarked) : Finds t := by
  induction t using Tree.induct with
  | step l cs ih =>
    intro os
    have hl : read ⟨.label "", os⟩ l.toList = some ⟨.label l, os⟩ := by
      rw [read_label ht.label, String.ofList_toList, String.empty_append]
    rw [toList_text, read_append hl]
    cases cs with
    | nil => exact ⟨.label l, rfl, rfl⟩
    | cons c cs =>
      obtain ⟨hc, hcs⟩ := List.forall_mem_cons.1 fun d hd => ih d hd (ht.child d hd)
      obtain ⟨x, hread, hx⟩ := hc (⟨l, []⟩ :: os)
      have hopen : step ⟨.label l, os⟩ '(' = some ⟨.label "", ⟨l, []⟩ :: os⟩ := rfl
      refine ⟨.closed (.node l (c :: cs)), ?_, rfl⟩
      rw [bracketed, read_cons hopen, read_append hread, read_moreText hcs hx, List.reverse_nil,
        List.nil_append]

end Reader

namespace Tree

theorem ofText?_text {t : Tree String} (ht : t.Unmarked) : ofText? t.text = some t := by
  obtain ⟨x, hread, hx⟩ := Reader.finds_of_unmarked ht []
  unfold ofText? Reader.start
  rw [hread]
  exact hx

/-- **The text of a tree determines the tree**, if no label has parentheses or commas: the tree is
recovered from it, and different trees have different texts. -/
theorem text_readable :
    (∀ t : Tree String, t.Unmarked → ofText? t.text = some t) ∧
      ∀ t u : Tree String, t.Unmarked → u.Unmarked → t.text = u.text → t = u := by
  refine ⟨fun t => ofText?_text, fun t u ht hu h => ?_⟩
  have htext : some t = some u := by rw [← ofText?_text ht, h, ofText?_text hu]
  exact Option.some.inj htext

/-- A label may be empty, and it may begin with a blank. -/
theorem text_readable_blank :
    (node "" [leaf "", leaf " a"]).Unmarked ∧
      (node "" [leaf "", leaf " a"]).text = "(,  a)" ∧
      ofText? (node "" [leaf "", leaf " a"]).text = some (node "" [leaf "", leaf " a"]) := by
  have h : (node "" [leaf "", leaf " a"]).Unmarked := by
    simp [Unmarked, leaf, spelledIn_node_iff, IsMark]
  exact ⟨h, by decide, text_readable.1 _ h⟩

end Tree

end TreeDiff
