import Mathlib.Data.List.Infix
import TreeDiff.Proofs.Rendering.Writing
import TreeDiff.Rendering.Layout

/-!
# Printing lays diffs out

What is printed with a list of the diffs still to be rendered, and with a second such list for every
look for an edit, is the layout of the diffs. Colours change the lines of edits only, and these as
a whole.

* `Diff.join_outline`, `render_eq_layoutAll`: the text of the lines is the layout.
* `exists_pieces`: the pieces of a text between its closing codes, and the text in a colour.
* `printing_eq_layout`: what is printed to a sink without a limit.
-/

namespace TreeDiff

namespace Diff

open Rendering

variable {ds : List (Diff String)} {l : String}

theorem isUnchanged_merge_iff : (merge l ds).isUnchanged = true ↔ editsAll ds = [] := by
  rw [isUnchanged_iff, edits_merge]

/-! ## The text of lines -/

theorem join_flatMap {α : Type} (coloured : Bool) (lines : α → List Line) (as : List α) :
    String.join ((as.flatMap lines).map (Line.text coloured)) =
      String.join (as.map fun a => String.join ((lines a).map (Line.text coloured))) :=
  String.toList_inj.1 (by simp only [String.toList_join, List.flatMap_map, List.flatMap_assoc])

theorem layoutAll_eq_join (wrap : Colour → String → String) (depth : Nat)
    (ds : List (Diff String)) :
    layoutAll wrap depth ds = String.join (ds.map (layout wrap depth)) := by
  induction ds with
  | nil => rw [layoutAll, List.map_nil, String.join_nil]
  | cons d ds ih => rw [layoutAll, ih, List.map_cons, String.join_cons]

theorem text_edit (coloured : Bool) (depth : Nat) (e : Edit (Tree String)) :
    (Line.edit depth e).text coloured = layout (colouring coloured) depth (edit e) := by
  cases e <;> cases coloured <;>
    simp [Line.text, layout, colouring, editText, Edit.symbol, Edit.kind, Edit.valuesWith,
      Colour.ofKind, indent, blanks, String.append_assoc]

theorem text_matched (coloured : Bool) (depth : Nat) (text : String) :
    (Line.matched depth text).text coloured = blanks (2 * depth + 2) ++ text ++ "\n" := by
  have hblanks : indent depth ++ "  " = blanks (2 * depth + 2) :=
    String.toList_inj.1 (by simp [indent, blanks, ← List.replicate_append_replicate])
  rw [Line.text, hblanks]

/-- The text of the lines of a diff is its layout. -/
theorem join_outline (coloured : Bool) (depth : Nat) (d : Diff String) :
    String.join ((outline depth d).map (Line.text coloured)) =
      layout (colouring coloured) depth d := by
  induction d using induct generalizing depth with
  | atEdit e => rw [outline, List.map_singleton, String.join_cons, String.join_nil,
      String.append_empty, text_edit]
  | atMerge l ds ih =>
    by_cases h : editsAll ds = []
    · have hline : unchangedLine depth (merge l ds) =
          [.matched depth (Tree.node l (afterAll ds)).text] := by rw [unchangedLine, after?]; rfl
      rw [outline, if_pos (isUnchanged_merge_iff.2 h), hline, layout, if_pos h, List.map_singleton,
        String.join_cons, String.join_nil, String.append_empty, text_matched]
    · have hchildren : ds.map (fun d => String.join ((outline (depth + 1) d).map
          (Line.text coloured))) = ds.map (layout (colouring coloured) (depth + 1)) :=
        List.map_congr_left fun d hd => ih d hd (depth + 1)
      rw [outline, if_neg (mt isUnchanged_merge_iff.1 h), layout, if_neg h, List.map_cons,
        String.join_cons, text_matched, outlineAll_eq_flatMap, join_flatMap, hchildren,
        layoutAll_eq_join]

end Diff

namespace Rendering

open Diff

/-- The text of a list of diffs, which is found with lists of what is still to be looked at, is the
layout of the diffs. -/
theorem render_eq_layoutAll (coloured : Bool) (ds : List (Diff String)) :
    render coloured ds = layoutAll (colouring coloured) 0 ds := by
  simp only [render_eq_join, outlineAll_eq_flatMap, join_flatMap, join_outline, layoutAll_eq_join]

/-! ## Colours -/

theorem isPrefix_intercalate (code piece : List Char) (rest : List (List Char)) :
    piece <+: code.intercalate (piece :: rest) := by
  cases rest with
  | nil => rw [List.intercalate_singleton]
  | cons next rest =>
    rw [List.intercalate_cons_cons, List.append_assoc]
    exact List.prefix_append _ _

/-- A text is made of pieces without a closing code, with a closing code between any two. In a colour
it begins with the opening code, which also follows every closing code but the last. -/
theorem exists_pieces (text : List Char) :
    ∃ pieces : List (List Char), pieces ≠ [] ∧ (∀ piece ∈ pieces, ¬closing <:+: piece) ∧
      text = closing.intercalate pieces ∧
      ∀ code, reopen code text = (closing ++ code).intercalate pieces := by
  induction text using reopen.induct with
  | case1 => exact ⟨[[]], by simp, by simp [closing], by simp, by simp [reopen]⟩
  | case2 cs ih =>
    obtain ⟨pieces, hne, hfree, htext, hreopen⟩ := ih
    refine ⟨[] :: pieces, by simp, ?_, ?_, fun code => ?_⟩
    · exact List.forall_mem_cons.2 ⟨by simp [closing], hfree⟩
    · rw [List.intercalate_cons_of_ne_nil hne, ← htext]
      rfl
    · rw [reopen, hreopen, List.intercalate_cons_of_ne_nil hne]
      simp
  | case3 c cs h ih =>
    obtain ⟨pieces, hne, hfree, htext, hreopen⟩ := ih
    obtain ⟨piece, rest, rfl⟩ := List.exists_cons_of_ne_nil hne
    obtain ⟨hpiece, hrest⟩ := List.forall_mem_cons.1 hfree
    -- a closing code at the front of the first piece would be one at the front of the text
    have hfront : ¬closing <+: c :: piece := by
      rintro ⟨more, hmore⟩
      obtain ⟨rfl, rfl⟩ := List.cons.inj hmore
      obtain ⟨after, hafter⟩ := isPrefix_intercalate closing _ rest
      exact h (more ++ after) rfl (by rw [htext, ← hafter]; simp)
    refine ⟨(c :: piece) :: rest, by simp, ?_, ?_, fun code => ?_⟩
    · exact List.forall_mem_cons.2 ⟨fun hc => (List.infix_cons_iff.1 hc).elim hfront hpiece, hrest⟩
    · rw [List.intercalate_cons_cons_left, ← htext]
    · rw [reopen, hreopen, List.intercalate_cons_cons_left]
      exact h

/-- A text in a colour: its pieces, after each of which but the last all colours are closed and the
colour is opened again. -/
theorem exists_pieces_paint (colour : Colour) (text : String) :
    ∃ pieces : List (List Char), (∀ piece ∈ pieces, ¬closing <:+: piece) ∧
      text.toList = closing.intercalate pieces ∧
      (colour.paint text).toList =
        colour.opening ++ (closing ++ colour.opening).intercalate pieces ++ closing := by
  obtain ⟨pieces, -, hfree, htext, hreopen⟩ := exists_pieces text.toList
  exact ⟨pieces, hfree, htext, by rw [Colour.paint, String.toList_ofList, hreopen]⟩

/-! ## Printing -/

/-- **Printing lays diffs out.** To a sink without a limit, whatever it has taken, every list of
diffs and every diff is printed as its layout, in which colours, if they are on, wrap the lines of
edits and nothing else. A text in a colour is the text between the codes that open and close it, with
the opening code repeated after every closing code in the text. -/
theorem printing_eq_layout (coloured : Bool) (taken : ByteArray) :
    (∀ ds, printScript coloured ds ⟨taken, none⟩ =
      .ok () ⟨taken ++ (layoutAll (colouring coloured) 0 ds).toUTF8, none⟩) ∧
    (∀ d, printDiff coloured d ⟨taken, none⟩ =
      .ok () ⟨taken ++ (layout (colouring coloured) 0 d).toUTF8, none⟩) ∧
    ∀ (colour : Colour) (text : String), ∃ pieces : List (List Char),
      (∀ piece ∈ pieces, ¬closing <:+: piece) ∧ text.toList = closing.intercalate pieces ∧
      (colour.paint text).toList =
        colour.opening ++ (closing ++ colour.opening).intercalate pieces ++ closing := by
  refine ⟨fun ds => ?_, fun d => ?_, exists_pieces_paint⟩
  · rw [printScript_eq_write, render_eq_layoutAll]
    rfl
  · rw [printDiff_eq_write, render_eq_layoutAll, layoutAll_eq_join, List.map_singleton,
      String.join_cons, String.join_nil, String.append_empty]
    rfl

example : layout (colouring true) 0
    (merge "f" [merge "g" [merge "x" []], edit (.delete (.leaf "y"))]) =
      "  f\n    g(x)\n\x1b[31m  - y\x1b[0m\n" := by rfl

end Rendering

end TreeDiff
