import TreeDiff.Rendering.Print

/-!
# Texts written in parts

A sink, whether it has a limit or not, does not tell a text from its parts written one after the
other: it takes the same bytes, and it fails if and only if one of the parts fails. So what is
printed line by line is as good as written in one go.

* `Sink.write_append`: a text in two parts.
* `Sink.forM_eq_write`: a text in the parts that the writings of a list write.
* `printDiff_eq_write`, `printScript_eq_write`: printing is writing the whole text.
* `render_eq_join`: the text by recursion.
-/

namespace TreeDiff.Rendering

namespace Sink

variable {s t : String} {taken : ByteArray} {room : Nat}

theorem write_of_le (h : s.toUTF8.size ≤ room) :
    write s ⟨taken, some room⟩ = .ok () ⟨taken ++ s.toUTF8, some (room - s.toUTF8.size)⟩ :=
  if_pos h

theorem write_of_lt (h : room < s.toUTF8.size) :
    write s ⟨taken, some room⟩ = .error .full ⟨taken ++ s.toUTF8.extract 0 room, some 0⟩ :=
  if_neg (Nat.not_le_of_lt h)

theorem write_empty : write "" = pure () := by
  funext sink
  obtain ⟨taken, room⟩ := sink
  cases room <;> simp [write, pure, EStateM.pure]

/-- A text can be written in two parts. If the first part does not fit, nothing is taken of the
second; if only the second does not, as much is taken of it as of the end of the whole text. -/
theorem write_append (s t : String) : write (s ++ t) = (do write s; write t) := by
  funext ⟨taken, room⟩
  have hutf8 : (s ++ t).toUTF8 = s.toUTF8 ++ t.toUTF8 := String.toByteArray_append
  have hsize : (s ++ t).toUTF8.size = s.toUTF8.size + t.toUTF8.size := by
    rw [hutf8, ByteArray.size_append]
  cases room with
  | none => simp [write, bind, EStateM.bind, ByteArray.append_assoc]
  | some room =>
    rcases Nat.lt_or_ge room s.toUTF8.size with hs | hs
    · simp only [bind, EStateM.bind, write_of_lt hs]
      have hnone : t.toUTF8.extract (0 - s.toUTF8.size) (room - s.toUTF8.size) = .empty := by
        rw [Nat.zero_sub, Nat.sub_eq_zero_of_le (Nat.le_of_lt hs), ByteArray.extract_same]
      rw [write_of_lt (by omega), hutf8, ByteArray.extract_append, hnone, ByteArray.append_empty]
    · simp only [bind, EStateM.bind, write_of_le hs]
      rcases Nat.lt_or_ge (room - s.toUTF8.size) t.toUTF8.size with ht | ht
      · have hall : s.toUTF8.extract 0 room = s.toUTF8 := by
          rw [← Nat.max_eq_left hs, ByteArray.extract_zero_max_size]
        rw [write_of_lt ht, write_of_lt (by omega), hutf8, ByteArray.extract_append, hall,
          Nat.zero_sub, ByteArray.append_assoc]
      · rw [write_of_le ht, write_of_le (by omega), hutf8, ByteArray.size_append,
          ByteArray.append_assoc, Nat.sub_add_eq]

/-- Writings one after the other, each of a text, write the text of them all. -/
theorem forM_eq_write {α : Type} {f : α → Writing Unit} {text : α → String}
    (h : ∀ a, f a = write (text a)) (as : List α) :
    as.forM f = write (String.join (as.map text)) := by
  induction as with
  | nil => exact write_empty.symm
  | cons a as ih =>
    rw [List.map_cons, String.join_cons, write_append, ← h a, ← ih]
    rfl

end Sink

/-! ## Printing -/

/-- The text of lines. -/
theorem writeLines_eq_write (coloured : Bool) (lines : List Line) :
    writeLines coloured lines = Sink.write (String.join (lines.map (Line.text coloured))) :=
  Sink.forM_eq_write (fun _ => rfl) lines

/-- A list of diffs is printed as its text. -/
theorem printScript_eq_write (coloured : Bool) (ds : List (Diff String)) :
    printScript coloured ds = Sink.write (render coloured ds) := by
  have htext : render coloured ds =
      String.join (ds.map fun d => String.join ((Diff.lines [(0, d)]).map (Line.text coloured))) :=
    String.toList_inj.1 (by
      simp only [render, String.toList_join, List.flatMap_assoc, List.flatMap_map])
  rw [htext]
  exact Sink.forM_eq_write (fun d => writeLines_eq_write coloured (Diff.lines [(0, d)])) ds

/-- A diff is printed as the list of it alone. -/
theorem printDiff_eq_write (coloured : Bool) (d : Diff String) :
    printDiff coloured d = Sink.write (render coloured [d]) := by
  rw [printDiff, writeLines_eq_write, render, List.flatMap_singleton]

/-- The text of a list of diffs is the text of their lines by recursion. -/
theorem render_eq_join (coloured : Bool) (ds : List (Diff String)) :
    render coloured ds = String.join ((Diff.outlineAll 0 ds).map (Line.text coloured)) := by
  have hlines : ∀ d : Diff String, Diff.lines [(0, d)] = Diff.outline 0 d := fun d => by
    rw [Diff.lines_eq, List.flatMap_singleton]
  simp only [render, hlines, Diff.outlineAll_eq_flatMap, List.map_flatMap]

end TreeDiff.Rendering
