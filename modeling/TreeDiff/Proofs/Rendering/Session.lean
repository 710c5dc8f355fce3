import Mathlib.Data.List.TakeDrop
import TreeDiff.Proofs.Rendering.Writing
import TreeDiff.Rendering.Session

/-!
# Sessions on a sink with a limit

A sink with a limit takes the first bytes of all that is printed to it, as many as the limit allows.
The relation of the sink to all that was offered to it is kept by a step (`Sink.Offered.printed`), and
so by a session.

* `Sink.bytes`, `Printing.written`: the bytes that a sink has taken, and those that a step writes when
  there is no limit.
* `Sink.Offered`: the sink after some bytes were offered to it.
* `Sink.Offered.after`: the sink after the steps of a session.
* `session_limited`: the bytes taken after each step, and the steps that succeed.
-/

namespace TreeDiff.Rendering

/-- The bytes of a text. -/
def bytesOf (text : String) : List UInt8 := text.toUTF8.data.toList

theorem length_bytesOf (text : String) : (bytesOf text).length = text.toUTF8.size := rfl

theorem bytesOf_inj {s t : String} (h : bytesOf s = bytesOf t) : s = t :=
  String.toByteArray_inj.1 (ByteArray.ext (Array.toList_inj.1 h))

theorem bytesOf_join (texts : List String) : bytesOf (String.join texts) = texts.flatMap bytesOf := by
  induction texts with
  | nil => rfl
  | cons s texts ih =>
    rw [String.join_cons, List.flatMap_cons, ← ih]
    simp [bytesOf]

/-- The bytes that a sink has taken. -/
def Sink.bytes (sink : Sink) : List UInt8 := sink.taken.data.toList

namespace Printing

/-- The text of a step. -/
def text : Printing → String
  | .diff coloured d => render coloured [d]
  | .script coloured ds => render coloured ds

theorem print_eq_write (step : Printing) : step.print = Sink.write step.text := by
  cases step with
  | diff coloured d => exact printDiff_eq_write coloured d
  | script coloured ds => exact printScript_eq_write coloured ds

/-- The bytes that a step writes to a sink without a limit. -/
def written (step : Printing) : List UInt8 := (step.printed (.empty none)).sink.bytes

theorem written_eq_bytesOf (step : Printing) : step.written = bytesOf step.text := by
  rw [written, printed, print_eq_write]
  simp [EStateM.run, Sink.write, Sink.empty, Sink.bytes, bytesOf]

end Printing

/-! ## What was offered to a sink -/

namespace Sink

/-- The sink with the limit after the bytes were offered to it: it has taken the first of them. -/
structure Offered (limit : Nat) (bytes : List UInt8) (sink : Sink) : Prop where
  bytes_eq : sink.bytes = bytes.take limit
  room_eq : sink.room = some (limit - bytes.length)

variable {limit : Nat} {bytes : List UInt8} {sink : Sink}

theorem offered_empty (limit : Nat) : (empty (some limit)).Offered limit [] :=
  ⟨by simp [empty, Sink.bytes], rfl⟩

/-- Once more than the limit was offered, nothing is taken any more. -/
theorem Offered.bytes_eq_of_append {more : List UInt8} {after : Sink} (h : sink.Offered limit bytes)
    (hafter : after.Offered limit (bytes ++ more)) (hfull : limit < bytes.length) :
    after.bytes = sink.bytes := by
  rw [hafter.bytes_eq, h.bytes_eq, List.take_append_of_le_length (Nat.le_of_lt hfull)]

/-- A step offers what it writes when there is no limit. It succeeds if this is nothing, or if all
that was offered fits. -/
theorem Offered.printed (h : sink.Offered limit bytes) (step : Printing) :
    (step.printed sink).sink.Offered limit (bytes ++ step.written) ∧
      ((step.printed sink).failure = none ↔
        step.written = [] ∨ (bytes ++ step.written).length ≤ limit) := by
  obtain ⟨taken, room⟩ := sink
  obtain ⟨hbytes, rfl : room = some (limit - bytes.length)⟩ := h
  have hlength : step.written.length = step.text.toUTF8.size := by
    rw [step.written_eq_bytesOf, length_bytesOf]
  have hnil : step.written = [] ↔ step.text.toUTF8.size = 0 := by
    rw [← hlength, List.length_eq_zero_iff]
  rw [Printing.printed, Printing.print_eq_write, EStateM.run]
  rcases Nat.lt_or_ge (limit - bytes.length) step.text.toUTF8.size with hlt | hle
  · rw [write_of_lt hlt]
    refine ⟨⟨?_, ?_⟩, ?_⟩
    · rw [List.take_append, ← hbytes, step.written_eq_bytesOf]
      simp [Sink.bytes, bytesOf]
    · rw [List.length_append, hlength, Option.some.injEq]
      omega
    · rw [hnil, List.length_append, hlength]
      simp only [reduceCtorEq, false_iff]
      omega
  · rw [write_of_le hle]
    refine ⟨⟨?_, ?_⟩, ?_⟩
    · rw [List.take_append, ← hbytes, List.take_of_length_le (hlength ▸ hle),
        step.written_eq_bytesOf]
      simp [Sink.bytes, bytesOf]
    · rw [List.length_append, hlength, Nat.sub_add_eq]
    · rw [hnil, List.length_append, hlength]
      simp only [true_iff]
      omega

end Sink

/-! ## Sessions -/

@[simp] theorem length_session (sink : Sink) (steps : List Printing) :
    (session sink steps).length = steps.length := by
  induction steps generalizing sink with
  | nil => rfl
  | cons step steps ih => rw [session, List.length_cons, ih, List.length_cons]

namespace Sink

variable {limit : Nat} {bytes : List UInt8} {sink : Sink}

/-- The sink after the steps of a session. -/
def after (sink : Sink) (steps : List Printing) : Sink :=
  steps.foldl (fun sink step => (step.printed sink).sink) sink

theorem session_append (sink : Sink) (done rest : List Printing) :
    session sink (done ++ rest) = session sink done ++ session (sink.after done) rest := by
  induction done generalizing sink with
  | nil => rfl
  | cons step done ih => rw [List.cons_append, session, ih]; rfl

/-- A session offers what its steps write when there is no limit. -/
theorem Offered.after (h : sink.Offered limit bytes) (steps : List Printing) :
    (sink.after steps).Offered limit (bytes ++ steps.flatMap Printing.written) := by
  induction steps generalizing sink bytes with
  | nil => rwa [List.flatMap_nil, List.append_nil]
  | cons step steps ih =>
    rw [List.flatMap_cons, ← List.append_assoc]
    exact ih (h.printed step).1

/-- Once more than the limit was offered, no step takes any more. -/
theorem Offered.bytes_of_mem_session (h : sink.Offered limit bytes) (hfull : limit < bytes.length)
    {steps : List Printing} {printed : Printed} (hmem : printed ∈ session sink steps) :
    printed.sink.bytes = sink.bytes := by
  induction steps generalizing sink bytes with
  | nil => cases hmem
  | cons step steps ih =>
    have hstep := (h.printed step).1
    have hbytes := h.bytes_eq_of_append hstep hfull
    obtain rfl | hmem := List.mem_cons.1 hmem
    · exact hbytes
    · exact (ih hstep (by rw [List.length_append]; omega) hmem).trans hbytes

end Sink

/-- **What is printed to a sink with a limit is a first part of what is to be printed.** After each
step of a session, the sink has taken the first bytes of all that the steps so far write when there
is no limit, as many as the limit allows. The step succeeds if and only if it writes nothing, or
everything so far fits. After a failure no step makes the sink take any more. A step does not depend
on the fragments in which its text is written. -/
theorem session_limited (limit : Nat) (done rest : List Printing) (step : Printing) :
    ∃ earlier printed later,
      session (.empty (some limit)) (done ++ step :: rest) = earlier ++ printed :: later ∧
      earlier.length = done.length ∧
      printed.sink.bytes = ((done ++ [step]).flatMap Printing.written).take limit ∧
      (printed.failure = none ↔
        step.written = [] ∨ ((done ++ [step]).flatMap Printing.written).length ≤ limit) ∧
      (printed.failure ≠ none → ∀ p ∈ later, p.sink.bytes = printed.sink.bytes) ∧
      ∀ fragments : List String, fragments.flatMap bytesOf = step.written →
        step.print = fragments.forM Sink.write := by
  have hbefore := (Sink.offered_empty limit).after done
  rw [List.nil_append] at hbefore
  have htotal : (done ++ [step]).flatMap Printing.written =
      done.flatMap Printing.written ++ step.written := by
    rw [List.flatMap_append, List.flatMap_singleton]
  obtain ⟨hafter, hsucceeds⟩ := hbefore.printed step
  rw [← htotal] at hafter hsucceeds
  refine ⟨_, _, _, Sink.session_append _ done (step :: rest), length_session _ done,
    hafter.bytes_eq, hsucceeds, fun hfailure p hp => ?_, fun fragments hfragments => ?_⟩
  · have hfull := not_or.1 (mt hsucceeds.2 hfailure)
    exact hafter.bytes_of_mem_session (Nat.lt_of_not_le hfull.2) hp
  · rw [step.written_eq_bytesOf, ← bytesOf_join] at hfragments
    rw [step.print_eq_write, ← bytesOf_inj hfragments,
      Sink.forM_eq_write (fun _ => rfl) fragments, List.map_id']

/-- A line of four bytes on a sink for three, printed twice. -/
theorem session_limited_three :
    ∃ earlier printed later,
      session (.empty (some 3)) [.diff false (.edit (.insert (.leaf "a"))),
        .diff false (.edit (.insert (.leaf "a")))] = earlier ++ printed :: later ∧
      earlier.length = 0 ∧ printed.sink.bytes = bytesOf "+ a" ∧ printed.failure ≠ none ∧
      (∀ p ∈ later, p.sink.bytes = printed.sink.bytes) ∧
      (Printing.diff false (.edit (.insert (.leaf "a")))).print =
        ["+ ", "a", "\n"].forM Sink.write := by
  have hwritten : (Printing.diff false (.edit (.insert (.leaf "a")))).written = bytesOf "+ a\n" := by
    rw [Printing.written_eq_bytesOf, Printing.text, render_eq_join]
    rfl
  obtain ⟨earlier, printed, later, hsession, hlength, hbytes, hsucceeds, hlater, hfragments⟩ :=
    session_limited 3 [] [.diff false (.edit (.insert (.leaf "a")))]
      (.diff false (.edit (.insert (.leaf "a"))))
  simp only [List.nil_append, List.flatMap_singleton, hwritten] at hbytes hsucceeds hfragments
  have hfailure : printed.failure ≠ none := mt hsucceeds.1 (by decide +kernel)
  exact ⟨earlier, printed, later, hsession, hlength, hbytes.trans (by decide +kernel), hfailure,
    hlater hfailure, hfragments _ (by decide +kernel)⟩

end TreeDiff.Rendering
