import Mathlib.Data.List.Basic
import Mathlib.Data.List.TakeWhile

/-!
# The lines of a text

`getLine` takes one line and its newline off a text, `textLines` all of them until the text is used up,
and `joinLines` writes lines with a newline after each.
-/

namespace KvPaxos.Lib

variable {line rest text : List Char}

/-- The first line, without its newline, and what is left. -/
def getLine (text : List Char) : List Char × List Char :=
  (text.takeWhile (· ≠ '\n'), (text.dropWhile (· ≠ '\n')).drop 1)

theorem getLine_append (plain : '\n' ∉ line) : getLine (line ++ '\n' :: rest) = (line, rest) := by
  have all : ∀ c ∈ line, decide (c ≠ '\n') = true := by
    intro c mem
    refine decide_eq_true ?_
    rintro rfl
    exact plain mem
  have stop : decide ('\n' ≠ '\n') = false := rfl
  rw [getLine, List.takeWhile_append_of_pos all, List.dropWhile_append_of_pos all, List.takeWhile_cons, List.dropWhile_cons, stop]
  simp

theorem length_getLine_lt (more : text ≠ []) : (getLine text).2.length < text.length := by
  have least := List.length_pos_of_ne_nil more
  have shorter := (List.dropWhile_suffix (l := text) (· ≠ '\n')).length_le
  show ((text.dropWhile (· ≠ '\n')).drop 1).length < text.length
  rw [List.length_drop]
  omega

/-- All lines; the last one need not end with a newline. -/
def textLines (text : List Char) : List (List Char) :=
  if _ : text ≠ [] then (getLine text).1 :: textLines (getLine text).2 else []
termination_by text.length
decreasing_by exact length_getLine_lt ‹_›

def joinLines (lines : List (List Char)) : List Char := lines.flatMap fun line => line ++ ['\n']

/-- **Lines are read back** if none of them holds a newline. -/
theorem textLines_joinLines {lines : List (List Char)} (plain : ∀ line ∈ lines, '\n' ∉ line) :
    textLines (joinLines lines) = lines := by
  induction lines with
  | nil =>
    rw [textLines]
    rfl
  | cons line lines ih =>
    have joined : joinLines (line :: lines) = line ++ '\n' :: joinLines lines := by
      simp [joinLines]
    have more : line ++ '\n' :: joinLines lines ≠ [] := by simp
    rw [joined, textLines, dif_pos more, getLine_append (plain line List.mem_cons_self)]
    exact congrArg _ (ih fun other mem => plain other (List.mem_cons_of_mem _ mem))

end KvPaxos.Lib
