import LineScript.Proofs.Flush
import Mathlib.Data.List.DropRight

/-!
# The layout sees trimmed lines

The layout of a text keeps its lines but for the blanks at their ends, and nothing else of the text
has an influence on it. Two texts are therefore laid out alike exactly if their trimmed lines are
the same, and what has been laid out before, by whatever width, is laid out as the text itself.
-/
namespace LineScript

open Text Layout

namespace Text

theorem trimBoth_trimBoth (t : List Char) : trimBoth (trimBoth t) = trimBoth t := by
  cases hleft : trimLeft t with
  | nil =>
    have hnil : trimBoth t = [] := by rw [trimBoth, hleft]; rfl
    rw [hnil]
    rfl
  | cons c rest =>
    have hsolid : isBlank c = false := by
      have hhead := List.head?_dropWhile_not isBlank t
      rw [show t.dropWhile isBlank = c :: rest from hleft] at hhead
      exact hhead
    have hcut : trimBoth t = c :: trimRight rest := by
      rw [trimBoth, hleft, trimRight_cons hsolid]
    have hright : trimRight (trimRight rest) = trimRight rest := List.rdropWhile_idempotent _ _
    rw [hcut, trimBoth_cons hsolid, hright]

theorem trimBoth_replicate_append (n : Nat) (t : List Char) :
    trimBoth (List.replicate n ' ' ++ t) = trimBoth t := by
  have hspaces : trimLeft (List.replicate n ' ' ++ t) = trimLeft t := by
    refine List.dropWhile_append_of_pos fun c hc => ?_
    rw [List.eq_of_mem_replicate hc]
    rfl
  rw [trimBoth, hspaces, trimBoth]

end Text

namespace Layout

/-- The lines of a text without the blanks at their ends. -/
def trimmedLines (text : String) : List (List Char) :=
  (text.toList.splitOn '\n').map trimBoth

theorem map_trimBoth_of_indents {tab : Nat} {lines placed : List (List Char)}
    (h : List.Forall₂ (Indents tab) lines placed) : placed.map trimBoth = lines.map trimBoth := by
  induction h with
  | nil => rfl
  | cons hfirst _ ih =>
    obtain ⟨depth, rfl, _⟩ := hfirst
    rw [List.map_cons, List.map_cons, trimBoth_replicate_append, ih]

theorem trimmedLines_format (text : String) (tab : Nat) :
    trimmedLines (format text tab) = trimmedLines text := by
  have hindents := indents_indentLines tab 0 (trimmedLines text)
  calc trimmedLines (format text tab)
    _ = (indentLines tab 0 (trimmedLines text)).map trimBoth := by
      rw [trimmedLines, splitOn_format]
      rfl
    _ = (trimmedLines text).map trimBoth := map_trimBoth_of_indents hindents
    _ = trimmedLines text := by
      rw [trimmedLines, List.map_map]
      exact List.map_congr_left fun line _ => trimBoth_trimBoth line

theorem format_congr {a b : String} (h : trimmedLines a = trimmedLines b) (tab : Nat) :
    format a tab = format b tab := by
  unfold format
  change joinWith _ ((indentLines tab 0 (trimmedLines a)).map _) =
    joinWith _ ((indentLines tab 0 (trimmedLines b)).map _)
  rw [h]

/-- The layout depends on the trimmed lines of a text and keeps them: texts are laid out alike
exactly if they have the same trimmed lines, so that an earlier layout makes no difference to a
later one, of the same width or another. -/
theorem format_sees_trimmed_lines (a b : String) (m n : Nat) :
    (format a n = format b n ↔ trimmedLines a = trimmedLines b) ∧
      format (format a m) n = format a n ∧ format (format a n) n = format a n := by
  refine ⟨⟨fun h => ?_, fun h => format_congr h n⟩, ?_, ?_⟩
  · rw [← trimmedLines_format a n, h, trimmedLines_format]
  · exact format_congr (trimmedLines_format a m) n
  · exact format_congr (trimmedLines_format a n) n

end Layout

end LineScript
