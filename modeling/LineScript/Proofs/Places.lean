import LineScript.Proofs.Runs

/-!
# Places of faults

A fault that is placed at all is placed on a line of the script that is compiled. A reader who
counts the lines of the source comes to the same line.
-/
namespace LineScript

open Text

namespace Script

theorem mem_lines_iff (script : Script) (number : Nat) (text : String) :
    (number, text) ∈ script.lines ↔
      1 ≤ number ∧ (sourceLines script.content)[number - 1]? = some text := by
  unfold lines
  rw [List.mem_map]
  constructor
  · rintro ⟨⟨found, n⟩, hmem, heq⟩
    obtain ⟨rfl, rfl⟩ := Prod.mk.inj heq
    exact (List.mk_mem_zipIdx_iff_le_and_getElem?_sub).mp hmem
  · intro h
    exact ⟨(text, number), List.mk_mem_zipIdx_iff_le_and_getElem?_sub.mpr h, rfl⟩

/-- Every script has a last line. -/
theorem exists_last_line (script : Script) :
    ∃ text, (script.lines.length, text) ∈ script.lines := by
  have hlength : script.lines.length = (sourceLines script.content).length := by
    simp [lines]
  have hpos : 0 < (sourceLines script.content).length := by
    rw [sourceLines, List.length_map, List.length_pos_iff]
    exact List.splitOn_ne_nil _ _
  obtain ⟨text, htext⟩ : ∃ text, (sourceLines script.content)[script.lines.length - 1]? =
      some text := ⟨_, List.getElem?_eq_getElem (by omega)⟩
  exact ⟨text, (script.mem_lines_iff _ _).mpr ⟨by omega, htext⟩⟩

end Script

theorem Scopes.applyLines_error {file : String} {lines : List (Nat × String)} {s t : Scopes}
    {diagnostic : Diagnostic} (h : Scopes.applyLines file lines s = (.error diagnostic, t)) :
    ∃ line ∈ lines, ∃ fault, diagnostic = .onLine file line.1 line.2 fault := by
  induction lines generalizing s with
  | nil => cases congrArg Prod.fst h
  | cons line rest ih =>
    obtain ⟨number, text⟩ := line
    unfold Scopes.applyLines at h
    split at h
    · obtain ⟨line, hline, hfault⟩ := ih h
      exact ⟨line, List.mem_cons_of_mem _ hline, hfault⟩
    · rename_i fault _ _
      exact ⟨_, List.mem_cons_self, fault, (Except.error.inj (congrArg Prod.fst h)).symm⟩

/-- The place of a fault is a line of the script. -/
theorem compile_places {settings : Settings} {script : Script} {diagnostic : Diagnostic}
    {log : List LogEntry} (h : compile settings script = (.error diagnostic, log)) {l : Location}
    (hl : diagnostic.location = some l) :
    l.file = script.name ∧ ∃ text, (l.line, text) ∈ script.lines := by
  unfold compile at h
  split at h
  · obtain rfl := Except.error.inj (congrArg Prod.fst h)
    cases hl
  · split at h
    · obtain rfl := Except.error.inj (congrArg Prod.fst h)
      cases hl
    · dsimp only at h
      split at h
      · rename_i hlines
        obtain rfl := Except.error.inj (congrArg Prod.fst h)
        obtain ⟨line, hline, fault, rfl⟩ := Scopes.applyLines_error hlines
        obtain rfl := Option.some.inj hl
        exact ⟨rfl, line.2, hline⟩
      · split at h
        · obtain rfl := Except.error.inj (congrArg Prod.fst h)
          obtain rfl := Option.some.inj hl
          exact ⟨rfl, script.exists_last_line⟩
        · cases congrArg Prod.fst h

end LineScript
