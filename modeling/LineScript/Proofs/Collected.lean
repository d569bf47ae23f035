import LineScript.Report.Collection
import Mathlib.Data.List.Nodup

/-!
# Collected reports

A collection holds one report for each message and place that came, the first that had it, in the
order in which they came.
-/
namespace LineScript.Reports

theorem push_cases (rs : Reports) (r : Report) :
    (r.key ∈ rs.reports.map Report.key ∧ rs.push r = rs) ∨
      (r.key ∉ rs.reports.map Report.key ∧ (rs.push r).reports = rs.reports ++ [r]) := by
  have hseen : (rs.reports.any fun seen => seen.key == r.key) = true ↔
      r.key ∈ rs.reports.map Report.key := by
    simp [List.any_eq_true]
  unfold push
  split_ifs with h
  · exact Or.inl ⟨hseen.mp h, rfl⟩
  · exact Or.inr ⟨fun hmem => h (hseen.mpr hmem), rfl⟩

theorem extend_cons (rs : Reports) (r : Report) (more : List Report) :
    rs.extend (r :: more) = (rs.push r).extend more :=
  rfl

theorem extend_append (rs : Reports) (more others : List Report) :
    rs.extend (more ++ others) = (rs.extend more).extend others :=
  List.foldl_append

/-- Reports are left out and not reordered. -/
theorem extend_sublist (rs : Reports) (more : List Report) :
    (rs.extend more).reports.Sublist (rs.reports ++ more) := by
  induction more generalizing rs with
  | nil => exact List.append_nil _ ▸ List.Sublist.refl _
  | cons r more ih =>
    rw [extend_cons]
    rcases rs.push_cases r with ⟨_, hpush⟩ | ⟨_, hpush⟩
    · rw [hpush]
      exact (ih rs).trans (List.Sublist.append_left (List.sublist_cons_self r more) _)
    · have hmore := ih (rs.push r)
      rwa [hpush, List.append_assoc, List.singleton_append] at hmore

theorem subset_extend (rs : Reports) (more : List Report) :
    rs.reports ⊆ (rs.extend more).reports := by
  induction more generalizing rs with
  | nil => exact List.Subset.refl _
  | cons r more ih =>
    rw [extend_cons]
    rcases rs.push_cases r with ⟨_, hpush⟩ | ⟨_, hpush⟩
    · rw [hpush]
      exact ih rs
    · refine List.Subset.trans ?_ (ih (rs.push r))
      rw [hpush]
      exact List.subset_append_left _ _

/-- No message is lost for a place. -/
theorem mem_keys_extend (rs : Reports) (more : List Report) (key : String × Option (String × Nat)) :
    key ∈ (rs.extend more).reports.map Report.key ↔
      key ∈ rs.reports.map Report.key ∨ key ∈ more.map Report.key := by
  induction more generalizing rs with
  | nil => simp [extend]
  | cons r more ih =>
    have hpushed : key ∈ (rs.push r).reports.map Report.key ↔
        key ∈ rs.reports.map Report.key ∨ key = r.key := by
      rcases rs.push_cases r with ⟨hseen, hpush⟩ | ⟨_, hpush⟩
      · rw [hpush]
        exact ⟨Or.inl, fun h => h.elim id fun heq => heq ▸ hseen⟩
      · rw [hpush, List.map_append, List.mem_append, List.map_singleton, List.mem_singleton]
    rw [extend_cons, ih, hpushed, List.map_cons, List.mem_cons, or_assoc]

section Empty

variable (more : List Report)

end Empty

end LineScript.Reports
