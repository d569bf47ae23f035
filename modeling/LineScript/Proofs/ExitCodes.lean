import LineScript.Proofs.Collected
import Mathlib.Tactic.SplitIfs

/-!
# Exit codes of collections

The exit code of a collection is one if it holds a failure. A collection holds the first report of
each message and place, whatever its severity, so that a milder report hides the failures that come
after it with the same message and place. A failure that nothing milder comes before is seen.
-/
namespace LineScript

/-- A report that takes the place of the failures with its message and place that come later. -/
def Report.Hides (seen r : Report) : Prop :=
  seen.key = r.key ∧ seen.severity.isFailure = false

instance (seen r : Report) : Decidable (seen.Hides r) :=
  inferInstanceAs (Decidable (_ ∧ _))

/-- A way of handing reports to a collection. -/
inductive Offer where
  | push (r : Report)
  | pushDiagnostic (d : Diagnostic)
  | extend (more : List Report)

def Offer.reports : Offer → List Report
  | push r => [r]
  | pushDiagnostic d => [.ofDiagnostic d]
  | extend more => more

namespace Reports

/-- The collection after an offer. -/
def after (rs : Reports) : Offer → Reports
  | .push r => rs.push r
  | .pushDiagnostic d => rs.pushDiagnostic d
  | .extend more => rs.extend more

def afterAll (rs : Reports) (offers : List Offer) : Reports :=
  offers.foldl after rs

theorem after_eq_extend (rs : Reports) (offer : Offer) :
    rs.after offer = rs.extend offer.reports := by
  cases offer <;> rfl

/-- It does not matter in which portions the reports come. -/
theorem afterAll_eq_extend (rs : Reports) (offers : List Offer) :
    rs.afterAll offers = rs.extend (offers.flatMap Offer.reports) := by
  induction offers generalizing rs with
  | nil => rfl
  | cons offer rest ih =>
    rw [List.flatMap_cons, extend_append, ← after_eq_extend]
    exact ih (rs.after offer)

theorem exitCode_eq_one_iff (rs : Reports) :
    rs.exitCode = 1 ↔ ∃ r ∈ rs.reports, r.severity.isFailure = true := by
  rw [exitCode, hasErrors, ← List.any_eq_true]
  split_ifs with h <;> simp [h]

theorem exitCode_eq_zero (rs : Reports) (h : rs.exitCode ≠ 1) : rs.exitCode = 0 := by
  unfold exitCode at h ⊢
  split_ifs at h ⊢
  · exact absurd rfl h
  · rfl

/-- A failure is held, or in its place another one, unless a milder report hides it. -/
theorem exists_failure {earlier : List Report} {r : Report} (hr : r.severity.isFailure = true)
    (hseen : ∀ seen ∈ earlier, ¬ seen.Hides r) (later : List Report) :
    ∃ held ∈ (empty.extend (earlier ++ r :: later)).reports, held.severity.isFailure = true := by
  have hkey : r.key ∈ (empty.extend (earlier ++ [r])).reports.map Report.key := by
    rw [mem_keys_extend, List.map_append]
    exact Or.inr (List.mem_append_right _ List.mem_cons_self)
  obtain ⟨held, hheld, hsame⟩ := List.mem_map.mp hkey
  refine ⟨held, ?_, ?_⟩
  · rw [List.append_cons, extend_append]
    exact subset_extend _ _ hheld
  · rcases List.mem_append.mp ((extend_sublist empty _).subset hheld) with hnil | hoffered
    · cases hnil
    rcases List.mem_append.mp hoffered with hearlier | hlast
    · exact Bool.of_not_eq_false fun hmild => hseen held hearlier ⟨hsame, hmild⟩
    · rwa [List.mem_singleton.mp hlast]

/-- What a collection holds was the first report of its message and place. -/
theorem first_of_mem_extend {rs : Reports} {more : List Report} {r : Report}
    (h : r ∈ (rs.extend more).reports) :
    r ∈ rs.reports ∨ ∃ earlier later, more = earlier ++ r :: later ∧
      r.key ∉ rs.reports.map Report.key ∧ r.key ∉ earlier.map Report.key := by
  induction more generalizing rs with
  | nil => exact Or.inl h
  | cons next more ih =>
    rw [extend_cons] at h
    rcases rs.push_cases next with ⟨hseen, hpush⟩ | ⟨hnew, hpush⟩
    · rw [hpush] at h
      refine (ih h).imp_right ?_
      rintro ⟨earlier, later, rfl, hheld, hearlier⟩
      refine ⟨next :: earlier, later, rfl, hheld, ?_⟩
      rw [List.map_cons, List.mem_cons, not_or]
      exact ⟨fun heq => hheld (heq ▸ hseen), hearlier⟩
    · rcases ih h with hheld | ⟨earlier, later, rfl, hheld, hearlier⟩
      · rw [hpush, List.mem_append, List.mem_singleton] at hheld
        refine hheld.imp_right ?_
        rintro rfl
        exact ⟨[], more, rfl, hnew, List.not_mem_nil⟩
      · rw [hpush, List.map_append, List.mem_append, List.map_singleton, List.mem_singleton,
          not_or] at hheld
        refine Or.inr ⟨next :: earlier, later, rfl, hheld.1, ?_⟩
        rw [List.map_cons, List.mem_cons, not_or]
        exact ⟨hheld.2, hearlier⟩

theorem exitCode_extend_empty_iff (more : List Report) :
    (empty.extend more).exitCode = 1 ↔ ∃ earlier r later, more = earlier ++ r :: later ∧
      r.severity.isFailure = true ∧ ∀ seen ∈ earlier, ¬ seen.Hides r := by
  rw [exitCode_eq_one_iff]
  constructor
  · rintro ⟨r, hr, hfailure⟩
    rcases first_of_mem_extend hr with hnil | ⟨earlier, later, hmore, _, hfirst⟩
    · cases hnil
    refine ⟨earlier, r, later, hmore, hfailure, fun seen hseen hhides => hfirst ?_⟩
    exact hhides.1 ▸ List.mem_map_of_mem hseen
  · rintro ⟨earlier, r, later, rfl, hfailure, hseen⟩
    exact exists_failure hfailure hseen later

end Reports

/-- The exit code of a collection that any offers have filled is one or zero. It is one exactly if a
failure was among the reports offered that no milder report before it hides. So it tells whether any
failure was offered, as long as no report hides a failure. -/
theorem failure_seen_unless_hidden (offers : List Offer) :
    let offered := offers.flatMap Offer.reports
    let rs := Reports.empty.afterAll offers
    (rs.exitCode = 1 ↔ ∃ earlier r later, offered = earlier ++ r :: later ∧
      r.severity.isFailure = true ∧ ∀ seen ∈ earlier, ¬ seen.Hides r) ∧
    (rs.exitCode = 1 ∨ rs.exitCode = 0) ∧
    (offered.Pairwise (fun seen r => r.severity.isFailure = true → ¬ seen.Hides r) →
      (rs.exitCode = 1 ↔ ∃ r ∈ offered, r.severity.isFailure = true)) := by
  intro offered rs
  have hrs : rs = Reports.empty.extend offered := Reports.afterAll_eq_extend _ _
  rw [hrs]
  refine ⟨Reports.exitCode_extend_empty_iff offered,
    or_iff_not_imp_left.mpr (Reports.exitCode_eq_zero _), fun hpairs => ?_⟩
  rw [Reports.exitCode_extend_empty_iff]
  constructor
  · rintro ⟨earlier, r, later, hoffered, hfailure, _⟩
    exact ⟨r, hoffered ▸ List.mem_append_right _ List.mem_cons_self, hfailure⟩
  · rintro ⟨r, hr, hfailure⟩
    obtain ⟨earlier, later, hoffered⟩ := List.append_of_mem hr
    rw [hoffered, List.pairwise_append] at hpairs
    exact ⟨earlier, r, later, hoffered, hfailure, fun seen hseen =>
      hpairs.2.2 seen hseen r List.mem_cons_self hfailure⟩

/-- A report without a place. -/
def Report.plain (message : String) (severity : Severity) : Report :=
  ⟨message, severity, "", "", none, 0, none, none⟩

/-- A note, a failure with the same words in a script, and that failure once more. -/
def apartOffers : List Offer :=
  [.push (.plain "m" .info), .pushDiagnostic ⟨.form, .error, "m", "", some ⟨"a", 1, 1⟩, none⟩,
    .extend [{ Report.plain "m" .fatal with location := some ⟨"a", 1, 3⟩ }]]

theorem failure_seen_unless_hidden_apart :
    (apartOffers.flatMap Offer.reports).Pairwise
        (fun seen r => r.severity.isFailure = true → ¬ seen.Hides r) ∧
      (Reports.empty.afterAll apartOffers).exitCode = 1 ∧
      (Reports.empty.afterAll apartOffers).reports.length = 2 := by
  have hpairs : (apartOffers.flatMap Offer.reports).Pairwise
      (fun seen r => r.severity.isFailure = true → ¬ seen.Hides r) := by decide
  obtain ⟨_, _, hcode⟩ := failure_seen_unless_hidden apartOffers
  exact ⟨hpairs, (hcode hpairs).mpr (by decide), by decide⟩

/-- The same words twice, as a note and as a failure. -/
def hidingOffers : List Offer :=
  [.push (.plain "m" .info), .push (.plain "m" .error)]

/-- A failure can be offered without being seen. -/
theorem milder_report_hides_failure :
    ¬ ((Reports.empty.afterAll hidingOffers).exitCode = 1 ↔
      ∃ r ∈ hidingOffers.flatMap Offer.reports, r.severity.isFailure = true) := by
  decide

end LineScript
