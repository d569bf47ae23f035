import LineScript.Proofs.Lines

/-!
# Runs of a compilation

A script that compiles is a run of applied lines from the scope of its file back to that scope.
`Runs.invariant` is the induction over runs: what holds at the start and is kept by every move
holds at the end. `scopesAfter` gives the open scopes after the first lines of a script.
-/
namespace LineScript

namespace Scopes

/-- The lines are applied one after the other without a fault. -/
inductive Runs (s : Scopes) : List Construct → Scopes → Prop where
  | nil : Runs s [] s
  | snoc {lines : List Construct} {c : Construct} {t u : Scopes} (log : List LogEntry)
      (hrun : Runs s lines t) (happlied : Applied { t with log := log } c u) :
      Runs s (lines ++ [c]) u

namespace Runs

variable {s t : Scopes} {lines : List Construct}

theorem cons {c : Construct} {log : List LogEntry} (happlied : Applied { s with log := log } c t)
    {u : Scopes} (hrun : Runs t lines u) : Runs s (c :: lines) u := by
  induction hrun with
  | nil => exact .snoc log .nil happlied
  | snoc log' _ happlied' ih => exact .snoc log' ih happlied'

theorem snoc_inv {c : Construct} {u : Scopes} (h : Runs s (lines ++ [c]) u) :
    ∃ t log, Runs s lines t ∧ Applied { t with log := log } c u := by
  generalize hall : lines ++ [c] = all at h
  cases h with
  | nil => simp at hall
  | snoc log hrun happlied =>
    obtain ⟨rfl, hc⟩ := List.append_inj' hall rfl
    obtain rfl := List.singleton_inj.mp hc
    exact ⟨_, log, hrun, happlied⟩

/-- The induction over a run each line of which is known to be allowed after the lines before
it. -/
theorem invariant_along (A : List Construct → Construct → Prop)
    (P : List Construct → Scopes → Prop) (hrun : Runs s lines t)
    (hall : ∀ front c back, lines = front ++ c :: back → A front c) (hstart : P [] s)
    (hstays : ∀ lines c s t, A lines c → Stays s c t → P lines s → P lines t)
    (hother : ∀ lines c s, c.opens = false → c.closes = false → P lines s → P (lines ++ [c]) s)
    (hopens : ∀ lines c s o log, A lines c → c.opens = true → Opening s c o → P lines s →
      P (lines ++ [c]) (s.opened o log))
    (hcloses : ∀ lines c s t, c.closes = true → Closes s t → P lines s → P (lines ++ [c]) t) :
    P lines t := by
  induction hrun with
  | nil => exact hstart
  | @snoc lines c t u log _ happlied ih =>
    have hallowed : A lines c := hall lines c [] rfl
    have hfront : P lines t := by
      refine ih fun front d back heq => hall front d (back ++ [c]) ?_
      rw [heq, List.append_assoc, List.cons_append]
    have hnote : P lines { t with log := log } := hstays _ c _ _ hallowed (.note c log) hfront
    cases happlied with
    | opens log' hopen hopening => exact hopens _ _ _ _ _ hallowed hopen hopening hnote
    | closes hclose h => exact hcloses _ _ _ _ hclose h hnote
    | stays hopen hclose h =>
      apply hother _ _ _ hopen hclose
      induction h with
      | refl => exact hnote
      | tail _ hmove ih' => exact hstays _ _ _ _ hallowed hmove ih'

theorem invariant (P : List Construct → Scopes → Prop) (hrun : Runs s lines t) (hstart : P [] s)
    (hstays : ∀ lines c s t, Stays s c t → P lines s → P lines t)
    (hother : ∀ lines c s, c.opens = false → c.closes = false → P lines s → P (lines ++ [c]) s)
    (hopens : ∀ lines c s o log, c.opens = true → Opening s c o → P lines s →
      P (lines ++ [c]) (s.opened o log))
    (hcloses : ∀ lines c s t, c.closes = true → Closes s t → P lines s → P (lines ++ [c]) t) :
    P lines t :=
  hrun.invariant_along (fun _ _ => True) P (fun _ _ _ _ => trivial) hstart
    (fun lines c s t _ => hstays lines c s t) hother
    (fun lines c s o log _ => hopens lines c s o log) hcloses

end Runs

theorem applyLines_append (file : String) (front back : List (Nat × String)) (s t : Scopes) :
    applyLines file (front ++ back) s = (.ok (), t) ↔
      ∃ u, applyLines file front s = (.ok (), u) ∧ applyLines file back u = (.ok (), t) := by
  induction front generalizing s with
  | nil => simp [applyLines]
  | cons line rest ih =>
    obtain ⟨number, text⟩ := line
    simp only [List.cons_append, applyLines]
    cases (Session.applyLine file number text).run s with
    | mk result u =>
      cases result with
      | error fault => simp
      | ok _ => exact ih u

theorem applyLines_ok {file : String} {lines : List (Nat × String)} {s t : Scopes}
    (h : applyLines file lines s = (.ok (), t)) :
    ∃ constructs, lines.mapM (fun line => Line.classify line.2) = .ok constructs ∧
      s.Runs constructs t := by
  induction lines generalizing s with
  | nil =>
    obtain rfl := congrArg Prod.snd h
    exact ⟨[], rfl, .nil⟩
  | cons line rest ih =>
    obtain ⟨number, text⟩ := line
    simp only [applyLines] at h
    cases hrun : (Session.applyLine file number text).run s with
    | mk result u =>
      rw [hrun] at h
      cases result with
      | error fault => cases congrArg Prod.fst h
      | ok a =>
        obtain ⟨constructs, hconstructs, hruns⟩ := ih h
        have hline : Succeeds (Session.applyLine file number text) s () u := hrun
        unfold Session.applyLine at hline
        rw [Session.succeeds_ofExcept_bind] at hline
        obtain ⟨c, hc, hline⟩ := hline
        obtain ⟨log, hline⟩ := Session.debug_bind hline
        refine ⟨c :: constructs, ?_, .cons (Session.apply_ok hline) hruns⟩
        rw [List.mapM_cons, hc, hconstructs]
        rfl

/-- A new file: the default dependencies and a blank line. -/
def fileBlock (name : String) (isModule : Bool) (deps : List Dependency) : Block where
  kind := .file ⟨name, isModule, true, none⟩
  elements := (deps.map fun d => .statement (.dependency d)) ++ [.text "\n"]
  closed := false
  root := none

/-- The scope of a new file, before any line. -/
def start (name : String) (isModule : Bool) (deps : List Dependency) : Scopes where
  store := Store.empty.extend [fileBlock name isModule deps] 0
  file := 0
  current := ⟨[0], 0, [], [], 0, .block⟩
  outer := []
  log := []

theorem mem_fileBlock {name : String} {isModule : Bool} {deps : List Dependency} {e : Element}
    (h : e ∈ (fileBlock name isModule deps).elements) :
    (∃ d, e = .statement (.dependency d)) ∨ e = .text "\n" := by
  rcases List.mem_append.mp h with h | h
  · obtain ⟨d, _, rfl⟩ := List.mem_map.mp h
    exact Or.inl ⟨d, rfl⟩
  · exact Or.inr (List.mem_singleton.mp h)

theorem get?_start {name : String} {isModule : Bool} {deps : List Dependency} {b : BlockId}
    {block : Block} (h : (start name isModule deps).store.get? b = some block) :
    b = 0 ∧ block = fileBlock name isModule deps := by
  refine ⟨Nat.lt_one_iff.mp (Store.lt_size_of_get? h), ?_⟩
  rcases Store.get?_extend_cases h with hmem | hempty
  · exact List.mem_singleton.mp hmem
  · cases hempty

/-- The open scopes after the first lines of a script, if all of them can be applied. -/
def after (settings : Settings) (script : Script) (n : Nat) : Option Scopes :=
  match openFile script.stem settings.isModule settings.defaultDependencies with
  | .error _ => none
  | .ok scopes =>
    match (Session.append (.text "\n")).run scopes with
    | (.error _, _) => none
    | (.ok (), scopes) =>
      match scopes.applyLines script.name (script.lines.take n) with
      | (.error _, _) => none
      | (.ok (), scopes) => some scopes

theorem openFile_ok {name : String} {isModule : Bool} {preamble : List String} {s t : Scopes}
    (h : openFile name isModule preamble = .ok s)
    (happend : Succeeds (Session.append (.text "\n")) s () t) :
    ∃ deps : List Dependency, preamble.mapM (fun path => Dependency.make path none) = .ok deps ∧
      t = start name isModule deps := by
  unfold openFile at h
  cases hrun : (Edit.newFile name isModule preamble).run Store.empty with
  | mk result store =>
    rw [hrun] at h
    cases result with
    | error fault => cases h
    | ok file =>
      obtain rfl := Except.ok.inj h
      obtain ⟨rfl, deps, hdeps, rfl⟩ := Edit.newFile_ok hrun
      refine ⟨deps, hdeps, ?_⟩
      obtain ⟨store, hadd, rfl⟩ := Session.append_ok happend
      obtain ⟨block, hblock, _, rfl⟩ := Edit.append_plain_ok rfl hadd
      have hnew := Store.empty.get?_extend_single
        { kind := .file ⟨name, isModule, true, none⟩
          elements := deps.map fun d => .statement (.dependency d)
          closed := false
          root := none } 0
      obtain rfl := Option.some.inj (hnew.symm.trans hblock)
      exact congrArg (fun store => Scopes.mk store 0 ⟨[0], 0, [], [], 0, .block⟩ [] [])
        (Store.empty.replace_extend_single _ _ 0)

theorem runs_of_after {settings : Settings} {script : Script} {n : Nat} {s : Scopes}
    (h : after settings script n = some s) :
    ∃ deps constructs, (start script.stem settings.isModule deps).Runs constructs s := by
  unfold after at h
  cases hopen : openFile script.stem settings.isModule settings.defaultDependencies with
  | error fault => simp [hopen] at h
  | ok opened =>
    simp only [hopen] at h
    cases happend : (Session.append (.text "\n")).run opened with
    | mk result started =>
      cases result with
      | error fault => simp [happend] at h
      | ok a =>
        simp only [happend] at h
        obtain ⟨deps, _, rfl⟩ := openFile_ok hopen happend
        cases hlines : applyLines script.name (script.lines.take n)
            (start script.stem settings.isModule deps) with
        | mk result reached =>
          cases result with
          | error diagnostic => simp [hlines] at h
          | ok a =>
            simp only [hlines, Option.some.injEq] at h
            obtain ⟨constructs, _, hruns⟩ := applyLines_ok hlines
            exact ⟨deps, constructs, h ▸ hruns⟩

theorem finish_ok {s : Scopes} {store : Store × BlockId} (h : s.finish = .ok store) :
    s.outer = [] ∧ store = (s.store, s.file) := by
  unfold finish at h
  split_ifs at h with hroot
  exact ⟨List.isEmpty_iff.mp hroot, (Except.ok.inj h).symm⟩

end Scopes

theorem Script.map_snd_lines (script : Script) :
    script.lines.map Prod.snd = Text.sourceLines script.content := by
  simp [lines, Function.comp_def]

/-- A script that compiles starts from the scope of a new file, goes through all its lines and ends
in the same scope. -/
theorem compile_start {settings : Settings} {script : Script} {program : Program}
    {log : List LogEntry} (h : compile settings script = (.ok program, log)) :
    ∃ opened deps final,
      Scopes.openFile script.stem settings.isModule settings.defaultDependencies = .ok opened ∧
      Succeeds (Session.append (.text "\n")) opened ()
        (Scopes.start script.stem settings.isModule deps) ∧
      settings.defaultDependencies.mapM (fun path => Dependency.make path none) = .ok deps ∧
      Scopes.applyLines script.name script.lines
        (Scopes.start script.stem settings.isModule deps) = (.ok (), final) ∧
      final.outer = [] ∧ program = ⟨script.stem, final.store, final.file, settings.tabSize⟩ := by
  unfold compile at h
  cases hopen : Scopes.openFile script.stem settings.isModule settings.defaultDependencies with
  | error fault => simp [hopen] at h
  | ok s =>
    simp only [hopen] at h
    cases happend : (Session.append (.text "\n")).run s with
    | mk result t =>
      cases result with
      | error fault => simp [happend] at h
      | ok a =>
        simp only [happend] at h
        obtain ⟨deps, hdeps, rfl⟩ := Scopes.openFile_ok hopen happend
        cases hlines : Scopes.applyLines script.name script.lines
            (Scopes.start script.stem settings.isModule deps) with
        | mk result final =>
          cases result with
          | error diagnostic => simp [hlines] at h
          | ok a =>
            simp only [hlines] at h
            cases hfinish : final.finish with
            | error fault => simp [hfinish] at h
            | ok closed =>
              simp only [hfinish, Prod.mk.injEq, Except.ok.injEq] at h
              obtain ⟨hroot, rfl⟩ := Scopes.finish_ok hfinish
              exact ⟨s, deps, final, rfl, happend, hdeps, hlines, hroot, h.1.symm⟩

theorem compile_of_lines {settings : Settings} {script : Script} {opened started final : Scopes}
    (hopen : Scopes.openFile script.stem settings.isModule settings.defaultDependencies =
      .ok opened)
    (happend : Succeeds (Session.append (.text "\n")) opened () started)
    (hlines : Scopes.applyLines script.name script.lines started = (.ok (), final))
    (houter : final.outer = []) :
    ∃ log, compile settings script =
      (.ok ⟨script.stem, final.store, final.file, settings.tabSize⟩, log) := by
  have hrun : (Session.append (.text "\n")).run opened = (.ok (), started) := happend
  have hroot : final.isRoot = true := List.isEmpty_iff.mpr houter
  simp only [compile, hopen, hrun, hlines, Scopes.finish, hroot, if_true]
  exact ⟨_, rfl⟩

/-- A script that compiles is a run of its lines that ends where it started, in the scope of the
file. Every shorter run is the run of the first lines. -/
theorem compile_run {settings : Settings} {script : Script} {program : Program}
    {log : List LogEntry} (h : compile settings script = (.ok program, log)) :
    ∃ deps constructs final,
      settings.defaultDependencies.mapM (fun path => Dependency.make path none) = .ok deps ∧
      script.lines.mapM (fun line => Line.classify line.2) = .ok constructs ∧
      (Scopes.start script.stem settings.isModule deps).Runs constructs final ∧
      final.outer = [] ∧
      program = ⟨script.stem, final.store, final.file, settings.tabSize⟩ ∧
      ∀ n, ∃ s, Scopes.after settings script n = some s ∧
        (Scopes.start script.stem settings.isModule deps).Runs (constructs.take n) s := by
  obtain ⟨opened, deps, final, hopen, happend, hdeps, hlines, hroot, hprogram⟩ := compile_start h
  obtain ⟨constructs, hconstructs, hruns⟩ := Scopes.applyLines_ok hlines
  refine ⟨deps, constructs, final, hdeps, hconstructs, hruns, hroot, hprogram, ?_⟩
  intro n
  rw [← List.take_append_drop n script.lines] at hlines
  obtain ⟨s, hfront, _⟩ := (Scopes.applyLines_append _ _ _ _ _).mp hlines
  obtain ⟨front, hclassify, hfrontRuns⟩ := Scopes.applyLines_ok hfront
  have htake : (script.lines.take n).mapM (fun line => Line.classify line.2) =
      .ok (constructs.take n) := by
    rw [except_mapM_ok] at hconstructs ⊢
    exact List.forall₂_take n hconstructs
  obtain rfl := Except.ok.inj (htake.symm.trans hclassify)
  have hrun : (Session.append (.text "\n")).run opened =
      (.ok (), Scopes.start script.stem settings.isModule deps) := happend
  refine ⟨s, ?_, hfrontRuns⟩
  simp only [Scopes.after, hopen, hrun, hfront]

theorem compile_ok {settings : Settings} {script : Script} {program : Program}
    {log : List LogEntry} (h : compile settings script = (.ok program, log)) :
    ∃ deps constructs final,
      script.lines.mapM (fun line => Line.classify line.2) = .ok constructs ∧
      (Scopes.start script.stem settings.isModule deps).Runs constructs final ∧
      final.outer = [] ∧
      program = ⟨script.stem, final.store, final.file, settings.tabSize⟩ ∧
      ∀ n, ∃ s, Scopes.after settings script n = some s ∧
        (Scopes.start script.stem settings.isModule deps).Runs (constructs.take n) s := by
  obtain ⟨deps, constructs, final, _, hrest⟩ := compile_run h
  exact ⟨deps, constructs, final, hrest⟩

/-- A check of the compiled program that evaluates to true. -/
theorem exists_of_compile_any (settings : Settings) (script : Script) (check : Program → Bool)
    (h : (compile settings script).1.toOption.any check = true) :
    ∃ program log, compile settings script = (.ok program, log) ∧ check program = true := by
  cases hresult : compile settings script with
  | mk result log =>
    rw [hresult] at h
    cases result with
    | error diagnostic => cases h
    | ok program => exact ⟨program, log, rfl, h⟩

end LineScript
