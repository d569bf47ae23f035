import LineScript.Proofs.Edits
import LineScript.Proofs.ModulePaths
import LineScript.Settings
import Mathlib.Data.List.Nodup

/-!
# Preambles of files

A file made with valid settings uses the modules that the settings list, one after the other. The
settings may not list a text twice; whether a module is used twice is decided by the names of its
path, so that a module listed in two ways of writing is used twice.
-/
namespace LineScript

section Except

variable {ε α β : Type} {f : α → Except ε β} {as : List α}

theorem mapM_ok_iff_map (bs : List β) : as.mapM f = .ok bs ↔ as.map f = bs.map .ok := by
  rw [except_mapM_ok, ← List.forall₂_eq_eq_eq, List.forall₂_map_left_iff,
    List.forall₂_map_right_iff]

theorem exists_mapM_ok (h : ∀ a ∈ as, ∃ b, f a = .ok b) : ∃ bs, as.mapM f = .ok bs := by
  induction as with
  | nil => exact ⟨[], rfl⟩
  | cons a as ih =>
    rw [List.forall_mem_cons] at h
    obtain ⟨⟨b, hb⟩, hrest⟩ := h
    obtain ⟨bs, hbs⟩ := ih hrest
    exact ⟨b :: bs, by rw [List.mapM_cons, hb, hbs]; rfl⟩

end Except

namespace Settings

theorem checkDependencies_ok_iff (seen paths : List String) :
    checkDependencies seen paths = .ok () ↔
      (∀ path ∈ paths, ∃ module, modulePath path = .ok module) ∧ paths.Nodup ∧
        ∀ path ∈ paths, path ∉ seen := by
  induction paths generalizing seen with
  | nil => simp [checkDependencies]
  | cons path rest ih =>
    rw [checkDependencies, List.forall_mem_cons, List.nodup_cons, List.forall_mem_cons]
    cases hmodule : modulePath path with
    | error fault => simp
    | ok module =>
      by_cases hseen : path ∈ seen
      · simp [hseen]
      · have hfresh : seen.contains path = false := by simpa using hseen
        simp only [hfresh, Bool.false_eq_true, if_false, ih, List.mem_cons, not_or]
        constructor
        · rintro ⟨hrest, hnodup, hnew⟩
          exact ⟨⟨⟨module, rfl⟩, hrest⟩, ⟨fun hmem => (hnew path hmem).1 rfl, hnodup⟩, hseen,
            fun other hother => (hnew other hother).2⟩
        · rintro ⟨⟨_, hrest⟩, ⟨hpath, hnodup⟩, _, hnew⟩
          exact ⟨hrest, hnodup, fun other hother => ⟨fun heq => hpath (heq ▸ hother),
            hnew other hother⟩⟩

theorem validate_ok_iff (s : Settings) :
    s.validate = .ok () ↔
      (s.tabSize ≠ 0 ∧ s.tabSize ≤ 8) ∧ isBareExtension s.extension = true ∧
        (∀ path ∈ s.defaultDependencies, ∃ module, modulePath path = .ok module) ∧
        s.defaultDependencies.Nodup := by
  unfold validate
  rw [except_guard_ok, except_guard_ok, checkDependencies_ok_iff, not_or, Nat.not_lt]
  simp

end Settings

/-- A new file that uses the modules. -/
def Block.ofModules (name : String) (isModule : Bool) (modules : List String) : Block where
  kind := .file ⟨name, isModule, true, none⟩
  elements := modules.map fun module => .statement (.dependency ⟨module, none⟩)
  closed := false
  root := none

namespace Edit

variable {s : Store}

theorem append_dependency_of_header {file : BlockId} {block : Block} {info : FileInfo}
    (hblock : s.get? file = some block) (hopen : block.closed = false)
    (hkind : block.kind = .file info) (hheader : info.headerDone = false) (d : Dependency) :
    Succeeds (append file (.statement (.dependency d))) s ()
      (s.replace file
        { block with elements := block.elements ++ [.statement (.dependency d)] }) := by
  have hplace : appendDependency file block d =
      modify fun store => store.push file (.statement (.dependency d)) := by
    simp only [appendDependency, hkind, hheader, Bool.false_eq_true, if_false]
  rw [append_ok_iff]
  refine ⟨block, hblock, hopen, ?_⟩
  change Succeeds (appendDependency file block d) s () _
  rw [hplace, succeeds_modify, Store.push, Store.update_eq_replace hblock]

theorem appendPreamble_of_modules {file : BlockId} {preamble modules : List String} {block : Block}
    {info : FileInfo} (hblock : s.get? file = some block) (hopen : block.closed = false)
    (hkind : block.kind = .file info) (hheader : info.headerDone = false)
    (h : List.Forall₂ (fun path module => modulePath path = .ok module) preamble modules) :
    Succeeds (appendPreamble file preamble) s ()
      (s.replace file
        { block with
          elements := block.elements ++
            modules.map fun module => .statement (.dependency ⟨module, none⟩) }) := by
  induction h generalizing s block with
  | nil =>
    simp only [List.map_nil, List.append_nil]
    change Succeeds (pure ()) s () (s.replace file block)
    rw [Store.replace_self hblock, succeeds_pure]
    exact ⟨rfl, rfl⟩
  | @cons path module rest modules hmodule _ ih =>
    have hmake : Dependency.make path none = .ok ⟨module, none⟩ := by
      rw [Dependency.make, hmodule]
      rfl
    have happend := append_dependency_of_header hblock hopen hkind hheader ⟨module, none⟩
    have hnext := Store.get?_replace_self (Store.lt_size_of_get? hblock)
      { block with elements := block.elements ++ [.statement (.dependency ⟨module, none⟩)] }
    have hrest := ih hnext hopen hkind
    rw [Store.replace_replace] at hrest
    simp only [List.append_assoc, List.singleton_append] at hrest
    unfold appendPreamble
    rw [succeeds_ofExcept_bind]
    refine ⟨_, hmake, ?_⟩
    rw [succeeds_bind]
    exact ⟨(), _, happend, hrest⟩

/-- A file whose preamble consists of module paths is made, and uses these modules in order. -/
theorem newFile_of_modules {preamble modules : List String}
    (h : List.Forall₂ (fun path module => modulePath path = .ok module) preamble modules)
    (s : Store) (name : String) (isModule : Bool) :
    Succeeds (newFile name isModule preamble) s s.size
      (s.extend [.ofModules name isModule modules] s.fresh) := by
  have halloc : Succeeds (alloc (.file ⟨name, isModule, false, none⟩)) s s.size
      (s.extend [Block.ofKind (.file ⟨name, isModule, false, none⟩)] s.fresh) := by
    unfold alloc
    rw [succeeds_get_bind, succeeds_set_bind, succeeds_pure]
    exact ⟨rfl, by simp [Store.extend]⟩
  unfold newFile
  rw [succeeds_bind]
  refine ⟨_, _, halloc, ?_⟩
  rw [succeeds_bind]
  refine ⟨(), _, appendPreamble_of_modules (s.get?_extend_single _ _) rfl rfl rfl h, ?_⟩
  rw [succeeds_modify_bind, succeeds_pure, Store.replace_extend_single,
    Store.update_eq_replace (s.get?_extend_single _ _), Store.replace_extend_single]
  exact ⟨rfl, rfl⟩

end Edit

/-- The two paths have the same names, whatever stands between and around these. -/
def SameNames (p q : String) : Prop :=
  ∃ names, Text.Segments (Text.trimBoth p.toList) names ∧
    Text.Segments (Text.trimBoth q.toList) names

/-- The names of a path can be told from its module. -/
theorem modulePath_eq_iff {p q module : String} (h : modulePath p = .ok module) :
    modulePath p = modulePath q ↔ SameNames p q := by
  have hsplit {s : List Char} {names : List (List Char)} (hs : Text.Segments s names) :
      Text.splitDoubleColons (List.intercalate [':', ':'] names) = names := by
    rw [← hs.dotted_eq]
    exact (Text.segments_iff.mp hs).1
  obtain ⟨names, hp, rfl⟩ := modulePath_ok_iff.mp h
  rw [h]
  constructor
  · intro hq
    obtain ⟨others, hothers, heq⟩ := modulePath_ok_iff.mp hq.symm
    have hsame : names = others := by
      rw [← hsplit hp, ← hsplit hothers, String.ofList_injective heq]
    exact ⟨names, hp, hsame ▸ hothers⟩
  · rintro ⟨others, hp', hq⟩
    have hsame : names = others :=
      (Text.segments_iff.mp hp).1.symm.trans (Text.segments_iff.mp hp').1
    exact (modulePath_ok_iff.mpr ⟨names, hsame ▸ hq, rfl⟩).symm

/-- Two modules of a list are the same exactly if their paths have the same names. -/
theorem nodup_modules_iff {paths modules : List String} (h : paths.mapM modulePath = .ok modules) :
    modules.Nodup ↔ paths.Pairwise fun p q => ¬ SameNames p q := by
  have hok : Function.Injective (Except.ok : String → Except Fault String) :=
    fun _ _ => Except.ok.inj
  have hmap := (mapM_ok_iff_map _).mp h
  rw [← List.nodup_map_iff hok, ← hmap, List.Nodup, List.pairwise_map]
  refine List.Pairwise.iff_of_mem fun {p q} hp _ => ?_
  obtain ⟨module, _, hmodule⟩ := List.mem_map.mp (hmap ▸ List.mem_map_of_mem hp)
  rw [ne_eq, modulePath_eq_iff hmodule.symm]

/-- Valid settings give a file its preamble. The file is made in any store, and uses one module for
each listed dependency, in the order of the list. No text is listed twice; the modules differ from
one another exactly if no two of the listed paths have the same names. -/
theorem validated_preamble (s : Settings) (h : s.validate = .ok ()) (store : Store) (name : String)
    (isModule : Bool) :
    ∃ modules, s.defaultDependencies.mapM modulePath = .ok modules ∧
      Succeeds (Edit.newFile name isModule s.defaultDependencies) store store.size
        (store.extend [.ofModules name isModule modules] store.fresh) ∧
      s.defaultDependencies.Nodup ∧
      (modules.Nodup ↔ s.defaultDependencies.Pairwise fun p q => ¬ SameNames p q) := by
  obtain ⟨_, _, hpaths, hnodup⟩ := (Settings.validate_ok_iff s).mp h
  obtain ⟨modules, hmodules⟩ := exists_mapM_ok hpaths
  exact ⟨modules, hmodules,
    Edit.newFile_of_modules ((except_mapM_ok _ _ _).mp hmodules) store name isModule, hnodup,
    nodup_modules_iff hmodules⟩

/-- Dependencies in several ways of writing. -/
def mixedSettings : Settings :=
  { defaultDependencies := ["strict", " stdlib.util", "a::b.c"] }

theorem validated_preamble_mixed :
    mixedSettings.validate = .ok () ∧
      Succeeds (Edit.newFile "t" true mixedSettings.defaultDependencies) Store.empty 0
        (Store.empty.extend [.ofModules "t" true ["strict", "stdlib::util", "a::b::c"]] 0) ∧
      mixedSettings.defaultDependencies.Pairwise fun p q => ¬ SameNames p q := by
  have hvalid : mixedSettings.validate = .ok () := except_toOption_eq_some (by decide +kernel)
  have hlist : mixedSettings.defaultDependencies.mapM modulePath =
      .ok ["strict", "stdlib::util", "a::b::c"] := except_toOption_eq_some (by decide +kernel)
  obtain ⟨modules, hmodules, hfile, _, hdistinct⟩ :=
    validated_preamble mixedSettings hvalid Store.empty "t" true
  obtain rfl := Except.ok.inj (hmodules.symm.trans hlist)
  exact ⟨hvalid, hfile, hdistinct.mp (by decide)⟩

/-- Two ways of writing one path. -/
def twofoldSettings : Settings :=
  { defaultDependencies := ["a.b", "a::b"] }

/-- Valid settings may give a file the same module twice. -/
theorem preamble_repeats_module :
    twofoldSettings.validate = .ok () ∧
      Succeeds (Edit.newFile "t" false twofoldSettings.defaultDependencies) Store.empty 0
        (Store.empty.extend [.ofModules "t" false ["a::b", "a::b"]] 0) ∧
      ¬ ["a::b", "a::b"].Nodup := by
  have hlist : twofoldSettings.defaultDependencies.mapM modulePath = .ok ["a::b", "a::b"] :=
    except_toOption_eq_some (by decide +kernel)
  exact ⟨except_toOption_eq_some (by decide +kernel),
    Edit.newFile_of_modules ((except_mapM_ok _ _ _).mp hlist) Store.empty "t" false, by decide⟩

end LineScript
