import LineScript.Proofs.Tables

/-!
# Names made up for loops

A loop over an array counts with a name and keeps the length of the array under another, both made
up by the store. The names of the loops of a script are numbered through, so that no two of them
are the same. A script may still bind one of them itself: the names keep apart from the script's
own exactly if none of its lines does.
-/
namespace LineScript

/-- The name that the loop with this number counts with. -/
def counterName (k : Nat) : String :=
  s!"__i{2 * k}"

/-- The name under which the loop with this number keeps the length of its array. -/
def lengthName (k : Nat) : String :=
  s!"__len{2 * k + 1}"

def madeUpNames (n : Nat) : List String :=
  (List.range n).flatMap fun k => [counterName k, lengthName k]

theorem madeUpNames_succ (n : Nat) :
    madeUpNames (n + 1) = madeUpNames n ++ [counterName n, lengthName n] := by
  unfold madeUpNames
  rw [List.range_succ, List.flatMap_append, List.flatMap_singleton]

theorem mem_madeUpNames {n : Nat} {name : String} :
    name ∈ madeUpNames n ↔ ∃ k < n, name ∈ [counterName k, lengthName k] := by
  simp only [madeUpNames, List.mem_flatMap, List.mem_range]

theorem numbered_injective (stem : String) {m n : Nat}
    (h : stem ++ toString m = stem ++ toString n) : m = n := by
  have hchars := congrArg String.toList h
  rw [String.toList_append, String.toList_append] at hchars
  have hdigits := List.append_cancel_left hchars
  have hnumber := congrArg (fun digits => Nat.ofDigitChars 10 digits 0) hdigits
  simpa [Nat.toString_eq_ofList_toDigits] using hnumber

theorem counterName_injective {j k : Nat} (h : counterName j = counterName k) : j = k := by
  have hdouble : 2 * j = 2 * k := numbered_injective "__i" h
  omega

theorem lengthName_injective {j k : Nat} (h : lengthName j = lengthName k) : j = k := by
  have hdouble : 2 * j + 1 = 2 * k + 1 := numbered_injective "__len" h
  omega

theorem counterName_ne_lengthName (j k : Nat) : counterName j ≠ lengthName k := by
  intro h
  have hchars := congrArg String.toList h
  rw [counterName, lengthName, String.toList_append, String.toList_append] at hchars
  change '_' :: '_' :: 'i' :: (toString (2 * j)).toList =
    '_' :: '_' :: 'l' :: 'e' :: 'n' :: (toString (2 * k + 1)).toList at hchars
  simp at hchars

theorem madeUpNames_nodup (n : Nat) : (madeUpNames n).Nodup := by
  induction n with
  | zero => exact List.nodup_nil
  | succ n ih =>
    rw [madeUpNames_succ, List.nodup_append]
    refine ⟨ih, by simp [counterName_ne_lengthName], ?_⟩
    intro name hname other hother heq
    subst heq
    obtain ⟨k, hk, hcase⟩ := mem_madeUpNames.mp hname
    rw [List.mem_cons, List.mem_singleton] at hcase hother
    rcases hother with rfl | rfl
    · rcases hcase with hcase | hcase
      · have := counterName_injective hcase
        omega
      · exact counterName_ne_lengthName _ _ hcase
    · rcases hcase with hcase | hcase
      · exact counterName_ne_lengthName _ _ hcase.symm
      · have := lengthName_injective hcase
        omega

def Construct.isLoop : Construct → Bool
  | .loop _ _ => true
  | _ => false

/-- The names of variables, parameters and elements of loops that a line binds. -/
def Construct.boundNames : Construct → List String
  | .declare _ name _ => [name]
  | .routine _ parameters _ => parameters.map Parameter.name
  | .loop element _ => [element]
  | .signal _ parameter => parameter.toList
  | _ => []

/-- A name is bound by the lines that declare it, take it as a parameter, loop with it or handle a
signal with it. -/
theorem Construct.not_mem_boundNames_iff {lines : List Construct} {name : String} :
    name ∉ lines.flatMap boundNames ↔
      (∀ type value, .declare type name value ∉ lines) ∧
      (∀ routine parameters returns, .routine routine parameters returns ∈ lines →
        ∀ p ∈ parameters, p.name ≠ name) ∧
      (∀ iterable, .loop name iterable ∉ lines) ∧
      ∀ signal, .signal signal (some name) ∉ lines := by
  rw [List.mem_flatMap, not_exists]
  constructor
  · intro hunbound
    have hline {c : Construct} (hc : c ∈ lines) : name ∉ c.boundNames :=
      fun hname => hunbound c ⟨hc, hname⟩
    refine ⟨fun type value hc => hline hc List.mem_cons_self, ?_,
      fun iterable hc => hline hc List.mem_cons_self,
      fun signal hc => hline hc (Option.mem_toList.mpr rfl)⟩
    intro routine parameters returns hc p hp hname
    exact hline hc (List.mem_map.mpr ⟨p, hp, hname⟩)
  · rintro ⟨hdeclare, hroutine, hloop, hsignal⟩ c ⟨hc, hname⟩
    cases c with
    | declare type other value =>
      obtain rfl := List.mem_singleton.mp hname
      exact hdeclare type value hc
    | routine routine parameters returns =>
      obtain ⟨p, hp, heq⟩ := List.mem_map.mp hname
      exact hroutine routine parameters returns hc p hp heq
    | loop element iterable =>
      obtain rfl := List.mem_singleton.mp hname
      exact hloop iterable hc
    | signal signal parameter =>
      obtain rfl := Option.mem_toList.mp hname
      exact hsignal signal hc
    | _ => cases hname

def BlockKind.arrayLoop? : BlockKind → Option ArrayLoop
  | .arrayLoop loop => some loop
  | _ => none

theorem BlockKind.arrayLoop?_fixed (kind : BlockKind) :
    kind.fixed.arrayLoop? = kind.arrayLoop? := by
  cases kind <;> rfl

def ArrayLoop.madeUp (loop : ArrayLoop) : List String :=
  loop.counter.name.toList ++ loop.length.name.toList

namespace Store

variable {s t : Store}

/-- The loops over arrays, in the order in which they were made. -/
def arrayLoops (s : Store) : List ArrayLoop :=
  s.blocks.toList.filterMap fun block => block.kind.arrayLoop?

def loopNames (s : Store) : List String :=
  s.arrayLoops.flatMap ArrayLoop.madeUp

theorem arrayLoops_eq_of_kindOf (h : ∀ i, t.kindOf i = s.kindOf i) :
    t.arrayLoops = s.arrayLoops := by
  have hfilter (u : Store) : u.arrayLoops =
      (u.blocks.toList.map fun block => block.kind.fixed).filterMap BlockKind.arrayLoop? := by
    rw [arrayLoops, List.filterMap_map]
    apply List.filterMap_congr
    intro block _
    exact block.kind.arrayLoop?_fixed.symm
  rw [hfilter, hfilter]
  apply congrArg
  apply List.ext_getElem?
  intro i
  rw [List.getElem?_map, List.getElem?_map, Array.getElem?_toList, Array.getElem?_toList]
  exact h i

theorem arrayLoops_extend (made : List Block) (fresh : Nat) :
    (s.extend made fresh).arrayLoops =
      s.arrayLoops ++ made.filterMap fun block => block.kind.arrayLoop? := by
  rw [arrayLoops, extend, Array.toList_append, List.filterMap_append]
  rfl

/-- Two names have been made up for each loop over an array, and the loop has them. -/
structure Numbered (s : Store) : Prop where
  fresh : s.fresh = 2 * s.arrayLoops.length
  names : s.loopNames = madeUpNames s.arrayLoops.length

namespace Numbered

theorem of_kindOf (h : s.Numbered) (hfresh : t.fresh = s.fresh)
    (hkinds : ∀ i, t.kindOf i = s.kindOf i) : t.Numbered := by
  have hloops := arrayLoops_eq_of_kindOf hkinds
  refine ⟨by rw [hfresh, hloops, h.fresh], ?_⟩
  rw [loopNames, hloops, ← h.names, loopNames]

theorem extend_other (h : s.Numbered) {made : List Block}
    (hmade : made.filterMap (fun block => block.kind.arrayLoop?) = []) :
    (s.extend made s.fresh).Numbered := by
  have hloops : (s.extend made s.fresh).arrayLoops = s.arrayLoops := by
    rw [arrayLoops_extend, hmade, List.append_nil]
  refine ⟨by rw [hloops, ← h.fresh]; rfl, ?_⟩
  rw [loopNames, hloops, ← h.names, loopNames]

theorem extend_loop (h : s.Numbered) {loop : ArrayLoop}
    (hcounter : loop.counter.name = some s!"__i{s.fresh}")
    (hlength : loop.length.name = some s!"__len{s.fresh + 1}") :
    (s.extend [Block.ofKind (.arrayLoop loop)] (s.fresh + 2)).Numbered := by
  have hloops : (s.extend [Block.ofKind (.arrayLoop loop)] (s.fresh + 2)).arrayLoops =
      s.arrayLoops ++ [loop] := s.arrayLoops_extend _ _
  have hmadeUp : loop.madeUp =
      [counterName s.arrayLoops.length, lengthName s.arrayLoops.length] := by
    rw [ArrayLoop.madeUp, hcounter, hlength, h.fresh]
    rfl
  refine ⟨?_, ?_⟩
  · rw [hloops, List.length_append, List.length_singleton, Nat.mul_add, ← h.fresh]
    rfl
  · rw [loopNames, hloops, List.flatMap_append, List.flatMap_singleton, List.length_append,
      List.length_singleton, madeUpNames_succ, ← h.names, hmadeUp]
    rfl

end Numbered

end Store

namespace Scopes

variable {s t : Scopes}

theorem Opening.numbered {c : Construct} {o : Opened} (h : s.Opening c o)
    (hnumbered : s.store.Numbered) :
    (s.store.extend o.made o.fresh).Numbered ∧
      (s.store.extend o.made o.fresh).arrayLoops.length ≤
        s.store.arrayLoops.length + [c].countP Construct.isLoop := by
  rw [Store.arrayLoops_extend, List.length_append]
  cases h with
  | plain => exact ⟨hnumbered.extend_other rfl, Nat.le_refl _⟩
  | condition _ _ _ => exact ⟨hnumbered.extend_other rfl, Nat.le_refl _⟩
  | attempt _ => exact ⟨hnumbered.extend_other rfl, Nat.le_refl _⟩
  | routine _ _ => exact ⟨hnumbered.extend_other rfl, Nat.le_refl _⟩
  | signal _ => exact ⟨hnumbered.extend_other rfl, Nat.le_refl _⟩
  | mapLoop _ _ _ => exact ⟨hnumbered.extend_other rfl, Nat.le_succ _⟩
  | arrayLoop _ _ _ hcounter hlength _ _ =>
    exact ⟨hnumbered.extend_loop (Value.make_ok hcounter).2.1 (Value.make_ok hlength).2.1,
      Nat.le_refl _⟩

theorem fresh_of_append {s t : Store} {parent : BlockId} {element : Element}
    (hchild : element.child? = none) (h : Succeeds (Edit.append parent element) s () t) :
    t.fresh = s.fresh := by
  obtain ⟨block, changed, _, _, rfl, _⟩ := Edit.append_childless_ok hchild h
  rfl

theorem Stays.fresh {c : Construct} (h : s.Stays c t) : t.store.fresh = s.store.fresh := by
  cases h with
  | note log => rfl
  | add log hadds happend => exact fresh_of_append hadds.child? happend
  | declare log _ _ _ happend => exact fresh_of_append rfl happend
  | hoist log _ happend => exact fresh_of_append rfl happend
  | package log _ happend => exact fresh_of_append rfl happend

/-- Only a line that opens a loop makes up names. -/
theorem numbered_of_runs {name : String} {isModule : Bool} {deps : List Dependency}
    {lines : List Construct} (hruns : (start name isModule deps).Runs lines s) :
    s.store.Numbered ∧ s.store.arrayLoops.length ≤ lines.countP Construct.isLoop := by
  refine (hruns.invariant_of_start (fun lines s => s.store.Numbered ∧
    s.store.arrayLoops.length ≤ lines.countP Construct.isLoop) ?_ ?_ ?_ ?_ ?_).2.2
  · exact ⟨⟨rfl, rfl⟩, Nat.le_refl _⟩
  · rintro lines c s t _ _ hmove ⟨hnumbered, hle⟩
    have hkinds := hmove.sameLinks.kind
    rw [Store.arrayLoops_eq_of_kindOf hkinds]
    exact ⟨hnumbered.of_kindOf hmove.fresh hkinds, hle⟩
  · rintro lines c s _ _ ⟨hnumbered, hle⟩
    rw [List.countP_append]
    exact ⟨hnumbered, Nat.le_add_right_of_le hle⟩
  · rintro lines c s o log _ _ _ hopening ⟨hnumbered, hle⟩
    obtain ⟨hopened, hloops⟩ := hopening.numbered hnumbered
    rw [List.countP_append]
    exact ⟨hopened, Nat.le_trans hloops (Nat.add_le_add_right hle _)⟩
  · rintro lines c s t hlinked _ _ hmove ⟨hnumbered, hle⟩
    obtain ⟨parent, outer, block, inner, log, _, hgt, hblock, _, hinner, _, _, rfl⟩ :=
      hlinked.attach_of_closes hmove
    have hkinds := Store.kindOf_attach hinner hblock (Nat.ne_of_gt hgt)
      (Session.mergedElement s.current)
    rw [List.countP_append, Store.arrayLoops_eq_of_kindOf hkinds]
    exact ⟨hnumbered.of_kindOf rfl hkinds, Nat.le_add_right_of_le hle⟩

end Scopes

/-- The names made up for the loops of a compiled script are numbered through and different from
each other. They keep apart from the names that the script binds exactly if no line declares such a
name, takes it as a parameter, loops with it or handles a signal with it. -/
theorem loop_names_numbered {settings : Settings} {script : Script} {program : Program}
    {log : List LogEntry} (h : compile settings script = (.ok program, log)) :
    ∃ lines, script.lines.mapM (fun line => Line.classify line.2) = .ok lines ∧
      program.store.arrayLoops.length ≤ lines.countP Construct.isLoop ∧
      program.store.loopNames = madeUpNames program.store.arrayLoops.length ∧
      program.store.loopNames.Nodup ∧
      ((∀ name ∈ program.store.loopNames, name ∉ lines.flatMap Construct.boundNames) ↔
        ∀ k < program.store.arrayLoops.length, ∀ name ∈ [counterName k, lengthName k],
          (∀ type value, .declare type name value ∉ lines) ∧
          (∀ routine parameters returns, .routine routine parameters returns ∈ lines →
            ∀ p ∈ parameters, p.name ≠ name) ∧
          (∀ iterable, .loop name iterable ∉ lines) ∧
          ∀ signal, .signal signal (some name) ∉ lines) := by
  obtain ⟨deps, lines, final, hlines, hruns, _, rfl, _⟩ := compile_ok h
  obtain ⟨hnumbered, hle⟩ := Scopes.numbered_of_runs hruns
  refine ⟨lines, hlines, hle, hnumbered.names, ?_, ?_⟩
  · rw [hnumbered.names]
    exact madeUpNames_nodup _
  · simp only [← Construct.not_mem_boundNames_iff, hnumbered.names]
    constructor
    · intro happart k hk name hname
      exact happart name (mem_madeUpNames.mpr ⟨k, hk, hname⟩)
    · intro hunbound name hname
      obtain ⟨k, hk, hname⟩ := mem_madeUpNames.mp hname
      exact hunbound k hk name hname

theorem loop_names_numbered_nested :
    ∃ program log lines,
      compile {} (.ofSource "a" "Array xs = [1]\nfor x in xs \x7b\nfor y in xs \x7b\n\x7d\n\x7d") =
        (.ok program, log) ∧
      (Script.ofSource "a"
        "Array xs = [1]\nfor x in xs \x7b\nfor y in xs \x7b\n\x7d\n\x7d").lines.mapM
          (fun line => Line.classify line.2) = .ok lines ∧
      program.store.loopNames = ["__i0", "__len1", "__i2", "__len3"] ∧
      program.store.loopNames.Nodup ∧
      ((∀ name ∈ program.store.loopNames, name ∉ lines.flatMap Construct.boundNames) ↔
        ∀ k < 2, ∀ name ∈ [counterName k, lengthName k],
          (∀ type value, .declare type name value ∉ lines) ∧
          (∀ routine parameters returns, .routine routine parameters returns ∈ lines →
            ∀ p ∈ parameters, p.name ≠ name) ∧
          (∀ iterable, .loop name iterable ∉ lines) ∧
          ∀ signal, .signal signal (some name) ∉ lines) := by
  obtain ⟨program, log, h, hlength⟩ := exists_of_compile_any {}
    (.ofSource "a" "Array xs = [1]\nfor x in xs \x7b\nfor y in xs \x7b\n\x7d\n\x7d")
    (fun program => program.store.arrayLoops.length == 2) (by decide +kernel)
  obtain ⟨lines, hlines, _, hnames, hnodup, happart⟩ := loop_names_numbered h
  rw [beq_iff_eq.mp hlength] at hnames happart
  exact ⟨program, log, lines, h, hlines, hnames.trans (by decide +kernel), hnodup, happart⟩

/-- A script may declare the name that its loop counts with, and change it in the loop. -/
theorem loop_name_declared :
    ∃ program log lines,
      compile { defaultDependencies := [] }
          (.ofSource "a" "Array xs = [1]\nInt __i0 = 7\nfor x in xs \x7b\n__i0.add(1)\n\x7d") =
        (.ok program, log) ∧
      (Script.ofSource "a"
        "Array xs = [1]\nInt __i0 = 7\nfor x in xs \x7b\n__i0.add(1)\n\x7d").lines.mapM
          (fun line => Line.classify line.2) = .ok lines ∧
      "__i0" ∈ program.store.loopNames ∧ "__i0" ∈ lines.flatMap Construct.boundNames := by
  obtain ⟨program, log, h, hname⟩ := exists_of_compile_any { defaultDependencies := [] }
    (.ofSource "a" "Array xs = [1]\nInt __i0 = 7\nfor x in xs \x7b\n__i0.add(1)\n\x7d")
    (fun program => program.store.loopNames.contains "__i0") (by decide +kernel)
  obtain ⟨_, lines, _, hlines, _⟩ := compile_ok h
  have hbound : ((Script.ofSource "a"
      "Array xs = [1]\nInt __i0 = 7\nfor x in xs \x7b\n__i0.add(1)\n\x7d").lines.mapM
        (fun line => Line.classify line.2)).toOption.any
          (fun lines => (lines.flatMap Construct.boundNames).contains "__i0") = true := by
    decide +kernel
  rw [hlines] at hbound
  exact ⟨program, log, lines, h, hlines, List.contains_iff_mem.mp hname,
    List.contains_iff_mem.mp hbound⟩

end LineScript
