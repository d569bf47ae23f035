import LineScript.Proofs.Constructs
import LineScript.Proofs.Statements
import LineScript.Statement

/-!
# Module paths

The names of a module path have dots or double colons between them. The dots become double colons
before the text is cut at its double colons, so that dots and colons side by side run together.
Still a name stands behind two colons only, and these were one dot or one double colon. Hence a path
is accepted exactly if the rule of the line grammar reads all of it, and the module is its names
with double colons between them.
-/
namespace LineScript

/-- The module path that a construct carries. -/
def Construct.path? : Construct → Option String
  | importModule path _ => some path
  | package path => some path
  | _ => none

namespace Text

/-- The names of a path, with a dot or a double colon between any two. -/
inductive Segments : List Char → List (List Char) → Prop where
  | name {s : List Char} (h : isName s = true) : Segments s [s]
  | dot {s t : List Char} {names : List (List Char)} (h : isName s = true) (ht : Segments t names) :
      Segments (s ++ '.' :: t) (s :: names)
  | colons {s t : List Char} {names : List (List Char)} (h : isName s = true)
      (ht : Segments t names) : Segments (s ++ ':' :: ':' :: t) (s :: names)

/-- Names with dots or double colons between them. -/
def IsPath (s : List Char) : Prop :=
  ∃ names, Segments s names

theorem isPath_name {s : List Char} (h : isName s = true) : IsPath s :=
  ⟨_, .name h⟩

theorem IsPath.separated {s t : List Char} (ht : IsPath t) (h : isName s = true) :
    IsPath (s ++ '.' :: t) ∧ IsPath (s ++ ':' :: ':' :: t) :=
  ht.elim fun _ hnames => ⟨⟨_, .dot h hnames⟩, ⟨_, .colons h hnames⟩⟩

theorem isPath_splitPathWithin {name : List Char} (h : isName name = true) (bound : Nat)
    (s : List Char) : IsPath (name ++ (splitPathWithin bound s).1) := by
  have halone {name : List Char} (h : isName name = true) : IsPath (name ++ []) := by
    rw [List.append_nil]
    exact isPath_name h
  induction bound generalizing name s with
  | zero => exact halone h
  | succ bound ih =>
    unfold splitPathWithin
    split
    · exact halone h
    · rename_i rest heq
      obtain rfl := Nat.succ.inj heq
      cases hnext : splitName rest with
      | none => exact halone h
      | some found => exact ((ih (isName_of_splitName hnext) _).separated h).2
    · rename_i rest heq
      obtain rfl := Nat.succ.inj heq
      cases hnext : splitName rest with
      | none => exact halone h
      | some found => exact ((ih (isName_of_splitName hnext) _).separated h).1
    · exact halone h

theorem isPath_of_splitModulePath {s chars rest : List Char}
    (h : splitModulePath s = some (chars, rest)) : IsPath chars := by
  unfold splitModulePath at h
  split at h
  · rename_i name after hname
    obtain ⟨rfl, _⟩ := Prod.mk.inj (Option.some.inj h)
    exact isPath_splitPathWithin (isName_of_splitName hname) _ _
  · cases h

/-- The path with double colons for its dots. -/
def dotted (s : List Char) : List Char :=
  s.flatMap fun c => if c = '.' then [':', ':'] else [c]

theorem dotted_name {s : List Char} (h : ∀ c ∈ s, continuesName c = true) : dotted s = s := by
  induction s with
  | nil => rfl
  | cons c rest ih =>
    rw [List.forall_mem_cons] at h
    have hdot : c ≠ '.' := by
      rintro rfl
      cases h.1
    rw [dotted, List.flatMap_cons, if_neg hdot]
    exact congrArg (c :: ·) (ih h.2)

theorem dotted_name_append {s : List Char} (h : isName s = true) (t : List Char) :
    dotted (s ++ t) = s ++ dotted t := by
  rw [dotted, List.flatMap_append]
  exact congrArg (· ++ dotted t) (dotted_name (continuesName_of_isName h))

theorem splitDoubleColons_cons {c : Char} (h : continuesName c = true) (rest : List Char) :
    splitDoubleColons (c :: rest) = (splitDoubleColons rest).modifyHead (c :: ·) := by
  rw [splitDoubleColons]
  rintro _ rfl
  cases h

/-- The part before the first double colon is a piece of its own. -/
theorem splitDoubleColons_name {s : List Char} (h : ∀ c ∈ s, continuesName c = true) :
    splitDoubleColons s = [s] ∧
      ∀ t, splitDoubleColons (s ++ ':' :: ':' :: t) = s :: splitDoubleColons t := by
  induction s with
  | nil => exact ⟨rfl, fun _ => rfl⟩
  | cons c rest ih =>
    rw [List.forall_mem_cons] at h
    obtain ⟨halone, hfollowed⟩ := ih h.2
    refine ⟨by rw [splitDoubleColons_cons h.1, halone]; rfl, fun t => ?_⟩
    rw [List.cons_append, splitDoubleColons_cons h.1, hfollowed]
    rfl

theorem Segments.not_blank {s : List Char} {names : List (List Char)} (h : Segments s names) :
    ∀ c ∈ s, isBlank c = false := by
  have hname {s : List Char} (hs : isName s = true) (c : Char) (hc : c ∈ s) : isBlank c = false :=
    isBlank_of_continuesName (continuesName_of_isName hs c hc)
  induction h with
  | name hs => exact hname hs
  | dot hs _ ih =>
    rw [List.forall_mem_append, List.forall_mem_cons]
    exact ⟨hname hs, by decide, ih⟩
  | colons hs _ ih =>
    rw [List.forall_mem_append, List.forall_mem_cons, List.forall_mem_cons]
    exact ⟨hname hs, by decide, by decide, ih⟩

theorem Segments.trimBoth_eq {s : List Char} {names : List (List Char)} (h : Segments s names) :
    trimBoth s = s :=
  trimBoth_eq_self (fun c hc => h.not_blank c (List.mem_of_head? hc))
    fun c hc => h.not_blank c (List.mem_of_getLast? hc)

theorem dotted_of_ne {c : Char} (h : c ≠ '.') (s : List Char) :
    dotted (c :: s) = c :: dotted s := by
  rw [dotted, List.flatMap_cons, if_neg h]
  rfl

theorem dotted_dotted (s : List Char) : dotted (dotted s) = dotted s := by
  induction s with
  | nil => rfl
  | cons c rest ih =>
    by_cases hc : c = '.'
    · rw [hc]
      exact congrArg (fun t => ':' :: ':' :: t) ih
    · rw [dotted_of_ne hc, dotted_of_ne hc, ih]

/-- With double colons for its dots, a path is its names with double colons between them. -/
theorem Segments.dotted_eq {s : List Char} {names : List (List Char)} (h : Segments s names) :
    dotted s = List.intercalate [':', ':'] names := by
  have hjoin {s : List Char} {names : List (List Char)} (hne : names ≠ []) :
      s ++ ':' :: ':' :: List.intercalate [':', ':'] names =
        List.intercalate [':', ':'] (s :: names) := by
    obtain ⟨n, rest, rfl⟩ := List.exists_cons_of_ne_nil hne
    rw [List.intercalate_cons_cons, List.append_assoc]
    rfl
  have hne {s : List Char} {names : List (List Char)} (h : Segments s names) : names ≠ [] := by
    cases h <;> exact List.cons_ne_nil _ _
  induction h with
  | name hs => rw [dotted_name (continuesName_of_isName hs), List.intercalate_singleton]
  | dot hs ht ih | colons hs ht ih =>
    rw [dotted_name_append hs, ← hjoin (hne ht), ← ih]
    rfl

theorem splitDoubleColons_cases (s : List Char) :
    splitDoubleColons s = [s] ∨
      ∃ n t, s = n ++ ':' :: ':' :: t ∧ splitDoubleColons s = n :: splitDoubleColons t := by
  fun_induction splitDoubleColons s with
  | case1 => exact Or.inl rfl
  | case2 rest _ => exact Or.inr ⟨[], rest, rfl, rfl⟩
  | case3 c rest _ ih =>
    rcases ih with halone | ⟨n, t, rfl, hsplit⟩
    · exact Or.inl (by rw [halone]; rfl)
    · exact Or.inr ⟨c :: n, t, rfl, by rw [hsplit]; rfl⟩

/-- No colon stands before the names. -/
theorem head_of_splitDoubleColons {s : List Char}
    (h : (splitDoubleColons s).all isName = true) : ∀ c ∈ s.head?, c ≠ ':' := by
  have hname {n : List Char} (hn : isName n = true) (t : List Char) :
      ∀ c ∈ (n ++ t).head?, c ≠ ':' := by
    cases n with
    | nil => cases hn
    | cons d rest =>
      rintro _ ⟨⟩ rfl
      cases continuesName_of_isName hn ':' List.mem_cons_self
  rcases splitDoubleColons_cases s with halone | ⟨n, t, rfl, hsplit⟩
  · rw [halone, List.all_cons, Bool.and_eq_true] at h
    simpa using hname h.1 []
  · rw [hsplit, List.all_cons, Bool.and_eq_true] at h
    exact hname h.1 _

/-- The characters of a name stand for themselves. -/
theorem name_of_dotted {n w s : List Char} (hn : ∀ c ∈ n, continuesName c = true)
    (h : dotted s = n ++ w) : ∃ t, s = n ++ t ∧ dotted t = w := by
  induction n generalizing s with
  | nil => exact ⟨s, rfl, h⟩
  | cons c n ih =>
    rw [List.forall_mem_cons] at hn
    cases s with
    | nil => cases h
    | cons d s =>
      by_cases hd : d = '.'
      · rw [hd] at h
        obtain rfl : ':' = c := (List.cons.inj h).1
        cases hn.1
      · rw [dotted_of_ne hd] at h
        obtain ⟨rfl, hrest⟩ := List.cons.inj h
        obtain ⟨t, rfl, ht⟩ := ih hn.2 hrest
        exact ⟨t, rfl, ht⟩

/-- Two colons with no further one behind them were a dot or a double colon. -/
theorem separator_of_dotted {t w : List Char} (hw : ∀ c ∈ w.head?, c ≠ ':')
    (h : dotted t = ':' :: ':' :: w) :
    ∃ u, dotted u = w ∧ (t = '.' :: u ∨ t = ':' :: ':' :: u) := by
  cases t with
  | nil => cases h
  | cons c t =>
    by_cases hc : c = '.'
    · rw [hc] at h ⊢
      exact ⟨t, (List.cons.inj (List.cons.inj h).2).2, Or.inl rfl⟩
    · rw [dotted_of_ne hc] at h
      obtain ⟨rfl, hsecond⟩ := List.cons.inj h
      cases t with
      | nil => cases hsecond
      | cons d t =>
        by_cases hd : d = '.'
        · -- A colon before a dot leaves a third colon.
          rw [hd] at hsecond
          have hthird : ':' :: dotted t = w := (List.cons.inj hsecond).2
          exact absurd rfl (hw ':' (by rw [← hthird]; rfl))
        · rw [dotted_of_ne hd] at hsecond
          obtain ⟨rfl, hrest⟩ := List.cons.inj hsecond
          exact ⟨t, hrest, Or.inr rfl⟩

theorem segments_of_splitDoubleColons {s : List Char} {names : List (List Char)}
    (h : splitDoubleColons (dotted s) = names) (hnames : names.all isName = true) :
    Segments s names := by
  induction names generalizing s with
  | nil => exact absurd h (splitDoubleColons_ne_nil _)
  | cons n rest ih =>
    rw [List.all_cons, Bool.and_eq_true] at hnames
    have hn := continuesName_of_isName hnames.1
    rcases splitDoubleColons_cases (dotted s) with halone | ⟨m, w, hdotted, hsplit⟩
    · obtain ⟨hs, rfl⟩ := List.cons.inj (halone.symm.trans h)
      rw [← List.append_nil n] at hs
      obtain ⟨t, rfl, ht⟩ := name_of_dotted hn hs
      have hnil : t = [] := by
        cases t with
        | nil => rfl
        | cons c t =>
          by_cases hc : c = '.'
          · rw [hc] at ht
            cases ht
          · rw [dotted_of_ne hc] at ht
            cases ht
      rw [hnil, List.append_nil]
      exact .name hnames.1
    · obtain ⟨rfl, hrest⟩ := List.cons.inj (hsplit.symm.trans h)
      obtain ⟨t, rfl, ht⟩ := name_of_dotted hn hdotted
      have hhead : ∀ c ∈ w.head?, c ≠ ':' :=
        head_of_splitDoubleColons (by rw [hrest]; exact hnames.2)
      obtain ⟨u, rfl, rfl | rfl⟩ := separator_of_dotted hhead ht
      · exact .dot hnames.1 (ih hrest hnames.2)
      · exact .colons hnames.1 (ih hrest hnames.2)

theorem segments_iff {s : List Char} {names : List (List Char)} :
    Segments s names ↔ splitDoubleColons (dotted s) = names ∧ names.all isName = true := by
  refine ⟨fun h => ?_, fun h => segments_of_splitDoubleColons h.1 h.2⟩
  induction h with
  | @name s hs =>
    have hchars := continuesName_of_isName hs
    rw [dotted_name hchars, (splitDoubleColons_name hchars).1]
    exact ⟨rfl, by rw [List.all_cons, hs]; rfl⟩
  | dot hs _ ih | colons hs _ ih =>
    rw [dotted_name_append hs]
    refine ⟨?_, by rw [List.all_cons, hs, ih.2]; rfl⟩
    exact ((splitDoubleColons_name (continuesName_of_isName hs)).2 _).trans (congrArg _ ih.1)

/-- The rule of the grammar reads on after a separator. -/
theorem splitPathWithin_separated {t name after : List Char} {bound : Nat}
    (hname : splitName t = some (name, after))
    (hafter : splitPathWithin bound after = (after, [])) :
    splitPathWithin (bound + 1) ('.' :: t) = ('.' :: t, []) ∧
      splitPathWithin (bound + 1) (':' :: ':' :: t) = (':' :: ':' :: t, []) := by
  have ht := append_of_splitName hname
  simp only [splitPathWithin, hname, hafter]
  rw [ht]
  exact ⟨rfl, rfl⟩

/-- What follows a name in a path is read to its end, if the bound allows it. -/
theorem Segments.splitPathWithin_eq {t : List Char} {names : List (List Char)}
    (h : Segments t names) {bound : Nat} (hbound : t.length ≤ bound) :
    splitPathWithin (bound + 1) ('.' :: t) = ('.' :: t, []) ∧
      splitPathWithin (bound + 1) (':' :: ':' :: t) = (':' :: ':' :: t, []) := by
  induction h generalizing bound with
  | @name s hs =>
    have hname : splitName (s ++ []) = some (s, []) := splitName_append hs (by simp)
    rw [List.append_nil] at hname
    exact splitPathWithin_separated hname (by cases bound <;> rfl)
  | dot hs _ ih =>
    rw [List.length_append, List.length_cons] at hbound
    cases bound with
    | zero => omega
    | succ bound =>
      exact splitPathWithin_separated (splitName_append hs fun c hc => Option.some.inj hc ▸ rfl)
        (ih (by omega)).1
  | colons hs _ ih =>
    rw [List.length_append, List.length_cons, List.length_cons] at hbound
    cases bound with
    | zero => omega
    | succ bound =>
      exact splitPathWithin_separated (splitName_append hs fun c hc => Option.some.inj hc ▸ rfl)
        (ih (by omega)).2

/-- The rule of the grammar reads exactly the paths to their ends. -/
theorem splitModulePath_iff {s : List Char} : splitModulePath s = some (s, []) ↔ IsPath s := by
  refine ⟨isPath_of_splitModulePath, ?_⟩
  rintro ⟨names, h⟩
  have hread {name after : List Char} (hname : isName name = true)
      (htail : ∀ c ∈ after.head?, continuesName c = false)
      (hafter : splitPathWithin after.length after = (after, [])) :
      splitModulePath (name ++ after) = some (name ++ after, []) := by
    simp only [splitModulePath, splitName_append hname htail, hafter]
  cases h with
  | name hs =>
    have halone : splitModulePath (s ++ []) = some (s ++ [], []) := hread hs (by simp) rfl
    rwa [List.append_nil] at halone
  | dot hs ht =>
    exact hread hs (fun c hc => Option.some.inj hc ▸ rfl)
      (ht.splitPathWithin_eq (Nat.le_refl _)).1
  | colons hs ht =>
    exact hread hs (fun c hc => Option.some.inj hc ▸ rfl)
      (ht.splitPathWithin_eq (Nat.le_succ _)).2

end Text

theorem modulePath_eq (path : String) :
    modulePath path =
      if (Text.splitDoubleColons (Text.dotted (Text.trimBoth path.toList))).all Text.isName
      then .ok (String.ofList (Text.dotted (Text.trimBoth path.toList)))
      else .error (.modulePath (Text.trim path)) :=
  rfl

/-- A path is accepted if it is made of names, and the module is these names with double colons
between them. -/
theorem modulePath_ok_iff {path module : String} :
    modulePath path = .ok module ↔
      ∃ names, Text.Segments (Text.trimBoth path.toList) names ∧
        module = String.ofList (List.intercalate [':', ':'] names) := by
  rw [modulePath_eq]
  split_ifs with hnames
  · have hsegments := Text.segments_of_splitDoubleColons rfl hnames
    rw [Except.ok.injEq]
    constructor
    · rintro rfl
      exact ⟨_, hsegments, congrArg String.ofList hsegments.dotted_eq⟩
    · rintro ⟨names, h, rfl⟩
      rw [h.dotted_eq]
  · simp only [false_iff, not_exists, not_and]
    intro names h
    obtain ⟨rfl, hall⟩ := Text.segments_iff.mp h
    exact absurd hall hnames

/-- A module path that a line holds is accepted. -/
theorem exists_modulePath {path : String} (h : Text.IsPath path.toList) :
    ∃ module, modulePath path = .ok module := by
  obtain ⟨names, hsegments⟩ := h
  refine ⟨_, modulePath_ok_iff.mpr ⟨names, ?_, rfl⟩⟩
  rw [hsegments.trimBoth_eq]
  exact hsegments

theorem modulePath_error {path : String} (h : ¬ Text.IsPath (Text.trimBoth path.toList)) :
    modulePath path = .error (.modulePath (Text.trim path)) := by
  rw [modulePath_eq]
  refine if_neg fun hnames => h ?_
  exact ⟨_, Text.segments_of_splitDoubleColons rfl hnames⟩

/-- The path of a module, as it is given, names the same module. -/
theorem modulePath_idem {path module : String} (h : modulePath path = .ok module) :
    modulePath module = .ok module := by
  obtain ⟨names, hsegments, rfl⟩ := modulePath_ok_iff.mp h
  have hcolons : Text.Segments (List.intercalate [':', ':'] names) names := by
    rw [← hsegments.dotted_eq, Text.segments_iff, Text.dotted_dotted]
    exact Text.segments_iff.mp hsegments
  rw [modulePath_ok_iff, String.toList_ofList, hcolons.trimBoth_eq]
  exact ⟨names, hcolons, rfl⟩

/-- Module paths are those of the line grammar. A path is accepted exactly if the rule of the
grammar reads all of it but the blanks at its ends, that is, if names stand in it with dots or
double colons between them; the module is this text with double colons for its dots, and names
itself. All other texts are syntax errors. -/
theorem modulePath_follows_grammar (path : String) :
    let text := Text.trimBoth path.toList
    (∀ module, modulePath path = .ok module ↔
      Text.splitModulePath text = some (text, []) ∧ module = String.ofList (Text.dotted text)) ∧
    (Text.splitModulePath text = some (text, []) ↔ Text.IsPath text) ∧
    (∀ module, modulePath path = .ok module → modulePath module = .ok module) ∧
    (¬ Text.IsPath text → modulePath path = .error (.modulePath (Text.trim path)) ∧
      (Fault.modulePath (Text.trim path)).cls.name = "SyntaxError") := by
  intro text
  refine ⟨fun module => ?_, Text.splitModulePath_iff, fun _ => modulePath_idem,
    fun h => ⟨modulePath_error h, rfl⟩⟩
  rw [modulePath_ok_iff, Text.splitModulePath_iff, Text.IsPath, exists_and_right.symm]
  exact exists_congr fun names => and_congr_right fun h => by rw [h.dotted_eq]

example : (modulePath " a.b::c ").toOption = some "a::b::c" := by decide +kernel

example : (modulePath "a:.b").toOption = none := by decide +kernel

end LineScript
