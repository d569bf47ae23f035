import LineScript.Proofs.ModulePaths
import LineScript.Proofs.Pairs
import LineScript.Proofs.Parallel
import LineScript.Proofs.Success

/-!
# Extraction follows the grammar

The grammar leaves pairs, and a construct is extracted from them by place. Here the two are compared
rule by rule: the phrase that reads the pairs and the phrase that reads the construct are parallel,
and the pairs are those that extraction takes. So extraction never meets a pair that it does not
await, whichever optional parts a line has.
-/
namespace LineScript.Line

open Phrase

section Relations

variable {α β : Type}

/-- One pair of the rule, which stands for the value. -/
def One (rule : Rule) (P : Pair → α → Prop) (pairs : List Pair) (a : α) : Prop :=
  ∃ left text parts, pairs = [⟨rule, left, text, parts⟩] ∧ P ⟨rule, left, text, parts⟩ a

/-- One word. -/
def Spells (rule : Rule) : List Pair → String → Prop :=
  One rule fun p text => p.text = text

/-- One pair from which the value is extracted. -/
def Yields (rule : Rule) (extract : Pair → Except Defect α) : List Pair → α → Prop :=
  One rule fun p a => extract p = .ok a

/-- The pairs of an optional phrase. -/
inductive Perhaps (R : List Pair → α → Prop) : List Pair → Option α → Prop where
  | none : Perhaps R [] none
  | some {pairs : List Pair} {a : α} (h : R pairs a) : Perhaps R pairs (some a)

variable {R : List Pair → α → Prop} {p : Phrase (List Pair)} {q : Phrase α} {rule : Rule}
  {P : Pair → α → Prop}

/-- One pair inside that of a rule, from which the value is extracted. -/
def Inside (outer : Rule) (extract : Pair → Except Defect α) (pairs : List Pair) (a : α) : Prop :=
  ∃ p, pairs = [p] ∧ p.rule.isKeyword = false ∧ p.rule ≠ outer ∧ extract p = .ok a

theorem One.mono {rule : Rule} {P P' : Pair → α → Prop} {pairs : List Pair} {a : α}
    (h : One rule P pairs a) (himp : ∀ p, P p a → P' p a) : One rule P' pairs a := by
  obtain ⟨left, text, parts, rfl, h⟩ := h
  exact ⟨left, text, parts, rfl, himp _ h⟩

theorem One.inside {rule outer : Rule} {P : Pair → α → Prop} {extract : Pair → Except Defect β}
    {pairs : List Pair} {a : α} {b : β} (h : One rule P pairs a)
    (hkeyword : rule.isKeyword = false) (hne : rule ≠ outer)
    (himp : ∀ left text parts, P ⟨rule, left, text, parts⟩ a →
      extract ⟨rule, left, text, parts⟩ = .ok b) : Inside outer extract pairs b := by
  obtain ⟨left, text, parts, rfl, h⟩ := h
  exact ⟨_, rfl, hkeyword, hne, himp left text parts h⟩

/-- The pairs of a list of phrases, which are no keywords. -/
theorem data_flatten {rule : Rule} {P : Pair → α → Prop} (hrule : rule.isKeyword = false)
    {lists : List (List Pair)} {as : List α} (h : List.Forall₂ (One rule P) lists as) :
    lists.flatten.filter (fun p => !p.rule.isKeyword) = lists.flatten ∧
      List.Forall₂ P lists.flatten as := by
  induction h with
  | nil => exact ⟨rfl, .nil⟩
  | cons hfirst _ ih =>
    obtain ⟨left, text, parts, rfl, hp⟩ := hfirst
    refine ⟨?_, .cons hp ih.2⟩
    rw [List.flatten_cons, List.filter_append, ih.1]
    simp [hrule]

theorem maybe_parallel (h : Parallel R p q) : Parallel (Perhaps R) (Tree.maybe p) (optional q) := by
  refine h.optional.map_left fun found found' hfound => ?_
  cases hfound with
  | none => exact .none
  | some hab => exact .some hab

theorem pairOf_parallel
    (h : Parallel (fun parts a =>
      ∀ left, P ⟨rule, left, String.join (parts.map Pair.text), parts⟩ a) p q) :
    Parallel (One rule P) (Tree.pairOf rule p) q := by
  intro s
  unfold Tree.pairOf Phrase.andThen
  rcases h.cases s with ⟨missed, hp, hq⟩ | ⟨parts, a, rest, missed, hp, hq, hparts⟩
  · rw [hp, hq]
    exact ⟨rfl, .none⟩
  · rw [hp, hq]
    exact ⟨by cases missed <;> rfl, .some ⟨⟨s.length, _, parts, rfl, hparts s.length⟩, rfl⟩⟩

theorem node_parallel
    (h : Parallel (fun parts a =>
      ∀ left, P ⟨rule, left, String.join (parts.map Pair.text), parts⟩ a) p q) :
    Parallel (One rule P) (Tree.node rule p) (named q) :=
  (pairOf_parallel h).named

/-- A word that has a property. -/
theorem word_parallel {read : List Char → Option (List Char × List Char)} {Q : List Char → Prop}
    (rule : Rule) (h : ∀ s chars rest, read s = some (chars, rest) → Q chars) :
    Parallel (One rule fun p text => p.text = text ∧ Q text.toList) (Tree.word rule read)
      (word read) := by
  refine .named (.token fun s => ?_)
  cases hread : read s with
  | none => exact .none
  | some found =>
    refine .some ⟨⟨s.length, _, [], rfl, rfl, ?_⟩, rfl⟩
    rw [String.toList_ofList]
    exact h s found.1 found.2 hread

end Relations

theorem keyword_parallel (text : String) :
    Parallel (fun pairs _ => ∃ left, pairs = [⟨.keyword text, left, text, []⟩])
      (Tree.keyword text) (keyword text) := by
  refine .named (.token fun s => ?_)
  dsimp only
  cases splitKeyword text.toList s with
  | none => exact .none
  | some found => exact .some ⟨⟨s.length, by simp⟩, rfl⟩

theorem isName_parallel :
    Parallel (One .name fun p text => p.text = text ∧ Text.isName text.toList = true) Tree.name
      name :=
  word_parallel .name fun _ _ _ h => Text.isName_of_splitName h

theorem name_parallel : Parallel (Spells .name) Tree.name name :=
  isName_parallel.mono fun _ _ h => h.mono fun _ => And.left

theorem number_parallel :
    Parallel (One .number fun p text => p.text = text ∧ IsNumber text.toList) Tree.number number :=
  word_parallel .number fun _ _ _ h => (splitNumber_ok h).2

theorem chain_parallel : Parallel (Spells .chain) Tree.chain chain :=
  (word_parallel .chain (Q := fun _ => True) fun _ _ _ _ => trivial).mono
    fun _ _ h => h.mono fun _ => And.left

theorem string_parallel : Parallel (Yields .string Pair.quoted) Tree.string string := by
  refine .named (.token fun s => ?_)
  cases splitString s with
  | none => exact .none
  | some found =>
    refine .some ⟨⟨s.length, _, _, rfl, ?_⟩, rfl⟩
    have hbody : (String.ofList found.1).toList = found.1 := String.toList_ofList
    change Except.ok (String.ofList (Perl.unescapeChars (String.ofList found.1).toList)) = _
    rw [hbody]

theorem truth_parallel :
    Parallel (One .truth fun p b => (p.text == "true") = b) Tree.truth truth := by
  have hfalse : (String.ofList "false".toList == "true") = false := by decide
  refine .named (.token fun s => ?_)
  dsimp only
  cases splitKeyword "true".toList s with
  | some found => exact .some ⟨⟨s.length, _, _, rfl, rfl⟩, rfl⟩
  | none =>
    cases splitKeyword "false".toList s with
    | none => exact .none
    | some found => exact .some ⟨⟨s.length, _, _, rfl, hfalse⟩, rfl⟩

theorem undefinedWord_parallel :
    Parallel (One .undefined fun _ _ => True) Tree.undefinedWord undefinedWord := by
  refine .named (.token fun s => ?_)
  dsimp only
  cases splitKeyword "undef".toList s with
  | some found => exact .some ⟨⟨s.length, _, _, rfl, trivial⟩, rfl⟩
  | none =>
    cases splitKeyword "null".toList s with
    | none => exact .none
    | some found => exact .some ⟨⟨s.length, _, _, rfl, trivial⟩, rfl⟩

theorem typeName_parallel : Parallel (Yields .typeName Pair.typeName) Tree.typeName typeName := by
  have helement : Parallel (Spells .name)
      (do
        symbol "<"
        let element ← Tree.name
        symbol ">"
        return element)
      (do
        symbol "<"
        let element ← name
        symbol ">"
        return element) :=
    (Parallel.symbol _).bind fun _ _ _ => name_parallel.bind fun _ _ h =>
      (Parallel.symbol _).bind fun _ _ _ => .done h
  refine node_parallel (name_parallel.bind fun _ base hbase =>
    (maybe_parallel helement).bind fun _ element helement => .done fun left => ?_)
  obtain ⟨_, _, _, rfl, rfl⟩ := hbase
  cases helement with
  | none => rfl
  | some h =>
    obtain ⟨_, _, _, rfl, rfl⟩ := h
    rfl

namespace Pair

@[simp] theorem fetch_bind {α : Type} (within : Rule) (p : Pair) (rest : List Pair)
    (f : Pair × List Pair → Except Defect α) : (fetch within (p :: rest) >>= f) = f (p, rest) :=
  rfl

/-- A walk that leaves out keywords takes the data one after the other. -/
theorem walk_eq {α : Type} {walk : List Pair → Except Defect (List α)}
    {extract : Pair → Except Defect α} (hnil : walk [] = .ok [])
    (hcons : ∀ p rest, walk (p :: rest) = if p.rule.isKeyword then walk rest else do
      return (← extract p) :: (← walk rest)) (parts : List Pair) :
    walk parts = (parts.filter fun p => !p.rule.isKeyword).mapM extract := by
  induction parts with
  | nil => exact hnil
  | cons p rest ih =>
    rw [hcons, ih]
    cases hkeyword : p.rule.isKeyword <;> simp [hkeyword]

theorem literals_eq (parts : List Pair) :
    literals parts = (parts.filter fun p => !p.rule.isKeyword).mapM literal :=
  walk_eq (by rw [literals]) (fun _ _ => by rw [literals]) parts

theorem fields_eq (parts : List Pair) :
    fields parts = (parts.filter fun p => !p.rule.isKeyword).mapM field :=
  walk_eq (by rw [fields]) (fun _ _ => by rw [fields]) parts

theorem values_eq (parts : List Pair) :
    values parts = (parts.filter fun p => !p.rule.isKeyword).mapM value :=
  walk_eq (by rw [values]) (fun _ _ => by rw [values]) parts

end Pair

section Literals

variable {item : Phrase (List Pair)} {item' : Phrase Literal}
  (h : Parallel (Yields .literal Pair.literal) item item')

include h

theorem listOf_parallel :
    Parallel (One .list fun p items => p.literal = .ok (.list items)) (Tree.listOf item)
      (listOf item') := by
  refine node_parallel ((Parallel.symbol _).bind fun _ _ _ => h.entries.bind
    fun _ items hitems => (Parallel.symbol _).bind fun _ _ _ => .done fun left => ?_)
  obtain ⟨hdata, hitems⟩ := data_flatten rfl hitems
  rw [Pair.literal, Pair.literals_eq, hdata, (except_mapM_ok _ _ _).mpr hitems]
  rfl

theorem field_parallel : Parallel (Yields .field Pair.field) (Tree.field item) (field item') := by
  have hkey : Parallel (Inside .field Pair.key) (Tree.string <|> Tree.name) (string <|> name) := by
    refine .either (string_parallel.mono fun _ _ hkey => ?_)
      (name_parallel.mono fun _ _ hkey => ?_)
    · exact hkey.inside rfl (by simp) fun _ _ _ hquoted => hquoted
    · exact hkey.inside rfl (by simp) fun _ _ _ htext => congrArg Except.ok htext
  refine node_parallel (hkey.bind fun _ key hkey =>
    ((Parallel.symbol _).either (.symbol _)).bind fun _ _ _ => h.bind fun _ value hvalue =>
      .done fun left => ?_)
  obtain ⟨p, rfl, hkeyword, _, hkey⟩ := hkey
  obtain ⟨_, _, _, rfl, hvalue⟩ := hvalue
  rw [Pair.field, List.singleton_append, Pair.fieldKey, hkeyword, hkey, Pair.fieldValue]
  simp only [Rule.isKeyword, Bool.false_eq_true, if_false, hvalue]
  rfl

theorem objectOf_parallel :
    Parallel (One .object fun p fields => p.literal = .ok (.object fields)) (Tree.objectOf item)
      (objectOf item') := by
  refine node_parallel ((Parallel.symbol _).bind fun _ _ _ => (field_parallel h).entries.bind
    fun _ items hitems => (Parallel.symbol _).bind fun _ _ _ => .done fun left => ?_)
  obtain ⟨hdata, hitems⟩ := data_flatten rfl hitems
  rw [Pair.literal, Pair.fields_eq, hdata, (except_mapM_ok _ _ _).mpr hitems]
  rfl

end Literals

theorem literalWithin_parallel (depth : Nat) :
    Parallel (Yields .literal Pair.literal) (Tree.literalWithin depth) (literalWithin depth) := by
  induction depth with
  | zero => exact .absent
  | succ depth ih =>
    refine node_parallel (Parallel.mono (R := Inside .literal Pair.literal) ?_
      fun _ content hcontent left => ?_)
    · refine .either (string_parallel.map_right fun _ _ hp => ?_)
        (.either (number_parallel.map_right fun _ _ hp => ?_)
        (.either (truth_parallel.map_right fun _ _ hp => ?_)
        (.either (undefinedWord_parallel.map_right fun _ _ hp => ?_)
        (.either ((listOf_parallel ih).map_right fun _ _ hp => ?_)
        ((objectOf_parallel ih).map_right fun _ _ hp => ?_)))))
      · refine hp.inside rfl (by simp) fun _ _ _ hquoted => ?_
        rw [Pair.literal, hquoted]
        rfl
      · refine hp.inside rfl (by simp) fun _ _ _ htext => ?_
        rw [Pair.literal, ← htext.1]
      · refine hp.inside rfl (by simp) fun _ _ _ htruth => ?_
        rw [Pair.literal, htruth]
      · exact hp.inside rfl (by simp) fun _ _ _ _ => by rw [Pair.literal]
      · exact hp.inside rfl (by simp) fun _ _ _ hlist => hlist
      · exact hp.inside rfl (by simp) fun _ _ _ hobject => hobject
    · -- The pair inside is of another rule, so the walk goes on to it.
      obtain ⟨p, rfl, hkeyword, hne, hp⟩ := hcontent
      rw [Pair.literal, Pair.onlyLiteral, hkeyword, if_neg Bool.false_ne_true, if_neg hne, hp]

theorem literal_parallel : Parallel (Yields .literal Pair.literal) Tree.literal literal :=
  fun s => literalWithin_parallel (s.length + 1) s

theorem commandLine_parallel :
    Parallel (Yields .commandLine Pair.value) Tree.commandLine commandLine :=
  node_parallel ((keyword_parallel _).bind fun _ _ _ => (Parallel.symbol _).bind fun _ _ _ =>
    (Parallel.symbol _).bind fun _ _ _ => .done fun left => by rw [Pair.value])

theorem methodValue_parallel :
    Parallel (One .methodValue fun p read => p.value = .ok (.method read.1 read.2))
      Tree.methodValue methodValue := by
  refine node_parallel (name_parallel.bind fun _ receiver hreceiver =>
    chain_parallel.bind fun _ calls hcalls => .done fun left => ?_)
  obtain ⟨_, _, _, rfl, rfl⟩ := hreceiver
  obtain ⟨_, _, _, rfl, rfl⟩ := hcalls
  rw [Pair.value]
  rfl

theorem routineCall_parallel {argument : Phrase (List Pair)} {argument' : Phrase Expression}
    (h : Parallel (Yields .value Pair.value) argument argument') :
    Parallel (Yields .routineCall Pair.value) (Tree.routineCall argument)
      (routineCall argument') := by
  refine node_parallel (name_parallel.bind fun _ routine hroutine =>
    (Parallel.symbol _).bind fun _ _ _ => h.commaSeparated.optional.bind
      fun found arguments harguments => (Parallel.symbol _).bind fun _ _ _ => .done fun left => ?_)
  obtain ⟨_, _, _, rfl, rfl⟩ := hroutine
  rw [Pair.value, List.singleton_append, Pair.routineCall, if_neg (by simp [Rule.isKeyword]),
    Pair.values_eq]
  cases harguments with
  | none => rfl
  | some harguments =>
    obtain ⟨hdata, harguments⟩ := data_flatten rfl harguments
    rw [Option.getD_some, hdata, (except_mapM_ok _ _ _).mpr harguments]
    rfl

theorem trim_of_isName {text : String} (h : Text.isName text.toList = true) :
    Text.trim text = text := by
  have hsolid : ∀ c ∈ text.toList, Text.isBlank c = false := fun c hc =>
    Text.isBlank_of_continuesName (Text.continuesName_of_isName h c hc)
  rw [Text.trim, Text.trimBoth_eq_self (fun c hc => hsolid c (List.mem_of_head? hc))
    fun c hc => hsolid c (List.mem_of_getLast? hc), String.ofList_toList]

theorem variableName_parallel :
    Parallel (Yields .reference Pair.value) Tree.variableName variableName := by
  refine node_parallel (isName_parallel.map_right fun _ name hname left => ?_)
  obtain ⟨_, _, _, rfl, rfl, hname⟩ := hname
  rw [Pair.value, List.map_singleton, String.join_cons, String.join_nil, String.append_empty,
    trim_of_isName hname]

theorem valueWithin_parallel (depth : Nat) :
    Parallel (Yields .value Pair.value) (Tree.valueWithin depth) (valueWithin depth) := by
  induction depth with
  | zero => exact .absent
  | succ depth ih =>
    refine node_parallel (Parallel.mono (R := Inside .value Pair.value) ?_
      fun _ content hcontent left => ?_)
    · refine .either (commandLine_parallel.mono fun _ _ hp => ?_)
        (.either (methodValue_parallel.map_right fun _ _ hp => ?_)
        (.either ((routineCall_parallel ih).mono fun _ _ hp => ?_)
        (.either (literal_parallel.map_right fun _ _ hp => ?_)
        (variableName_parallel.mono fun _ _ hp => ?_))))
      · exact hp.inside rfl (by simp) fun _ _ _ hvalue => hvalue
      · exact hp.inside rfl (by simp) fun _ _ _ hvalue => hvalue
      · exact hp.inside rfl (by simp) fun _ _ _ hvalue => hvalue
      · refine hp.inside rfl (by simp) fun _ _ _ hliteral => ?_
        rw [Pair.value, hliteral]
        rfl
      · exact hp.inside rfl (by simp) fun _ _ _ hvalue => hvalue
    · obtain ⟨p, rfl, hkeyword, hne, hp⟩ := hcontent
      rw [Pair.value, Pair.onlyValue, hkeyword, if_neg Bool.false_ne_true, if_neg hne, hp]

theorem value_parallel : Parallel (Yields .value Pair.value) Tree.value value :=
  fun s => valueWithin_parallel (s.length + 1) s

/-- The pair of a statement gives its construct, and a path that it carries is that of a module. -/
structure Builds (p : Pair) (c : Construct) : Prop where
  construct : p.construct = .ok c
  path : ∀ path ∈ c.path?, ∃ module, LineScript.modulePath path = .ok module

theorem Builds.of_pathless {p : Pair} {c : Construct} (h : p.construct = .ok c)
    (hpath : c.path? = none) : Builds p c := by
  refine ⟨h, fun path hmem => ?_⟩
  rw [hpath] at hmem
  cases hmem

theorem modulePath_parallel :
    Parallel (One .modulePath fun p text => p.text = text ∧ Text.IsPath text.toList)
      Tree.modulePath modulePath :=
  word_parallel .modulePath fun _ _ _ h => Text.isPath_of_splitModulePath h

theorem importedNames_parallel :
    Parallel (Inside .importLine (Pair.importedNames .importLine)) Tree.importedNames
      importedNames := by
  refine .either
    ((node_parallel (P := fun p names => p.importedNames .importLine = .ok names)
      ((Parallel.symbol _).map fun _ _ _ left => rfl)).mono fun _ _ h =>
        h.inside rfl (by simp) fun _ _ _ hnames => hnames)
    ((node_parallel (P := fun p names => p.importedNames .importLine = .ok names)
      ((Parallel.symbol _).bind fun _ _ _ => name_parallel.commaSeparated.bind fun _ names hnames =>
        (Parallel.symbol _).bind fun _ _ _ => .done fun left => ?_)).mono fun _ _ h =>
          h.inside rfl (by simp) fun _ _ _ hnames => hnames)
  obtain ⟨hdata, hnames⟩ := data_flatten rfl hnames
  have htexts := List.forall₂_map_left_iff.mpr hnames
  rw [List.forall₂_eq_eq_eq] at htexts
  rw [Pair.importedNames, Pair.data, hdata, htexts]

theorem importLine_parallel : Parallel (One .importLine Builds) Tree.importLine importLine := by
  refine node_parallel ((keyword_parallel _).bind fun _ _ hword =>
    importedNames_parallel.bind fun _ names hnames => (keyword_parallel _).bind fun _ _ hsecond =>
      modulePath_parallel.bind fun _ path hpath => .done fun left => ?_)
  obtain ⟨_, rfl⟩ := hword
  obtain ⟨p, rfl, hkeyword, _, hnames⟩ := hnames
  obtain ⟨_, rfl⟩ := hsecond
  obtain ⟨_, _, _, rfl, rfl, hpath⟩ := hpath
  have hsolid : Rule.modulePath.isKeyword = false := rfl
  have hword (text : String) : (Rule.keyword text).isKeyword = true := rfl
  constructor
  · simp [Pair.construct, Pair.data, hkeyword, hsolid, hword, hnames]
  · intro path hmem
    obtain rfl := Option.some.inj hmem
    exact exists_modulePath hpath

theorem packageLine_parallel : Parallel (One .packageLine Builds) Tree.packageLine packageLine := by
  refine node_parallel ((keyword_parallel _).bind fun _ _ hword =>
    modulePath_parallel.bind fun _ path hpath => .done fun left => ?_)
  obtain ⟨_, rfl⟩ := hword
  obtain ⟨_, _, _, rfl, rfl, hpath⟩ := hpath
  refine ⟨rfl, fun path hmem => ?_⟩
  obtain rfl := Option.some.inj hmem
  exact exists_modulePath hpath

theorem parameter_parallel :
    Parallel (Yields .parameter Pair.parameter) Tree.parameter parameter := by
  refine node_parallel (.either (typeName_parallel.bind fun _ type htype =>
    name_parallel.bind fun _ name hname => .done fun left => ?_)
    (name_parallel.map_right fun _ name hname left => ?_))
  · obtain ⟨_, _, _, rfl, htype⟩ := htype
    obtain ⟨_, _, _, rfl, rfl⟩ := hname
    simp [Pair.parameter, Pair.data, Rule.isKeyword, htype]
  · obtain ⟨_, _, _, rfl, rfl⟩ := hname
    rfl

theorem parameters_parallel :
    Parallel (One .parameters fun p all => p.data.mapM Pair.parameter = .ok all) Tree.parameters
      parameters := by
  refine node_parallel (parameter_parallel.commaSeparated.map_left fun _ all hall left => ?_)
  obtain ⟨hdata, hall⟩ := data_flatten rfl hall
  rw [Pair.data, hdata]
  exact (except_mapM_ok _ _ _).mpr hall

theorem returns_parallel :
    Parallel (One .returns fun p type => ∃ part, p.data = [part] ∧ part.typeName = .ok type)
      Tree.returns returns := by
  refine node_parallel ((Parallel.symbol _).bind fun _ _ _ =>
    typeName_parallel.mono fun _ type htype left => ?_)
  obtain ⟨_, _, _, rfl, htype⟩ := htype
  exact ⟨_, rfl, htype⟩

/-- An optional part of a routine adds what it is to what is known. -/
theorem foldlM_perhaps {α : Type} {rule : Rule} {P : Pair → α → Prop} {pairs : List Pair}
    {found : Option α} (h : Perhaps (One rule P) pairs found) (hrule : rule.isKeyword = false)
    (next : Option α → Pair.RoutineParts)
    (hnext : ∀ left text parts a, P ⟨rule, left, text, parts⟩ a →
      (next none).add ⟨rule, left, text, parts⟩ = .ok (next (some a))) :
    pairs.filter (fun p => !p.rule.isKeyword) = pairs ∧
      pairs.foldlM Pair.RoutineParts.add (next none) = .ok (next found) := by
  cases h with
  | none => exact ⟨rfl, rfl⟩
  | some h =>
    obtain ⟨left, text, parts, rfl, h⟩ := h
    refine ⟨by simp [hrule], ?_⟩
    rw [List.foldlM_cons, hnext left text parts _ h]
    rfl

theorem routineLine_parallel : Parallel (One .routineLine Builds) Tree.routineLine routineLine := by
  refine node_parallel ((keyword_parallel _).bind fun _ _ hword =>
    (maybe_parallel name_parallel).bind fun _ routine hroutine =>
      (Parallel.symbol _).bind fun _ _ _ =>
        (maybe_parallel parameters_parallel).bind fun _ parameters hparameters =>
          (Parallel.symbol _).bind fun _ _ _ =>
            (maybe_parallel returns_parallel).bind fun _ returned hreturned =>
              (Parallel.symbol _).bind fun _ _ _ => .done fun left => ?_)
  obtain ⟨_, rfl⟩ := hword
  -- Each optional part sets its own field, so the three steps do not depend on which are there.
  obtain ⟨hname, hknown⟩ := foldlM_perhaps hroutine rfl (fun name => ⟨name, [], none⟩)
    fun _ _ _ name hname => by rw [← hname]; rfl
  obtain ⟨hlist, hknown'⟩ := foldlM_perhaps hparameters rfl
    (fun all => ⟨routine, all.getD [], none⟩) fun _ _ _ all hall => by
      simp [Pair.RoutineParts.add, hall]
  obtain ⟨htype, hknown''⟩ := foldlM_perhaps hreturned rfl
    (fun type => ⟨routine, parameters.getD [], type⟩) fun _ _ _ type ⟨part, hpart, htype⟩ => by
      simp [Pair.RoutineParts.add, hpart, htype]
  refine .of_pathless ?_ rfl
  rw [Pair.construct]
  refine (except_bind_ok _ _ _).mpr ⟨⟨routine, parameters.getD [], returned⟩, ?_, rfl⟩
  rw [Pair.data, List.filter_append, List.filter_append, List.filter_append, hname, hlist, htype,
    List.foldlM_append, List.foldlM_append]
  exact (except_bind_ok _ _ _).mpr
    ⟨_, (except_bind_ok _ _ _).mpr ⟨_, hknown, hknown'⟩, hknown''⟩

theorem returnLine_parallel : Parallel (One .returnLine Builds) Tree.returnLine returnLine := by
  refine node_parallel ((keyword_parallel _).bind fun _ _ hword =>
    value_parallel.commaSeparated.optional.bind fun _ values hvalues => .done fun left =>
      .of_pathless ?_ rfl)
  obtain ⟨_, rfl⟩ := hword
  cases hvalues with
  | none => rfl
  | some hvalues =>
    obtain ⟨hdata, hvalues⟩ := data_flatten rfl hvalues
    rw [Pair.construct, Pair.data, List.filter_append, Option.getD_some, hdata]
    exact congrArg (Construct.giveBack <$> ·) ((except_mapM_ok _ _ _).mpr hvalues)

/-- A branch with a test is extracted if the walk of its rule takes the test. -/
theorem testedLine_parallel {rule : Rule} {branch : Branch}
    (h : ∀ p : Pair, p.rule = rule → ∀ tested value, p.data = [tested] →
      tested.value = .ok value → p.construct = .ok (.condition branch (some value)))
    (text : String) :
    Parallel (One rule Builds) (Tree.testedLine rule text) (named do
      keyword text
      let tested ← value
      symbol "\x7b"
      return .condition branch (some tested)) := by
  refine node_parallel ((keyword_parallel _).bind fun _ _ hword =>
    value_parallel.bind fun _ tested htested => (Parallel.symbol _).bind fun _ _ _ =>
      .done fun left => ?_)
  obtain ⟨_, rfl⟩ := hword
  obtain ⟨_, _, _, rfl, htested⟩ := htested
  exact .of_pathless (h _ rfl _ _ rfl htested) rfl

theorem ifLine_parallel : Parallel (One .ifLine Builds) (Tree.testedLine .ifLine "if") ifLine :=
  testedLine_parallel (fun p hrule tested value hdata hvalue => by
    simp [Pair.construct, hrule, hdata, hvalue]) _

theorem elseIfLine_parallel :
    Parallel (One .elseIfLine Builds) (Tree.testedLine .elseIfLine "elif") elseIfLine :=
  testedLine_parallel (fun p hrule tested value hdata hvalue => by
    simp [Pair.construct, hrule, hdata, hvalue]) _

/-- A line with nothing but a keyword is what its rule says. -/
theorem bareLine_parallel {rule : Rule} {c : Construct}
    (h : ∀ p : Pair, p.rule = rule → p.construct = .ok c) (hpath : c.path? = none) (text : String) :
    Parallel (One rule Builds) (Tree.bareLine rule text) (named do
      keyword text
      symbol "\x7b"
      return c) :=
  node_parallel ((keyword_parallel _).bind fun _ _ _ => (Parallel.symbol _).bind fun _ _ _ =>
    .done fun _ => .of_pathless (h _ rfl) hpath)

theorem elseLine_parallel :
    Parallel (One .elseLine Builds) (Tree.bareLine .elseLine "else") elseLine :=
  bareLine_parallel (fun p hrule => by simp [Pair.construct, hrule]) rfl _

theorem tryLine_parallel : Parallel (One .tryLine Builds) (Tree.bareLine .tryLine "try") tryLine :=
  bareLine_parallel (fun p hrule => by simp [Pair.construct, hrule]) rfl _

theorem loopLine_parallel : Parallel (One .loopLine Builds) Tree.loopLine loopLine := by
  refine node_parallel ((keyword_parallel _).bind fun _ _ hword =>
    name_parallel.bind fun _ element helement => (keyword_parallel _).bind fun _ _ hsecond =>
      name_parallel.bind fun _ iterable hiterable => (Parallel.symbol _).bind fun _ _ _ =>
        .done fun left => ?_)
  obtain ⟨_, rfl⟩ := hword
  obtain ⟨_, _, _, rfl, rfl⟩ := helement
  obtain ⟨_, rfl⟩ := hsecond
  obtain ⟨_, _, _, rfl, rfl⟩ := hiterable
  exact .of_pathless rfl rfl

theorem signalLine_parallel : Parallel (One .signalLine Builds) Tree.signalLine signalLine := by
  have hinside : Parallel (Perhaps (Spells .name))
      (do
        symbol "("
        let parameter ← Tree.maybe Tree.name
        symbol ")"
        return parameter)
      (do
        symbol "("
        let parameter ← optional name
        symbol ")"
        return parameter) :=
    (Parallel.symbol _).bind fun _ _ _ => (maybe_parallel name_parallel).bind fun _ _ h =>
      (Parallel.symbol _).bind fun _ _ _ => .done h
  refine node_parallel ((keyword_parallel _).bind fun _ _ hword =>
    name_parallel.bind fun _ signal hsignal => (maybe_parallel hinside).bind
      fun _ parameter hparameter => (Parallel.symbol _).bind fun _ _ _ => .done fun left =>
        .of_pathless ?_ rfl)
  obtain ⟨_, rfl⟩ := hword
  obtain ⟨_, _, _, rfl, rfl⟩ := hsignal
  cases hparameter with
  | none => rfl
  | some hparameter =>
    cases hparameter with
    | none => rfl
    | some hparameter =>
      obtain ⟨_, _, _, rfl, rfl⟩ := hparameter
      rfl

theorem printLine_parallel : Parallel (One .printLine Builds) Tree.printLine printLine := by
  refine node_parallel ((keyword_parallel _).bind fun _ _ hword =>
    value_parallel.operand.bind fun _ shown hshown => .done fun left => .of_pathless ?_ rfl)
  obtain ⟨_, rfl⟩ := hword
  cases hshown with
  | none => rfl
  | some hshown =>
    obtain ⟨_, _, _, rfl, hvalue⟩ := hshown
    simp [Pair.construct, Pair.data, Rule.isKeyword, hvalue]

theorem openLine_parallel :
    Parallel (One .openLine Builds) (Tree.braceLine .openLine "\x7b") openLine :=
  node_parallel ((Parallel.symbol _).map fun _ _ _ _ => .of_pathless rfl rfl)

theorem closeLine_parallel :
    Parallel (One .closeLine Builds) (Tree.braceLine .closeLine "\x7d") closeLine :=
  node_parallel ((Parallel.symbol _).map fun _ _ _ _ => .of_pathless rfl rfl)

theorem declarationLine_parallel :
    Parallel (One .declarationLine Builds) Tree.declarationLine declarationLine := by
  refine node_parallel (typeName_parallel.bind fun _ type htype =>
    name_parallel.bind fun _ declared hdeclared => (Parallel.symbol _).bind fun _ _ _ =>
      value_parallel.bind fun _ value hvalue => .done fun left => .of_pathless ?_ rfl)
  obtain ⟨_, _, _, rfl, htype⟩ := htype
  obtain ⟨_, _, _, rfl, rfl⟩ := hdeclared
  obtain ⟨_, _, _, rfl, hvalue⟩ := hvalue
  simp only [Pair.construct, Pair.data, List.cons_append, List.nil_append]
  simp [Rule.isKeyword, htype, hvalue]
  rfl

theorem assignmentLine_parallel :
    Parallel (One .assignmentLine Builds) Tree.assignmentLine assignmentLine := by
  refine node_parallel (name_parallel.bind fun _ assigned hassigned =>
    (Parallel.symbol _).bind fun _ _ _ => value_parallel.bind fun _ value hvalue =>
      .done fun left => .of_pathless ?_ rfl)
  obtain ⟨_, _, _, rfl, rfl⟩ := hassigned
  obtain ⟨_, _, _, rfl, hvalue⟩ := hvalue
  simp [Pair.construct, Pair.data, Rule.isKeyword, hvalue]

theorem methodLine_parallel : Parallel (One .methodLine Builds) Tree.methodLine methodLine := by
  refine node_parallel (name_parallel.bind fun _ receiver hreceiver =>
    chain_parallel.bind fun _ calls hcalls => .done fun left => .of_pathless ?_ rfl)
  obtain ⟨_, _, _, rfl, rfl⟩ := hreceiver
  obtain ⟨_, _, _, rfl, rfl⟩ := hcalls
  rfl

/-- A number that is no integer of 32 bits. -/
inductive NoCode : List Char → Prop where
  | fraction {s t : List Char} (hs : IsDigits s) (ht : IsDigits t) : NoCode (s ++ '.' :: t)
  | negativeFraction {s t : List Char} (hs : IsDigits s) (ht : IsDigits t) :
    NoCode ('-' :: (s ++ '.' :: t))
  | large {s : List Char} (hs : IsDigits s) (h : 2147483648 ≤ Nat.ofDigitChars 10 s 0) : NoCode s
  | small {s : List Char} (hs : IsDigits s) (h : 2147483648 < Nat.ofDigitChars 10 s 0) :
    NoCode ('-' :: s)

theorem isIntegralText_of_isDigits {s : List Char} (h : IsDigits s) :
    Literal.isIntegralText s = true ∧ Literal.isIntegralText ('-' :: s) = true := by
  have hall : (!s.isEmpty && s.all Char.isDigit) = true := by
    simpa [IsDigits] using h
  refine ⟨?_, hall⟩
  unfold Literal.isIntegralText
  split
  · cases h.2 '-' List.mem_cons_self
  · exact hall

/-- A number of a line that is no exit code has a fraction or is too large or too small. -/
theorem noCode_of_exitCode? {spelling : String} (hnumber : IsNumber spelling.toList)
    (h : exitCode? spelling = none) : NoCode spelling.toList := by
  unfold exitCode? at h
  generalize spelling.toList = s at hnumber h
  cases hnumber with
  | unsigned hs =>
    cases hs with
    | fraction hwhole hpart => exact .fraction hwhole hpart
    | whole hdigits =>
      rw [if_pos (isIntegralText_of_isDigits hdigits).1] at h
      refine .large hdigits ?_
      dsimp only at h
      split at h
      · cases hdigits.2 '-' List.mem_cons_self
      · split_ifs at h with hrange
        omega
  | negative hs =>
    cases hs with
    | fraction hwhole hpart => exact .negativeFraction hwhole hpart
    | whole hdigits =>
      rw [if_pos (isIntegralText_of_isDigits hdigits).2] at h
      refine .small hdigits ?_
      dsimp only at h
      split_ifs at h with hrange
      change ¬ (-2147483648 ≤ -(Nat.ofDigitChars 10 _ 0 : Int) ∧
        -(Nat.ofDigitChars 10 _ 0 : Int) ≤ 2147483647) at hrange
      omega

/-- The pair of an exit with a number. -/
def Pair.IsExit (p : Pair) (spelling : String) : Prop :=
  p.rule = .exitLine ∧ ∃ number, p.data = [number] ∧ number.rule = .number ∧ number.text = spelling

/-- What the pair of a statement gives is what the statement is read as. It is a fault only for an
exit. -/
structure Extracts (p : Pair) (result : Except Fault Construct) : Prop where
  construct : p.construct = result.mapError Defect.fault
  path : ∀ c, result = .ok c → ∀ path ∈ c.path?, ∃ module, LineScript.modulePath path = .ok module
  exit : ∀ fault, result = .error fault → ∃ spelling, p.IsExit spelling ∧
    NoCode spelling.toList ∧ fault = .exitCode spelling

theorem Builds.extracts {p : Pair} {c : Construct} (h : Builds p c) : Extracts p (.ok c) where
  construct := h.construct
  path := by
    rintro _ ⟨rfl⟩
    exact h.path
  exit := by
    rintro _ ⟨⟩

theorem exitLine_parallel : Parallel (One .exitLine Extracts) Tree.exitLine exitLine := by
  refine node_parallel ((keyword_parallel _).bind fun _ _ hword =>
    number_parallel.operand.bind fun _ spelling hspelling => ?_)
  obtain ⟨_, rfl⟩ := hword
  cases hspelling with
  | none => exact .done fun left => (Builds.of_pathless rfl rfl).extracts
  | @some _ spelling hspelling =>
    obtain ⟨_, text, _, rfl, htext, hnumber⟩ := hspelling
    obtain rfl : text = spelling := htext
    cases hcode : exitCode? text with
    | none =>
      simp only [hcode]
      refine .done fun left => ⟨?_, ?_, ?_⟩
      · simp [Pair.construct, Pair.data, Rule.isKeyword, hcode]
        rfl
      · rintro _ ⟨⟩
      · rintro _ ⟨rfl⟩
        exact ⟨text, ⟨rfl, _, rfl, rfl, rfl⟩, noCode_of_exitCode? hnumber hcode, rfl⟩
    | some code =>
      simp only [hcode]
      refine .done fun left => (Builds.of_pathless ?_ rfl).extracts
      simp [Pair.construct, Pair.data, Rule.isKeyword, hcode]

/-- One pair, that of a statement. -/
def Holds (pairs : List Pair) (result : Except Fault Construct) : Prop :=
  ∃ p, pairs = [p] ∧ p.rule ≠ .endOfLine ∧ Extracts p result

theorem statement_parallel : Parallel Holds Tree.statement statement := by
  have hany {rule : Rule} {p : Phrase (List Pair)} {q : Phrase Construct}
      (h : Parallel (One rule Builds) p q) (hrule : rule ≠ .endOfLine) :
      Parallel (fun pairs c => Holds pairs (.ok c)) p q := by
    refine h.mono fun _ c hp => ?_
    obtain ⟨_, _, _, rfl, hp⟩ := hp
    exact ⟨_, rfl, hrule, hp.extracts⟩
  have hfirst := (hany importLine_parallel (by simp)).either <|
    (hany packageLine_parallel (by simp)).either <|
    (hany routineLine_parallel (by simp)).either <|
    (hany returnLine_parallel (by simp)).either <|
    (hany ifLine_parallel (by simp)).either <|
    (hany elseIfLine_parallel (by simp)).either <|
    (hany elseLine_parallel (by simp)).either <|
    (hany loopLine_parallel (by simp)).either <|
    (hany tryLine_parallel (by simp)).either <|
    (hany signalLine_parallel (by simp)).either (hany printLine_parallel (by simp))
  have hlast := (hany openLine_parallel (by simp)).either <|
    (hany closeLine_parallel (by simp)).either <|
    (hany declarationLine_parallel (by simp)).either <|
    (hany assignmentLine_parallel (by simp)).either (hany methodLine_parallel (by simp))
  refine .either (hfirst.map_right fun _ _ h => h)
    (.either (exitLine_parallel.mono fun _ result hp => ?_) (hlast.map_right fun _ _ h => h))
  obtain ⟨_, _, _, rfl, hp⟩ := hp
  exact ⟨_, rfl, by simp, hp⟩

theorem endOfLine_parallel :
    Parallel (fun pairs _ => ∃ p, pairs = [p] ∧ p.rule = .endOfLine) Tree.endOfLine endOfLine := by
  refine .named fun s => ?_
  cases s with
  | nil => exact ⟨rfl, .some ⟨⟨_, rfl, rfl⟩, rfl⟩⟩
  | cons c rest => exact ⟨rfl, .none⟩

theorem wholeLine_parallel :
    Parallel (One .line fun p result => Option.Rel Extracts p.statement? result) Tree.wholeLine
      wholeLine := by
  refine pairOf_parallel ((maybe_parallel statement_parallel).bind fun _ read hread =>
    endOfLine_parallel.bind fun _ _ hend => .done fun left => ?_)
  obtain ⟨last, rfl, hlast⟩ := hend
  cases hread with
  | none =>
    simp [Pair.statement?, hlast]
  | some h =>
    obtain ⟨p, rfl, hrule, hp⟩ := h
    simp [Pair.statement?, hrule, hp]

/-- Either the line holds no statement, or the grammar rejects it, or its pairs give what it is. -/
theorem classify_cases (line : String) :
    (∃ c, c.path? = none ∧ Tree.classify line = .ok c ∧ classify line = .ok c) ∨
    (∃ trimmed column, (Tree.wholeLine (skipFiller line.toList)).found = none ∧
      Tree.classify line = .error (.fault (.noConstruct trimmed column)) ∧
      classify line = .error (.noConstruct trimmed column)) ∨
    ∃ p, Tree.statement? line = some p ∧ Tree.classify line = p.construct ∧
      Extracts p (classify line) := by
  -- Blank lines and comments are told apart before any phrase is read.
  unfold Tree.classify classify Tree.statement?
  generalize Text.trimBoth line.toList = trimmed
  split
  · exact Or.inl ⟨.blank, rfl, rfl, rfl⟩
  · exact Or.inl ⟨.comment, rfl, rfl, rfl⟩
  · rcases wholeLine_parallel.cases (skipFiller line.toList) with
      ⟨missed, htree, hline⟩ | ⟨pairs, read, rest, missed, htree, hline, hread⟩
    · simp only [htree, hline]
      exact Or.inr (Or.inl ⟨_, _, trivial, rfl, rfl⟩)
    · obtain ⟨left, text, parts, rfl, hread⟩ := hread
      simp only [htree, hline]
      generalize hstatement : Pair.statement? _ = found at hread
      cases hread with
      | none =>
        simp only [Pair.fetch_bind, hstatement]
        refine Or.inl ⟨.comment, rfl, rfl, rfl⟩
      | some hp =>
        simp only [Pair.fetch_bind, hstatement]
        exact Or.inr (Or.inr ⟨_, rfl, rfl, hp⟩)

theorem tree_classify (line : String) :
    Tree.classify line = (classify line).mapError Defect.fault := by
  rcases classify_cases line with ⟨c, _, htree, hline⟩ | ⟨_, _, _, htree, hline⟩ | ⟨p, _, htree, hp⟩
  · rw [htree, hline]
    rfl
  · rw [htree, hline]
    rfl
  · rw [htree, hp.construct]

theorem exists_fault_of_mapError {result : Except Fault Construct} {defect : Defect}
    (h : result.mapError Defect.fault = .error defect) :
    ∃ fault, defect = .fault fault ∧ result = .error fault := by
  cases result with
  | ok c => cases h
  | error fault =>
    obtain rfl := Except.error.inj h
    exact ⟨fault, rfl, rfl⟩

/-- What a line is recognised as is what its pairs give. No pair that extraction takes is missing or
of another rule, so the only defects are the faults of lines. A fault is that the grammar rejects
the line, or that an exit has a number with a fraction or outside of 32 bits. A module path in an
accepted line is that of a module. -/
theorem extraction_follows_grammar (line : String) :
    Tree.classify line = (classify line).mapError Defect.fault ∧
    (∀ defect, Tree.classify line = .error defect →
      ∃ fault, defect = .fault fault ∧ classify line = .error fault) ∧
    (∀ fault, classify line = .error fault →
      (fault.cls = .unsupported ∧ (Tree.wholeLine (skipFiller line.toList)).found = none ∧
        ∃ trimmed column, fault = .noConstruct trimmed column) ∨
      (fault.cls = .form ∧ ∃ p spelling, Tree.statement? line = some p ∧ p.IsExit spelling ∧
        NoCode spelling.toList ∧ fault = .exitCode spelling)) ∧
    ∀ c, classify line = .ok c → ∀ path ∈ c.path?,
      ∃ module, LineScript.modulePath path = .ok module := by
  refine ⟨tree_classify line, fun defect hdefect => ?_, fun fault hfault => ?_,
    fun c hc path hmem => ?_⟩
  · rw [tree_classify] at hdefect
    exact exists_fault_of_mapError hdefect
  · rcases classify_cases line with
      ⟨c, _, _, hline⟩ | ⟨trimmed, column, hrejected, _, hline⟩ | ⟨p, hstatement, _, hp⟩
    · cases hfault.symm.trans hline
    · obtain rfl := Except.error.inj (hfault.symm.trans hline)
      exact Or.inl ⟨rfl, hrejected, trimmed, column, rfl⟩
    · obtain ⟨spelling, hexit, hcode, rfl⟩ := hp.exit fault hfault
      exact Or.inr ⟨rfl, p, spelling, hstatement, hexit, hcode, rfl⟩
  · rcases classify_cases line with ⟨c', hpath, _, hline⟩ | ⟨_, _, _, _, hline⟩ | ⟨p, _, _, hp⟩
    · obtain rfl := Except.ok.inj (hc.symm.trans hline)
      rw [hpath] at hmem
      cases hmem
    · cases hc.symm.trans hline
    · exact hp.path c hc path hmem

theorem extraction_follows_grammar_fraction :
    (∃ p spelling, Tree.statement? "exit (2.5) // none" = some p ∧ p.IsExit spelling ∧
      NoCode spelling.toList ∧ classify "exit (2.5) // none" = .error (.exitCode spelling) ∧
      Tree.classify "exit (2.5) // none" = .error (.fault (.exitCode spelling))) ∧
    ∃ c, classify "import * from a.b::c" = .ok c ∧ c.path? = some "a.b::c" ∧
      ∃ module, LineScript.modulePath "a.b::c" = .ok module := by
  have hread : (Tree.wholeLine (skipFiller "exit (2.5) // none".toList)).found.isSome = true := by
    decide +kernel
  have hrefused : (Tree.classify "exit (2.5) // none").isOk = false := by decide +kernel
  have hpath : (classify "import * from a.b::c").toOption.bind Construct.path? = some "a.b::c" := by
    decide +kernel
  constructor
  · obtain ⟨_, hdefects, hfaults, _⟩ := extraction_follows_grammar "exit (2.5) // none"
    cases htree : Tree.classify "exit (2.5) // none" with
    | ok c =>
      rw [htree] at hrefused
      cases hrefused
    | error defect =>
      obtain ⟨fault, rfl, hfault⟩ := hdefects defect htree
      rcases hfaults fault hfault with
        ⟨_, hrejected, _⟩ | ⟨_, p, spelling, hstatement, hexit, hcode, rfl⟩
      · rw [hrejected] at hread
        cases hread
      · exact ⟨p, spelling, hstatement, hexit, hcode, hfault, rfl⟩
  · obtain ⟨c, hc, hcarried⟩ := Option.bind_eq_some_iff.mp hpath
    have hline := except_toOption_eq_some hc
    exact ⟨c, hline, hcarried,
      (extraction_follows_grammar "import * from a.b::c").2.2.2 c hline _ hcarried⟩

end LineScript.Line
