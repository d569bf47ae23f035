import LineScript.Proofs.Literals
import LineScript.Proofs.Phrases

/-!
# What a line is made of

Whatever a line is recognised as, its parts are well formed: names are names, numbers are spelled
as numbers, and chains are made of readable calls. All texts in it come from the characters of the
line, but for the escapes of quoted strings, which stand for line characters that need not be there.
-/
namespace LineScript

/-- The text is one readable call or more, directly after each other. -/
def IsChain (chain : String) : Prop :=
  ∃ calls : List Invocation, calls ≠ [] ∧ (∀ i ∈ calls, i.Readable) ∧
    chain = String.join (calls.map Invocation.text)

section WellFormed

variable (ok : Char → Prop)

/-- A quoted text whose escapes have been resolved. -/
def IsResolved (content : String) : Prop :=
  ∀ c ∈ content.toList, ok c ∨ c = '\n' ∨ c = '\t' ∨ c = '\r'

def Literal.WellFormed : Literal → Prop :=
  Literal.Forall (fun spelling => Line.IsNumber spelling.toList) (IsResolved ok)

def IsName (name : String) : Prop :=
  Text.isName name.toList = true

mutual

def Expression.WellFormed : Expression → Prop
  | .literal content => content.WellFormed ok
  | .variable name => IsName name
  | .routine name arguments => IsName name ∧ ArgumentsWellFormed arguments
  | .method receiver chain => IsName receiver ∧ IsChain chain ∧ ∀ c ∈ chain.toList, ok c
  | .arguments => True

def ArgumentsWellFormed : List Expression → Prop
  | [] => True
  | argument :: rest => argument.WellFormed ∧ ArgumentsWellFormed rest

end

def Construct.WellFormed : Construct → Prop
  | .importModule _ symbols => ∀ names ∈ symbols, ∀ name ∈ names, IsName name
  | .declare _ name value => IsName name ∧ value.WellFormed ok
  | .assign name value => IsName name ∧ value.WellFormed ok
  | .methodChain receiver chain => IsName receiver ∧ IsChain chain ∧ ∀ c ∈ chain.toList, ok c
  | .routine name parameters _ =>
    (∀ n ∈ name, IsName n) ∧ ∀ parameter ∈ parameters, IsName parameter.name
  | .giveBack values => ∀ value ∈ values, value.WellFormed ok
  | .condition _ value => ∀ e ∈ value, e.WellFormed ok
  | .loop element iterable => IsName element ∧ IsName iterable
  | .signal _ parameter => ∀ name ∈ parameter, IsName name
  | .print value => ∀ e ∈ value, e.WellFormed ok
  | _ => True

variable {ok}

theorem Literal.forallItems_iff {P Q : String → Prop} {items : List Literal} :
    Literal.ForallItems P Q items ↔ ∀ item ∈ items, item.Forall P Q := by
  induction items with
  | nil => simp [Literal.ForallItems]
  | cons item rest ih => rw [Literal.ForallItems, ih, List.forall_mem_cons]

theorem Literal.forallFields_iff {P Q : String → Prop} {fields : List (String × Literal)} :
    Literal.ForallFields P Q fields ↔ ∀ field ∈ fields, Q field.1 ∧ field.2.Forall P Q := by
  induction fields with
  | nil => simp [Literal.ForallFields]
  | cons field rest ih =>
    rw [Literal.ForallFields, ih, List.forall_mem_cons, and_assoc]

theorem argumentsWellFormed_iff {arguments : List Expression} :
    ArgumentsWellFormed ok arguments ↔ ∀ argument ∈ arguments, argument.WellFormed ok := by
  induction arguments with
  | nil => simp [ArgumentsWellFormed]
  | cons argument rest ih => rw [ArgumentsWellFormed, ih, List.forall_mem_cons]

end WellFormed

namespace Line

open Phrase

variable {ok : Char → Prop}

section Words

variable {s chars rest : List Char}

theorem splitDigits_ok (h : splitDigits s = some (chars, rest)) :
    s = chars ++ rest ∧ IsDigits chars := by
  unfold splitDigits at h
  split at h
  · cases h
  · rename_i digits hempty
    obtain ⟨rfl, rfl⟩ := Prod.mk.inj (Option.some.inj h)
    refine ⟨List.takeWhile_append_dropWhile.symm, fun hnil => hempty hnil, ?_⟩
    exact List.all_eq_true.mp List.all_takeWhile

theorem splitUnsigned_ok (h : splitUnsigned s = some (chars, rest)) :
    s = chars ++ rest ∧ IsUnsigned chars := by
  unfold splitUnsigned at h
  split at h
  · rename_i whole left hwhole
    obtain ⟨rfl, hdigits⟩ := splitDigits_ok hwhole
    split at h
    · rename_i fraction after hsplit
      obtain ⟨rfl, rfl⟩ := Prod.mk.inj (Option.some.inj h)
      obtain ⟨rfl, hfraction⟩ := splitDigits_ok hsplit
      exact ⟨by simp, .fraction hdigits hfraction⟩
    · obtain ⟨rfl, rfl⟩ := Prod.mk.inj (Option.some.inj h)
      exact ⟨rfl, .whole hdigits⟩
  · obtain ⟨hs, hdigits⟩ := splitDigits_ok h
    exact ⟨hs, .whole hdigits⟩

theorem splitNumber_ok (h : splitNumber s = some (chars, rest)) :
    s = chars ++ rest ∧ IsNumber chars := by
  unfold splitNumber at h
  split at h
  · obtain ⟨⟨number, after⟩, hsplit, heq⟩ := Option.map_eq_some_iff.mp h
    obtain ⟨rfl, rfl⟩ := Prod.mk.inj heq
    obtain ⟨rfl, hnumber⟩ := splitUnsigned_ok hsplit
    exact ⟨rfl, .negative hnumber⟩
  · obtain ⟨hs, hnumber⟩ := splitUnsigned_ok h
    exact ⟨hs, .unsigned hnumber⟩

theorem append_of_splitPathWithin (bound : Nat) (s : List Char) :
    s = (Text.splitPathWithin bound s).1 ++ (Text.splitPathWithin bound s).2 := by
  induction bound generalizing s with
  | zero => rfl
  | succ bound ih =>
    unfold Text.splitPathWithin
    split
    · cases ‹bound + 1 = 0›
    · rename_i rest heq
      obtain rfl := Nat.succ.inj heq
      cases hname : Text.splitName rest with
      | none => rfl
      | some split =>
        obtain ⟨name, after⟩ := split
        simp only [Text.append_of_splitName hname, List.cons_append, List.append_assoc, ← ih after]
    · rename_i rest heq
      obtain rfl := Nat.succ.inj heq
      cases hname : Text.splitName rest with
      | none => rfl
      | some split =>
        obtain ⟨name, after⟩ := split
        simp only [Text.append_of_splitName hname, List.cons_append, List.append_assoc, ← ih after]
    · rfl

theorem append_of_splitModulePath (h : Text.splitModulePath s = some (chars, rest)) :
    s = chars ++ rest := by
  unfold Text.splitModulePath at h
  split at h
  · rename_i name after hname
    obtain ⟨rfl, rfl⟩ := Prod.mk.inj (Option.some.inj h)
    rw [List.append_assoc, ← append_of_splitPathWithin, ← Text.append_of_splitName hname]
  · cases h

/-- The inside of quotes and the mark after it. -/
theorem append_of_splitQuoted {mark : Char} (h : splitQuoted mark s = some (chars, rest)) :
    s = chars ++ mark :: rest := by
  fun_induction splitQuoted mark s generalizing chars with
  | case1 => cases h
  | case2 c rest ih =>
    obtain ⟨⟨body, after⟩, hsplit, heq⟩ := Option.map_eq_some_iff.mp h
    obtain ⟨rfl, rfl⟩ := Prod.mk.inj heq
    rw [List.cons_append, List.cons_append, ← ih hsplit]
  | case3 rest hescape =>
    obtain ⟨rfl, rfl⟩ := Prod.mk.inj (Option.some.inj h)
    rfl
  | case4 c rest hescape hc ih =>
    obtain ⟨⟨body, after⟩, hsplit, heq⟩ := Option.map_eq_some_iff.mp h
    obtain ⟨rfl, rfl⟩ := Prod.mk.inj heq
    rw [List.cons_append, ← ih hsplit]

theorem mem_of_unescapeChars {body : List Char} {c : Char} (h : c ∈ Perl.unescapeChars body) :
    c ∈ body ∨ c = '\n' ∨ c = '\t' ∨ c = '\r' := by
  fun_induction Perl.unescapeChars body with
  | case1 => cases h
  | case2 d rest ih =>
    rcases List.mem_cons.mp h with rfl | h
    · unfold Perl.escapeMeaning
      split_ifs <;> simp
    · exact (ih h).imp_left fun h => List.mem_cons_of_mem _ (List.mem_cons_of_mem _ h)
  | case3 d rest _ ih =>
    rcases List.mem_cons.mp h with rfl | h
    · exact Or.inl List.mem_cons_self
    · exact (ih h).imp_left (List.mem_cons_of_mem _)

end Words

theorem number_gives : number.Gives ok fun spelling => IsNumber spelling.toList :=
  (word_gives fun _ _ _ h => splitNumber_ok h).mono fun _ h => h.1

theorem modulePath_gives : modulePath.Gives ok fun _ => True :=
  (word_gives (P := fun _ => True) fun _ _ _ h => ⟨append_of_splitModulePath h, trivial⟩).mono
    fun _ _ => trivial

theorem chain_gives : chain.Gives ok fun text => IsChain text ∧ ∀ c ∈ text.toList, ok c := by
  refine (word_gives fun _ _ _ h => splitChain_ok h).mono fun text h => ⟨?_, h.2⟩
  obtain ⟨calls, hne, hcalls, hchars⟩ := h.1
  exact ⟨calls, hne, hcalls, String.toList_injective (by rw [hchars, toList_join_text])⟩

theorem string_gives : string.Gives ok (IsResolved ok) := by
  refine .named (.token fun s hs content rest h => ?_)
  obtain ⟨⟨body, left⟩, hsplit, heq⟩ := Option.map_eq_some_iff.mp h
  obtain ⟨rfl, rfl⟩ := Prod.mk.inj heq
  obtain ⟨mark, hmark⟩ : ∃ mark, s = mark :: (body ++ mark :: left) := by
    unfold splitString at hsplit
    split at hsplit
    · rename_i mark tail
      split_ifs at hsplit
      exact ⟨mark, congrArg _ (append_of_splitQuoted hsplit)⟩
    · cases hsplit
  rw [hmark, List.forall_mem_cons, List.forall_mem_append, List.forall_mem_cons] at hs
  refine ⟨fun c hc => ?_, hs.2.2.2⟩
  rw [String.toList_ofList] at hc
  exact (mem_of_unescapeChars hc).imp_left (hs.2.1 c)

theorem truth_gives : truth.Gives ok fun _ => True := by
  refine .named (.token fun s hs value rest h => ⟨trivial, fun c hc => hs c ?_⟩)
  split at h
  · rename_i left hsplit
    obtain ⟨_, rfl⟩ := Prod.mk.inj (Option.some.inj h)
    rw [append_of_splitKeyword hsplit]
    exact List.mem_append_right _ hc
  · obtain ⟨⟨_, left⟩, hsplit, heq⟩ := Option.map_eq_some_iff.mp h
    obtain ⟨_, rfl⟩ := Prod.mk.inj heq
    rw [append_of_splitKeyword hsplit]
    exact List.mem_append_right _ hc

theorem undefinedWord_gives : undefinedWord.Gives ok fun _ => True := by
  refine .named (.token fun s hs u rest h => ⟨trivial, fun c hc => hs c ?_⟩)
  obtain ⟨text, hsplit⟩ : ∃ text, splitKeyword text s = some (u, rest) := by
    cases hundef : splitKeyword "undef".toList s with
    | none =>
      rw [hundef] at h
      exact ⟨_, h⟩
    | some found =>
      rw [hundef] at h
      exact ⟨_, hundef.trans h⟩
  rw [append_of_splitKeyword hsplit]
  exact List.mem_append_right _ hc

section Literals

variable {α : Type} {p : Phrase α} {Q : α → Prop} {item : Phrase Literal}

theorem entries_gives (h : p.Gives ok Q) : (entries p).Gives ok fun all => ∀ a ∈ all, Q a := by
  have hall : ((do
      let all ← commaSeparated p
      let _ ← optional (symbol ",")
      return all) : Phrase (List α)).Gives ok fun all => ∀ a ∈ all, Q a :=
    .andThen (commaSeparated_gives h) fun _ hall =>
      .andThen (.optional (symbol_gives _)) fun _ _ => .done hall
  refine .andThen (.optional hall) fun all hall => .done ?_
  cases all with
  | none => simp
  | some all => exact hall all rfl

theorem listOf_gives (h : item.Gives ok (Literal.WellFormed ok)) :
    (listOf item).Gives ok fun items => (Literal.list items).WellFormed ok :=
  .named (.andThen (symbol_gives _) fun _ _ => .andThen (entries_gives h) fun _ hitems =>
    .andThen (symbol_gives _) fun _ _ => .done (Literal.forallItems_iff.mpr hitems))

theorem field_gives (h : item.Gives ok (Literal.WellFormed ok)) :
    (field item).Gives ok fun field => IsResolved ok field.1 ∧ field.2.WellFormed ok := by
  have hname : name.Gives ok (IsResolved ok) :=
    (word_gives (P := fun _ => True) fun _ _ _ h => ⟨Text.append_of_splitName h, trivial⟩).mono
      fun _ h c hc => Or.inl (h.2 c hc)
  exact .named (.andThen (.either string_gives hname) fun _ hkey =>
    .andThen (.either (symbol_gives _) (symbol_gives _)) fun _ _ =>
      .andThen h fun _ hvalue => .done ⟨hkey, hvalue⟩)

theorem objectOf_gives (h : item.Gives ok (Literal.WellFormed ok)) :
    (objectOf item).Gives ok fun fields => (Literal.object fields).WellFormed ok :=
  .named (.andThen (symbol_gives _) fun _ _ => .andThen (entries_gives (field_gives h))
    fun _ hfields => .andThen (symbol_gives _) fun _ _ =>
      .done (Literal.forallFields_iff.mpr hfields))

theorem literalWithin_gives (depth : Nat) :
    (literalWithin depth).Gives ok (Literal.WellFormed ok) := by
  induction depth with
  | zero => exact .absent
  | succ depth ih =>
    have htruth (value : Bool) : (Literal.truth value).WellFormed ok := trivial
    have hundefined : Literal.undefined.WellFormed ok := trivial
    exact .named (.either (.map string_gives) (.either (.map number_gives)
      (.either (.map (truth_gives.mono fun value _ => htruth value))
        (.either (.map (undefinedWord_gives.mono fun _ _ => hundefined))
          (.either (.map (listOf_gives ih)) (.map (objectOf_gives ih)))))))

theorem literal_gives : literal.Gives ok (Literal.WellFormed ok) :=
  fun s => literalWithin_gives (s.length + 1) s

end Literals

theorem typeName_gives : typeName.Gives ok fun _ => True := by
  have helement : ((do
      symbol "<"
      let element ← name
      symbol ">"
      return element) : Phrase String).Gives ok fun _ => True :=
    .andThen (symbol_gives _) fun _ _ => .andThen name_gives fun _ _ =>
      .andThen (symbol_gives _) fun _ _ => .done trivial
  exact .named (.andThen name_gives fun _ _ => .andThen (.optional helement) fun _ _ =>
    .done trivial)

theorem methodValue_gives : methodValue.Gives ok fun read =>
    IsName read.1 ∧ IsChain read.2 ∧ ∀ c ∈ read.2.toList, ok c :=
  .named (.andThen name_gives fun _ hname => .andThen chain_gives fun _ hchain =>
    .done ⟨hname, hchain⟩)

theorem routineCall_gives {argument : Phrase Expression}
    (h : argument.Gives ok (Expression.WellFormed ok)) :
    (routineCall argument).Gives ok (Expression.WellFormed ok) := by
  refine .named (.andThen name_gives fun _ hname => .andThen (symbol_gives _) fun _ _ =>
    .andThen (.optional (commaSeparated_gives h)) fun arguments harguments =>
      .andThen (symbol_gives _) fun _ _ => .done ⟨hname, argumentsWellFormed_iff.mpr ?_⟩)
  cases arguments with
  | none => simp
  | some arguments => exact harguments arguments rfl

theorem valueWithin_gives (depth : Nat) :
    (valueWithin depth).Gives ok (Expression.WellFormed ok) := by
  induction depth with
  | zero => exact .absent
  | succ depth ih =>
    have hcommand : commandLine.Gives ok (Expression.WellFormed ok) :=
      .named (.andThen (keyword_gives _) fun _ _ => .andThen (symbol_gives _) fun _ _ =>
        .andThen (symbol_gives _) fun _ _ => .done trivial)
    exact .named (.either hcommand (.either (.map methodValue_gives)
      (.either (routineCall_gives ih) (.either (.map literal_gives) (.named (.map name_gives))))))

theorem value_gives : value.Gives ok (Expression.WellFormed ok) :=
  fun s => valueWithin_gives (s.length + 1) s

theorem operand_gives {α : Type} {p : Phrase α} {Q : α → Prop} (h : p.Gives ok Q) :
    (operand p).Gives ok fun read => ∀ a ∈ read, Q a := by
  have hinside : ((do
      symbol "("
      let operand ← optional p
      symbol ")"
      return operand) : Phrase (Option α)).Gives ok fun read => ∀ a ∈ read, Q a :=
    .andThen (symbol_gives _) fun _ _ => .andThen (.optional h) fun _ hread =>
      .andThen (symbol_gives _) fun _ _ => .done hread
  have hbare : (some <$> p).Gives ok fun read => ∀ a ∈ read, Q a :=
    .andThen h fun a ha => .done (by rintro _ ⟨rfl⟩; exact ha)
  refine .andThen (.optional (.either hinside hbare)) fun read hread => .done ?_
  cases read with
  | none => simp
  | some inner => exact hread inner rfl

section Lines

theorem importLine_gives : importLine.Gives ok (Construct.WellFormed ok) := by
  have hnames : importedNames.Gives ok fun symbols =>
      ∀ names ∈ symbols, ∀ name ∈ names, IsName name := by
    refine .either (.named (.map ((symbol_gives _).mono fun _ _ => by simp))) (.named ?_)
    refine .andThen (symbol_gives _) fun _ _ => .andThen (commaSeparated_gives name_gives)
      fun names hnames => .andThen (symbol_gives _) fun _ _ => .done ?_
    rintro _ ⟨rfl⟩
    exact hnames
  exact .named (.andThen (keyword_gives _) fun _ _ => .andThen hnames fun _ hsymbols =>
    .andThen (keyword_gives _) fun _ _ => .andThen modulePath_gives fun _ _ => .done hsymbols)

theorem packageLine_gives : packageLine.Gives ok (Construct.WellFormed ok) :=
  .named (.andThen (keyword_gives _) fun _ _ => .andThen modulePath_gives fun _ _ =>
    .done trivial)

theorem parameter_gives : parameter.Gives ok fun parameter => IsName parameter.name :=
  .named (.either
    (.andThen typeName_gives fun _ _ => .andThen name_gives fun _ hname => .done hname)
    (.map name_gives))

theorem routineLine_gives : routineLine.Gives ok (Construct.WellFormed ok) := by
  have hreturns : returns.Gives ok fun _ => True :=
    .named (.andThen (symbol_gives _) fun _ _ => typeName_gives)
  refine .named (.andThen (keyword_gives _) fun _ _ => .andThen (.optional name_gives)
    fun _ hname => .andThen (symbol_gives _) fun _ _ =>
      .andThen (.optional (.named (commaSeparated_gives parameter_gives)))
        fun parameters hparameters =>
        .andThen (symbol_gives _) fun _ _ => .andThen (.optional hreturns) fun _ _ =>
          .andThen (symbol_gives _) fun _ _ => .done ⟨hname, ?_⟩)
  cases parameters with
  | none => simp
  | some parameters => exact hparameters parameters rfl

theorem returnLine_gives : returnLine.Gives ok (Construct.WellFormed ok) := by
  refine .named (.andThen (keyword_gives _) fun _ _ =>
    .andThen (.optional (commaSeparated_gives value_gives)) fun values hvalues => .done ?_)
  cases values with
  | none => simp [Construct.WellFormed]
  | some values => exact hvalues values rfl

theorem condition_wellFormed (branch : Branch) {tested : Expression} (h : tested.WellFormed ok) :
    (Construct.condition branch (some tested)).WellFormed ok := by
  rintro _ ⟨rfl⟩
  exact h

theorem ifLine_gives : ifLine.Gives ok (Construct.WellFormed ok) :=
  .named (.andThen (keyword_gives _) fun _ _ => .andThen value_gives fun _ h =>
    .andThen (symbol_gives _) fun _ _ => .done (condition_wellFormed _ h))

theorem elseIfLine_gives : elseIfLine.Gives ok (Construct.WellFormed ok) :=
  .named (.andThen (keyword_gives _) fun _ _ => .andThen value_gives fun _ h =>
    .andThen (symbol_gives _) fun _ _ => .done (condition_wellFormed _ h))

theorem elseLine_gives : elseLine.Gives ok (Construct.WellFormed ok) :=
  .named (.andThen (keyword_gives _) fun _ _ => .andThen (symbol_gives _) fun _ _ =>
    .done (by simp [Construct.WellFormed]))

theorem loopLine_gives : loopLine.Gives ok (Construct.WellFormed ok) :=
  .named (.andThen (keyword_gives _) fun _ _ => .andThen name_gives fun _ helement =>
    .andThen (keyword_gives _) fun _ _ => .andThen name_gives fun _ hiterable =>
      .andThen (symbol_gives _) fun _ _ => .done ⟨helement, hiterable⟩)

theorem tryLine_gives : tryLine.Gives ok (Construct.WellFormed ok) :=
  .named (.andThen (keyword_gives _) fun _ _ => .andThen (symbol_gives _) fun _ _ =>
    .done trivial)

theorem signalLine_gives : signalLine.Gives ok (Construct.WellFormed ok) := by
  have hparameter : ((do
      symbol "("
      let parameter ← optional name
      symbol ")"
      return parameter) : Phrase (Option String)).Gives ok fun read => ∀ name ∈ read, IsName name :=
    .andThen (symbol_gives _) fun _ _ => .andThen (.optional name_gives) fun _ hread =>
      .andThen (symbol_gives _) fun _ _ => .done hread
  refine .named (.andThen (keyword_gives _) fun _ _ => .andThen name_gives fun _ _ =>
    .andThen (.optional hparameter) fun parameter hparameter =>
      .andThen (symbol_gives _) fun _ _ => .done ?_)
  cases parameter with
  | none => simp [Construct.WellFormed]
  | some inner => exact hparameter inner rfl

theorem printLine_gives : printLine.Gives ok (Construct.WellFormed ok) :=
  .named (.andThen (keyword_gives _) fun _ _ => .andThen (operand_gives value_gives) fun _ h =>
    .done h)

theorem exitLine_gives :
    exitLine.Gives ok fun read => ∀ c, read = .ok c → c.WellFormed ok := by
  refine .named (.andThen (keyword_gives _) fun _ _ =>
    .andThen (operand_gives number_gives) fun spelling _ => ?_)
  have hexit (code : Int) : ∀ c, Except.ok (.exit code) = (.ok c : Except Fault Construct) →
      c.WellFormed ok := by
    rintro _ ⟨rfl⟩
    trivial
  cases spelling with
  | none => exact .done (hexit 0)
  | some spelling =>
    cases hcode : exitCode? spelling with
    | none =>
      simp only [hcode]
      exact .done (by simp)
    | some code =>
      simp only [hcode]
      exact .done (hexit code)

theorem openLine_gives : openLine.Gives ok (Construct.WellFormed ok) :=
  .named (.map ((symbol_gives _).mono fun _ _ => trivial))

theorem closeLine_gives : closeLine.Gives ok (Construct.WellFormed ok) :=
  .named (.map ((symbol_gives _).mono fun _ _ => trivial))

theorem declarationLine_gives : declarationLine.Gives ok (Construct.WellFormed ok) :=
  .named (.andThen typeName_gives fun _ _ => .andThen name_gives fun _ hname =>
    .andThen (symbol_gives _) fun _ _ => .andThen value_gives fun _ h => .done ⟨hname, h⟩)

theorem assignmentLine_gives : assignmentLine.Gives ok (Construct.WellFormed ok) :=
  .named (.andThen name_gives fun _ hname => .andThen (symbol_gives _) fun _ _ =>
    .andThen value_gives fun _ h => .done ⟨hname, h⟩)

theorem methodLine_gives : methodLine.Gives ok (Construct.WellFormed ok) :=
  .named (.andThen name_gives fun _ hname => .andThen chain_gives fun _ h => .done ⟨hname, h⟩)

theorem statement_gives :
    statement.Gives ok fun read => ∀ c, read = .ok c → c.WellFormed ok := by
  have hok {p : Phrase Construct} (h : p.Gives ok (Construct.WellFormed ok)) :
      (.ok <$> p : Phrase (Except Fault Construct)).Gives ok
        fun read => ∀ c, read = .ok c → c.WellFormed ok :=
    .andThen h fun _ hc => .done (by rintro _ ⟨rfl⟩; exact hc)
  refine .either (hok ?_) (.either exitLine_gives (hok ?_))
  · exact .either importLine_gives (.either packageLine_gives (.either routineLine_gives
      (.either returnLine_gives (.either ifLine_gives (.either elseIfLine_gives
        (.either elseLine_gives (.either loopLine_gives (.either tryLine_gives
          (.either signalLine_gives printLine_gives)))))))))
  · exact .either openLine_gives (.either closeLine_gives
      (.either declarationLine_gives (.either assignmentLine_gives methodLine_gives)))

end Lines

/-- Whatever a line is recognised as is well formed. -/
theorem wellFormed_of_classify {line : String} {c : Construct} (h : classify line = .ok c)
    (hline : ∀ c ∈ line.toList, ok c) : c.WellFormed ok := by
  unfold classify at h
  split at h
  · obtain rfl := Except.ok.inj h
    trivial
  · obtain rfl := Except.ok.inj h
    trivial
  · have hwhole : wholeLine.Gives ok fun read =>
        ∀ result ∈ read, ∀ c, result = .ok c → c.WellFormed ok := by
      have hend : endOfLine.Gives ok fun _ => True := by
        refine .named fun s hs u rest hfound => ⟨trivial, ?_⟩
        split_ifs at hfound
        obtain ⟨_, rfl⟩ := Prod.mk.inj (Option.some.inj hfound)
        exact hs
      exact .andThen (.optional statement_gives) fun _ hread => .andThen hend fun _ _ =>
        .done hread
    have hchars : ∀ c ∈ skipFiller line.toList, ok c := fun c hc => hline c (mem_of_skipFiller hc)
    split at h
    · rename_i result rest missed hread
      exact (hwhole _ hchars (some result) rest (by rw [hread])).1 result rfl c h
    · obtain rfl := Except.ok.inj h
      trivial
    · cases h

end Line

end LineScript
