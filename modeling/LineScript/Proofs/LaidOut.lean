import LineScript.Proofs.Statements
import LineScript.Proofs.Stored

/-!
# What a script stores is laid out

Every element that a script puts into a store has a text of whole lines, in which brackets close
within each line, and so have the headers of its blocks. The one line that can break this is a
branch with a semicolon: its test loses a semicolon, which may have stood in a quoted text. What is
known of the tests of branches is therefore a parameter of `Store.Spelled`.
-/
namespace LineScript

open Text Layout

/-- Every text of the element is laid out, unless it is that of another block. -/
def Element.LaidOut (e : Element) : Prop :=
  e.child? = none → ∀ (s : Store) blockText routineText t,
    s.elementTextBy blockText routineText e = .ok t → Laid t

/-- A named value whose expressions are paired. -/
def Value.Printable (v : Value) : Prop :=
  v.Tidy true ∧ ∃ name, v.name = some name ∧ IsName name

theorem Value.printable_of_make {kind : Kind} {name : String} {element : Option Kind}
    {source : Source} {value : Value} (h : Value.make kind (some name) element source = .ok value)
    (hname : IsName name) (hsource : source.Tidy true) : value.Printable :=
  ⟨Value.tidy_of_make hsource h, name, (Value.make_ok h).2.1, hname⟩

theorem Value.Printable.sentence {v : Value} (h : v.Printable)
    {routineText : BlockId → Except Fault String} {t : String}
    (ht : v.declaration routineText = .ok t) : Sentence t := by
  obtain ⟨htidy, name, hname, hisName⟩ := h
  exact Value.sentence_declaration htidy hname hisName ht

theorem Value.isName_of_toVariable {value : Value} {name : String} {v : Variable}
    (hvalue : value.name = some name) (hname : IsName name) (h : value.toVariable = .ok v) :
    IsName v.name := by
  rw [(Value.toVariable_ok h).1, Option.some.injEq] at hvalue
  exact hvalue ▸ hname

def BlockKind.LaidOut : BlockKind → Prop
  | .routine info => ∀ name ∈ info.name, IsName name
  | .condition info => ∀ test ∈ info.test, Paired true test
  | .arrayLoop loop => loop.counter.Printable ∧ loop.length.Printable ∧ loop.element.Printable
  | _ => True

/-- Every text of the element is spelled in whole lines, and in one line if the element does not
bind parameters. -/
def Element.Spelled (e : Element) : Prop :=
  e.child? = none → ∀ (s : Store) blockText routineText t,
    s.elementTextBy blockText routineText e = .ok t →
      Layout.Spelled t ∧ ((∀ b, e ≠ .statement (.binding b)) → Sentence t ∨ t = "\n")

theorem Element.Spelled.laidOut {e : Element} (h : e.Spelled) : e.LaidOut :=
  fun hchild s blockText routineText t ht => (h hchild s blockText routineText t ht).1.laid

theorem Element.spelled_of_sentence {e : Element}
    (h : ∀ (s : Store) blockText routineText t,
      s.elementTextBy blockText routineText e = .ok t → Sentence t) : e.Spelled :=
  fun _ s blockText routineText t ht =>
    have hsentence := h s blockText routineText t ht
    ⟨.sentence hsentence, fun _ => Or.inl hsentence⟩

/-- The names in the header of the block are names, and its test has the property. -/
def BlockKind.Spelled (T : String → Prop) : BlockKind → Prop
  | .routine info => ∀ name ∈ info.name, IsName name
  | .condition info => ∀ test ∈ info.test, T test
  | .arrayLoop loop => loop.counter.Printable ∧ loop.length.Printable ∧ loop.element.Printable
  | _ => True

namespace Store

structure LaidOut (s : Store) : Prop where
  kind : ∀ id kind, s.kindOf id = some kind → kind.LaidOut
  element : ∀ e, s.Stores e → e.LaidOut

structure Spelled (T : String → Prop) (s : Store) : Prop where
  kind : ∀ id kind, s.kindOf id = some kind → kind.Spelled T
  element : ∀ e, s.Stores e → e.Spelled

variable {T : String → Prop} {s t : Store}

namespace Spelled

theorem laidOut (h : s.Spelled (Paired true)) : s.LaidOut := by
  refine ⟨fun id kind hkind => ?_, fun e he => (h.element e he).laidOut⟩
  have hspelled := h.kind id kind hkind
  cases kind <;> exact hspelled

theorem append (h : s.Spelled T) {parent : BlockId} {element : Element}
    (happend : Succeeds (Edit.append parent element) s () t) (hchild : element.child? = none)
    (helement : element.Spelled) : t.Spelled T := by
  obtain ⟨hkinds, hstores⟩ := stores_append happend hchild
  refine ⟨fun id kind hid => h.kind id kind (hkinds id ▸ hid), fun e he => ?_⟩
  rcases hstores e he with he | rfl
  · exact h.element e he
  · exact helement

theorem extend (h : s.Spelled T) {made : List Block} (fresh : Nat)
    (hkinds : ∀ block ∈ made, block.kind.fixed.Spelled T)
    (helements : ∀ block ∈ made, ∀ e ∈ block.elements, e.Spelled) :
    (s.extend made fresh).Spelled T := by
  constructor
  · intro id kind hkind
    rcases kindOf_extend hkind with hkind | ⟨_, block, hmem, rfl⟩
    · exact h.kind id kind hkind
    · exact hkinds block hmem
  · intro e he
    rcases stores_extend he with he | ⟨block, hmem, he⟩
    · exact h.element e he
    · exact helements block hmem e he

theorem attach (h : s.Spelled T) {child parent : BlockId} {inner block : Block}
    {element : Element} (hinner : s.get? child = some inner) (hblock : s.get? parent = some block)
    (hne : child ≠ parent) (helement : element.Spelled) :
    (s.attach child parent inner block element).Spelled T := by
  have hkinds := kindOf_attach hinner hblock hne element
  refine ⟨fun id kind hid => h.kind id kind (hkinds id ▸ hid), fun e he => ?_⟩
  rcases stores_attach hinner hblock he with he | rfl
  · exact h.element e he
  · exact helement

end Spelled

end Store

/-- The line is made of well formed parts, and its test has no semicolon if it is a branch. -/
def Construct.Tidy (c : Construct) : Prop :=
  (c.WellFormed fun c => fits true c = true) ∧
    ∀ branch e, c = .condition branch (some e) → e.WellFormed fun c => fits false c = true

theorem Test.paired_text {t : String} (h : Paired false t) : Paired true (Test.raw t).text := by
  have hsemi : ';' ∉ t.toList := fun hmem => absurd (h.fits _ hmem) (by decide)
  have hfeed : '\n' ∉ t.toList := fun hmem => absurd (h.fits _ hmem) (by decide)
  rw [Test.text, List.erase_of_not_mem hsemi, List.erase_of_not_mem hfeed]
  exact h.allowing.trim

theorem Condition.test_of_make {T : String → Prop} {branch : Branch} {test : Option Test}
    {condition : Condition} (htest : ∀ t ∈ test, T t.text)
    (h : Condition.make branch test = .ok condition) : ∀ t ∈ condition.test, T t := by
  unfold Condition.make at h
  split at h
  · obtain rfl := Except.ok.inj h
    simp
  · cases h
  · cases h
  · rename_i test _
    obtain rfl := Except.ok.inj h
    rintro _ ⟨rfl⟩
    exact htest test rfl

/-- The line is made of well formed parts. If it is a branch, its test has the property. -/
structure Construct.Spells (T : String → Prop) (c : Construct) : Prop where
  wellFormed : c.WellFormed fun c => fits true c = true
  test : ∀ (s : Scopes) branch e test, s.Named → c = .condition branch e → s.test e = .ok test →
    ∀ t ∈ test, T t.text

namespace Scopes

variable {s : Scopes} {c : Construct}

theorem Named.paired_test (hnamed : s.Named) {e : Option Expression} {test : Option Test}
    (he : ∀ e' ∈ e, e'.WellFormed fun c => fits false c = true) (h : s.test e = .ok test) :
    ∀ t ∈ test, Paired true t.text := by
  unfold Scopes.test at h
  split at h
  · obtain rfl := Except.ok.inj h
    simp
  · rename_i name
    obtain ⟨v, hv, h⟩ := (except_bind_ok _ _ _).mp h
    obtain rfl := (except_pure_ok _ _).mp h
    rintro _ ⟨rfl⟩
    exact paired_condition (by rw [hnamed.name_of_require hv]; exact he _ rfl)
  · obtain ⟨text, htext, h⟩ := (except_bind_ok _ _ _).mp h
    obtain rfl := (except_pure_ok _ _).mp h
    rintro _ ⟨rfl⟩
    exact Test.paired_text (hnamed.paired_inlineText (he _ rfl) htext)

theorem Named.message_tidy (hnamed : s.Named) {e : Option Expression} {message : Message}
    (he : ∀ e' ∈ e, e'.WellFormed fun c => fits true c = true) (h : s.message e = .ok message) :
    message.Tidy := by
  unfold Scopes.message at h
  split at h
  · obtain rfl := Except.ok.inj h
    trivial
  · rename_i name
    obtain ⟨v, hv, h⟩ := (except_bind_ok _ _ _).mp h
    obtain rfl := (except_pure_ok _ _).mp h
    rw [Message.Tidy, hnamed.name_of_require hv]
    exact he _ rfl
  · rename_i content
    obtain rfl := Except.ok.inj h
    exact Paired.quote (Literal.fits_of_isResolved (he _ rfl))
  · rename_i spelling
    obtain rfl := Except.ok.inj h
    have hnumber : Paired true spelling := .number (he _ rfl)
    exact Paired.quote fun c hc _ => hnumber.fits c hc
  · obtain ⟨text, htext, h⟩ := (except_bind_ok _ _ _).mp h
    obtain rfl := (except_pure_ok _ _).mp h
    exact hnamed.paired_inlineText (he _ rfl) htext

theorem Named.paired_returnedValue (hnamed : s.Named) {e : Expression} {value : ReturnedValue}
    (he : e.WellFormed fun c => fits true c = true) (h : s.returnedValue e = .ok value)
    {routineText : BlockId → Except Fault String} {t : String}
    (ht : Return.valueText routineText value = .ok t) : Paired true t := by
  cases e with
  | «variable» name =>
    obtain ⟨content, hcontent, h⟩ := (except_bind_ok _ _ _).mp h
    obtain rfl := (except_pure_ok _ _).mp h
    rw [Return.valueText, hnamed.name_of_resolve (require_ok.mp hcontent)] at ht
    obtain rfl := Except.ok.inj ht
    have hsigil : Paired true "$" := fun _ => rfl
    exact hsigil.append (Paired.name true he)
  | literal _ | arguments | routine _ _ | method _ _ =>
    obtain ⟨text, htext, h⟩ := (except_bind_ok _ _ _).mp h
    obtain rfl := (except_pure_ok _ _).mp h
    obtain rfl := Except.ok.inj ht
    exact hnamed.paired_inlineText he htext

theorem Adds.spelled (hnamed : s.Named) (hc : c.WellFormed fun c => fits true c = true)
    {element : Element} (h : s.Adds c element) : element.Spelled := by
  cases h with
  | blank =>
    intro _ store blockText routineText t ht
    obtain rfl := Except.ok.inj ht
    exact ⟨.blank, fun _ => Or.inr rfl⟩
  | call hreceiver hmem harguments =>
    apply Element.spelled_of_sentence
    intro store blockText routineText t ht
    obtain ⟨text, htext, ht⟩ := (except_bind_ok _ _ _).mp ht
    obtain rfl := (except_pure_ok _ _).mp ht
    have hi := hc.2.1.tidy_results hc.2.2 hmem
    have hcall := MethodCall.tidy_on (by rw [hnamed.name_of_require hreceiver]; exact hc.1) hi.1
      (hnamed.methodArguments_tidy hi harguments)
    exact .intro (MethodCall.startsSolid_on htext) (hcall _ _ htext) ";" rfl fun _ => rfl
  | assign htarget hsource hvalue hassignment =>
    obtain ⟨htarget', rfl⟩ := Assignment.make_ok hassignment
    apply Element.spelled_of_sentence
    intro store blockText routineText t ht
    obtain ⟨text, htext, ht⟩ := (except_bind_ok _ _ _).mp ht
    obtain rfl := (except_pure_ok _ _).mp ht
    have hname := hnamed.name_of_resolve (require_ok.mp htarget)
    have hreference : Paired true _ :=
      paired_reference (Value.isName_of_toVariable hname hc.1 htarget')
    have hequals : Paired true " = " := fun _ => rfl
    have hpaired := Value.tidy_of_make (hnamed.source_tidy hc.2 hsource) hvalue _ _ htext
    exact .intro (startsSolid_append (startsSolid_append (startsSolid_append rfl _) _) _)
      ((hreference.append hequals).append hpaired) ";" rfl fun _ => rfl
  | giveBack hvalues =>
    apply Element.spelled_of_sentence
    intro store blockText routineText t ht
    refine Return.sentence_text (fun value hvalue text htext => ?_) ht
    obtain ⟨e, he, hreturned⟩ := exists_of_mem_mapM hvalues hvalue
    exact hnamed.paired_returnedValue (hc e he) hreturned htext
  | print hmessage =>
    apply Element.spelled_of_sentence
    intro store blockText routineText t ht
    obtain rfl := Except.ok.inj ht
    exact Print.sentence_text (hnamed.message_tidy hc hmessage)
  | exit code =>
    apply Element.spelled_of_sentence
    intro store blockText routineText t ht
    obtain rfl := Except.ok.inj ht
    exact sentence_exit code

theorem spelled_routineBlock {T : String → Prop} {name : Option String}
    {parameters : List BoundParameter} (mode : BindingMode) (declared : Option Kind)
    (hname : ∀ n ∈ name, IsName n)
    (hparameters : ∀ p ∈ parameters, IsName p.name ∧ ∀ cls ∈ p.wrap, Paired true cls) :
    (routineBlock name parameters mode declared).kind.fixed.Spelled T ∧
      ∀ e ∈ (routineBlock name parameters mode declared).elements, e.Spelled := by
  refine ⟨hname, fun e he => ?_⟩
  unfold routineBlock at he
  split_ifs at he
  · cases he
  · obtain rfl := List.mem_singleton.mp he
    intro _ store blockText routineText t ht
    obtain rfl := Except.ok.inj ht
    exact ⟨Binding.spelled_text hparameters, fun hbinding => absurd rfl (hbinding _)⟩

/-- The parameters of a routine are put back into the classes of their kinds. -/
theorem paired_wrap {parameters : List Parameter} {bound : List (BoundParameter × Value)}
    (hnames : ∀ parameter ∈ parameters, IsName parameter.name)
    (h : parameters.mapM Session.parameterValue = .ok bound) :
    ∀ p ∈ bound.map Prod.fst, IsName p.name ∧ ∀ cls ∈ p.wrap, Paired true cls := by
  intro p hp
  obtain ⟨pair, hpair, rfl⟩ := List.mem_map.mp hp
  obtain ⟨parameter, hparameter, hbound⟩ := exists_of_mem_mapM h hpair
  obtain ⟨hname, kind, _, _, hwrap⟩ := Session.parameterValue_ok hbound
  refine ⟨hname ▸ hnames parameter hparameter, fun cls hcls => ?_⟩
  rw [hwrap] at hcls
  split_ifs at hcls
  · obtain rfl := Option.some.inj hcls
    exact paired_className kind
  · cases hcls

variable {T : String → Prop}

theorem Opening.spelled (hnamed : s.Named) (hc : c.Spells T) (hfault : T "$@") {o : Opened}
    (h : s.Opening c o) :
    ∀ block ∈ o.made, block.kind.fixed.Spelled T ∧ ∀ e ∈ block.elements, e.Spelled := by
  have hparts := hc.wellFormed
  cases h with
  | plain | mapLoop _ _ _ =>
    intro block hblock
    obtain rfl := List.mem_singleton.mp hblock
    exact ⟨trivial, by simp [Block.ofKind]⟩
  | condition htest _ hcondition =>
    intro block hblock
    obtain rfl := List.mem_singleton.mp hblock
    exact ⟨Condition.test_of_make (hc.test s _ _ _ hnamed rfl htest) hcondition,
      by simp [Block.ofKind]⟩
  | routine _ hbound =>
    intro block hblock
    obtain rfl := List.mem_singleton.mp hblock
    exact spelled_routineBlock _ _ hparts.1 (paired_wrap hparts.2 hbound)
  | signal _ =>
    intro block hblock
    obtain rfl := List.mem_singleton.mp hblock
    refine spelled_routineBlock _ _ (by simp) fun p hp => ?_
    obtain ⟨parameter, hparameter, rfl⟩ := List.mem_map.mp hp
    exact ⟨hparts parameter (Option.mem_toList.mp hparameter), by simp⟩
  | attempt hcondition =>
    intro block hblock
    rcases List.mem_cons.mp hblock with rfl | hblock
    · refine ⟨Condition.test_of_make ?_ hcondition, fun e he => ?_⟩
      · rintro _ ⟨rfl⟩
        exact hfault
      · obtain rfl := List.mem_singleton.mp he
        apply Element.spelled_of_sentence
        intro store blockText routineText t ht
        obtain rfl := Except.ok.inj ht
        exact Print.sentence_text (fun _ => rfl : Paired true "$@")
    · obtain rfl := List.mem_singleton.mp hblock
      exact ⟨trivial, by simp [Block.ofKind]⟩
  | @arrayLoop _ _ _ _ _ _ _ counted hcollection _ hlooped hcounter hlength hcounted hitem =>
    intro block hblock
    obtain rfl := List.mem_singleton.mp hblock
    have hcounterName : IsName s!"__i{s.store.fresh}" := isName_fresh (by rfl) _
    have hloopedName := Value.isName_of_toVariable
      (hnamed.name_of_resolve (require_ok.mp hcollection)) hparts.2 hlooped
    have hcountedName :=
      Value.isName_of_toVariable (Value.make_ok hcounter).2.1 hcounterName hcounted
    have hbound : ∀ argument ∈ [Argument.bound counted], argument.Tidy true := by
      intro argument hargument routineText t ht
      obtain rfl := List.mem_singleton.mp hargument
      obtain rfl := Except.ok.inj ht
      exact paired_accessor hcountedName
    refine ⟨⟨?_, ?_, ?_⟩, by simp [Block.ofKind]⟩
    · exact Value.printable_of_make hcounter hcounterName
        (.unsigned (.whole ⟨by decide, List.all_eq_true.mp (by decide)⟩) : Line.IsNumber _)
    · exact Value.printable_of_make hlength (isName_fresh (by rfl) _)
        (MethodCall.tidy_on hloopedName (by rfl) (by simp))
    · exact Value.printable_of_make hitem hparts.1
        (MethodCall.tidy_on hloopedName (by rfl) hbound)

theorem spelled_mergedElement (scope : Scope) : (Session.mergedElement scope).Spelled := by
  unfold Session.mergedElement
  cases scope.merge <;> exact fun h => by cases h

theorem spelled_start (name : String) (isModule : Bool) {paths : List String}
    {deps : List Dependency}
    (hdeps : paths.mapM (fun path => Dependency.make path none) = .ok deps) :
    (start name isModule deps).store.Spelled T := by
  constructor
  · intro id kind hkind
    obtain ⟨block, hblock, rfl⟩ := Option.map_eq_some_iff.mp hkind
    obtain ⟨_, rfl⟩ := get?_start hblock
    trivial
  · rintro e ⟨id, block, hblock, he⟩
    obtain ⟨_, rfl⟩ := get?_start hblock
    rcases List.mem_append.mp he with he | he
    · obtain ⟨d, hd, rfl⟩ := List.mem_map.mp he
      apply Element.spelled_of_sentence
      intro store blockText routineText t ht
      obtain rfl := Except.ok.inj ht
      obtain ⟨path, _, hpath⟩ := exists_of_mem_mapM hdeps hd
      exact Dependency.sentence_text (by simp) hpath
    · obtain rfl := List.mem_singleton.mp he
      intro _ store blockText routineText t ht
      obtain rfl := Except.ok.inj ht
      exact ⟨.blank, fun _ => Or.inr rfl⟩

theorem spelled_stays {t : Scopes} (hnamed : s.Named)
    (hc : c.WellFormed fun c => fits true c = true) (h : s.store.Spelled T)
    (hmove : s.Stays c t) : t.store.Spelled T := by
  cases hmove with
  | note log => exact h
  | add log hadds happend => exact h.append happend hadds.child? (hadds.spelled hnamed hc)
  | declare log _ hsource hvalue happend =>
    have hprintable := Value.printable_of_make hvalue hc.1 (hnamed.source_tidy hc.2 hsource)
    exact h.append happend rfl (Element.spelled_of_sentence
      fun store blockText routineText t ht => hprintable.sentence ht)
  | hoist log hd happend =>
    refine h.append happend rfl (Element.spelled_of_sentence
      fun store blockText routineText t ht => ?_)
    obtain rfl := Except.ok.inj ht
    exact Dependency.sentence_text hc hd
  | package log hmodule happend =>
    refine h.append happend rfl (Element.spelled_of_sentence
      fun store blockText routineText t ht => ?_)
    obtain rfl := Except.ok.inj ht
    have hpackage : Paired true "package " := fun _ => rfl
    exact .intro (startsSolid_append rfl _) (hpackage.append (paired_modulePath hmodule)) ";" rfl
      fun _ => rfl

theorem spelled_closes {t : Scopes} (hlinked : s.Linked) (h : s.store.Spelled T)
    (hmove : s.Closes t) : t.store.Spelled T := by
  obtain ⟨parent, outer, block, inner, log, _, hgt, hblock, _, hinner, _, _, rfl⟩ :=
    hlinked.attach_of_closes hmove
  exact h.attach hinner hblock (Nat.ne_of_gt hgt) (spelled_mergedElement s.current)

theorem spelled_of_runs {name : String} {isModule : Bool} {paths : List String}
    {deps : List Dependency} {lines : List Construct}
    (hdeps : paths.mapM (fun path => Dependency.make path none) = .ok deps)
    (hruns : (start name isModule deps).Runs lines s) (hfault : T "$@")
    (hlines : ∀ c ∈ lines, c.Spells T) : s.store.Spelled T :=
  (hruns.invariant_of_start_along (fun _ c => c.Spells T) (fun _ s => s.store.Spelled T)
    (fun _ c _ heq => hlines c (heq ▸ List.mem_append_right _ List.mem_cons_self))
    (spelled_start name isModule hdeps)
    (fun _ _ _ _ hc _ hnamed hmove h => spelled_stays hnamed hc.wellFormed h hmove)
    (fun _ _ _ _ _ h => h)
    (fun _ _ _ o _ hc _ hnamed _ hopening h =>
      h.extend o.fresh (fun block hmem => (hopening.spelled hnamed hc hfault block hmem).1)
        fun block hmem => (hopening.spelled hnamed hc hfault block hmem).2)
    (fun _ _ _ _ hlinked _ _ hmove h => spelled_closes hlinked h hmove)).2.2

theorem laidOut_of_runs {name : String} {isModule : Bool} {paths : List String}
    {deps : List Dependency} {lines : List Construct}
    (hdeps : paths.mapM (fun path => Dependency.make path none) = .ok deps)
    (hruns : (start name isModule deps).Runs lines s) (htidy : ∀ c ∈ lines, c.Tidy) :
    s.Linked ∧ s.store.LaidOut := by
  refine ⟨hruns.linked_named.1, (spelled_of_runs hdeps hruns (fun _ => rfl) fun c hc => ?_).laidOut⟩
  refine ⟨(htidy c hc).1, fun s branch e test hnamed heq htest => hnamed.paired_test ?_ htest⟩
  rintro e' ⟨rfl⟩
  exact (htidy c hc).2 branch e' heq

/-- The file of a run keeps its name and whether it is a module. -/
theorem file_of_runs {name : String} {isModule : Bool} {deps : List Dependency}
    {lines : List Construct} (hruns : (start name isModule deps).Runs lines s) :
    s.store.kindOf 0 = some (.file ⟨name, isModule, true, none⟩) := by
  apply (hruns.invariant_of_start
    (fun _ s => s.store.kindOf 0 = some (.file ⟨name, isModule, true, none⟩)) rfl ?_ ?_ ?_ ?_).2.2
  · intro _ _ _ _ _ _ hmove h
    rw [hmove.sameLinks.kind, h]
  · exact fun _ _ _ _ _ h => h
  · intro _ _ s o _ _ _ _ _ h
    obtain ⟨block, hblock, _⟩ := Option.map_eq_some_iff.mp h
    rw [opened, Store.kindOf, Store.get?_extend_of_lt (Store.lt_size_of_get? hblock)]
    exact h
  · intro _ _ _ _ hlinked _ _ hmove h
    obtain ⟨parent, outer, block, inner, log, _, hgt, hblock, _, hinner, _, _, rfl⟩ :=
      hlinked.attach_of_closes hmove
    rw [Store.kindOf_attach hinner hblock (Nat.ne_of_gt hgt), h]

end Scopes

end LineScript
