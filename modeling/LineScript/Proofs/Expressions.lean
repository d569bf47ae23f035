import LineScript.Proofs.Constructs
import LineScript.Proofs.Plain

/-!
# Texts of expressions

The text that an expression of a line becomes has all its brackets and quotes closed. It has no
line feed, and a semicolon only if the line has one.
-/
namespace LineScript

open Text

variable {semi : Bool} {ok : Char → Prop}

namespace Line

theorem mem_isUnsigned {s : List Char} (h : IsUnsigned s) :
    ∀ c ∈ s, c.isDigit = true ∨ c = '.' := by
  cases h with
  | whole h => exact fun c hc => Or.inl (h.2 c hc)
  | fraction hs ht =>
    rw [List.forall_mem_append, List.forall_mem_cons]
    exact ⟨fun c hc => Or.inl (hs.2 c hc), Or.inr rfl, fun c hc => Or.inl (ht.2 c hc)⟩

theorem mem_isNumber {s : List Char} (h : IsNumber s) :
    ∀ c ∈ s, continuesName c = true ∨ c = '.' ∨ c = '-' := by
  have hdigit {c : Char} (hc : c.isDigit = true) : continuesName c = true := by
    simp [continuesName, Char.isAlphanum, hc]
  cases h with
  | unsigned h => exact fun c hc => (mem_isUnsigned h c hc).imp hdigit Or.inl
  | negative h =>
    rw [List.forall_mem_cons]
    exact ⟨Or.inr (Or.inr rfl), fun c hc => (mem_isUnsigned h c hc).imp hdigit Or.inl⟩

end Line

theorem Text.Paired.number {spelling : String} (h : Line.IsNumber spelling.toList) :
    Paired semi spelling := by
  refine .neutral (fun c hc => ?_) fun c hc => ?_
  · rcases Line.mem_isNumber h c hc with hc | rfl | rfl
    · exact fits_of_continuesName semi hc
    · rfl
    · rfl
  · rcases Line.mem_isNumber h c hc with hc | rfl | rfl
    · exact isNeutral_of_continuesName hc
    · rfl
    · rfl

theorem paired_className (kind : Kind) : Paired semi kind.className := by
  cases kind <;> exact fun _ => rfl

namespace Literal

theorem paired_newObject (kind : Kind) {arguments : String} (h : Paired semi arguments) :
    Paired semi (newObject kind arguments) := by
  have hopening : Passes semi [] "->new(" [')'] := fun _ => rfl
  have hclosing : Passes semi [')'] ")" [] := fun _ => rfl
  exact (((paired_className kind).append hopening).append (h.frame _)).append hclosing

theorem paired_bracketed {items : List String} (h : ∀ item ∈ items, Paired semi item) :
    Paired semi (bracketed items) := by
  have hcomma : Paired semi "," := fun _ => rfl
  exact (hcomma.joinWith h).within ']' (fun _ => rfl) fun _ => rfl

theorem paired_braced {fields : List String} (h : ∀ field ∈ fields, Paired semi field) :
    Paired semi (braced fields) := by
  have hcomma : Paired semi "," := fun _ => rfl
  exact (hcomma.joinWith h).within '\x7d' (fun _ => rfl) fun _ => rfl

theorem fits_of_isResolved {content : String}
    (h : IsResolved (fun c => fits semi c = true) content) :
    ∀ c ∈ content.toList, c ≠ '\n' → fits semi c = true := by
  intro c hc hfeed
  rcases h c hc with hfits | rfl | rfl | rfl
  · exact hfits
  · exact absurd rfl hfeed
  · rfl
  · rfl

theorem paired_fieldText {name value : String}
    (hname : IsResolved (fun c => fits semi c = true) name) (hvalue : Paired semi value) :
    Paired semi (fieldText name value) := by
  have hkey : Paired semi (Perl.key name) := by
    unfold Perl.key
    split_ifs with hisName
    · exact .name semi hisName
    · exact .quote (fits_of_isResolved hname)
  have harrow : Paired semi " => " := fun _ => rfl
  exact (hkey.append harrow).append hvalue

theorem paired_truth (value : Bool) : Paired semi (Perl.truth value) := by
  cases value <;> exact fun _ => rfl

mutual

theorem paired_native {l : Literal} (h : l.WellFormed fun c => fits semi c = true) :
    Paired semi l.native := by
  cases l with
  | text content => exact .quote (fits_of_isResolved h)
  | number spelling => exact .number h
  | truth value => exact paired_truth value
  | list items => exact paired_bracketed (paired_nativeItems h)
  | object fields => exact paired_braced (paired_nativeFields h)
  | undefined => exact fun _ => rfl

theorem paired_nativeItems {items : List Literal}
    (h : (Literal.list items).WellFormed fun c => fits semi c = true) :
    ∀ text ∈ nativeItems items, Paired semi text := by
  cases items with
  | nil => simp [nativeItems]
  | cons item rest =>
    exact List.forall_mem_cons.mpr ⟨paired_native h.1, paired_nativeItems h.2⟩

theorem paired_nativeFields {fields : List (String × Literal)}
    (h : (Literal.object fields).WellFormed fun c => fits semi c = true) :
    ∀ text ∈ nativeFields fields, Paired semi text := by
  cases fields with
  | nil => simp [nativeFields]
  | cons field rest =>
    exact List.forall_mem_cons.mpr
      ⟨paired_fieldText h.1 (paired_native h.2.1), paired_nativeFields h.2.2⟩

end

section Initial

variable {kind : Kind} {t : String}

theorem paired_leaf {l : Literal} (hl : l.WellFormed fun c => fits semi c = true)
    (h : leaf kind l = .ok t) : Paired semi t := by
  cases l with
  | text content =>
    have hquote : Paired semi (Perl.quote content) := .quote (fits_of_isResolved hl)
    cases kind <;> cases h
    · exact paired_newObject _ hquote
    · exact hquote
  | number spelling =>
    have hnumber : Paired semi spelling := .number hl
    have hquote : Paired semi (Perl.quote spelling) := .quote fun c hc _ => hnumber.fits c hc
    cases kind with
    | string =>
      cases h
      exact paired_newObject _ hquote
    | integer =>
      simp only [leaf] at h
      split_ifs at h
      cases h
      exact paired_newObject _ hnumber
    | scalar =>
      cases h
      exact hnumber
    | boolean | array | map | hash => cases h
  | truth value =>
    cases kind <;> cases h
    exact paired_newObject _ (paired_truth value)
  | undefined =>
    have hempty : Paired semi "" := fun _ => rfl
    cases kind with
    | scalar =>
      cases h
      exact fun _ => rfl
    | hash =>
      cases h
      exact fun _ => rfl
    | string | integer | boolean | array | map =>
      cases h
      exact paired_newObject _ hempty
  | list items => cases h
  | object fields => cases h

mutual

theorem paired_wrappedElement {l : Literal} {t : String}
    (hl : l.WellFormed fun c => fits semi c = true) (h : wrappedElement kind l = .ok t) :
    Paired semi t := by
  cases l with
  | list items =>
    obtain ⟨texts, htexts, rfl⟩ := (except_map_ok _ _ _).mp h
    exact paired_bracketed (paired_wrappedItems hl htexts)
  | object fields =>
    obtain ⟨texts, htexts, rfl⟩ := (except_map_ok _ _ _).mp h
    exact paired_braced (paired_wrappedFields hl htexts)
  | text _ | number _ | truth _ | undefined => exact paired_leaf hl h

theorem paired_wrappedItems {items : List Literal} {texts : List String}
    (hitems : (Literal.list items).WellFormed fun c => fits semi c = true)
    (h : wrappedItems kind items = .ok texts) : ∀ text ∈ texts, Paired semi text := by
  cases items with
  | nil =>
    obtain rfl := Except.ok.inj h
    simp
  | cons item rest =>
    obtain ⟨first, hfirst, h⟩ := (except_bind_ok _ _ _).mp h
    obtain ⟨others, hothers, h⟩ := (except_bind_ok _ _ _).mp h
    obtain rfl := (except_pure_ok _ _).mp h
    exact List.forall_mem_cons.mpr
      ⟨paired_wrappedElement hitems.1 hfirst, paired_wrappedItems hitems.2 hothers⟩

theorem paired_wrappedFields {fields : List (String × Literal)} {texts : List String}
    (hfields : (Literal.object fields).WellFormed fun c => fits semi c = true)
    (h : wrappedFields kind fields = .ok texts) : ∀ text ∈ texts, Paired semi text := by
  cases fields with
  | nil =>
    obtain rfl := Except.ok.inj h
    simp
  | cons field rest =>
    obtain ⟨first, hfirst, h⟩ := (except_bind_ok _ _ _).mp h
    obtain ⟨others, hothers, h⟩ := (except_bind_ok _ _ _).mp h
    obtain rfl := (except_pure_ok _ _).mp h
    exact List.forall_mem_cons.mpr
      ⟨paired_fieldText hfields.1 (paired_wrappedElement hfields.2.1 hfirst),
        paired_wrappedFields hfields.2.2 hothers⟩

end

theorem paired_initialItems {element : Option Kind} {items : List Literal} {texts : List String}
    (hitems : (Literal.list items).WellFormed fun c => fits semi c = true)
    (h : initialItems element items = .ok texts) : ∀ text ∈ texts, Paired semi text := by
  unfold initialItems at h
  split at h
  · exact paired_wrappedItems hitems h
  · obtain rfl := Except.ok.inj h
    exact paired_nativeItems hitems

theorem paired_initialFields {element : Option Kind} {fields : List (String × Literal)}
    {texts : List String} (hfields : (Literal.object fields).WellFormed fun c => fits semi c = true)
    (h : initialFields element fields = .ok texts) : ∀ text ∈ texts, Paired semi text := by
  unfold initialFields at h
  split at h
  · exact paired_wrappedFields hfields h
  · obtain rfl := Except.ok.inj h
    exact paired_nativeFields hfields

theorem paired_initial {element : Option Kind} {l : Literal}
    (hl : l.WellFormed fun c => fits semi c = true) (h : initial kind element l = .ok t) :
    Paired semi t := by
  cases l with
  | list items =>
    cases kind with
    | array =>
      obtain ⟨texts, htexts, h⟩ := (except_bind_ok _ _ _).mp h
      obtain rfl := (except_pure_ok _ _).mp h
      have hcomma : Paired semi "," := fun _ => rfl
      exact paired_newObject _ (hcomma.joinWith (paired_initialItems hl htexts))
    | string | integer | boolean | map | hash | scalar => cases h
  | object fields =>
    cases kind with
    | hash =>
      obtain ⟨texts, htexts, h⟩ := (except_bind_ok _ _ _).mp h
      obtain rfl := (except_pure_ok _ _).mp h
      exact paired_braced (paired_initialFields hl htexts)
    | map =>
      obtain ⟨texts, htexts, h⟩ := (except_bind_ok _ _ _).mp h
      obtain rfl := (except_pure_ok _ _).mp h
      exact paired_newObject _ (paired_braced (paired_initialFields hl htexts))
    | string | integer | boolean | array | scalar => cases h
  | text _ | number _ | truth _ | undefined => exact paired_leaf hl h

end Initial

end Literal

section Variables

variable {v : Variable}

theorem paired_reference (h : IsName v.name) : Paired semi v.reference := by
  have hsigil : Paired semi "$" := fun _ => rfl
  exact hsigil.append (Paired.name semi h)

theorem paired_accessor (h : IsName v.name) : Paired semi v.accessor := by
  have hvalue : Paired semi "->valueOf()" := fun _ => rfl
  have hclone : Paired semi "->clone()" := fun _ => rfl
  unfold Variable.accessor
  split_ifs
  · exact (paired_reference h).append hvalue
  · exact (paired_reference h).append hclone
  · exact paired_reference h

theorem paired_condition (h : IsName v.name) : Paired semi v.condition := by
  have hvalue : Paired semi "->valueOf() == 1" := fun _ => rfl
  have hsize : Paired semi "->size() > 0" := fun _ => rfl
  unfold Variable.condition
  split_ifs
  · exact (paired_reference h).append hvalue
  · exact (paired_reference h).append hsize
  · exact paired_reference h

theorem Value.paired_variableExpression {value : Value} {t : String} (hname : IsName v.name)
    (h : value.variableExpression v = .ok t) : Paired semi t := by
  have hvalue : Paired semi "->valueOf()" := fun _ => rfl
  have hclone : Paired semi "->clone()" := fun _ => rfl
  have href : Paired semi v.reference := paired_reference hname
  unfold Value.variableExpression at h
  cases hflow : value.acceptsVariable v with
  | refused =>
    rw [hflow] at h
    cases h
  | unwrapped =>
    simp only [hflow] at h
    split at h
    · cases h
      exact href.append hvalue
    · cases h
  | exact =>
    simp only [hflow] at h
    split at h
    · cases h
      exact Literal.paired_newObject _ (href.append hvalue)
    · cases h
      exact Literal.paired_newObject _ (href.append hvalue)
    · cases h
      exact Literal.paired_newObject _ (href.append hvalue)
    · cases h
      exact href
    · cases h
      exact href.append hclone
    · cases h
      exact href.append hclone
    · cases h
      have hopening : Passes semi [] "\x7b %\x7b" ['\x7d', '\x7d'] := fun _ => rfl
      have hclosing : Passes semi ['\x7d', '\x7d'] "\x7d \x7d" [] := fun _ => rfl
      exact (hopening.append (href.frame _)).append hclosing

theorem Value.paired_argumentsExpression {value : Value} {t : String}
    (h : value.argumentsExpression = .ok t) : Paired semi t := by
  have hall : Paired semi "@ARGV" := fun _ => rfl
  have heach : Paired semi "map \x7b stdlib::string->new($_) \x7d @ARGV" := fun _ => rfl
  unfold Value.argumentsExpression at h
  split at h
  · cases h
    exact Literal.paired_newObject _ hall
  · cases h
    exact Literal.paired_newObject _ hall
  · cases h
    exact Literal.paired_newObject _ heach
  · cases h

end Variables

/-- Every text of the argument is paired, whatever the texts of routines are. -/
def Argument.Tidy (semi : Bool) (argument : Argument) : Prop :=
  ∀ routineText t, argument.expression routineText = .ok t → Paired semi t

def MethodCall.Tidy (semi : Bool) (call : MethodCall) : Prop :=
  ∀ routineText t, call.expression routineText = .ok t → Paired semi t

def Value.Tidy (semi : Bool) (value : Value) : Prop :=
  ∀ routineText t, value.expression routineText = .ok t → Paired semi t

/-- What is needed of a source to make every value from it tidy. -/
def Source.Tidy (semi : Bool) : Source → Prop
  | .literal content => content.WellFormed fun c => fits semi c = true
  | .variable v => IsName v.name
  | .routine call => ∀ routineText t, call.expression routineText = .ok t → Paired semi t
  | .method call => call.Tidy semi
  | .arguments => True

theorem Value.tidy_of_make {kind : Kind} {name : Option String} {element : Option Kind}
    {source : Source} {value : Value} (hsource : source.Tidy semi)
    (h : Value.make kind name element source = .ok value) : value.Tidy semi := by
  intro routineText t ht
  cases value with
  | mk kind' name' element' source' unwraps =>
    obtain ⟨rfl, rfl, _, rfl, _⟩ := Value.make_ok h
    cases source' with
    | literal content =>
      rw [Value.expression] at ht
      exact Literal.paired_initial hsource ht
    | «variable» v =>
      rw [Value.expression] at ht
      exact Value.paired_variableExpression hsource ht
    | routine call =>
      rw [Value.expression] at ht
      obtain ⟨invoked, hinvoked, ht⟩ := (except_bind_ok _ _ _).mp ht
      obtain rfl := (except_pure_ok _ _).mp ht
      have hpaired : Paired semi invoked := hsource _ _ hinvoked
      have hvalue : Paired semi "->valueOf()" := fun _ => rfl
      split_ifs
      · exact hpaired.append hvalue
      · exact hpaired
    | method call =>
      rw [Value.expression] at ht
      exact hsource _ _ ht
    | arguments =>
      rw [Value.expression] at ht
      exact Value.paired_argumentsExpression ht

theorem paired_applied {callee : String} (hcallee : Paired semi callee) {arguments : List String}
    (h : ∀ argument ∈ arguments, Paired semi argument) :
    Paired semi (applied callee arguments) := by
  have hcomma : Paired semi ", " := fun _ => rfl
  have hopening : Passes semi [] "(" [')'] := fun _ => rfl
  have hclosing : Passes semi [')'] ")" [] := fun _ => rfl
  exact ((hcallee.append hopening).append ((hcomma.joinWith h).frame _)).append hclosing

section Calls

variable {routineText : BlockId → Except Fault String} {arguments : List Argument} {t : String}

theorem paired_argumentExpressions {texts : List String}
    (h : ∀ argument ∈ arguments, argument.Tidy semi)
    (htexts : argumentExpressions routineText arguments = .ok texts) :
    ∀ text ∈ texts, Paired semi text := by
  induction arguments generalizing texts with
  | nil =>
    rw [argumentExpressions] at htexts
    obtain rfl := Except.ok.inj htexts
    simp
  | cons argument rest ih =>
    rw [List.forall_mem_cons] at h
    rw [argumentExpressions] at htexts
    obtain ⟨first, hfirst, htexts⟩ := (except_bind_ok _ _ _).mp htexts
    obtain ⟨others, hothers, htexts⟩ := (except_bind_ok _ _ _).mp htexts
    obtain rfl := (except_pure_ok _ _).mp htexts
    exact List.forall_mem_cons.mpr ⟨h.1 _ _ hfirst, ih h.2 hothers⟩

theorem paired_method {receiver method : String} (hreceiver : Paired semi receiver)
    (hmethod : IsName method) : Paired semi s!"{receiver}->{method}" := by
  have harrow : Paired semi "->" := fun _ => rfl
  exact (hreceiver.append harrow).append (Paired.name semi hmethod)

theorem MethodCall.tidy_on {receiver : Variable} {method : String}
    (hreceiver : IsName receiver.name) (hmethod : IsName method) (h : ∀ argument ∈ arguments, argument.Tidy semi) :
    (MethodCall.on receiver method arguments).Tidy semi := by
  intro routineText t ht
  rw [MethodCall.expression] at ht
  obtain ⟨texts, htexts, ht⟩ := (except_bind_ok _ _ _).mp ht
  obtain rfl := (except_pure_ok _ _).mp ht
  exact paired_applied (paired_method (paired_reference hreceiver) hmethod)
    (paired_argumentExpressions h htexts)

theorem MethodCall.Tidy.after {previous : MethodCall} {method : String}
    (hprevious : previous.Tidy semi) (hmethod : IsName method) (h : ∀ argument ∈ arguments, argument.Tidy semi) :
    (MethodCall.after previous method arguments).Tidy semi := by
  intro routineText t ht
  rw [MethodCall.expression] at ht
  obtain ⟨receiver, hreceiver, ht⟩ := (except_bind_ok _ _ _).mp ht
  obtain ⟨texts, htexts, ht⟩ := (except_bind_ok _ _ _).mp ht
  obtain rfl := (except_pure_ok _ _).mp ht
  exact paired_applied (paired_method (hprevious _ _ hreceiver) hmethod)
    (paired_argumentExpressions h htexts)

theorem RoutineCall.paired_expression {call : RoutineCall} {name : String}
    (hname : call.name = some name) (hisName : IsName name) (h : ∀ argument ∈ call.arguments, argument.Tidy semi)
    (ht : call.expression routineText = .ok t) : Paired semi t := by
  obtain ⟨routine, callName, returned, arguments⟩ := call
  obtain rfl : callName = some name := hname
  rw [RoutineCall.expression] at ht
  obtain ⟨texts, htexts, ht⟩ := (except_bind_ok _ _ _).mp ht
  obtain rfl := (except_pure_ok _ _).mp ht
  exact paired_applied (.name semi hisName) (paired_argumentExpressions h htexts)

end Calls

/-- The method is a name, and all arguments of the call are paired. -/
def Invocation.Tidy (semi : Bool) (i : Invocation) : Prop :=
  IsName i.method ∧ ∀ texts, i.argumentList = .ok texts → ∀ text ∈ texts, Paired semi text

theorem paired_splitArguments {text : String} (h : Paired semi text) {texts : List String}
    (htexts : splitArguments text = .ok texts) : ∀ text ∈ texts, Paired semi text := by
  simp only [splitArguments] at htexts
  split_ifs at htexts
  · obtain rfl := Except.ok.inj htexts
    simp
  · obtain rfl := Except.ok.inj htexts
    have hdepth : ([] : List Char).length = 0 := rfl
    obtain ⟨first, rest, hsplit, hfirst, hrest⟩ := closing_splitCommas hdepth h
    rw [hsplit, List.map_map, List.forall_mem_map]
    have hpiece {piece : List Char} (hclosing : Closing semi .outside [] piece) :
        Paired semi (String.ofList (trimBoth piece)) := by
      intro outer
      rw [String.toList_ofList]
      exact passAll_trimBoth (hclosing outer)
    exact List.forall_mem_cons.mpr ⟨hpiece hfirst, fun piece hmem => hpiece (hrest piece hmem)⟩

theorem Invocation.Readable.tidy {i : Invocation} (h : i.Readable)
    (hfits : ∀ c ∈ i.text.toList, fits semi c = true) : i.Tidy semi := by
  refine ⟨h.method, fun texts htexts => ?_⟩
  unfold Invocation.argumentList at htexts
  split at htexts
  · rename_i text htext
    refine paired_splitArguments (h.paired text htext semi fun c hc => hfits c ?_) htexts
    simp [Invocation.text, htext, hc]
  · obtain rfl := Except.ok.inj htexts
    simp

theorem IsChain.tidy_results {chain : String} (h : IsChain chain)
    (hfits : ∀ c ∈ chain.toList, fits semi c = true) {i : Invocation}
    (hi : Except.ok i ∈ (Chain.ofText chain).results.1) : i.Tidy semi := by
  obtain ⟨calls, _, hreadable, rfl⟩ := h
  rw [Chain.results_join_text hreadable, List.mem_map] at hi
  obtain ⟨j, hj, heq⟩ := hi
  obtain rfl := Except.ok.inj heq
  refine (hreadable j hj).tidy fun c hc => hfits c ?_
  rw [toList_join_text]
  exact List.mem_flatMap.mpr ⟨j, hj, hc⟩

namespace Scopes

variable {s : Scopes}

theorem Named.methodArgument_tidy (hnamed : s.Named) {text : String} (h : Paired semi text) :
    (s.methodArgument text).Tidy semi := by
  intro routineText t ht
  unfold methodArgument at ht
  split_ifs at ht with hname
  · cases hbound : s.requireVariable text with
    | error fault =>
      simp only [hbound] at ht
      obtain rfl := Except.ok.inj ht
      exact h.trim
    | ok bound =>
      simp only [hbound] at ht
      obtain rfl := Except.ok.inj ht
      exact paired_accessor (by rw [hnamed.name_of_require hbound]; exact hname)
  · obtain rfl := Except.ok.inj ht
    exact h.trim

theorem Named.methodArguments_tidy (hnamed : s.Named) {i : Invocation} (hi : i.Tidy semi)
    {texts : List String} (htexts : i.argumentList = .ok texts) :
    ∀ argument ∈ texts.map s.methodArgument, argument.Tidy semi :=
  List.forall_mem_map.mpr fun text hmem => hnamed.methodArgument_tidy (hi.2 texts htexts text hmem)

theorem Named.extendCalls_tidy (hnamed : s.Named) {receiver : Variable}
    {previous : Option MethodCall} {results : List (Except Fault Invocation)} {call : MethodCall}
    (hreceiver : IsName receiver.name) (hprevious : ∀ call ∈ previous, call.Tidy semi)
    (hresults : ∀ i, Except.ok i ∈ results → i.Tidy semi)
    (h : s.extendCalls receiver previous results = .ok (some call)) : call.Tidy semi := by
  induction results generalizing previous with
  | nil => exact hprevious call (Except.ok.inj h)
  | cons result rest ih =>
    rw [extendCalls] at h
    obtain ⟨i, hi, h⟩ := (except_bind_ok _ _ _).mp h
    obtain ⟨texts, htexts, h⟩ := (except_bind_ok _ _ _).mp h
    have hi : i.Tidy semi := hresults i (by rw [hi]; exact List.mem_cons_self)
    have harguments := hnamed.methodArguments_tidy hi htexts
    refine ih ?_ (fun j hj => hresults j (List.mem_cons_of_mem _ hj)) h
    rintro _ ⟨rfl⟩
    cases previous with
    | none => exact MethodCall.tidy_on hreceiver hi.1 harguments
    | some before => exact (hprevious before rfl).after hi.1 harguments

theorem Named.methodCall_tidy (hnamed : s.Named) {receiver chain : String} {call : MethodCall}
    (hreceiver : IsName receiver) (hchain : IsChain chain)
    (hfits : ∀ c ∈ chain.toList, fits semi c = true)
    (h : s.methodCall receiver chain = .ok call) : call.Tidy semi := by
  obtain ⟨target, htarget, h⟩ := (except_bind_ok _ _ _).mp h
  obtain ⟨result, hresult, h⟩ := (except_bind_ok _ _ _).mp h
  cases result with
  | none => cases h
  | some call' =>
    obtain rfl := Except.ok.inj h
    refine hnamed.extendCalls_tidy ?_ (by simp) (fun i hi => hchain.tidy_results hfits hi) hresult
    rw [hnamed.name_of_require htarget]
    exact hreceiver

theorem Named.routineCall_tidy (hnamed : s.Named) {name : String} {id : BlockId}
    {arguments : List Argument} {call : RoutineCall} (hname : IsName name)
    (hid : s.requireRoutine name = .ok id) (hcall : s.store.routineCall id arguments = .ok call)
    (harguments : ∀ argument ∈ arguments, argument.Tidy semi)
    {routineText : BlockId → Except Fault String} {t : String}
    (h : call.expression routineText = .ok t) : Paired semi t := by
  obtain ⟨hcallName, rfl⟩ := Store.routineCall_ok (hnamed.isRoutine_of_require hid) hcall
  exact RoutineCall.paired_expression hcallName hname harguments h

mutual

theorem Named.paired_inlineText (hnamed : s.Named) {e : Expression} {t : String}
    (he : e.WellFormed fun c => fits semi c = true) (h : s.inlineText e = .ok t) :
    Paired semi t := by
  cases e with
  | literal content =>
    rw [inlineText] at h
    obtain rfl := Except.ok.inj h
    exact Literal.paired_native he
  | arguments =>
    rw [inlineText] at h
    obtain rfl := Except.ok.inj h
    have hall : Paired semi "@ARGV" := fun _ => rfl
    exact Literal.paired_newObject _ hall
  | «variable» name =>
    rw [inlineText] at h
    obtain ⟨v, hv, h⟩ := (except_bind_ok _ _ _).mp h
    obtain rfl := (except_pure_ok _ _).mp h
    exact paired_accessor (by rw [hnamed.name_of_require hv]; exact he)
  | routine name arguments =>
    rw [inlineText] at h
    obtain ⟨id, hid, h⟩ := (except_bind_ok _ _ _).mp h
    obtain ⟨bound, hbound, h⟩ := (except_bind_ok _ _ _).mp h
    obtain ⟨call, hcall, h⟩ := (except_bind_ok _ _ _).mp h
    exact hnamed.routineCall_tidy he.1 hid hcall (hnamed.callArguments_tidy he.2 hbound) h
  | method receiver chain =>
    rw [inlineText] at h
    obtain ⟨call, hcall, h⟩ := (except_bind_ok _ _ _).mp h
    exact hnamed.methodCall_tidy he.1 he.2.1 he.2.2 hcall _ _ h

theorem Named.callArguments_tidy (hnamed : s.Named) {expressions : List Expression}
    {arguments : List Argument}
    (he : ArgumentsWellFormed (fun c => fits semi c = true) expressions)
    (h : s.callArguments expressions = .ok arguments) :
    ∀ argument ∈ arguments, argument.Tidy semi := by
  cases expressions with
  | nil =>
    rw [callArguments] at h
    obtain rfl := Except.ok.inj h
    simp
  | cons expression rest =>
    obtain ⟨first, others, rfl, hothers, hfirst⟩ := callArguments_cons_ok h
    refine List.forall_mem_cons.mpr ⟨?_, hnamed.callArguments_tidy he.2 hothers⟩
    intro routineText t ht
    rcases hfirst with ⟨name, v, heq, hv, rfl⟩ | ⟨text, htext, rfl⟩
    · obtain rfl := Except.ok.inj ht
      rw [heq] at he
      exact paired_accessor (by rw [hnamed.name_of_require hv]; exact he.1)
    · obtain rfl := Except.ok.inj ht
      exact hnamed.paired_inlineText he.1 htext

end

theorem Named.source_tidy (hnamed : s.Named) {e : Expression} {source : Source}
    (he : e.WellFormed fun c => fits semi c = true) (h : s.source e = .ok source) :
    source.Tidy semi := by
  cases e with
  | literal content =>
    obtain rfl := Except.ok.inj h
    exact he
  | arguments =>
    obtain rfl := Except.ok.inj h
    trivial
  | «variable» name =>
    obtain ⟨v, hv, h⟩ := (except_bind_ok _ _ _).mp h
    obtain rfl := (except_pure_ok _ _).mp h
    rw [Source.Tidy, hnamed.name_of_require hv]
    exact he
  | routine name arguments =>
    obtain ⟨id, hid, h⟩ := (except_bind_ok _ _ _).mp h
    obtain ⟨bound, hbound, h⟩ := (except_bind_ok _ _ _).mp h
    obtain ⟨call, hcall, h⟩ := (except_bind_ok _ _ _).mp h
    obtain rfl := (except_pure_ok _ _).mp h
    intro routineText t ht
    exact hnamed.routineCall_tidy he.1 hid hcall (hnamed.callArguments_tidy he.2 hbound) ht
  | method receiver chain =>
    obtain ⟨call, hcall, h⟩ := (except_bind_ok _ _ _).mp h
    obtain rfl := (except_pure_ok _ _).mp h
    exact hnamed.methodCall_tidy he.1 he.2.1 he.2.2 hcall

end Scopes

end LineScript
