import LineScript.Proofs.Forest
import LineScript.Proofs.Rendering

/-!
# Rendering without an end

Rendering a block renders the blocks that stand in it, the handler of an evaluation, and the
handlers without a name that it installs for signals. A block belongs to the first that takes it up.
A handler may be installed again elsewhere, and this is the only way in which a block can come to
be rendered inside itself. In a store without such a handler the rendering of every block ends.
-/
namespace LineScript

open Relation

mutual

/-- No routine is written out in place in the expression of the value. -/
def Value.namesRoutines : Value → Bool
  | ⟨_, _, _, source, _⟩ =>
    match source with
    | .routine call => RoutineCall.namesRoutines call
    | .method call => MethodCall.namesRoutines call
    | .literal _ | .variable _ | .arguments => true

def RoutineCall.namesRoutines : RoutineCall → Bool
  | ⟨_, name, _, arguments⟩ => name.isSome && argumentsNameRoutines arguments

def MethodCall.namesRoutines : MethodCall → Bool
  | .on _ _ arguments => argumentsNameRoutines arguments
  | .after previous _ arguments =>
    MethodCall.namesRoutines previous && argumentsNameRoutines arguments

def Argument.namesRoutines : Argument → Bool
  | .bound _ | .raw _ => true
  | .inline value => Value.namesRoutines value

def argumentsNameRoutines : List Argument → Bool
  | [] => true
  | argument :: rest => Argument.namesRoutines argument && argumentsNameRoutines rest

end

/-- A value with a name is handed back by its name. -/
def ReturnedValue.namesRoutines : ReturnedValue → Bool
  | .value content => content.name.isSome || content.namesRoutines
  | .raw _ => true

def Element.namesRoutines : Element → Bool
  | .value content => content.namesRoutines
  | .method call => call.namesRoutines
  | .statement (.giveBack given) => given.values.all ReturnedValue.namesRoutines
  | .statement (.assign assignment) => assignment.value.namesRoutines
  | _ => true

def Fault.isEndless : Fault → Bool
  | .endlessNesting _ => true
  | _ => false

/-- Two computations have the same outcome, and it is not that the nesting is too deep. -/
inductive Concurs {α : Type} : Except Fault α → Except Fault α → Prop where
  | ok (a : α) : Concurs (.ok a) (.ok a)
  | error (fault : Fault) (h : fault.isEndless = false) : Concurs (.error fault) (.error fault)

namespace Concurs

variable {α β : Type} {x y : Except Fault α}

theorem eq (h : Concurs x y) : x = y := by
  cases h <;> rfl

theorem ne_endless (h : Concurs x y) (b : BlockId) : y ≠ .error (.endlessNesting b) := by
  rintro rfl
  cases h with
  | error _ hfault => cases hfault

theorem bind {f g : α → Except Fault β} (h : Concurs x y) (hf : ∀ a, Concurs (f a) (g a)) :
    Concurs (x >>= f) (y >>= g) := by
  cases h with
  | ok a => exact hf a
  | error fault hfault => exact .error fault hfault

theorem map (h : Concurs x y) (f : α → β) :
    Concurs (x >>= fun a => pure (f a)) (y >>= fun a => pure (f a)) :=
  h.bind fun a => .ok (f a)

theorem mapM {as : List α} {f g : α → Except Fault β} (h : ∀ a ∈ as, Concurs (f a) (g a)) :
    Concurs (as.mapM f) (as.mapM g) := by
  induction as with
  | nil => exact .ok []
  | cons a as ih =>
    rw [List.mapM_cons, List.mapM_cons]
    rw [List.forall_mem_cons] at h
    exact h.1.bind fun b => (ih h.2).map (b :: ·)

end Concurs

namespace Literal

theorem leaf_concurs (kind : Kind) (lit : Literal) : Concurs (leaf kind lit) (leaf kind lit) := by
  cases lit with
  | text content => cases kind <;> first | exact .ok _ | exact .error _ rfl
  | number spelling =>
    cases kind with
    | string | scalar => exact .ok _
    | integer =>
      rw [leaf]
      split_ifs
      · exact .ok _
      · exact .error _ rfl
    | boolean | array | map | hash => exact .error _ rfl
  | truth value => cases kind <;> first | exact .ok _ | exact .error _ rfl
  | undefined => cases kind <;> exact .ok _
  | list items | object fields => exact .error _ rfl

mutual

theorem wrappedElement_concurs (kind : Kind) (lit : Literal) :
    Concurs (wrappedElement kind lit) (wrappedElement kind lit) := by
  cases lit with
  | list items => exact (wrappedItems_concurs kind items).map bracketed
  | object fields => exact (wrappedFields_concurs kind fields).map braced
  | text _ | number _ | truth _ | undefined =>
    unfold wrappedElement
    exact leaf_concurs kind _

theorem wrappedItems_concurs (kind : Kind) (items : List Literal) :
    Concurs (wrappedItems kind items) (wrappedItems kind items) := by
  cases items with
  | nil => exact .ok []
  | cons item rest =>
    exact (wrappedElement_concurs kind item).bind fun first =>
      (wrappedItems_concurs kind rest).map (first :: ·)

theorem wrappedFields_concurs (kind : Kind) (fields : List (String × Literal)) :
    Concurs (wrappedFields kind fields) (wrappedFields kind fields) := by
  cases fields with
  | nil => exact .ok []
  | cons field rest =>
    obtain ⟨name, value⟩ := field
    exact (wrappedElement_concurs kind value).bind fun first =>
      (wrappedFields_concurs kind rest).map (fieldText name first :: ·)

end

theorem initialItems_concurs (element : Option Kind) (items : List Literal) :
    Concurs (initialItems element items) (initialItems element items) := by
  unfold initialItems
  cases wrapping element with
  | none => exact .ok _
  | some kind => exact wrappedItems_concurs kind items

theorem initialFields_concurs (element : Option Kind) (fields : List (String × Literal)) :
    Concurs (initialFields element fields) (initialFields element fields) := by
  unfold initialFields
  cases wrapping element with
  | none => exact .ok _
  | some kind => exact wrappedFields_concurs kind fields

theorem initial_concurs (kind : Kind) (element : Option Kind) (lit : Literal) :
    Concurs (initial kind element lit) (initial kind element lit) := by
  cases lit with
  | list items =>
    cases kind with
    | array => exact (initialItems_concurs element items).map _
    | string | integer | boolean | scalar | map | hash => exact .error _ rfl
  | object fields =>
    cases kind with
    | hash => exact (initialFields_concurs none fields).map _
    | map => exact (initialFields_concurs element fields).map _
    | string | integer | boolean | scalar | array => exact .error _ rfl
  | text _ | number _ | truth _ | undefined =>
    unfold initial
    exact leaf_concurs kind _

end Literal

namespace Value

theorem variableExpression_concurs (v : Value) (source : Variable) :
    Concurs (v.variableExpression source) (v.variableExpression source) := by
  unfold variableExpression
  cases v.acceptsVariable source with
  | refused => exact .error _ rfl
  | exact => cases v.kind <;> exact .ok _
  | unwrapped => cases v.kind <;> first | exact .ok _ | exact .error _ rfl

theorem argumentsExpression_concurs (v : Value) :
    Concurs v.argumentsExpression v.argumentsExpression := by
  unfold argumentsExpression
  split
  · exact .ok _
  · exact .ok _
  · exact .ok _
  · exact .error _ rfl

end Value

section Expressions

variable (routineText routineText' : BlockId → Except Fault String)

mutual

theorem Value.expression_concurs (v : Value) (h : v.namesRoutines = true) :
    Concurs (v.expression routineText) (v.expression routineText') := by
  obtain ⟨kind, name, element, source, unwraps⟩ := v
  cases source with
  | literal content => exact content.initial_concurs kind element
  | «variable» source => exact Value.variableExpression_concurs _ source
  | routine call => exact (RoutineCall.expression_concurs call h).map _
  | method call => exact MethodCall.expression_concurs call h
  | arguments => exact Value.argumentsExpression_concurs _

theorem RoutineCall.expression_concurs (call : RoutineCall) (h : call.namesRoutines = true) :
    Concurs (call.expression routineText) (call.expression routineText') := by
  obtain ⟨routine, name, returned, arguments⟩ := call
  rw [RoutineCall.namesRoutines, Bool.and_eq_true] at h
  obtain ⟨name, rfl⟩ := Option.isSome_iff_exists.mp h.1
  exact (argumentExpressions_concurs arguments h.2).map _

theorem MethodCall.expression_concurs (call : MethodCall) (h : call.namesRoutines = true) :
    Concurs (call.expression routineText) (call.expression routineText') := by
  cases call with
  | on receiver method arguments => exact (argumentExpressions_concurs arguments h).map _
  | after previous method arguments =>
    rw [MethodCall.namesRoutines, Bool.and_eq_true] at h
    exact (MethodCall.expression_concurs previous h.1).bind fun _ =>
      (argumentExpressions_concurs arguments h.2).map _

theorem Argument.expression_concurs (argument : Argument) (h : argument.namesRoutines = true) :
    Concurs (argument.expression routineText) (argument.expression routineText') := by
  cases argument with
  | bound source => exact .ok _
  | inline value => exact Value.expression_concurs value h
  | raw text => exact .ok _

theorem argumentExpressions_concurs (arguments : List Argument)
    (h : argumentsNameRoutines arguments = true) :
    Concurs (argumentExpressions routineText arguments)
      (argumentExpressions routineText' arguments) := by
  cases arguments with
  | nil => exact .ok []
  | cons argument rest =>
    rw [argumentsNameRoutines, Bool.and_eq_true] at h
    exact (Argument.expression_concurs argument h.1).bind fun first =>
      (argumentExpressions_concurs rest h.2).map (first :: ·)

end

theorem Value.declaration_concurs (v : Value) (h : v.namesRoutines = true) :
    Concurs (v.declaration routineText) (v.declaration routineText') := by
  refine (v.expression_concurs routineText routineText' h).bind fun text => ?_
  cases v.name <;> exact .ok _

theorem Return.text_concurs (given : Return)
    (h : given.values.all ReturnedValue.namesRoutines = true) :
    Concurs (given.text routineText) (given.text routineText') := by
  rw [List.all_eq_true] at h
  refine (Concurs.mapM fun value hvalue => ?_).bind fun texts => ?_
  · cases value with
    | raw text => exact .ok text
    | value content =>
      have hnames := Bool.or_eq_true_iff.mp (h _ hvalue)
      rw [Return.valueText, Return.valueText]
      cases hname : content.name with
      | some name => exact .ok _
      | none =>
        rw [hname] at hnames
        exact content.expression_concurs routineText routineText'
          (hnames.resolve_left Bool.false_ne_true)
  · cases given.multiple with
    | true => exact .ok _
    | false => cases texts <;> exact .ok _

end Expressions

theorem Element.namesRoutines_of_isHeader {e : Element} (h : e.isHeader = true) :
    e.namesRoutines = true := by
  rcases Element.eq_of_isHeader h with ⟨_, rfl⟩ | ⟨_, rfl⟩ <;> rfl

def Change.namesRoutines : Change → Bool
  | .append _ element => element.namesRoutines
  | _ => true

theorem BlockKind.settled_fixed (kind : BlockKind) : kind.fixed.Settled ↔ kind.Settled := by
  cases kind <;> exact Iff.rfl

namespace Store

variable (s : Store)

/-- The routine has no name and handles a signal from this block on. -/
def Installs (a b : BlockId) : Prop :=
  ∃ signal, s.Has a (.statement (.signal signal b)) ∧ s.IsRoutine b none

/-- Rendering the first block renders the body of the second. -/
inductive Renders (a b : BlockId) : Prop where
  | inner (h : s.Has a (.block b))
  | evaluation (h : s.kindOf a = some (.evaluation b))
  | handler (h : s.Installs a b)

/-- The block installs a handler that belongs to another block. -/
def Borrows (a c : BlockId) : Prop :=
  s.Installs a c ∧ s.rootOf c ≠ some a

/-- The rendering of the block ends by itself: it does not meet the bound on the nesting, and a
deeper bound changes nothing. -/
def RenderingEnds (b : BlockId) : Prop :=
  (∀ depth, s.depthBound ≤ depth → s.blockWithin depth b = s.blockText b) ∧
    ∀ a, s.blockText b ≠ .error (.endlessNesting a)

variable {s}

theorem Renders.lt_size {a b : BlockId} (h : s.Renders a b) : a < s.size := by
  cases h with
  | inner h =>
    obtain ⟨_, hblock, _⟩ := h
    exact lt_size_of_get? hblock
  | evaluation h =>
    obtain ⟨_, hblock, _⟩ := Option.map_eq_some_iff.mp h
    exact lt_size_of_get? hblock
  | handler h =>
    obtain ⟨_, ⟨_, hblock, _⟩, _⟩ := h
    exact lt_size_of_get? hblock

section Texts

variable {blockText blockText' bodyText bodyText' : BlockId → Except Fault String}

theorem handlerText_concurs (signal : Signal) (c : BlockId)
    (hbody : s.IsRoutine c none → Concurs (bodyText c) (bodyText' c)) :
    Concurs (s.handlerText (s.routineTextBy bodyText) signal c)
      (s.handlerText (s.routineTextBy bodyText') signal c) := by
  cases hblock : s.block c with
  | error fault =>
    rw [handlerText, handlerText, hblock]
    refine .error fault ?_
    rw [block] at hblock
    split at hblock
    · cases hblock
    · obtain rfl := Except.error.inj hblock
      rfl
  | ok block =>
    cases hkind : block.kind with
    | routine info =>
      cases hname : info.name with
      | some name =>
        have htext (routineText : BlockId → Except Fault String) :
            s.handlerText routineText signal c =
              .ok ("$SIG\x7b" ++ signal.key ++ "\x7d = " ++ "\\&" ++ name ++ ";\n") := by
          simp [handlerText, hblock, hkind, hname, bind, Except.bind, pure, Except.pure]
        rw [htext, htext]
        exact .ok _
      | none =>
        rw [handlerText_of_kind hblock hkind hname, handlerText_of_kind hblock hkind hname,
          routineTextBy_of_kind hblock hkind, routineTextBy_of_kind hblock hkind]
        have hroutine : s.IsRoutine c none :=
          ⟨{ info with returned := none },
            by rw [kindOf_of_get? ((s.block_ok c block).mp hblock), hkind]; rfl, hname⟩
        exact ((hbody hroutine).map _).map _
    | plain | file _ | condition _ | arrayLoop _ | mapLoop _ | evaluation _ =>
      have htext (bodyText : BlockId → Except Fault String) :
          s.handlerText (s.routineTextBy bodyText) signal c = .error (.notRoutineText c) := by
        simp [handlerText, routineTextBy, hblock, hkind, bind, Except.bind, throw, throwThe,
          MonadExceptOf.throw]
      rw [htext, htext]
      exact .error _ rfl

theorem elementText_concurs {e : Element} (hnames : e.namesRoutines = true)
    (hblock : ∀ c, e = .block c → Concurs (blockText c) (blockText' c))
    (hbody : ∀ signal c, e = .statement (.signal signal c) → s.IsRoutine c none →
      Concurs (bodyText c) (bodyText' c)) :
    Concurs (s.elementTextBy blockText (s.routineTextBy bodyText) e)
      (s.elementTextBy blockText' (s.routineTextBy bodyText') e) := by
  cases e with
  | text content => exact .ok content
  | block child => exact hblock child rfl
  | value content => exact content.declaration_concurs _ _ hnames
  | method call => exact (call.expression_concurs _ _ hnames).map _
  | statement content =>
    cases content with
    | dependency _ | binding _ | print _ | exit _ | package _ => exact .ok _
    | giveBack given => exact given.text_concurs _ _ hnames
    | assign assignment => exact (assignment.value.expression_concurs _ _ hnames).map _
    | signal signal c => exact handlerText_concurs signal c (hbody signal c rfl)

theorem kindText_concurs {block : Block} (hkind : HasKindForm block)
    (hblock : ∀ c, block.kind = .evaluation c → Concurs (blockText c) (blockText' c))
    (routineText routineText' : BlockId → Except Fault String) {body body' : Except Fault String}
    (hbody : Concurs body body') :
    Concurs (kindText blockText routineText block body)
      (kindText blockText' routineText' block body') := by
  cases hkind with
  | wrapped wrap _ _ h =>
    rw [h, h]
    exact hbody.map wrap
  | empty _ _ h =>
    rw [h, h]
    exact .ok ""
  | mapLoop loop _ h =>
    rw [h, h]
    exact .error _ rfl
  | evaluation handler wrap hkind h =>
    rw [h, h]
    exact hbody.bind fun body => (hblock handler hkind).map (wrap body)

end Texts

/-- All loops of the store have a header with a text, and no element writes a routine out in
place. -/
structure NamesRoutines (s : Store) : Prop where
  kind : ∀ b kind, s.kindOf b = some kind → kind.Settled
  element : ∀ b e, s.Has b e → e.namesRoutines = true

/-- The rendering of a block ends if nothing is rendered inside itself on the way. -/
theorem NamesRoutines.within_concurs (h : s.NamesRoutines) {depth : Nat} {b : BlockId}
    (hends : EndsWithin s.Renders depth b) (n : Nat) :
    Concurs (s.blockWithin (depth + n) b) (s.blockWithin depth b) ∧
      Concurs (s.bodyWithin (depth + n) b) (s.bodyWithin depth b) := by
  induction hends with
  | @intro depth b hnext ih =>
    have hdepth : depth + 1 + n = depth + n + 1 := by omega
    rw [hdepth, blockWithin, blockWithin, bodyWithin, bodyWithin]
    cases hblock : s.get? b with
    | none =>
      have hnone : s.block b = .error (.unknownBlock b) := by rw [Store.block, hblock]
      rw [hnone]
      exact ⟨.error _ rfl, .error _ rfl⟩
    | some block =>
      -- Whatever an element renders is a step of `Renders`, so that a bound less is enough for it.
      have hbody : Concurs
          (s.bodyTextBy (s.blockWithin (depth + n)) (s.routineTextBy (s.bodyWithin (depth + n)))
            block)
          (s.bodyTextBy (s.blockWithin depth) (s.routineTextBy (s.bodyWithin depth)) block) := by
        refine (Concurs.mapM fun e he => ?_).map String.join
        refine elementText_concurs (h.element b e ⟨block, hblock, he⟩) ?_ ?_
        · rintro c rfl
          exact (ih c (.inner ⟨block, hblock, he⟩)).1
        · rintro signal c rfl hroutine
          exact (ih c (.handler ⟨signal, ⟨block, hblock, he⟩, hroutine⟩)).2
      have hsettled := block.kind.settled_fixed.mp (h.kind b _ (kindOf_of_get? hblock))
      rw [(s.block_ok b block).mpr hblock]
      refine ⟨kindText_concurs (hasKindForm hsettled) (fun c hkind => ?_) _ _ hbody, hbody⟩
      have hevaluation : s.kindOf b = some (.evaluation c) := by
        rw [kindOf_of_get? hblock, hkind]
        rfl
      exact (ih c (.evaluation hevaluation)).1

namespace NamesRoutines

variable {t : Store}

theorem replace (h : s.NamesRoutines) {parent : BlockId} {block changed : Block}
    {element : Element} (hblock : s.get? parent = some block)
    (hkind : changed.kind.fixed = block.kind.fixed)
    (helements : ∀ e ∈ changed.elements, e ∈ block.elements ∨ e = element)
    (helement : element.namesRoutines = true) : (s.replace parent changed).NamesRoutines := by
  refine ⟨fun b kind hb => h.kind b kind ?_, fun b e he => ?_⟩
  · rwa [kindOf_replace hblock hkind] at hb
  · rcases has_replace hblock helements he with he | ⟨_, rfl⟩
    · exact h.element b e he
    · exact helement

theorem extend (h : s.NamesRoutines) {made : List Block} (fresh : Nat)
    (hkinds : ∀ block ∈ made, block.kind.Settled)
    (helements : ∀ block ∈ made, ∀ e ∈ block.elements, e.namesRoutines = true) :
    (s.extend made fresh).NamesRoutines := by
  constructor
  · intro b kind hb
    rcases kindOf_extend hb with hb | ⟨_, block, hmem, rfl⟩
    · exact h.kind b kind hb
    · exact block.kind.settled_fixed.mpr (hkinds block hmem)
  · intro b e he
    rcases has_extend he with he | ⟨block, hmem, he⟩
    · exact h.element b e he
    · exact helements block hmem e he

theorem placed (h : s.NamesRoutines) {parent : BlockId} {element : Element}
    (helement : element.namesRoutines = true) (hplaced : s.Placed parent element t) :
    t.NamesRoutines := by
  cases hplaced with
  | held _ => exact h
  | attached _ hinner hblock _ _ hancestor =>
    refine ⟨fun b kind hb => h.kind b kind ?_, fun b e he => ?_⟩
    · rwa [kindOf_attach hinner hblock (ne_of_isAncestor hancestor)] at hb
    · rcases has_attach hinner hblock he with he | ⟨_, rfl⟩
      · exact h.element b e he
      · exact helement
  | installed _ _ hblock _ => exact h.replace hblock rfl (by simp) helement
  | inserted _ hblock hkind _ helements =>
    refine h.replace hblock hkind (fun e he => ?_) helement
    rcases helements with helements | helements
    · simpa [helements] using he
    · simpa [helements, or_comm] using he

theorem step (h : s.NamesRoutines) {c : Change} (hc : c.namesRoutines = true)
    (hstep : s.Step c t) : t.NamesRoutines := by
  cases hstep with
  | idle _ fresh => exact ⟨h.kind, h.element⟩
  | made _ hfresh fresh =>
    refine h.extend fresh (fun block hblock => ?_) fun block hblock e he => ?_
    · rw [List.mem_singleton.mp hblock]
      exact hfresh.settled
    · rw [List.mem_singleton.mp hblock] at he
      exact Element.namesRoutines_of_isHeader (hfresh.elements e he)
  | attempt _ condition =>
    refine h.extend _ (fun block hblock => ?_) fun block hblock e he => ?_
    · rcases List.mem_pair.mp hblock with rfl | rfl <;> trivial
    · rcases List.mem_pair.mp hblock with rfl | rfl
      · rw [List.mem_singleton.mp he]
        rfl
      · cases he
  | added happend => exact h.placed hc (placed_of_append happend)

end NamesRoutines

theorem namesRoutines_ofChanges {changes : List Change}
    (h : changes.all Change.namesRoutines = true) : (ofChanges changes).NamesRoutines := by
  rw [List.all_eq_true] at h
  have hempty : Store.empty.NamesRoutines := by
    constructor
    · intro b kind hb
      cases hb
    · rintro b e ⟨block, hblock, _⟩
      cases hblock
  exact afterAll_invariant changes hempty fun c hc _ _ hstep hnames => hnames.step (h c hc) hstep

section Paths

variable (h : s.Forest) {a b : BlockId}

include h

/-- A block that is rendered belongs to where it is rendered, unless it is a borrowed handler. -/
theorem Forest.under_or_borrows (hab : s.Renders a b) : s.Under b a ∨ s.Borrows a b := by
  cases hab with
  | inner hinner => exact Or.inl (h.inner a b hinner).1
  | evaluation hkind => exact Or.inl (h.companion a _ b hkind rfl)
  | handler hinstalls =>
    by_cases hroot : s.rootOf b = some a
    · exact Or.inl hroot
    · exact Or.inr ⟨hinstalls, hroot⟩

theorem Forest.under_or_borrows_on_way (hab : TransGen s.Renders a b) :
    TransGen s.Under b a ∨ ∃ x c, ReflTransGen s.Renders a x ∧ s.Borrows x c ∧
      ReflTransGen s.Renders c b := by
  induction hab with
  | single hab =>
    exact (h.under_or_borrows hab).imp .single fun hborrows => ⟨a, _, .refl, hborrows, .refl⟩
  | tail hab hbc ih =>
    rcases ih with hba | ⟨x, c, hax, hborrows, hcb⟩
    · exact (h.under_or_borrows hbc).imp (fun hcb => .head hcb hba)
        fun hborrows => ⟨_, _, hab.to_reflTransGen, hborrows, .refl⟩
    · exact Or.inr ⟨x, c, hax, hborrows, hcb.tail hbc⟩

theorem Forest.borrows_of_cycle (hcycle : TransGen s.Renders b b) :
    ∃ a c, ReflTransGen s.Renders b a ∧ s.Borrows a c ∧ ReflTransGen s.Renders c b :=
  (h.under_or_borrows_on_way hcycle).resolve_left (h.acyclic b)

end Paths

theorem NamesRoutines.renderingEnds (h : s.NamesRoutines) {b : BlockId}
    (hacyclic : ∀ a, ReflTransGen s.Renders b a → ¬ TransGen s.Renders a a) :
    s.RenderingEnds b := by
  have hends : EndsWithin s.Renders s.depthBound b :=
    endsWithin_of_reachable (fun _ _ hab => hab.lt_size) hacyclic
  refine ⟨fun depth hdepth => ?_, (h.within_concurs hends 0).1.ne_endless⟩
  obtain ⟨n, rfl⟩ := Nat.exists_eq_add_of_le hdepth
  exact (h.within_concurs hends n).1.eq

end Store

/-- Whatever changes have been made to a store, as long as no value writes out a routine in place:
a block is rendered inside itself only by way of a block that installs a handler which belongs to
another. The rendering of a block from which this cannot be reached ends by itself, so that in a
store without such handlers the rendering of every block does. -/
theorem rendering_ends_unless_handler_borrowed (changes : List Change)
    (h : changes.all Change.namesRoutines = true) :
    (∀ b, TransGen (Store.ofChanges changes).Renders b b →
      ∃ a c, ReflTransGen (Store.ofChanges changes).Renders b a ∧
        (Store.ofChanges changes).Borrows a c ∧
        ReflTransGen (Store.ofChanges changes).Renders c b) ∧
    (∀ b, (∀ a, ReflTransGen (Store.ofChanges changes).Renders b a →
        ¬ TransGen (Store.ofChanges changes).Renders a a) →
      (Store.ofChanges changes).RenderingEnds b) ∧
    ((∀ a c, ¬ (Store.ofChanges changes).Borrows a c) →
      (∀ b, ¬ TransGen (Store.ofChanges changes).Renders b b) ∧
        ∀ b, (Store.ofChanges changes).RenderingEnds b) := by
  have hforest := Store.forest_ofChanges changes
  have hnames := Store.namesRoutines_ofChanges h
  refine ⟨fun b hb => hforest.borrows_of_cycle hb, fun b hb => hnames.renderingEnds hb, ?_⟩
  intro hnone
  have hacyclic (b : BlockId) : ¬ TransGen (Store.ofChanges changes).Renders b b := by
    intro hcycle
    obtain ⟨a, c, _, hborrows, _⟩ := hforest.borrows_of_cycle hcycle
    exact hnone a c hborrows
  exact ⟨hacyclic, fun b => hnames.renderingEnds fun a _ => hacyclic a⟩

/-- A handler installed in two blocks, the second of which is then put into the handler. -/
def installedTwice : List Change :=
  [.newPlain, .newPlain, .newRoutine none [] .shift none,
    .append 0 (.statement (.signal .int 2)), .append 1 (.statement (.signal .hup 2)),
    .append 2 (.block 1)]

theorem get?_installedTwice :
    (Store.ofChanges installedTwice).get? 1 =
        some ⟨.plain, [.statement (.signal .hup 2)], false, some 2⟩ ∧
      (Store.ofChanges installedTwice).get? 2 =
        some ⟨.routine ⟨none, [], .shift, none, none⟩, [.block 1], false, some 0⟩ :=
  ⟨rfl, rfl⟩

theorem renders_installedTwice :
    (Store.ofChanges installedTwice).Renders 2 1 ∧
      (Store.ofChanges installedTwice).Renders 1 2 := by
  obtain ⟨hplain, hroutine⟩ := get?_installedTwice
  have hhandler : (Store.ofChanges installedTwice).IsRoutine 2 none := ⟨_, rfl, rfl⟩
  exact ⟨.inner ⟨_, hroutine, List.mem_singleton_self _⟩,
    .handler ⟨.hup, ⟨_, hplain, List.mem_singleton_self _⟩, hhandler⟩⟩

/-- A handler installed where it belongs, next to an evaluation. -/
def installedOnce : List Change :=
  [.newPlain, .newRoutine none [] .shift none, .newEvaluation,
    .append 0 (.statement (.signal .int 1)), .append 1 (.text "1;\n"), .append 0 (.block 3)]

theorem rendering_ends_unless_handler_borrowed_once :
    (∃ a c, (Store.ofChanges installedTwice).Borrows a c) ∧
      (∀ a c, ¬ (Store.ofChanges installedOnce).Borrows a c) ∧
      (Store.ofChanges installedOnce).Renders 0 1 ∧
      (∀ b, ¬ TransGen (Store.ofChanges installedOnce).Renders b b) ∧
      (Store.ofChanges installedOnce).RenderingEnds 0 := by
  obtain ⟨hinner, hhandler⟩ := renders_installedTwice
  obtain ⟨hcycle, _, _⟩ := rendering_ends_unless_handler_borrowed installedTwice rfl
  obtain ⟨_, hreached, hnone⟩ := rendering_ends_unless_handler_borrowed installedOnce rfl
  have hblock : (Store.ofChanges installedOnce).get? 0 =
      some ⟨.plain, [.statement (.signal .int 1), .block 3], false, none⟩ := rfl
  have hroots : ∀ a < 4, ∀ c ∈ (Store.ofChanges installedOnce).childrenOf a,
      (Store.ofChanges installedOnce).rootOf c = some a := by
    decide +kernel
  have hborrows (a c : BlockId) : ¬ (Store.ofChanges installedOnce).Borrows a c := by
    rintro ⟨⟨signal, ⟨block, hfound, he⟩, _⟩, hroot⟩
    refine hroot (hroots a (Store.lt_size_of_get? hfound) c ?_)
    rw [Store.childrenOf_of_get? hfound]
    exact Store.mem_children_of_element he rfl
  obtain ⟨a, c, _, hfound, _⟩ := hcycle 2 (.tail (.single hinner) hhandler)
  obtain ⟨hacyclic, _⟩ := hnone hborrows
  exact ⟨⟨a, c, hfound⟩, hborrows,
    .handler ⟨.int, ⟨_, hblock, List.mem_cons_self⟩, _, rfl, rfl⟩, hacyclic,
    hreached 0 fun a _ => hacyclic a⟩

theorem Store.within_of_error {s : Store} {id : BlockId} {block : Block} {e : Element}
    {fault : Fault} {depth : Nat} (hblock : s.get? id = some block)
    (helements : block.elements = [e]) (wrap : String → String)
    (hwrap : ∀ blockText routineText body, kindText blockText routineText block body =
      body >>= fun body => pure (wrap body))
    (h : s.elementTextBy (s.blockWithin depth) (s.routineTextBy (s.bodyWithin depth)) e =
      .error fault) :
    s.bodyWithin (depth + 1) id = .error fault ∧ s.blockWithin (depth + 1) id = .error fault := by
  have hbody : s.bodyTextBy (s.blockWithin depth) (s.routineTextBy (s.bodyWithin depth)) block =
      .error fault := by
    rw [bodyTextBy, helements, List.mapM_cons, h]
    rfl
  rw [bodyWithin, blockWithin, (s.block_ok id block).mpr hblock]
  refine ⟨hbody, (hwrap _ _ _).trans ?_⟩
  rw [hbody]
  rfl

/-- The handler is taken up by the block that it takes up: only the root of the handler is compared,
and not the blocks that install it. Its rendering does not end. -/
theorem handler_installed_twice_renders_itself :
    installedTwice.all Change.namesRoutines = true ∧
      (Store.ofChanges installedTwice).Renders 2 1 ∧
      (Store.ofChanges installedTwice).Renders 1 2 ∧
      ∀ depth, ∃ b, (Store.ofChanges installedTwice).blockWithin depth 2 =
        .error (.endlessNesting b) := by
  obtain ⟨hplain, hroutine⟩ := get?_installedTwice
  have hendless (depth : Nat) :
      (∃ b, (Store.ofChanges installedTwice).bodyWithin depth 2 = .error (.endlessNesting b) ∧
        (Store.ofChanges installedTwice).blockWithin depth 2 = .error (.endlessNesting b)) ∧
      ∃ b, (Store.ofChanges installedTwice).blockWithin depth 1 = .error (.endlessNesting b) := by
    induction depth with
    | zero => exact ⟨⟨2, rfl, rfl⟩, 1, rfl⟩
    | succ depth ih =>
      obtain ⟨⟨b, hbody, _⟩, c, hblock⟩ := ih
      refine ⟨⟨c, Store.within_of_error hroutine rfl _ (fun _ _ _ => rfl) hblock⟩, b, ?_⟩
      refine (Store.within_of_error hplain rfl _ (fun _ _ _ => rfl) ?_).2
      have hok := (Store.block_ok _ _ _).mpr hroutine
      rw [Store.elementTextBy, Store.statementTextBy, Store.handlerText_of_kind hok rfl rfl,
        Store.routineTextBy_of_kind hok rfl, hbody]
      rfl
  obtain ⟨hinner, hhandler⟩ := renders_installedTwice
  refine ⟨rfl, hinner, hhandler, fun depth => ?_⟩
  obtain ⟨⟨b, _, hblock⟩, _⟩ := hendless depth
  exact ⟨b, hblock⟩

end LineScript
