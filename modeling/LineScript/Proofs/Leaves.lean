import LineScript.Value.Expression
import Mathlib.Logic.Basic

/-!
# Literals are judged by their leaves

Which literal may initialise a value of which kind is a table of shapes and kinds. A container whose
elements are wrapped asks the table once for every leaf of the literal, however deep in lists and
objects it stands; a container of plain elements asks nothing further. What the table does not
allow is an invalid literal, and no other fault.
-/
namespace LineScript

namespace Literal

/-- The literal has no parts. -/
def isLeaf : Literal → Bool
  | .list _ | .object _ => false
  | _ => true

mutual

/-- The leaves of a literal, at any depth through lists and objects. -/
def leaves : Literal → List Literal
  | .list items => itemLeaves items
  | .object fields => fieldLeaves fields
  | leaf => [leaf]

def itemLeaves : List Literal → List Literal
  | [] => []
  | item :: rest => item.leaves ++ itemLeaves rest

def fieldLeaves : List (String × Literal) → List Literal
  | [] => []
  | (_, value) :: rest => value.leaves ++ fieldLeaves rest

end

/-- The expression that initialises a value of the kind by a leaf, where there is one. -/
def cell : Kind → Literal → Option String
  | .string, .text content => some ("stdlib::string->new(" ++ Perl.quote content ++ ")")
  | .scalar, .text content => some (Perl.quote content)
  | .string, .number spelling => some ("stdlib::string->new(" ++ Perl.quote spelling ++ ")")
  | .integer, .number spelling =>
    if isIntegralText spelling.toList then some ("stdlib::integer->new(" ++ spelling ++ ")")
    else none
  | .scalar, .number spelling => some spelling
  | .boolean, .truth value => some ("stdlib::boolean->new(" ++ Perl.truth value ++ ")")
  | .scalar, .undefined => some "undef"
  | .hash, .undefined => some "\x7b\x7d"
  | kind, .undefined => some (kind.className ++ "->new()")
  | _, _ => none

end Literal

/-- The computation gives a result if the condition holds, and finds an invalid literal if it does
not. -/
inductive Judged {α : Type} (fits : Prop) : Except Fault α → Prop where
  | ok (a : α) (h : fits) : Judged fits (.ok a)
  | invalid (fault : Fault) (hcls : fault.cls = .invalidLiteral) (h : ¬ fits) :
      Judged fits (.error fault)

namespace Judged

variable {α β : Type} {P Q : Prop}

theorem congr {x : Except Fault α} (h : Judged P x) (hiff : P ↔ Q) : Judged Q x := by
  rwa [← propext hiff]

theorem map {x : Except Fault α} (h : Judged P x) (f : α → β) : Judged P (x.map f) := by
  cases h with
  | ok a h => exact .ok (f a) h
  | invalid fault hcls h => exact .invalid fault hcls h

theorem bind {x : Except Fault α} {f : α → Except Fault β} (h : Judged P x)
    (hf : ∀ a, Judged Q (f a)) : Judged (P ∧ Q) (x >>= f) := by
  cases h with
  | ok a h => exact (hf a).congr (and_iff_right h).symm
  | invalid fault hcls h => exact .invalid fault hcls fun hboth => h hboth.1

theorem isOk_iff {x : Except Fault α} (h : Judged P x) : x.isOk = true ↔ P := by
  cases h with
  | ok a h => exact iff_of_true rfl h
  | invalid fault hcls h => exact iff_of_false Bool.false_ne_true h

theorem cls_of_error {x : Except Fault α} (h : Judged P x) {fault : Fault}
    (herror : x = .error fault) : fault.cls = .invalidLiteral := by
  cases h with
  | ok a h => cases herror
  | invalid other hcls h =>
    obtain rfl := Except.error.inj herror
    exact hcls

end Judged

namespace Literal

variable {kind : Kind} {l : Literal}

theorem cell_undefined (kind : Kind) : (cell kind .undefined).isSome = true := by
  cases kind <;> rfl

/-- A leaf is lowered as the table says. -/
theorem leaf_cases (l : Literal) (hleaf : l.isLeaf = true) (kind : Kind) :
    (∃ text, cell kind l = some text ∧ leaf kind l = .ok text) ∨
      (cell kind l = none ∧ ∃ fault, leaf kind l = .error fault ∧ fault.cls = .invalidLiteral) := by
  cases l with
  | text content =>
    cases kind with
    | string | scalar => exact Or.inl ⟨_, rfl, rfl⟩
    | integer | boolean | array | map | hash => exact Or.inr ⟨rfl, _, rfl, rfl⟩
  | number spelling =>
    cases kind with
    | string | scalar => exact Or.inl ⟨_, rfl, rfl⟩
    | integer =>
      by_cases hintegral : isIntegralText spelling.toList = true
      · exact Or.inl ⟨_, if_pos hintegral, if_pos hintegral⟩
      · exact Or.inr ⟨if_neg hintegral, _, if_neg hintegral, rfl⟩
    | boolean | array | map | hash => exact Or.inr ⟨rfl, _, rfl, rfl⟩
  | truth value =>
    cases kind with
    | boolean => exact Or.inl ⟨_, rfl, rfl⟩
    | string | integer | scalar | array | map | hash => exact Or.inr ⟨rfl, _, rfl, rfl⟩
  | undefined => cases kind <;> exact Or.inl ⟨_, rfl, rfl⟩
  | list items => cases hleaf
  | object fields => cases hleaf

theorem leaf_judged (l : Literal) (hleaf : l.isLeaf = true) (kind : Kind) :
    Judged ((cell kind l).isSome = true) (leaf kind l) := by
  rcases leaf_cases l hleaf kind with ⟨text, hcell, hok⟩ | ⟨hcell, fault, herror, hcls⟩
  · rw [hcell, hok]
    exact .ok text rfl
  · rw [hcell, herror]
    exact .invalid fault hcls Bool.false_ne_true

mutual

/-- Every leaf is lowered into the wrapped kind, whatever lists and objects it stands in. -/
theorem wrappedElement_judged (kind : Kind) (l : Literal) :
    Judged (∀ leaf ∈ l.leaves, (cell kind leaf).isSome = true) (wrappedElement kind l) := by
  have hsingle {leaf : Literal} :
      (cell kind leaf).isSome = true ↔ ∀ l ∈ [leaf], (cell kind l).isSome = true := by
    rw [List.forall_mem_singleton]
  cases l with
  | list items => exact (wrappedItems_judged kind items).map bracketed
  | object fields => exact (wrappedFields_judged kind fields).map braced
  | text content => exact (leaf_judged (.text content) rfl kind).congr hsingle
  | number spelling => exact (leaf_judged (.number spelling) rfl kind).congr hsingle
  | truth value => exact (leaf_judged (.truth value) rfl kind).congr hsingle
  | undefined => exact (leaf_judged .undefined rfl kind).congr hsingle

theorem wrappedItems_judged (kind : Kind) (items : List Literal) :
    Judged (∀ leaf ∈ itemLeaves items, (cell kind leaf).isSome = true)
      (wrappedItems kind items) := by
  cases items with
  | nil => exact .ok [] (by simp [itemLeaves])
  | cons item rest =>
    have hrest := wrappedItems_judged kind rest
    rw [wrappedItems]
    exact ((wrappedElement_judged kind item).bind fun first => hrest.map (first :: ·)).congr
      List.forall_mem_append.symm

theorem wrappedFields_judged (kind : Kind) (fields : List (String × Literal)) :
    Judged (∀ leaf ∈ fieldLeaves fields, (cell kind leaf).isSome = true)
      (wrappedFields kind fields) := by
  cases fields with
  | nil => exact .ok [] (by simp [fieldLeaves])
  | cons field rest =>
    obtain ⟨name, value⟩ := field
    have hrest := wrappedFields_judged kind rest
    rw [wrappedFields]
    exact ((wrappedElement_judged kind value).bind fun first =>
      hrest.map (fieldText name first :: ·)).congr List.forall_mem_append.symm

end

mutual

theorem isLeaf_of_mem_leaves (l : Literal) : ∀ leaf ∈ l.leaves, leaf.isLeaf = true := by
  cases l with
  | list items => exact isLeaf_of_mem_itemLeaves items
  | object fields => exact isLeaf_of_mem_fieldLeaves fields
  | text _ | number _ | truth _ | undefined => exact List.forall_mem_singleton.mpr rfl

theorem isLeaf_of_mem_itemLeaves (items : List Literal) :
    ∀ leaf ∈ itemLeaves items, leaf.isLeaf = true := by
  cases items with
  | nil => simp [itemLeaves]
  | cons item rest =>
    exact List.forall_mem_append.mpr ⟨isLeaf_of_mem_leaves item, isLeaf_of_mem_itemLeaves rest⟩

theorem isLeaf_of_mem_fieldLeaves (fields : List (String × Literal)) :
    ∀ leaf ∈ fieldLeaves fields, leaf.isLeaf = true := by
  cases fields with
  | nil => simp [fieldLeaves]
  | cons field rest =>
    exact List.forall_mem_append.mpr
      ⟨isLeaf_of_mem_leaves field.2, isLeaf_of_mem_fieldLeaves rest⟩

end

/-- The table has an entry for the shape of the literal and the kind. -/
def suits (kind : Kind) : Literal → Bool
  | .list _ => kind == .array
  | .object _ => kind == .map || kind == .hash
  | leaf => (cell kind leaf).isSome

theorem initialItems_judged (element : Option Kind) (items : List Literal) :
    Judged (∀ wrapped, wrapping element = some wrapped →
      ∀ leaf ∈ itemLeaves items, (cell wrapped leaf).isSome = true)
      (initialItems element items) := by
  unfold initialItems
  cases wrapping element with
  | none => exact .ok _ (by simp)
  | some wrapped => exact (wrappedItems_judged wrapped items).congr (by simp)

theorem initialFields_judged (element : Option Kind) (fields : List (String × Literal)) :
    Judged (∀ wrapped, wrapping element = some wrapped →
      ∀ leaf ∈ fieldLeaves fields, (cell wrapped leaf).isSome = true)
      (initialFields element fields) := by
  unfold initialFields
  cases wrapping element with
  | none => exact .ok _ (by simp)
  | some wrapped => exact (wrappedFields_judged wrapped fields).congr (by simp)

/-- The only leaf that initialises a container is the undefined value. -/
theorem eq_undefined_of_cell (hkind : kind.isContainer = true) (h : (cell kind l).isSome = true) :
    l = .undefined := by
  cases kind with
  | array | map =>
    cases l with
    | undefined => rfl
    | text _ | number _ | truth _ | list _ | object _ => cases h
  | string | integer | boolean | hash | scalar => cases hkind

theorem initial_judged {element : Option Kind}
    (helement : ∀ e, element = some e → kind.isContainer = true) (l : Literal) :
    Judged (suits kind l = true ∧ ∀ wrapped, wrapping element = some wrapped →
      ∀ leaf ∈ l.leaves, (cell wrapped leaf).isSome = true) (l.initial kind element) := by
  -- A leaf that suits a container is accepted by every element kind as well.
  have hleaf {leaf : Literal} (hisLeaf : leaf.isLeaf = true) :
      Judged ((cell kind leaf).isSome = true ∧ ∀ wrapped, wrapping element = some wrapped →
        ∀ l ∈ [leaf], (cell wrapped l).isSome = true) (Literal.leaf kind leaf) := by
    refine (leaf_judged leaf hisLeaf kind).congr (iff_self_and.mpr fun hcell wrapped hwrapped => ?_)
    rw [List.forall_mem_singleton]
    cases element with
    | none => cases hwrapped
    | some e =>
      rw [eq_undefined_of_cell (helement e rfl) hcell]
      exact cell_undefined wrapped
  cases l with
  | text content => exact hleaf rfl
  | number spelling => exact hleaf rfl
  | truth value => exact hleaf rfl
  | undefined => exact hleaf rfl
  | list items =>
    cases kind with
    | array =>
      exact ((initialItems_judged element items).map _).congr (and_iff_right rfl).symm
    | string | integer | boolean | map | hash | scalar =>
      exact .invalid _ rfl fun h => Bool.false_ne_true h.1
  | object fields =>
    cases kind with
    | map => exact ((initialFields_judged element fields).map _).congr (and_iff_right rfl).symm
    | hash =>
      cases element with
      | none => exact ((initialFields_judged none fields).map _).congr (and_iff_right rfl).symm
      | some e => cases helement e rfl
    | string | integer | boolean | array | scalar =>
      exact .invalid _ rfl fun h => Bool.false_ne_true h.1

end Literal

namespace Kind

/-- The element kind can be given for the kind: only containers have one, and it is a plain or a
wrapped one. -/
def Admits (kind : Kind) (element : Option Kind) : Prop :=
  ∀ e, element = some e → kind.isContainer = true ∧ e.isElement = true

theorem admits_none (kind : Kind) : kind.Admits none := by
  intro e he
  cases he

theorem admits_plain {kind : Kind} {element : Option Kind} (hkind : kind.isContainer = true)
    (helement : element = none ∨ element = some .scalar) : kind.Admits element := by
  intro e he
  rcases helement with rfl | rfl
  · cases he
  · obtain rfl := Option.some.inj he
    exact ⟨hkind, rfl⟩

theorem Admits.elementFor {kind : Kind} {element : Option Kind} (h : kind.Admits element) :
    ∃ found, kind.elementFor element = .ok found ∧
      Literal.wrapping found = Literal.wrapping element ∧
      ∀ e, found = some e → kind.isContainer = true := by
  unfold Kind.elementFor
  cases element with
  | some e =>
    obtain ⟨hkind, he⟩ := h e rfl
    exact ⟨some e, by simp [hkind, he], rfl, fun _ _ => hkind⟩
  | none =>
    cases hkind : kind.isContainer with
    | true => exact ⟨some .scalar, rfl, rfl, fun _ _ => rfl⟩
    | false => exact ⟨none, rfl, rfl, fun _ hnone => by cases hnone⟩

end Kind

section Made

variable {kind : Kind} {name : Option String} {element found : Option Kind} {l : Literal}

theorem Value.make_literal (h : kind.elementFor element = .ok found) :
    Value.make kind name element (.literal l) =
      (l.initial kind found).map fun _ => ⟨kind, name, found, .literal l, false⟩ := by
  unfold Value.make Value.checkSource
  rw [h]
  cases hinitial : l.initial kind found with
  | error fault => simp [hinitial, bind, Except.bind, Except.map]
  | ok text => simp [hinitial, bind, Except.bind, Except.map, pure, Except.pure]

theorem Value.make_judged (h : kind.Admits element) (name : Option String) (l : Literal) :
    Judged (l.suits kind = true ∧ ∀ wrapped, Literal.wrapping element = some wrapped →
      ∀ leaf ∈ l.leaves, (Literal.cell wrapped leaf).isSome = true)
      (Value.make kind name element (.literal l)) := by
  obtain ⟨found, hfound, hwrapping, hcontainer⟩ := h.elementFor
  rw [Value.make_literal hfound, ← hwrapping]
  exact (Literal.initial_judged hcontainer l).map _

end Made

namespace Literal

/-- A value of the kind can be made from the literal. -/
def initialises (l : Literal) (kind : Kind) (name : Option String)
    (element : Option Kind) : Bool :=
  (Value.make kind name element (.literal l)).isOk

variable {kind : Kind} {name : Option String} {element : Option Kind} {l : Literal}

theorem initialises_iff (h : kind.Admits element) :
    l.initialises kind name element = true ↔
      l.suits kind = true ∧ ∀ wrapped, wrapping element = some wrapped →
        ∀ leaf ∈ l.leaves, (cell wrapped leaf).isSome = true :=
  (Value.make_judged h name l).isOk_iff

theorem suits_leaf (hleaf : l.isLeaf = true) : l.suits kind = (cell kind l).isSome := by
  cases l with
  | text _ | number _ | truth _ | undefined => rfl
  | list _ | object _ => cases hleaf

theorem initialises_plain (h : kind.Admits element)
    (helement : element = none ∨ element = some .scalar) :
    l.initialises kind name element = true ↔ l.suits kind = true := by
  have hplain : wrapping element = none := by
    rcases helement with rfl | rfl <;> rfl
  simp [initialises_iff h, hplain]

theorem initialises_leaf (hleaf : l.isLeaf = true) :
    l.initialises kind name none = true ↔ (cell kind l).isSome = true := by
  rw [initialises_plain kind.admits_none (Or.inl rfl), suits_leaf hleaf]

theorem initialises_wrapped (hkind : kind.isContainer = true) {wrapped : Kind}
    (hwrapped : wrapped.isWrapped = true) (hsuits : l.suits kind = true)
    (leafName : Option String) :
    l.initialises kind name (some wrapped) = true ↔
      ∀ leaf ∈ l.leaves, leaf.initialises wrapped leafName none = true := by
  have hadmits : kind.Admits (some wrapped) := by
    rintro _ ⟨rfl⟩
    exact ⟨hkind, by simp [Kind.isElement, hwrapped]⟩
  have hwrapping : wrapping (some wrapped) = some wrapped := by
    cases wrapped with
    | scalar => cases hwrapped
    | string | integer | boolean | array | map | hash => rfl
  rw [initialises_iff hadmits, hwrapping, and_iff_right hsuits]
  constructor
  · intro h leaf hleaf
    rw [initialises_leaf (l.isLeaf_of_mem_leaves leaf hleaf)]
    exact h wrapped rfl leaf hleaf
  · rintro h _ ⟨rfl⟩ leaf hleaf
    exact (initialises_leaf (l.isLeaf_of_mem_leaves leaf hleaf)).mp (h leaf hleaf)

theorem not_initialises (h : kind.Admits element) (hsuits : l.suits kind = false) :
    l.initialises kind name element = false := by
  rw [Bool.eq_false_iff, ne_eq, initialises_iff h, hsuits]
  simp

/-- A leaf makes a value exactly if the table has an expression, and this is the expression of the
value. -/
theorem cell_eq_some_iff (h : kind.Admits element) (hleaf : l.isLeaf = true)
    {text : String} :
    cell kind l = some text ↔ ∃ v, Value.make kind name element (.literal l) = .ok v ∧
      ∀ routineText, v.expression routineText = .ok text := by
  obtain ⟨found, hfound, _⟩ := h.elementFor
  have hinitial : l.initial kind found = Literal.leaf kind l := by
    cases l with
    | text _ | number _ | truth _ | undefined => rfl
    | list _ | object _ => cases hleaf
  rw [Value.make_literal hfound, hinitial]
  rcases leaf_cases l hleaf kind with ⟨other, hcell, hok⟩ | ⟨hcell, fault, herror, _⟩
  · rw [hcell, hok]
    constructor
    · rintro ⟨rfl⟩
      exact ⟨_, rfl, fun routineText => hinitial.trans hok⟩
    · rintro ⟨_, ⟨rfl⟩, hexpression⟩
      have htext := (hexpression fun _ => .ok "").symm.trans (hinitial.trans hok)
      rw [Except.ok.inj htext]
  · rw [hcell, herror]
    constructor
    · intro hnone
      cases hnone
    · rintro ⟨_, hmake, _⟩
      cases hmake

end Literal

/-- The literals that initialise values of each kind. -/
structure JudgedByLeaves (name leafName : Option String) : Prop where
  wrappedArray : ∀ kind, kind.isWrapped = true → ∀ items,
    (Literal.list items).initialises .array name (some kind) = true ↔
      ∀ leaf ∈ Literal.itemLeaves items, leaf.initialises kind leafName none = true
  wrappedMap : ∀ kind, kind.isWrapped = true → ∀ fields,
    (Literal.object fields).initialises .map name (some kind) = true ↔
      ∀ leaf ∈ Literal.fieldLeaves fields, leaf.initialises kind leafName none = true
  plainArray : ∀ element, element = none ∨ element = some .scalar → ∀ items,
    (Literal.list items).initialises .array name element = true
  plainMap : ∀ element, element = none ∨ element = some .scalar → ∀ fields,
    (Literal.object fields).initialises .map name element = true
  hash : ∀ fields, (Literal.object fields).initialises .hash name none = true
  undefined : ∀ kind element, kind.Admits element →
    Literal.undefined.initialises kind name element = true
  /-- Where the table has an expression for a leaf, the value is made and has that expression. -/
  leaf : ∀ kind element l, kind.Admits element → l.isLeaf = true → ∀ text,
    Literal.cell kind l = some text ↔ ∃ v, Value.make kind name element (.literal l) = .ok v ∧
      ∀ routineText, v.expression routineText = .ok text
  list : ∀ kind element items, kind.Admits element → kind ≠ .array →
    (Literal.list items).initialises kind name element = false
  object : ∀ kind element fields, kind.Admits element → kind ≠ .map → kind ≠ .hash →
    (Literal.object fields).initialises kind name element = false
  fault : ∀ kind element l fault, kind.Admits element →
    Value.make kind name element (.literal l) = .error fault → fault.cls = .invalidLiteral

/-- A container of wrapped elements takes a literal exactly if the wrapped kind takes each leaf of
it by itself; everything else is decided by the kind and the shape of the literal alone. -/
theorem literals_judged_by_leaves (name leafName : Option String) :
    JudgedByLeaves name leafName where
  wrappedArray kind hkind items := Literal.initialises_wrapped rfl hkind rfl leafName
  wrappedMap kind hkind fields := Literal.initialises_wrapped rfl hkind rfl leafName
  plainArray element helement items :=
    (Literal.initialises_plain (Kind.admits_plain rfl helement) helement).mpr rfl
  plainMap element helement fields :=
    (Literal.initialises_plain (Kind.admits_plain rfl helement) helement).mpr rfl
  hash fields := (Literal.initialises_plain (Kind.admits_none .hash) (Or.inl rfl)).mpr rfl
  undefined kind element h := by
    refine (Literal.initialises_iff h).mpr ⟨Literal.cell_undefined kind, fun wrapped _ => ?_⟩
    exact List.forall_mem_singleton.mpr (Literal.cell_undefined wrapped)
  leaf kind element l h hleaf text := Literal.cell_eq_some_iff h hleaf
  list kind element items h hkind :=
    Literal.not_initialises h (by simpa [Literal.suits] using hkind)
  object kind element fields h hmap hhash :=
    Literal.not_initialises h (by simpa [Literal.suits] using ⟨hmap, hhash⟩)
  fault kind element l fault h herror := (Value.make_judged h name l).cls_of_error herror

/-- A number in an object in a list is an integer and a string is not, two levels down. -/
theorem literals_judged_by_leaves_nested :
    (Literal.list [.undefined, .object [("a", .list [.number "-2"])]]).initialises
        .array (some "xs") (some .integer) = true ∧
      (Literal.list [.undefined, .object [("a", .list [.text "2"])]]).initialises
        .array (some "xs") (some .integer) = false ∧
      (Literal.list [.undefined, .object [("a", .list [.text "2"])]]).initialises
        .array (some "xs") none = true := by
  have h := literals_judged_by_leaves (some "xs") none
  refine ⟨?_, ?_, h.plainArray none (Or.inl rfl) _⟩
  · rw [h.wrappedArray .integer rfl]
    decide +kernel
  · rw [Bool.eq_false_iff, ne_eq, h.wrappedArray .integer rfl]
    decide +kernel

end LineScript
