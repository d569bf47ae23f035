import LineScript.Proofs.Uses

/-!
# Frames of bindings

A block binds names by its kind, as parameters or as the element of a loop, and by the
declarations among its elements. The bindings before a place in a block make up a frame, and the
frames of the blocks around the place follow it. While scopes are open, their tables hold the same
names as the frames of their blocks, so that a name means the same in both.
-/
namespace LineScript

/-- What binds a name: a declaration, the element of a loop over an array or over a map, or a
parameter. -/
inductive Binder where
  | declared (bound : Value)
  | item (bound : Value)
  | entry
  | parameter

namespace Binder

/-- The variable has the kind and the element kind of what is bound, where these are known. -/
def Agrees (v : Variable) : Binder → Prop
  | declared bound => v.kind = bound.kind ∧ v.element = bound.element
  | item bound => v.kind = bound.kind ∧ v.element = bound.element
  | entry => True
  | parameter => True

instance (v : Variable) (binder : Binder) : Decidable (binder.Agrees v) :=
  match binder with
  | declared _ | item _ => inferInstanceAs (Decidable (_ ∧ _))
  | entry | parameter => .isTrue trivial

/-- The value is the one that is bound. Parameters and the entries of maps come without one; a
value in their place refers to nothing. -/
def Stands (value : Value) : Binder → Prop
  | declared bound => value = bound
  | item bound => value = bound
  | entry => value.uses = []
  | parameter => value.uses = []

theorem Stands.agrees {value : Value} {v : Variable} {binder : Binder} (h : binder.Stands value)
    (hv : value.toVariable = .ok v) : binder.Agrees v := by
  obtain ⟨_, hkind, helement⟩ := Value.toVariable_ok hv
  cases binder with
  | declared bound =>
    obtain rfl := h
    exact ⟨hkind, helement⟩
  | item bound =>
    obtain rfl := h
    exact ⟨hkind, helement⟩
  | entry => trivial
  | parameter => trivial

end Binder

/-- The names bound in a block up to some place, the latest first. -/
abbrev Frame := List (String × Binder)

def Element.binding? : Element → Option (String × Binder)
  | .value v => v.name.map fun name => (name, .declared v)
  | _ => none

def BlockKind.bindings : BlockKind → List (String × Binder)
  | .routine info => info.parameters.map fun name => (name, .parameter)
  | .arrayLoop loop => loop.element.name.toList.map fun name => (name, .item loop.element)
  | .mapLoop loop => [(loop.element, .entry)]
  | _ => []

/-- The bindings of a block of the kind that stand before a place, given the elements there. -/
def BlockKind.frame (kind : BlockKind) (front : List Element) : Frame :=
  (kind.bindings ++ front.filterMap Element.binding?).reverse

/-- The binding of a name by the first frame that has one. -/
def findBinder (frames : List Frame) (name : String) : Option Binder :=
  frames.findSome? fun frame => frame.lookup name

namespace BlockKind

theorem frame_congr {kind kind' : BlockKind} (h : kind.fixed = kind'.fixed)
    (front : List Element) : kind.frame front = kind'.frame front := by
  have hbindings : ∀ kind : BlockKind, kind.bindings = kind.fixed.bindings := by
    intro kind
    cases kind <;> rfl
  rw [frame, frame, hbindings kind, h, ← hbindings kind']

theorem frame_snoc (kind : BlockKind) (front : List Element) (e : Element) :
    kind.frame (front ++ [e]) = e.binding?.toList ++ kind.frame front := by
  cases h : e.binding? <;> simp [frame, h]

theorem frame_cons_of_none (kind : BlockKind) (front : List Element) {e : Element}
    (h : e.binding? = none) : kind.frame (e :: front) = kind.frame front := by
  simp [frame, h]

theorem lookup_frame_take (kind : BlockKind) {elements : List Element} {name : String} {i j : Nat}
    (hij : i ≤ j) (h : (kind.frame (elements.take j)).lookup name = none) :
    (kind.frame (elements.take i)).lookup name = none := by
  obtain ⟨n, rfl⟩ := Nat.exists_eq_add_of_le hij
  rw [List.take_add, frame, List.filterMap_append, ← List.append_assoc, List.reverse_append,
    List.lookup_append] at h
  exact (Option.or_eq_none_iff.mp h).2

theorem frame_take_subset (kind : BlockKind) (elements : List Element) (i : Nat) :
    kind.frame (elements.take i) ⊆ kind.frame elements := by
  intro binding hbinding
  rw [frame, List.mem_reverse, List.mem_append, List.mem_filterMap] at hbinding ⊢
  refine hbinding.imp_right ?_
  rintro ⟨e, he, hbinds⟩
  exact ⟨e, List.mem_of_mem_take he, hbinds⟩

theorem mem_bindings {kind : BlockKind} {name : String} {binder : Binder}
    (h : (name, binder) ∈ kind.bindings) :
    binder = .parameter ∨ binder = .entry ∨
      ∃ loop, kind = .arrayLoop loop ∧ binder = .item loop.element := by
  cases kind with
  | plain | file _ | condition _ | evaluation _ => cases h
  | routine info =>
    obtain ⟨_, _, heq⟩ := List.mem_map.mp h
    exact Or.inl (congrArg Prod.snd heq).symm
  | mapLoop loop => exact Or.inr (Or.inl (congrArg Prod.snd (List.mem_singleton.mp h)))
  | arrayLoop loop =>
    obtain ⟨_, _, heq⟩ := List.mem_map.mp h
    exact Or.inr (Or.inr ⟨loop, rfl, (congrArg Prod.snd heq).symm⟩)

/-- A block binds a name by its kind or by a declaration. -/
theorem lookup_frame {kind : BlockKind} {front : List Element} {name : String} {binder : Binder}
    (h : (kind.frame front).lookup name = some binder) :
    (name, binder) ∈ kind.bindings ∨
      ∃ content, binder = .declared content ∧ Element.value content ∈ front := by
  have hmem := mem_of_lookup h
  rw [frame, List.mem_reverse, List.mem_append, List.mem_filterMap] at hmem
  refine hmem.imp_right ?_
  rintro ⟨e, he, hbinding⟩
  cases e with
  | value content =>
    obtain ⟨_, _, heq⟩ := Option.map_eq_some_iff.mp hbinding
    exact ⟨content, (congrArg Prod.snd heq).symm, he⟩
  | text _ | block _ | method _ | statement _ => cases hbinding

end BlockKind

/-- The table entry and the binding have the same name and stand for the same value. -/
def Represents (entry : String × Value) (binding : String × Binder) : Prop :=
  entry.1 = binding.1 ∧ binding.2.Stands entry.2

theorem lookup_of_represents {values : List (String × Value)} {frame : Frame}
    (h : List.Forall₂ Represents values frame) (name : String) :
    (values.lookup name = none ∧ frame.lookup name = none) ∨
      ∃ value binder, values.lookup name = some value ∧ frame.lookup name = some binder ∧
        binder.Stands value := by
  induction h with
  | nil => exact Or.inl ⟨rfl, rfl⟩
  | @cons entry binding values frame hfirst _ ih =>
    obtain ⟨entryName, value⟩ := entry
    obtain ⟨bindingName, binder⟩ := binding
    obtain ⟨rfl, hstands⟩ : entryName = bindingName ∧ binder.Stands value := hfirst
    simp only [List.lookup_cons]
    cases name == entryName with
    | true => exact Or.inr ⟨value, binder, rfl, rfl, hstands⟩
    | false => exact ih

namespace Store

/-- The names bound in a block as it is now. -/
def frameOf (s : Store) (id : BlockId) : Frame :=
  match s.get? id with
  | some block => block.kind.frame block.elements
  | none => []

theorem frameOf_of_get? {s : Store} {id : BlockId} {block : Block} (h : s.get? id = some block) :
    s.frameOf id = block.kind.frame block.elements := by
  rw [frameOf, h]

/-- The tables of the scopes agree with the frames of their blocks; `context` gives the frames
around each block. -/
inductive Framed (s : Store) (context : BlockId → List Frame) : List Scope → Prop where
  | nil : Framed s context []
  | cons {scope : Scope} {outer : List Scope}
      (hvalues : List.Forall₂ Represents scope.values (s.frameOf scope.block))
      (hcontext : context scope.block = outer.map fun scope => s.frameOf scope.block)
      (houter : Framed s context outer) : Framed s context (scope :: outer)

theorem Framed.congr {s t : Store} {context context' : BlockId → List Frame}
    {scopes : List Scope} (h : s.Framed context scopes)
    (hframe : ∀ scope ∈ scopes, t.frameOf scope.block = s.frameOf scope.block)
    (hcontext : ∀ scope ∈ scopes, context' scope.block = context scope.block) :
    t.Framed context' scopes := by
  induction h with
  | nil => exact .nil
  | @cons scope outer hvalues hctx _ ih =>
    rw [List.forall_mem_cons] at hframe hcontext
    refine .cons (by rw [hframe.1]; exact hvalues) ?_ (ih hframe.2 hcontext.2)
    rw [hcontext.1, hctx]
    exact List.map_congr_left fun scope hscope => (hframe.2 scope hscope).symm

/-- A name means the same in the tables and in the frames. -/
theorem Framed.exists_binder {s : Store} {context : BlockId → List Frame} {scopes : List Scope}
    (h : s.Framed context scopes) {name : String} {value : Value}
    (hvalue : scopes.findSome? (fun scope => scope.values.lookup name) = some value) :
    ∃ binder, findBinder (scopes.map fun scope => s.frameOf scope.block) name = some binder ∧
      binder.Stands value := by
  induction h with
  | nil => cases hvalue
  | cons hvalues _ _ ih =>
    rw [List.findSome?_cons] at hvalue
    simp only [findBinder, List.map_cons, List.findSome?_cons]
    rcases lookup_of_represents hvalues name with ⟨hnone, hnone'⟩ |
      ⟨value', binder, hsome, hsome', hstands⟩
    · rw [hnone] at hvalue
      rw [hnone']
      exact ih hvalue
    · rw [hsome] at hvalue
      rw [hsome']
      obtain rfl := Option.some.inj hvalue
      exact ⟨binder, rfl, hstands⟩

end Store

end LineScript
