import LineScript.Block.Outline
import LineScript.Proofs.LaidOut
import LineScript.Proofs.Rereading

/-!
# Labels of stored elements

The outline of a block has a line for every element that is not a block. What a script stores has
labels that stay in one line, since the names in them are names. Routines are installed as handlers
by the lines that name a signal, and by no others.
-/
namespace LineScript

open Text Layout

namespace Text

def OneLine (t : String) : Prop :=
  '\n' ∉ t.toList

instance (t : String) : Decidable (OneLine t) :=
  inferInstanceAs (Decidable ('\n' ∉ t.toList))

theorem OneLine.append {t u : String} (ht : OneLine t) (hu : OneLine u) : OneLine (t ++ u) := by
  intro hmem
  rw [String.toList_append, List.mem_append] at hmem
  exact hmem.elim ht hu

theorem Paired.oneLine {semi : Bool} {t : String} (h : Paired semi t) : OneLine t :=
  fun hmem => absurd (h.fits _ hmem) (by cases semi <;> decide)

end Text

theorem IsName.oneLine {name : String} (h : IsName name) : OneLine name :=
  (Paired.name true h).oneLine

def Construct.isSignal : Construct → Bool
  | .signal _ _ => true
  | _ => false

/-- The label of the element stays in one line. -/
def Element.Labelled (e : Element) : Prop :=
  OneLine (Store.elementLabel e)

theorem Kind.oneLine_name (kind : Kind) : OneLine kind.name := by
  cases kind <;> decide

theorem Value.labelled_of_make {kind : Kind} {name : String} {element : Option Kind}
    {source : Source} {value : Value} (h : Value.make kind (some name) element source = .ok value)
    (hname : IsName name) : (Element.value value).Labelled := by
  have hdisplay : value.display = name := by rw [Value.display, (Value.make_ok h).2.1]; rfl
  have hvalue : OneLine "value " := by decide
  have hspace : OneLine " " := by decide
  have hlabel := ((hvalue.append value.kind.oneLine_name).append hspace).append
    (hdisplay.symm ▸ hname.oneLine)
  exact hlabel

theorem Dependency.labelled_of_make {path : String} {symbols : Option (List String)}
    {d : Dependency} (h : Dependency.make path symbols = .ok d) :
    (Element.statement (.dependency d)).Labelled := by
  obtain ⟨module, hmodule, h⟩ := (except_bind_ok _ _ _).mp h
  obtain rfl := (except_pure_ok _ _).mp h
  have huse : OneLine "use " := by decide
  exact huse.append (paired_modulePath hmodule).oneLine

theorem Binding.labelled {b : Binding} (h : ∀ p ∈ b.parameters, IsName p.name) :
    (Element.statement (.binding b)).Labelled := by
  have hnames : ∀ name ∈ b.names, Paired true name := by
    intro name hname
    obtain ⟨p, hp, rfl⟩ := List.mem_map.mp hname
    exact .name true (h p hp)
  have hcomma : Paired true ", " := fun _ => rfl
  have hbind : OneLine "bind (" := by decide
  have hclose : OneLine ")" := by decide
  exact (hbind.append (hcomma.joinWith hnames).oneLine).append hclose

theorem oneLine_toString (n : Nat) : OneLine (toString n) :=
  (paired_nat n).oneLine

namespace Store

variable {s t : Store}

theorem stores_append_of_stores {parent : BlockId} {element e : Element}
    (happend : Succeeds (Edit.append parent element) s () t) (hchild : element.child? = none)
    (h : s.Stores e) : t.Stores e := by
  obtain ⟨block, changed, hblock, _, rfl, _, _, helements⟩ :=
    Edit.append_childless_ok hchild happend
  obtain ⟨id, found, hfound, he⟩ := h
  by_cases hid : id = parent
  · subst hid
    obtain rfl := Option.some.inj (hblock.symm.trans hfound)
    refine ⟨id, changed, get?_replace_self (lt_size_of_get? hblock) changed, ?_⟩
    rcases helements with helements | ⟨_, _, helements⟩ <;> simp [helements, he]
  · exact ⟨id, found, by rw [get?_replace_of_ne _ hid, hfound], he⟩

theorem stores_extend_of_stores {e : Element} (h : s.Stores e) (made : List Block) (fresh : Nat) :
    (s.extend made fresh).Stores e := by
  obtain ⟨id, found, hfound, he⟩ := h
  exact ⟨id, found, by rw [get?_extend_of_lt (lt_size_of_get? hfound), hfound], he⟩

theorem stores_attach_of_stores {child parent : BlockId} {inner block : Block}
    {element e : Element} (hinner : s.get? child = some inner)
    (hblock : s.get? parent = some block) (h : s.Stores e) :
    (s.attach child parent inner block element).Stores e := by
  obtain ⟨id, found, hfound, he⟩ := h
  have hparent := lt_size_of_get? hblock
  by_cases hid : id = parent
  · subst hid
    obtain rfl := Option.some.inj (hblock.symm.trans hfound)
    refine ⟨id, _, get?_replace_self (by rwa [size_replace]) _, ?_⟩
    exact List.mem_append_left _ he
  · by_cases hchild : id = child
    · subst hchild
      obtain rfl := Option.some.inj (hinner.symm.trans hfound)
      refine ⟨id, { inner with root := some parent }, ?_, he⟩
      rw [attach, get?_replace_of_ne _ hid, get?_replace_self (lt_size_of_get? hinner)]
    · exact ⟨id, found, by rw [attach, get?_replace_of_ne _ hid, get?_replace_of_ne _ hchild,
        hfound], he⟩

theorem stores_attached {child parent : BlockId} {inner block : Block} (element : Element)
    (hblock : s.get? parent = some block) :
    (s.attach child parent inner block element).Stores element := by
  have hparent := lt_size_of_get? hblock
  refine ⟨parent, _, get?_replace_self (by rwa [size_replace]) _, ?_⟩
  exact List.mem_append_right _ List.mem_cons_self

end Store

namespace Scopes

variable {s : Scopes} {c : Construct}

theorem labelled_mergedElement (scope : Scope) : (Session.mergedElement scope).Labelled := by
  have hsign : OneLine "#" := by decide
  unfold Session.mergedElement
  cases scope.merge with
  | block => exact hsign.append (oneLine_toString _)
  | handler signal =>
    have hkey : OneLine ("signal " ++ signal.key ++ " -> #") := by cases signal <;> decide
    exact hkey.append (oneLine_toString _)

theorem Adds.labelled (hnamed : s.Named) (hc : c.WellFormed fun _ => True) {element : Element}
    (h : s.Adds c element) : element.Labelled := by
  cases h with
  | blank => exact (by decide : OneLine (Store.elementLabel (.text "\n")))
  | @call _ _ receiver invocation _ hreceiver hmem _ =>
    have hcall : OneLine "call " := by decide
    have hdot : OneLine "." := by decide
    have hmethod : IsName invocation.method := Chain.isName_of_mem_results _ hmem
    have hname : IsName receiver.name := by rw [hnamed.name_of_require hreceiver]; exact hc.1
    exact ((hcall.append hname.oneLine).append hdot).append hmethod.oneLine
  | assign htarget _ _ hassignment =>
    have hname := Value.isName_of_toVariable (hnamed.name_of_resolve (require_ok.mp htarget)) hc.1
      (Assignment.make_ok hassignment).1
    have hassign : OneLine "assign " := by decide
    exact hassign.append hname.oneLine
  | giveBack _ =>
    have hreturn : OneLine "return x" := by decide
    exact hreturn.append (oneLine_toString _)
  | print _ => exact (by decide : OneLine "print")
  | exit code =>
    have hexit : OneLine "exit " := by decide
    exact hexit.append (paired_int code).oneLine

/-- A new block starts with the binding of its parameters or with the message of its handler, if it
does not start empty. -/
theorem Opening.mem_elements {o : Opened} (h : s.Opening c o) {block : Block}
    (hblock : block ∈ o.made) {e : Element} (he : e ∈ block.elements) :
    e = .statement (.print ⟨.raw "$@", true⟩) ∨ ∃ b, e = .statement (.binding b) ∧
      ((c.WellFormed fun _ => True) → ∀ p ∈ b.parameters, IsName p.name) := by
  have hroutine {name : Option String} {parameters : List BoundParameter} {mode : BindingMode}
      {declared : Option Kind} (he : e ∈ (routineBlock name parameters mode declared).elements) :
      e = .statement (.binding ⟨parameters, mode⟩) := by
    unfold routineBlock at he
    split_ifs at he
    · cases he
    · exact List.mem_singleton.mp he
  cases h with
  | plain | condition _ _ _ | mapLoop _ _ _ | arrayLoop _ _ _ _ _ _ _ =>
    obtain rfl := List.mem_singleton.mp hblock
    cases he
  | routine _ hbound =>
    obtain rfl := List.mem_singleton.mp hblock
    exact Or.inr ⟨_, hroutine he, fun hc p hp => (paired_wrap hc.2 hbound p hp).1⟩
  | signal _ =>
    obtain rfl := List.mem_singleton.mp hblock
    refine Or.inr ⟨_, hroutine he, fun hc p hp => ?_⟩
    obtain ⟨parameter, hparameter, rfl⟩ := List.mem_map.mp hp
    exact hc parameter (Option.mem_toList.mp hparameter)
  | attempt _ =>
    rcases List.mem_cons.mp hblock with rfl | hblock
    · exact Or.inl (List.mem_singleton.mp he)
    · obtain rfl := List.mem_singleton.mp hblock
      cases he

theorem Opening.labelled (hc : c.WellFormed fun _ => True) {o : Opened} (h : s.Opening c o)
    {block : Block} (hblock : block ∈ o.made) {e : Element} (he : e ∈ block.elements) :
    e.Labelled := by
  rcases h.mem_elements hblock he with rfl | ⟨b, rfl, hnames⟩
  · exact (by decide : OneLine "print")
  · exact Binding.labelled (hnames hc)

theorem labelled_start (name : String) (isModule : Bool) {paths : List String}
    {deps : List Dependency}
    (hdeps : paths.mapM (fun path => Dependency.make path none) = .ok deps) {e : Element}
    (he : (start name isModule deps).store.Stores e) : e.Labelled := by
  obtain ⟨id, block, hblock, he⟩ := he
  obtain ⟨_, rfl⟩ := get?_start hblock
  rcases List.mem_append.mp he with he | he
  · obtain ⟨d, hd, rfl⟩ := List.mem_map.mp he
    obtain ⟨path, _, hpath⟩ := exists_of_mem_mapM hdeps hd
    exact Dependency.labelled_of_make hpath
  · obtain rfl := List.mem_singleton.mp he
    exact (by decide : OneLine (Store.elementLabel (.text "\n")))

/-- A line that stays in the open scopes adds one element that refers to no block, or none. -/
theorem Stays.stores {t : Scopes} (hnamed : s.Named) (hc : c.WellFormed fun _ => True)
    (h : s.Stays c t) : (∀ e, t.store.Stores e → s.store.Stores e ∨ e.child? = none ∧ e.Labelled) ∧
      ∀ e, s.store.Stores e → t.store.Stores e := by
  have hadded {parent : BlockId} {element : Element} {store : Store}
      (hchild : element.child? = none) (hlabelled : element.Labelled)
      (happend : Succeeds (Edit.append parent element) s.store () store) :
      (∀ e, store.Stores e → s.store.Stores e ∨ e.child? = none ∧ e.Labelled) ∧
        ∀ e, s.store.Stores e → store.Stores e := by
    refine ⟨fun e he => ?_, fun e he => Store.stores_append_of_stores happend hchild he⟩
    rcases (Store.stores_append happend hchild).2 e he with he | rfl
    · exact Or.inl he
    · exact Or.inr ⟨hchild, hlabelled⟩
  cases h with
  | note log => exact ⟨fun e he => Or.inl he, fun e he => he⟩
  | add log hadds happend => exact hadded hadds.child? (hadds.labelled hnamed hc) happend
  | declare log _ _ hvalue happend => exact hadded rfl (Value.labelled_of_make hvalue hc.1) happend
  | hoist log hd happend => exact hadded rfl (Dependency.labelled_of_make hd) happend
  | @package _ module _ log hmodule happend =>
    have hpackage : OneLine "package " := by decide
    have hlabelled : (Element.statement (.package module)).Labelled :=
      hpackage.append (paired_modulePath hmodule).oneLine
    exact hadded rfl hlabelled happend

theorem Stays.merges {t : Scopes} (h : s.Stays c t) :
    t.all.map Scope.merge = s.all.map Scope.merge := by
  cases h <;> rfl

theorem Opening.merge {o : Opened} (h : s.Opening c o) :
    (∃ signal, o.merge = .handler signal) ↔ c.isSignal = true := by
  cases h <;> simp [Construct.isSignal]

/-- What a script has stored so far, with the signals of the scopes that are still open. -/
structure Lists (lines : List Construct) (s : Scopes) : Prop where
  labelled : ∀ e, s.store.Stores e → e.Labelled
  signal : (∃ c ∈ lines, c.isSignal = true) ↔
    (∃ signal routine, s.store.Stores (.statement (.signal signal routine))) ∨
      ∃ signal, Merge.handler signal ∈ s.all.map Scope.merge
  outermost : (s.all.map Scope.merge).getLast? = some .block

namespace Lists

variable {lines : List Construct} {t : Scopes}

theorem start (name : String) (isModule : Bool) {paths : List String} {deps : List Dependency}
    (hdeps : paths.mapM (fun path => Dependency.make path none) = .ok deps) :
    Lists [] (Scopes.start name isModule deps) where
  labelled _ he := labelled_start name isModule hdeps he
  signal := by
    refine iff_of_false (by simp) ?_
    rintro (⟨signal, routine, id, block, hblock, he⟩ | ⟨signal, hmem⟩)
    · obtain ⟨_, rfl⟩ := get?_start hblock
      rcases mem_fileBlock he with ⟨d, heq⟩ | heq <;> cases heq
    · cases List.mem_singleton.mp hmem
  outermost := rfl

theorem stays (h : Lists lines s) (hnamed : s.Named) (hc : c.WellFormed fun _ => True)
    (hmove : s.Stays c t) : Lists lines t := by
  obtain ⟨hnew, hold⟩ := hmove.stores hnamed hc
  refine ⟨fun e he => ?_, ?_, ?_⟩
  · exact (hnew e he).elim (h.labelled e) And.right
  · rw [hmove.merges, h.signal]
    refine or_congr_left ⟨?_, ?_⟩
    · rintro ⟨signal, routine, he⟩
      exact ⟨signal, routine, hold _ he⟩
    · rintro ⟨signal, routine, he⟩
      refine ⟨signal, routine, (hnew _ he).resolve_right ?_⟩
      rintro ⟨hchild, _⟩
      cases hchild
  · rw [hmove.merges, h.outermost]

theorem snoc_other (h : Lists lines s) (hopens : c.opens = false) : Lists (lines ++ [c]) s := by
  refine ⟨h.labelled, ?_, h.outermost⟩
  rw [← h.signal]
  have hsignal : c.isSignal = false := by cases c <;> first | rfl | cases hopens
  simp [or_and_right, exists_or, hsignal]

theorem opened (h : Lists lines s) (hc : c.WellFormed fun _ => True) {o : Opened}
    (hopening : s.Opening c o) (log : List LogEntry) :
    Lists (lines ++ [c]) (s.opened o log) := by
  have hmerges : (s.opened o log).all.map Scope.merge = o.merge :: s.all.map Scope.merge := rfl
  refine ⟨fun e he => ?_, ?_, ?_⟩
  · rcases Store.stores_extend he with he | ⟨block, hblock, he⟩
    · exact h.labelled e he
    · exact hopening.labelled hc hblock he
  · have hstores (signal : Signal) (routine : BlockId) :
        (s.opened o log).store.Stores (.statement (.signal signal routine)) ↔
          s.store.Stores (.statement (.signal signal routine)) := by
      refine ⟨fun he => ?_, fun he => Store.stores_extend_of_stores he _ _⟩
      rcases Store.stores_extend he with he | ⟨block, hblock, he⟩
      · exact he
      · rcases hopening.mem_elements hblock he with heq | ⟨b, heq, _⟩ <;> cases heq
    have hlast : (∃ d ∈ lines ++ [c], d.isSignal = true) ↔
        (∃ d ∈ lines, d.isSignal = true) ∨ c.isSignal = true := by
      simp [or_and_right, exists_or]
    rw [hlast, h.signal, ← hopening.merge, hmerges]
    simp only [hstores, List.mem_cons, exists_or, eq_comm, or_assoc]
    exact or_congr_right or_comm
  · rw [hmerges, List.getLast?_cons, h.outermost]
    rfl

theorem closes (h : Lists lines s) (hlinked : s.Linked) (hcloses : c.closes = true)
    (hmove : s.Closes t) : Lists (lines ++ [c]) t := by
  obtain ⟨parent, outer, block, inner, log, houter, _, hblock, _, hinner, _, _, rfl⟩ :=
    hlinked.attach_of_closes hmove
  have hmerges : s.all.map Scope.merge =
      s.current.merge :: parent.merge :: outer.map Scope.merge := by
    rw [all, houter, List.map_cons, List.map_cons]
  refine ⟨fun e he => ?_, ?_, ?_⟩
  · rcases Store.stores_attach hinner hblock he with he | rfl
    · exact h.labelled e he
    · exact labelled_mergedElement s.current
  · have hlast : (∃ d ∈ lines ++ [c], d.isSignal = true) ↔ ∃ d ∈ lines, d.isSignal = true := by
      have hsignal : c.isSignal = false := by cases c <;> first | rfl | cases hcloses
      simp [or_and_right, exists_or, hsignal]
    rw [hlast, h.signal, hmerges]
    cases hmerge : s.current.merge with
    | block =>
      refine or_congr ⟨?_, ?_⟩ (exists_congr fun signal => ?_)
      · rintro ⟨signal, routine, he⟩
        exact ⟨signal, routine, Store.stores_attach_of_stores hinner hblock he⟩
      · rintro ⟨signal, routine, he⟩
        refine ⟨signal, routine, (Store.stores_attach hinner hblock he).resolve_right ?_⟩
        rw [Session.mergedElement, hmerge]
        simp
      · rw [List.mem_cons, or_iff_right (by simp)]
        rfl
    | handler signal =>
      refine iff_of_true (Or.inr ⟨signal, List.mem_cons_self⟩)
        (Or.inl ⟨signal, s.current.block, ?_⟩)
      have helement : Session.mergedElement s.current =
          .statement (.signal signal s.current.block) := by
        rw [Session.mergedElement, hmerge]
      rw [← helement]
      exact Store.stores_attached _ hblock
  · have houtermost := h.outermost
    rwa [hmerges, List.getLast?_cons_cons] at houtermost

theorem of_runs {name : String} {isModule : Bool} {paths : List String} {deps : List Dependency}
    (hdeps : paths.mapM (fun path => Dependency.make path none) = .ok deps)
    (hruns : (Scopes.start name isModule deps).Runs lines s)
    (hlines : ∀ c ∈ lines, c.WellFormed fun _ => True) : s.Linked ∧ Lists lines s := by
  obtain ⟨hlinked, _, h⟩ := hruns.invariant_of_start_along
    (fun _ c => c.WellFormed fun _ => True) Lists
    (fun _ c _ heq => hlines c (heq ▸ List.mem_append_right _ List.mem_cons_self))
    (.start name isModule hdeps)
    (fun _ _ _ _ hc _ hnamed hmove h => h.stays hnamed hc hmove)
    (fun _ _ _ hopens _ h => h.snoc_other hopens)
    (fun _ _ _ _ log hc _ _ _ hopening h => h.opened hc hopening log)
    (fun _ _ _ _ hlinked _ hcloses hmove h => h.closes hlinked hcloses hmove)
  exact ⟨hlinked, h⟩

/-- Once all scopes are closed, the signals that lines name are the ones that have handlers. -/
theorem signal_iff (h : Lists lines s) (houter : s.outer = []) :
    (∃ c ∈ lines, c.isSignal = true) ↔
      ∃ signal routine, s.store.Stores (.statement (.signal signal routine)) := by
  have houtermost := h.outermost
  rw [h.signal, or_iff_left]
  rintro ⟨signal, hmem⟩
  rw [all, houter, List.map_singleton] at hmem houtermost
  rw [List.mem_singleton] at hmem
  rw [← hmem] at houtermost
  cases houtermost

end Lists

end Scopes

end LineScript
