import LineScript.Proofs.Echoes
import LineScript.Proofs.Settled

/-!
# Lines over stores that echo another

Scopes echo others if they stand over a store that does, with some scopes around them that bind no
names. Names mean the same in both but for the numbers of blocks, and so do expressions. A line
that can be applied to some scopes can therefore be applied to scopes that echo them, unless it is
about the file itself.
-/
namespace LineScript

variable {E : Echo}

theorem lookup_map_snd {α β : Type} (f : α → β) (entries : List (String × α)) (name : String) :
    (entries.map fun p => (p.1, f p.2)).lookup name = (entries.lookup name).map f := by
  induction entries with
  | nil => rfl
  | cons entry rest ih =>
    rw [List.map_cons, List.lookup_cons, List.lookup_cons, ih]
    split <;> rfl

/-- Looking a name up in tables that have been changed entry by entry. -/
theorem findSome?_lookup_map {α : Type} (f : α → α) (table : Scope → List (String × α))
    (change : Scope → Scope)
    (hchange : ∀ scope, table (change scope) = (table scope).map fun p => (p.1, f p.2))
    (scopes : List Scope) {around : List Scope} (haround : ∀ scope ∈ around, table scope = [])
    (name : String) :
    (scopes.map change ++ around).findSome? (fun scope => (table scope).lookup name) =
      (scopes.findSome? fun scope => (table scope).lookup name).map f := by
  have hnone : around.findSome? (fun scope => (table scope).lookup name) = none := by
    rw [List.findSome?_eq_none_iff]
    intro scope hscope
    rw [haround scope hscope]
    rfl
  rw [List.findSome?_append, hnone, Option.or_none, List.findSome?_map, List.map_findSome?]
  apply congrArg (List.findSome? · scopes)
  funext scope
  simp only [Function.comp_apply, hchange, lookup_map_snd]

namespace Scopes

/-- The second scopes are the first ones, shifted, inside scopes that bind no names. -/
structure Echoes (E : Echo) (s t : Scopes) : Prop where
  store : s.store.Echoes E t.store
  file : t.file = s.file
  current : t.current = s.current.shift E.shift E.base
  outer : t.outer = s.outer.map (Scope.shift E.shift E.base) ++ E.around

section Views

variable {s t : Scopes} (h : s.Echoes E t)

include h

theorem Echoes.all : t.all = s.all.map (Scope.shift E.shift E.base) ++ E.around := by
  rw [Scopes.all, Scopes.all, h.current, h.outer, List.map_cons, List.cons_append]

theorem Echoes.resolve (name : String) :
    t.resolve name = (s.resolve name).map (Value.shift E.shift) := by
  unfold Scopes.resolve
  rw [h.all]
  exact findSome?_lookup_map _ Scope.values _ (fun _ => rfl) _ (fun _ hs => (E.bare _ hs).1) name

theorem Echoes.resolveRoutine (name : String) :
    t.resolveRoutine name = (s.resolveRoutine name).map (· + E.shift) := by
  unfold Scopes.resolveRoutine
  rw [h.all]
  exact findSome?_lookup_map _ Scope.routines _ (fun _ => rfl) _ (fun _ hs => (E.bare _ hs).2) name

theorem Echoes.boundOutside (name : String) : t.boundOutside name = s.boundOutside name := by
  have haround : E.around.any (fun scope => (scope.values.lookup name).isSome) = false := by
    rw [List.any_eq_false]
    intro scope hscope
    rw [(E.bare scope hscope).1]
    exact Bool.false_ne_true
  unfold Scopes.boundOutside
  rw [h.outer, List.any_append, haround, Bool.or_false, List.any_map]
  congr
  funext scope
  simp only [Function.comp_apply, Scope.shift, lookup_map_snd, Option.isSome_map]

theorem Echoes.require (name : String) :
    t.require name = (s.require name).map (Value.shift E.shift) := by
  unfold Scopes.require
  rw [h.resolve]
  cases s.resolve name <;> rfl

theorem Echoes.requireVariable (name : String) :
    t.requireVariable name = s.requireVariable name := by
  unfold Scopes.requireVariable
  rw [h.require]
  cases s.require name <;> rfl

theorem Echoes.methodArgument (text : String) : t.methodArgument text = s.methodArgument text := by
  unfold Scopes.methodArgument
  rw [h.requireVariable]

theorem Echoes.extendCalls (receiver : Variable) (previous : Option MethodCall)
    (results : List (Except Fault Invocation)) :
    t.extendCalls receiver previous results = s.extendCalls receiver previous results := by
  have hargument : t.methodArgument = s.methodArgument := funext h.methodArgument
  induction results generalizing previous with
  | nil => rfl
  | cons result rest ih =>
    rw [Scopes.extendCalls, Scopes.extendCalls]
    simp only [ih, hargument]

theorem Echoes.methodCall (receiver chain : String) :
    t.methodCall receiver chain = s.methodCall receiver chain := by
  unfold Scopes.methodCall
  rw [h.requireVariable]
  simp only [h.extendCalls]

theorem Echoes.requireRoutine {name : String} {id : BlockId}
    (hid : s.requireRoutine name = .ok id) : t.requireRoutine name = .ok (id + E.shift) := by
  unfold Scopes.requireRoutine at hid ⊢
  rw [h.resolveRoutine]
  cases hfound : s.resolveRoutine name with
  | none =>
    rw [hfound] at hid
    cases hid
  | some routine =>
    rw [hfound] at hid
    obtain rfl := Except.ok.inj hid
    rfl

end Views

end Scopes

theorem Store.Echoes.routineCall {s t : Store} (h : s.Echoes E t) {id : BlockId}
    {arguments : List Argument} {call : RoutineCall}
    (hcall : s.routineCall id arguments = .ok call) :
    t.routineCall (id + E.shift) arguments = .ok (call.shift E.shift) := by
  obtain ⟨block, hblock, hcall⟩ := (except_bind_ok _ _ _).mp hcall
  obtain ⟨block', hblock', hechoes⟩ := h.block id block ((s.block_ok id block).mp hblock)
  rw [Store.routineCall, (t.block_ok _ _).mpr hblock']
  simp only [bind, Except.bind, hechoes.kind]
  cases hkind : block.kind with
  | routine info =>
    rw [hkind] at hcall
    obtain rfl := (except_pure_ok _ _).mp hcall
    rfl
  | plain | file _ | condition _ | arrayLoop _ | mapLoop _ | evaluation _ =>
    rw [hkind] at hcall
    cases hcall

namespace Scopes

section Expressions

variable {s t : Scopes}

mutual

theorem Named.inlineText_echoes (hnamed : s.Named) (h : s.Echoes E t)
    {e : Expression} {text : String} (htext : s.inlineText e = .ok text) :
    t.inlineText e = .ok text := by
  cases e with
  | literal _ | arguments =>
    rw [inlineText] at htext ⊢
    exact htext
  | «variable» name =>
    rw [inlineText] at htext ⊢
    rw [h.requireVariable]
    exact htext
  | method receiver chain =>
    rw [inlineText] at htext ⊢
    obtain ⟨call, hcall, htext⟩ := (except_bind_ok _ _ _).mp htext
    obtain ⟨settled, hsettled⟩ := (hnamed.methodCall_plain hcall).settled
    rw [hsettled] at htext
    rw [h.methodCall]
    exact (except_bind_ok _ _ _).mpr ⟨call, hcall, (hsettled _).trans htext⟩
  | routine name arguments =>
    rw [inlineText] at htext ⊢
    obtain ⟨id, hid, htext⟩ := (except_bind_ok _ _ _).mp htext
    obtain ⟨bound, hbound, htext⟩ := (except_bind_ok _ _ _).mp htext
    obtain ⟨call, hcall, htext⟩ := (except_bind_ok _ _ _).mp htext
    obtain ⟨hname, hgiven⟩ := Store.routineCall_ok (hnamed.isRoutine_of_require hid) hcall
    have hnameSome : call.name.isSome = true := by rw [hname]; rfl
    obtain ⟨settled, hsettled⟩ :=
      RoutineCall.settled_of_plain hnameSome (hgiven ▸ hnamed.callArguments_plain hbound)
    rw [hsettled] at htext
    refine (except_bind_ok _ _ _).mpr ⟨_, h.requireRoutine hid, ?_⟩
    refine (except_bind_ok _ _ _).mpr ⟨_, hnamed.callArguments_echoes h hbound, ?_⟩
    refine (except_bind_ok _ _ _).mpr ⟨_, h.store.routineCall hcall, ?_⟩
    rw [RoutineCall.expression_shift hnameSome]
    exact (hsettled _).trans htext

theorem Named.callArguments_echoes (hnamed : s.Named) (h : s.Echoes E t)
    {expressions : List Expression} {arguments : List Argument}
    (harguments : s.callArguments expressions = .ok arguments) :
    t.callArguments expressions = .ok arguments := by
  cases expressions with
  | nil =>
    rw [callArguments] at harguments ⊢
    exact harguments
  | cons expression rest =>
    cases expression with
    | literal content =>
      simp only [callArguments] at harguments ⊢
      obtain ⟨first, hfirst, harguments⟩ := (except_bind_ok _ _ _).mp harguments
      obtain ⟨others, hothers, harguments⟩ := (except_bind_ok _ _ _).mp harguments
      have hrest := hnamed.callArguments_echoes h hothers
      exact (except_bind_ok _ _ _).mpr
        ⟨first, hfirst, (except_bind_ok _ _ _).mpr ⟨others, hrest, harguments⟩⟩
    | «variable» name =>
      simp only [callArguments] at harguments ⊢
      obtain ⟨v, hv, harguments⟩ := (except_bind_ok _ _ _).mp harguments
      obtain ⟨first, hfirst, harguments⟩ := (except_bind_ok _ _ _).mp harguments
      obtain ⟨others, hothers, harguments⟩ := (except_bind_ok _ _ _).mp harguments
      have hrest := hnamed.callArguments_echoes h hothers
      rw [h.requireVariable]
      exact (except_bind_ok _ _ _).mpr ⟨v, hv, (except_bind_ok _ _ _).mpr
        ⟨first, hfirst, (except_bind_ok _ _ _).mpr ⟨others, hrest, harguments⟩⟩⟩
    | arguments | routine _ _ | method _ _ =>
      simp only [callArguments] at harguments ⊢
      obtain ⟨text, htext, harguments⟩ := (except_bind_ok _ _ _).mp harguments
      obtain ⟨first, hfirst, harguments⟩ := (except_bind_ok _ _ _).mp harguments
      obtain ⟨others, hothers, harguments⟩ := (except_bind_ok _ _ _).mp harguments
      have hrest := hnamed.callArguments_echoes h hothers
      exact (except_bind_ok _ _ _).mpr ⟨text, hnamed.inlineText_echoes h htext,
        (except_bind_ok _ _ _).mpr
          ⟨first, hfirst, (except_bind_ok _ _ _).mpr ⟨others, hrest, harguments⟩⟩⟩

end

variable (hnamed : s.Named) (h : s.Echoes E t)

include hnamed h

theorem Named.source_echoes {e : Expression} {source : Source} (hsource : s.source e = .ok source) :
    t.source e = .ok (source.shift E.shift) := by
  cases e with
  | literal _ | arguments =>
    obtain rfl := Except.ok.inj hsource
    rfl
  | «variable» name =>
    obtain ⟨v, hv, hsource⟩ := (except_bind_ok _ _ _).mp hsource
    obtain rfl := (except_pure_ok _ _).mp hsource
    exact (except_bind_ok _ _ _).mpr ⟨v, (h.requireVariable name).trans hv, rfl⟩
  | method receiver chain =>
    obtain ⟨call, hcall, hsource⟩ := (except_bind_ok _ _ _).mp hsource
    obtain rfl := (except_pure_ok _ _).mp hsource
    exact (except_bind_ok _ _ _).mpr ⟨call, (h.methodCall receiver chain).trans hcall, rfl⟩
  | routine name arguments =>
    obtain ⟨id, hid, hsource⟩ := (except_bind_ok _ _ _).mp hsource
    obtain ⟨bound, hbound, hsource⟩ := (except_bind_ok _ _ _).mp hsource
    obtain ⟨call, hcall, hsource⟩ := (except_bind_ok _ _ _).mp hsource
    obtain rfl := (except_pure_ok _ _).mp hsource
    refine (except_bind_ok _ _ _).mpr ⟨_, h.requireRoutine hid, ?_⟩
    refine (except_bind_ok _ _ _).mpr ⟨_, hnamed.callArguments_echoes h hbound, ?_⟩
    exact (except_bind_ok _ _ _).mpr ⟨_, h.store.routineCall hcall, rfl⟩

theorem Named.returnedValue_echoes {e : Expression} {value : ReturnedValue}
    (hvalue : s.returnedValue e = .ok value) :
    t.returnedValue e = .ok (value.shift E.shift) := by
  cases e with
  | «variable» name =>
    obtain ⟨content, hcontent, hvalue⟩ := (except_bind_ok _ _ _).mp hvalue
    obtain rfl := (except_pure_ok _ _).mp hvalue
    refine (except_bind_ok _ _ _).mpr ⟨content.shift E.shift, ?_, rfl⟩
    rw [h.require, hcontent]
    rfl
  | literal _ | arguments | method _ _ | routine _ _ =>
    obtain ⟨text, htext, hvalue⟩ := (except_bind_ok _ _ _).mp hvalue
    obtain rfl := (except_pure_ok _ _).mp hvalue
    exact (except_bind_ok _ _ _).mpr ⟨text, hnamed.inlineText_echoes h htext, rfl⟩

theorem Named.returnedValues_echoes {es : List Expression} {values : List ReturnedValue}
    (hvalues : es.mapM s.returnedValue = .ok values) :
    es.mapM t.returnedValue = .ok (values.map (ReturnedValue.shift E.shift)) := by
  rw [except_mapM_ok] at hvalues ⊢
  rw [List.forall₂_map_right_iff]
  exact hvalues.imp fun e value hvalue => hnamed.returnedValue_echoes h hvalue

theorem Named.test_echoes {e : Option Expression} {test : Option Test}
    (htest : s.test e = .ok test) : t.test e = .ok test := by
  unfold Scopes.test at htest ⊢
  split at htest
  · exact htest
  · rwa [h.requireVariable]
  · obtain ⟨text, htext, htest⟩ := (except_bind_ok _ _ _).mp htest
    exact (except_bind_ok _ _ _).mpr ⟨text, hnamed.inlineText_echoes h htext, htest⟩

theorem Named.message_echoes {e : Option Expression} {message : Message}
    (hmessage : s.message e = .ok message) : t.message e = .ok message := by
  unfold Scopes.message at hmessage ⊢
  split at hmessage
  · exact hmessage
  · rwa [h.requireVariable]
  · exact hmessage
  · exact hmessage
  · obtain ⟨text, htext, hmessage⟩ := (except_bind_ok _ _ _).mp hmessage
    exact (except_bind_ok _ _ _).mpr ⟨text, hnamed.inlineText_echoes h htext, hmessage⟩

end Expressions

end Scopes

/-- Whether the block is a branch that another can follow. -/
def Store.canFollow (s : Store) (id : BlockId) : Except Fault Bool := do
  match (← s.block id).kind with
  | .condition condition => return condition.branch != .otherwise
  | _ => return false

/-- Whether the elements end in such a branch, texts aside. -/
def Store.canFollowLast (s : Store) (elements : List Element) : Except Fault Bool :=
  match lastBlock? elements with
  | some id => s.canFollow id
  | none => .ok false

theorem Store.Echoes.canFollow {s t : Store} (h : s.Echoes E t) {id : BlockId} {follows : Bool}
    (hfollows : s.canFollow id = .ok follows) : t.canFollow (id + E.shift) = .ok follows := by
  obtain ⟨block, hblock, hfollows⟩ := (except_bind_ok _ _ _).mp hfollows
  obtain ⟨block', hblock', hechoes⟩ := h.block id block ((s.block_ok id block).mp hblock)
  refine (except_bind_ok _ _ _).mpr ⟨block', (t.block_ok _ _).mpr hblock', ?_⟩
  rw [hechoes.kind]
  cases hkind : block.kind with
  | file info =>
    rw [hkind] at hfollows
    simp only [BlockKind.shift]
    split_ifs <;> exact hfollows
  | plain | routine _ | condition _ | arrayLoop _ | mapLoop _ | evaluation _ =>
    rw [hkind] at hfollows
    exact hfollows

namespace Scopes

theorem find?_eq_isSolid {elements : List Element} (p : Element → Bool)
    (hp : ∀ element, p element = element.isSolid) :
    elements.find? p = elements.find? Element.isSolid :=
  congrArg elements.find? (funext hp)

theorem followsBranch_eq (s : Scopes) :
    s.followsBranch = s.store.block s.current.block >>= fun block =>
      s.store.canFollowLast block.elements := by
  unfold followsBranch
  cases s.store.block s.current.block with
  | error fault => rfl
  | ok block =>
    simp only [bind, Except.bind, Store.canFollowLast, lastBlock?]
    rw [find?_eq_isSolid _ fun element => by cases element <;> rfl]
    cases block.elements.reverse.find? Element.isSolid with
    | none => rfl
    | some element => cases element <;> rfl

theorem Echoes.followsBranch {s t : Scopes} (h : s.Echoes E t) {follows : Bool}
    (hfollows : s.followsBranch = .ok follows) : t.followsBranch = .ok follows := by
  rw [followsBranch_eq] at hfollows ⊢
  obtain ⟨block, hblock, hfollows⟩ := (except_bind_ok _ _ _).mp hfollows
  obtain ⟨block', hblock', hechoes⟩ := h.store.block _ block ((s.store.block_ok _ _).mp hblock)
  rw [h.current]
  refine (except_bind_ok _ _ _).mpr ⟨block', (t.store.block_ok _ _).mpr hblock', ?_⟩
  unfold Store.canFollowLast at hfollows ⊢
  rw [E.last _ _ _ hechoes.elements, lastBlock?_shift]
  cases hlast : lastBlock? block.elements with
  | none =>
    rw [hlast] at hfollows
    exact hfollows
  | some id =>
    rw [hlast] at hfollows
    exact h.store.canFollow hfollows

end Scopes

namespace Session

variable {s t : Scopes}

theorem ofExcept_simulates {α β γ δ : Type} {Res : γ → δ → Prop} {result : Except Fault α}
    {result' : Except Fault β} {f : α → Session γ} {f' : β → Session δ}
    (hf : ∀ a, result = .ok a →
      ∃ b, result' = .ok b ∧ Simulates (Scopes.Echoes E) Res (f a) (f' b) s t) :
    Simulates (Scopes.Echoes E) Res (ofExcept result >>= f) (ofExcept result' >>= f') s t := by
  intro c s' hm
  obtain ⟨a, ha, hrest⟩ := (succeeds_ofExcept_bind _ _ _ _ _).mp hm
  obtain ⟨b, hb, hsimulates⟩ := hf a ha
  obtain ⟨d, t', ht', hres, hrel⟩ := hsimulates c s' hrest
  exact ⟨d, t', (succeeds_ofExcept_bind _ _ _ _ _).mpr ⟨b, hb, ht'⟩, hres, hrel⟩

theorem look_simulates {α β γ δ : Type} {Res : γ → δ → Prop} {view : Scopes → Except Fault α}
    {view' : Scopes → Except Fault β} {f : α → Session γ} {f' : β → Session δ}
    (hf : ∀ a, view s = .ok a →
      ∃ b, view' t = .ok b ∧ Simulates (Scopes.Echoes E) Res (f a) (f' b) s t) :
    Simulates (Scopes.Echoes E) Res (look view >>= f) (look view' >>= f') s t := by
  intro c s' hm
  obtain ⟨a, ha, hrest⟩ := (look_bind _ _ _).mp hm
  obtain ⟨b, hb, hsimulates⟩ := hf a ha
  obtain ⟨d, t', ht', hres, hrel⟩ := hsimulates c s' hrest
  exact ⟨d, t', (look_bind _ _ _).mpr ⟨b, hb, ht'⟩, hres, hrel⟩

theorem edit_simulates {α β : Type} {Res : α → β → Prop} {e : Edit α} {e' : Edit β}
    (h : s.Echoes E t) (he : Simulates (Store.Echoes E) Res e e' s.store t.store) :
    Simulates (Scopes.Echoes E) Res (edit e) (edit e') s t := by
  intro a s' hm
  obtain ⟨store, hedit, rfl⟩ := (succeeds_edit _ _ _ _).mp hm
  obtain ⟨b, store', hedit', hres, hrel⟩ := he a store hedit
  exact ⟨b, _, (succeeds_edit _ _ _ _).mpr ⟨store', hedit', rfl⟩, hres, hrel, h.file, h.current,
    h.outer⟩

theorem note_simulates (h : s.Echoes E t) (level level' : LogLevel) (message message' : String) :
    Simulates (Scopes.Echoes E) Eq (note level message) (note level' message') s t :=
  .modify ⟨h.store, h.file, h.current, h.outer⟩

theorem append_simulates (h : s.Echoes E t) {element : Element}
    (hfits : Edit.Fits E s.store s.current.block element) :
    Simulates (Scopes.Echoes E) Eq (append element) (append (element.shift E.shift)) s t := by
  unfold append
  refine .get_bind ?_
  rw [h.current]
  exact edit_simulates h (Edit.append_simulates h.store hfits)

theorem openScope_simulates (h : s.Echoes E t) (block : BlockId) (merge : Merge) :
    Simulates (Scopes.Echoes E) (fun _ _ => True) (openScope block merge)
      (openScope (block + E.shift) merge) s t := by
  unfold openScope
  refine .get_bind (.bind (note_simulates h _ _ _ _) fun _ _ _ _ _ h' => ?_)
  refine .bind (.modify ⟨h'.store, h'.file, ?_, ?_⟩) fun _ _ _ _ _ h => .pure trivial h
  · simp [h.current, Scope.shift]
  · simp [h'.current, h'.outer, Scope.shift]

theorem push_simulates (h : s.Echoes E t) :
    Simulates (Scopes.Echoes E) (fun _ _ => True) push push s t := by
  unfold push
  refine .bind (edit_simulates h (Edit.alloc_simulates h.store rfl)) fun id id' _ _ hid h => ?_
  obtain rfl : id' = id + E.shift := hid
  exact openScope_simulates h _ _

theorem getBlock_simulates {α β : Type} {Res : α → β → Prop} {f : Block → Session α}
    {f' : Block → Session β} (h : s.Echoes E t) {id : BlockId}
    (hf : ∀ b b', b.Echoes E.shift (E.Rel id) b' →
      Simulates (Scopes.Echoes E) Res (f b) (f' b') s t) :
    Simulates (Scopes.Echoes E) Res (do let b ← ofExcept ((← get).store.block id); f b)
      (do let b ← ofExcept ((← get).store.block (id + E.shift)); f' b) s t := by
  refine .get_bind (ofExcept_simulates fun b hb => ?_)
  obtain ⟨b', hb', hechoes⟩ := h.store.block id b ((Store.block_ok _ _ _).mp hb)
  exact ⟨b', (Store.block_ok _ _ _).mpr hb', hf b b' hechoes⟩

theorem enter_simulates (h : s.Echoes E t) (block : BlockId) :
    Simulates (Scopes.Echoes E) (fun _ _ => True) (enter block) (enter (block + E.shift)) s t := by
  unfold enter
  refine getBlock_simulates h fun b b' hblock => ?_
  rw [hblock.kind, hblock.root]
  refine .check (fun hrefused => ?_) fun _ => openScope_simulates h _ _
  rw [Bool.or_eq_true, Option.isSome_map] at hrefused
  rw [Bool.or_eq_true]
  exact hrefused.imp_right BlockKind.isFile_of_shift

theorem enterHandler_simulates (h : s.Echoes E t) (signal : Signal) (routine : BlockId) :
    Simulates (Scopes.Echoes E) (fun _ _ => True) (enterHandler signal routine)
      (enterHandler signal (routine + E.shift)) s t := by
  unfold enterHandler
  refine getBlock_simulates h fun b b' hblock => ?_
  rw [hblock.kind, BlockKind.isRoutine_shift]
  exact .check id fun _ => openScope_simulates h _ _

theorem mergedElement_shift (scope : Scope) (k : Nat) (base : ScopePath) :
    mergedElement (scope.shift k base) = (mergedElement scope).shift k := by
  unfold mergedElement
  rw [Scope.shift]
  cases scope.merge <;> rfl

theorem pop_simulates (hlinked : s.Linked) (h : s.Echoes E t) :
    Simulates (Scopes.Echoes E) (fun _ _ => True) pop pop s t := by
  unfold pop
  refine .get_bind ?_
  rw [h.outer, h.current]
  cases houter : s.outer with
  | nil => exact .throw _ _
  | cons parent outer =>
    have hparent : s.store.rootOf parent.block = none := by
      have hmem : parent.block ∈ s.openBlocks := by simp [Scopes.openBlocks, Scopes.all, houter]
      exact (hlinked.rootless _ (hlinked.openBlocks_lt _ hmem)).mpr hmem
    have hfits : Edit.Fits E s.store parent.block (mergedElement s.current) := by
      refine ⟨?_, ?_, fun _ => hparent⟩
      · unfold mergedElement
        cases s.current.merge <;> rfl
      · unfold mergedElement
        cases s.current.merge <;> simp
    rw [List.map_cons, List.cons_append, mergedElement_shift]
    refine .bind (edit_simulates h (Edit.append_simulates h.store hfits)) fun _ _ _ _ _ h => ?_
    refine .bind (.modify ⟨h.store, h.file, rfl, rfl⟩) fun _ _ _ _ _ h => ?_
    exact .bind (note_simulates h _ _ _ _) fun _ _ _ _ _ h => .pure trivial h

theorem bind_simulates (h : s.Echoes E t) (name : String) (value : Value) :
    Simulates (Scopes.Echoes E) Eq (bind name value) (bind name (value.shift E.shift)) s t := by
  have hmodify (s t : Scopes) (h : s.Echoes E t) : Simulates (Scopes.Echoes E) Eq
      (modify fun s =>
        { s with current := { s.current with values := (name, value) :: s.current.values } })
      (modify fun s =>
        { s with
          current := { s.current with values := (name, value.shift E.shift) :: s.current.values } })
      s t :=
    .modify ⟨h.store, h.file, by rw [h.current]; rfl, h.outer⟩
  unfold bind
  refine .get_bind (.ite (by rw [h.boundOutside]) (fun _ => ?_) fun _ => hmodify _ _ h)
  exact .bind (note_simulates h _ _ _ _) fun _ _ _ _ _ h => hmodify _ _ h

theorem bindAll_simulates (h : s.Echoes E t) {bound : List (BoundParameter × Value)}
    (hbound : ∀ p ∈ bound, p.2.shift E.shift = p.2) :
    Simulates (Scopes.Echoes E) Eq (bindAll bound) (bindAll bound) s t := by
  induction bound generalizing s t with
  | nil => exact .pure rfl h
  | cons p rest ih =>
    have hvalue : p.2.shift E.shift = p.2 := hbound p List.mem_cons_self
    have hbind := bind_simulates h p.1.name p.2
    rw [hvalue] at hbind
    exact .bind hbind fun _ _ _ _ _ h => ih h fun q hq => hbound q (List.mem_cons_of_mem _ hq)

/-- Parameters have no source, so that they hold no number of a block. -/
theorem parameterValue_shift {p : Parameter} {made : BoundParameter × Value}
    (hmade : parameterValue p = .ok made) (k : Nat) : made.2.shift k = made.2 := by
  obtain ⟨_, kind, element, hvalue, _⟩ := parameterValue_ok hmade
  apply Value.shift_eq_self
  rw [(Value.make_ok hvalue).2.2.2.1]
  rfl

theorem declare_simulates (h : s.Echoes E t) (name : String) (value : Value) :
    Simulates (Scopes.Echoes E) (fun _ _ => True) (declare name value)
      (declare name (value.shift E.shift)) s t := by
  have hfits : Edit.Fits E s.store s.current.block (.value value) :=
    ⟨rfl, by simp, by simp [Element.child?]⟩
  unfold declare
  refine .bind (append_simulates h hfits) fun _ _ _ _ _ h => ?_
  exact .bind (bind_simulates h _ _) fun _ _ _ _ _ h => .get_bind (.pure trivial h)

theorem applyDeclaration_simulates (hnamed : s.Named) (h : s.Echoes E t) (type : TypeName)
    (name : String) (value : Expression) :
    Simulates (Scopes.Echoes E) Eq (applyDeclaration type name value)
      (applyDeclaration type name value) s t := by
  unfold applyDeclaration
  refine ofExcept_simulates fun (kind, element) hkind => ⟨_, hkind, ?_⟩
  refine look_simulates fun source hsource => ⟨_, hnamed.source_echoes h hsource, ?_⟩
  refine ofExcept_simulates fun made hmade => ⟨made.shift E.shift, ?_, ?_⟩
  · rw [Value.make_shift, hmade]
    rfl
  refine .bind (note_simulates h _ _ _ _) fun _ _ _ _ _ h => ?_
  exact .bind (declare_simulates h _ _) fun _ _ _ _ _ h => .pure rfl h

theorem applyAssignment_simulates (hnamed : s.Named) (h : s.Echoes E t) (name : String)
    (value : Expression) :
    Simulates (Scopes.Echoes E) Eq (applyAssignment name value) (applyAssignment name value)
      s t := by
  unfold applyAssignment
  refine look_simulates fun target htarget => ⟨target.shift E.shift, ?_, ?_⟩
  · rw [h.require, htarget]
    rfl
  refine look_simulates fun source hsource => ⟨_, hnamed.source_echoes h hsource, ?_⟩
  refine ofExcept_simulates fun made hmade => ⟨made.shift E.shift, ?_, ?_⟩
  · have hmade' := Value.make_shift (k := E.shift) target.kind none target.element source
    rw [hmade] at hmade'
    exact hmade'
  refine .bind (note_simulates h _ _ _ _) fun _ _ _ _ _ h => ?_
  refine ofExcept_simulates fun assignment hassignment => ⟨assignment.shift E.shift, ?_, ?_⟩
  · rw [Assignment.make_shift, hassignment]
    rfl
  · exact append_simulates h ⟨rfl, by simp, by simp [Element.child?]⟩

theorem appendCalls_simulates (h : s.Echoes E t) (receiver : Variable)
    (results : List (Except Fault Invocation)) :
    Simulates (Scopes.Echoes E) Eq (appendCalls receiver results) (appendCalls receiver results)
      s t := by
  induction results generalizing s t with
  | nil => exact .pure rfl h
  | cons result rest ih =>
    unfold appendCalls
    refine ofExcept_simulates fun invocation hinvocation => ⟨_, hinvocation, ?_⟩
    refine ofExcept_simulates fun arguments harguments => ⟨_, harguments, .get_bind ?_⟩
    have hargument : t.methodArgument = s.methodArgument := funext h.methodArgument
    rw [hargument]
    exact .bind (append_simulates h ⟨rfl, by simp, by simp [Element.child?]⟩)
      fun _ _ _ _ _ h => ih h

theorem applyCalls_simulates (h : s.Echoes E t) (receiver chain : String) :
    Simulates (Scopes.Echoes E) Eq (applyCalls receiver chain) (applyCalls receiver chain) s t := by
  unfold applyCalls
  refine look_simulates fun target htarget => ⟨target, (h.requireVariable _).trans htarget, ?_⟩
  exact appendCalls_simulates h target _

theorem applyRoutine_simulates (h : s.Echoes E t) (name : Option String)
    (parameters : List Parameter) (returns : Option TypeName) :
    Simulates (Scopes.Echoes E) Eq (applyRoutine name parameters returns)
      (applyRoutine name parameters returns) s t := by
  unfold applyRoutine
  refine ofExcept_simulates fun declared hdeclared => ⟨_, hdeclared, ?_⟩
  refine ofExcept_simulates fun bound hbound => ⟨_, hbound, ?_⟩
  have hshift (p : BoundParameter × Value) (hp : p ∈ bound) : p.2.shift E.shift = p.2 := by
    obtain ⟨parameter, _, hparameter⟩ := exists_of_mem_mapM hbound hp
    exact parameterValue_shift hparameter _
  have hbody (s t : Scopes) (h : s.Echoes E t) (block : BlockId) (message : String) :
      Simulates (Scopes.Echoes E) Eq
        (do let _ ← enter block; bindAll bound; debug message)
        (do let _ ← enter (block + E.shift); bindAll bound; debug message) s t :=
    .bind (enter_simulates h _) fun _ _ _ _ _ h =>
      .bind (bindAll_simulates h hshift) fun _ _ _ _ _ h => note_simulates h _ _ _ _
  refine .bind (edit_simulates h (Edit.newRoutine_simulates h.store _ _ _ _))
    fun block block' _ _ hblock h => ?_
  obtain rfl : block' = block + E.shift := hblock
  cases name with
  | none => exact hbody _ _ h _ _
  | some name =>
    refine .bind (.modify ⟨h.store, h.file, ?_, h.outer⟩) fun _ _ _ _ _ h => hbody _ _ h _ _
    rw [h.current]
    rfl

theorem applyReturn_simulates (hnamed : s.Named) (h : s.Echoes E t) (values : List Expression) :
    Simulates (Scopes.Echoes E) Eq (applyReturn values) (applyReturn values) s t := by
  unfold applyReturn
  refine .get_bind (ofExcept_simulates fun given hgiven =>
    ⟨_, hnamed.returnedValues_echoes h hgiven, ?_⟩)
  rw [Return.ofValues_shift]
  exact append_simulates h ⟨rfl, by simp, by simp [Element.child?]⟩

theorem applyCondition_simulates (hnamed : s.Named) (h : s.Echoes E t) (branch : Branch)
    (value : Option Expression) :
    Simulates (Scopes.Echoes E) Eq (applyCondition branch value) (applyCondition branch value)
      s t := by
  have hbody (test : Option Test) : Simulates (Scopes.Echoes E) Eq
      (do let block ← edit (Edit.newCondition branch test); let _ ← enter block)
      (do let block ← edit (Edit.newCondition branch test); let _ ← enter block) s t := by
    refine .bind (edit_simulates h (Edit.newCondition_simulates h.store _ _))
      fun block block' _ _ hblock h => ?_
    obtain rfl : block' = block + E.shift := hblock
    exact .bind (enter_simulates h _) fun _ _ _ _ _ h => .pure rfl h
  unfold applyCondition
  refine look_simulates fun test htest => ⟨test, hnamed.test_echoes h htest, ?_⟩
  refine .ite Iff.rfl (fun _ => ?_) fun _ => hbody test
  refine look_simulates fun follows hfollows => ⟨follows, h.followsBranch hfollows, ?_⟩
  cases follows with
  | false => exact .throw_bind _ _ _
  | true => exact hbody test

theorem applyLoop_simulates (h : s.Echoes E t) (element iterable : String) :
    Simulates (Scopes.Echoes E) Eq (applyLoop element iterable) (applyLoop element iterable)
      s t := by
  unfold applyLoop
  refine look_simulates fun collection hcollection => ⟨collection.shift E.shift, ?_, ?_⟩
  · rw [h.require, hcollection]
    rfl
  refine .ite Iff.rfl (fun _ => ?_) fun _ => ?_
  · refine .bind (edit_simulates h (Edit.newMapLoop_simulates h.store _ _))
      fun block block' _ _ hblock h => ?_
    obtain rfl : block' = block + E.shift := hblock
    exact .bind (enter_simulates h _) fun _ _ _ _ _ h => bind_simulates h _ _
  · refine .bind (edit_simulates h (Edit.newArrayLoop_simulates h.store _ _))
      fun (block, item) made' _ _ hmade h => ?_
    obtain rfl : made' = (block + E.shift, item.shift E.shift) := hmade
    exact .bind (enter_simulates h _) fun _ _ _ _ _ h => bind_simulates h _ _

theorem applyTry_simulates (h : s.Echoes E t) :
    Simulates (Scopes.Echoes E) Eq applyTry applyTry s t := by
  unfold applyTry
  refine .bind (edit_simulates h (Edit.newEvaluation_simulates h.store))
    fun block block' _ _ hblock h => ?_
  obtain rfl : block' = block + E.shift := hblock
  exact .bind (enter_simulates h _) fun _ _ _ _ _ h => .pure rfl h

theorem applySignal_simulates (h : s.Echoes E t) (name : String) (parameter : Option String) :
    Simulates (Scopes.Echoes E) Eq (applySignal name parameter) (applySignal name parameter)
      s t := by
  unfold applySignal
  refine ofExcept_simulates fun signal hsignal => ⟨signal, hsignal, ?_⟩
  refine .bind (edit_simulates h (Edit.newRoutine_simulates h.store _ _ _ _))
    fun block block' _ _ hblock h => ?_
  obtain rfl : block' = block + E.shift := hblock
  refine .bind (enterHandler_simulates h _ _) fun _ _ _ _ _ h => ?_
  cases parameter with
  | none => exact .pure rfl h
  | some parameter => exact bind_simulates h parameter (.placeholder parameter .scalar)

theorem applyPrint_simulates (hnamed : s.Named) (h : s.Echoes E t) (value : Option Expression) :
    Simulates (Scopes.Echoes E) Eq (applyPrint value) (applyPrint value) s t := by
  unfold applyPrint
  refine look_simulates fun message hmessage => ⟨message, hnamed.message_echoes h hmessage, ?_⟩
  exact append_simulates h ⟨rfl, by simp, by simp [Element.child?]⟩

theorem applyPackage_simulates (h : s.Echoes E t) (hshift : E.shift = 0) (path : String) :
    Simulates (Scopes.Echoes E) Eq (applyPackage path) (applyPackage path) s t := by
  unfold applyPackage setPackage
  refine ofExcept_simulates fun module hmodule => ⟨module, hmodule, .get_bind ?_⟩
  have hfile : t.file = s.file + E.shift := by rw [h.file, hshift]; rfl
  rw [hfile]
  exact edit_simulates h
    (Edit.append_simulates h.store ⟨rfl, fun _ _ => hshift, by simp [Element.child?]⟩)

end Session

/-- The line brings in a module. -/
def Construct.isImport : Construct → Bool
  | .importModule _ _ => true
  | _ => false

/-- The line names the package of the file. -/
def Construct.isPackage : Construct → Bool
  | .package _ => true
  | _ => false

/-- A line that can be applied to some scopes can be applied to scopes that echo them, unless it is
an import. A package belongs to the file, which the scopes must have in common then. -/
theorem Session.apply_simulates {s t : Scopes} (hlinked : s.Linked) (hnamed : s.Named)
    (h : s.Echoes E t) {c : Construct} (himport : c.isImport = false)
    (hpackage : c.isPackage = true → E.shift = 0) :
    Simulates (Scopes.Echoes E) Eq (apply c) (apply c) s t := by
  cases c with
  | blank => exact append_simulates h ⟨rfl, by simp, by simp [Element.child?]⟩
  | comment => exact .pure rfl h
  | openScope => exact .bind (push_simulates h) fun _ _ _ _ _ h => .pure rfl h
  | closeScope => exact .bind (pop_simulates hlinked h) fun _ _ _ _ _ h => .pure rfl h
  | importModule _ _ => cases himport
  | package path => exact applyPackage_simulates h (hpackage rfl) path
  | declare type name value => exact applyDeclaration_simulates hnamed h type name value
  | assign name value => exact applyAssignment_simulates hnamed h name value
  | methodChain receiver chain => exact applyCalls_simulates h receiver chain
  | routine name parameters returns => exact applyRoutine_simulates h name parameters returns
  | giveBack values => exact applyReturn_simulates hnamed h values
  | condition branch value => exact applyCondition_simulates hnamed h branch value
  | loop element iterable => exact applyLoop_simulates h element iterable
  | attempt => exact applyTry_simulates h
  | signal name parameter => exact applySignal_simulates h name parameter
  | print value => exact applyPrint_simulates hnamed h value
  | exit code => exact append_simulates h ⟨rfl, by simp, by simp [Element.child?]⟩

theorem Session.applyLine_ok_iff {file text : String} {number : Nat} {s t : Scopes} :
    Succeeds (applyLine file number text) s () t ↔
      ∃ c, Line.classify text = .ok c ∧
        Succeeds (apply c)
          { s with log := s.log ++ [⟨.debug, s!"{file}:{number} {c.label}"⟩] } () t := by
  unfold applyLine debug note
  rw [succeeds_ofExcept_bind]
  apply exists_congr
  intro c
  rw [succeeds_modify_bind]

theorem Scopes.applyLines_cons_iff {file text : String} {number : Nat}
    {rest : List (Nat × String)} {s t : Scopes} :
    applyLines file ((number, text) :: rest) s = (.ok (), t) ↔
      ∃ u, Succeeds (Session.applyLine file number text) s () u ∧
        applyLines file rest u = (.ok (), t) := by
  rw [applyLines]
  unfold Succeeds
  cases (Session.applyLine file number text).run s with
  | mk result u =>
    cases result with
    | error fault =>
      constructor
      · intro h
        cases congrArg Prod.fst h
      · rintro ⟨_, h, _⟩
        cases congrArg Prod.fst h
    | ok _ =>
      constructor
      · intro h
        exact ⟨u, rfl, h⟩
      · rintro ⟨v, hv, h⟩
        obtain rfl := congrArg Prod.snd hv
        exact h

/-- A line that can be applied to some scopes can be applied to scopes that echo them, under any
number. -/
theorem Session.applyLine_simulates {s t : Scopes} (hlinked : s.Linked) (hnamed : s.Named)
    (h : s.Echoes E t) {text : String} {c : Construct} (hc : Line.classify text = .ok c)
    (himport : c.isImport = false) (hpackage : c.isPackage = true → E.shift = 0)
    (file : String) (number row : Nat) :
    Simulates (Scopes.Echoes E) Eq (applyLine file number text) (applyLine file row text) s t := by
  intro _ s' hline
  obtain ⟨c', hc', happly⟩ := applyLine_ok_iff.mp hline
  obtain rfl := Except.ok.inj (hc.symm.trans hc')
  have hechoes (log log' : List LogEntry) :
      Scopes.Echoes E { s with log := log } { t with log := log' } :=
    ⟨h.store, h.file, h.current, h.outer⟩
  obtain ⟨_, t', happly', _, h'⟩ :=
    apply_simulates (hlinked.sameLinks (Scopes.Stays.sameLinks (.note c _)))
      (hnamed.stays (.note c _)) (hechoes _ (t.log ++ [⟨.debug, s!"{file}:{row} {c.label}"⟩]))
      himport hpackage _ s' happly
  exact ⟨_, t', applyLine_ok_iff.mpr ⟨c, hc, happly'⟩, rfl, h'⟩

/-- An import in a file whose head is complete goes to the front of the file. -/
theorem Session.applyImport_of_file {t : Scopes} {path : String} {symbols : Option (List String)}
    {d : Dependency} (hd : Dependency.make path symbols = .ok d) {block : Block} {info : FileInfo}
    (hblock : t.store.get? t.file = some block) (hopen : block.closed = false)
    (hkind : block.kind = .file info) (hdone : info.headerDone = true) :
    ∃ log, Succeeds (applyImport path symbols) t ()
      { t with
        store := t.store.replace t.file
          { block with elements := .statement (.dependency d) :: block.elements }
        log := log } := by
  have happend : Succeeds (Edit.append t.file (.statement (.dependency d))) t.store ()
      (t.store.replace t.file
        { block with elements := .statement (.dependency d) :: block.elements }) := by
    have hedit : Edit.appendDependency t.file block d = modify fun store =>
        store.update t.file fun block =>
          { block with elements := .statement (.dependency d) :: block.elements } := by
      simp only [Edit.appendDependency, hkind, hdone, if_true]
    refine (Edit.append_ok_iff _).mpr ⟨block, hblock, hopen, ?_⟩
    change Succeeds (Edit.appendDependency t.file block d) t.store () _
    rw [hedit, succeeds_modify, Store.update_eq_replace hblock]
  refine ⟨t.log ++ [⟨.debug, s!"import {d.module}"⟩], ?_⟩
  unfold applyImport importModule debug note
  rw [succeeds_ofExcept_bind]
  refine ⟨d, hd, ?_⟩
  rw [succeeds_modify_bind, succeeds_get_bind, succeeds_edit]
  exact ⟨_, happend, rfl⟩

end LineScript
