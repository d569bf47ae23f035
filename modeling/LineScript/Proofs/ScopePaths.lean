import LineScript.Proofs.InnerScopes
import Mathlib.Data.List.Induction
import Mathlib.Data.List.Nodup

/-!
# Paths of scopes

A scope gets the path of the scope around it and the number of the scopes that were opened there
before. The count of a scope is forgotten when the scope is closed; but no scope is ever opened
anew under its path, since the count of the scope around it has moved on. So no path is given twice
in any run, whatever is opened, closed or refused in it and however the store is changed meanwhile.
-/
namespace LineScript

/-- What opens the scope, for the operations that open one. -/
def Operation.opening? : Operation → Option (Session ScopePath)
  | push => some Session.push
  | pushKind kind => some (Session.pushKind kind)
  | enter block => some (Session.enter block)
  | enterHandler signal routine => some (Session.enterHandler signal routine)
  | _ => none

/-- A step of a run: an operation on the open scopes, or a change of the store beneath them. -/
inductive Event where
  | operation (op : Operation)
  | edit (change : Store → Store)

/-- A path and the number of scopes that have been opened there. -/
def Scope.count (scope : Scope) : ScopePath × Nat :=
  (scope.path, scope.children)

namespace Scopes

def counts (s : Scopes) : List (ScopePath × Nat) :=
  s.all.map Scope.count

/-- The scopes after an event, which may have ended in a fault. -/
def undergo (s : Scopes) : Event → Scopes
  | .operation op => s.perform op
  | .edit change => { s with store := change s.store }

def undergoAll (s : Scopes) (events : List Event) : Scopes :=
  events.foldl undergo s

/-- The path that the event gives, if it opens a scope. -/
def given (s : Scopes) : Event → Option ScopePath
  | .operation op => op.opening?.bind fun m => (m.run s).1.toOption
  | .edit _ => none

/-- The paths that the events of a run give, in order. -/
def givenAll (s : Scopes) : List Event → List ScopePath
  | [] => []
  | event :: rest => (s.given event).toList ++ (s.undergo event).givenAll rest

end Scopes

/-- What an event does to the paths and counts of the open scopes, and the path that it gives. -/
inductive Counting :
    List (ScopePath × Nat) → Option ScopePath → List (ScopePath × Nat) → Prop where
  | still (counts : List (ScopePath × Nat)) : Counting counts none counts
  | opened (path : ScopePath) (n : Nat) (outer : List (ScopePath × Nat)) :
      Counting ((path, n) :: outer) (some (path ++ [n]))
        ((path ++ [n], 0) :: (path, n + 1) :: outer)
  | closed (top next : ScopePath × Nat) (outer : List (ScopePath × Nat)) :
      Counting (top :: next :: outer) none (next :: outer)

theorem Counting.length_le {counts counts' : List (ScopePath × Nat)} {given : Option ScopePath}
    (h : Counting counts given counts') :
    counts'.length ≤ counts.length + given.toList.length := by
  cases h <;> simp

namespace Session

/-- The path that the operation gives is that of the scope that is current afterwards. -/
def Arrives (m : Session ScopePath) : Prop :=
  ∀ ⦃s path t⦄, Succeeds m s path t → path = t.path

theorem Arrives.of_bind {α : Type} {m : Session α} {f : α → Session ScopePath}
    (h : ∀ a, Arrives (f a)) : Arrives (m >>= f) := by
  intro s path t hm
  obtain ⟨a, u, _, hf⟩ := (succeeds_bind _ _ _ _ _).mp hm
  exact h a hf

theorem Arrives.of_guard {α : Type} {c : Prop} [Decidable c] {fault : Fault}
    {f : α → Session ScopePath} {m : Session ScopePath} (h : m.Arrives) :
    Arrives (if c then throw fault >>= f else m) := by
  split_ifs
  · exact fun _ _ _ hthrow => absurd hthrow (succeeds_throw_bind _ _ _ _ _)
  · exact h

theorem openScope_arrives (block : BlockId) (merge : Merge) : Arrives (openScope block merge) := by
  intro s path t h
  unfold openScope at h
  rw [succeeds_get_bind, succeeds_bind] at h
  obtain ⟨⟨⟩, u, _, h⟩ := h
  rw [succeeds_modify_bind, succeeds_pure] at h
  obtain ⟨rfl, rfl⟩ := h
  rfl

theorem opening_arrives {op : Operation} {m : Session ScopePath} (h : op.opening? = some m) :
    m.Arrives := by
  cases op with
  | push =>
    obtain rfl := Option.some.inj h
    exact .of_bind fun block => openScope_arrives block .block
  | pushKind kind =>
    obtain rfl := Option.some.inj h
    exact .of_guard (.of_bind fun block => openScope_arrives block .block)
  | enter block =>
    obtain rfl := Option.some.inj h
    exact .of_bind fun _ => .of_bind fun _ => .of_guard (openScope_arrives block .block)
  | enterHandler signal routine =>
    obtain rfl := Option.some.inj h
    exact .of_bind fun _ => .of_bind fun _ =>
      .of_guard (openScope_arrives routine (.handler signal))
  | pop | declare _ _ | bind _ _ | declareRoutine _ _ | append _ | importModule _ | setPackage _ =>
    cases h

theorem run_silent {α : Type} (m : Session α) (s : Scopes) :
    (silent m).run s = ((m.run s).1.map fun _ => (), (m.run s).2) := by
  unfold silent
  rw [run_bind]
  cases m.run s with
  | mk result t => cases result <;> rfl

end Session

theorem Operation.run_of_opening {op : Operation} {m : Session ScopePath}
    (h : op.opening? = some m) : op.opens = true ∧ op.run = Session.silent m := by
  cases op <;> cases h <;> exact ⟨rfl, rfl⟩

theorem Operation.opens_of_opening {op : Operation} (h : op.opening? = none) :
    op.opens = false := by
  cases op <;> first | rfl | cases h

namespace Scopes

variable {s t : Scopes}

/-- A scope that is opened becomes the current one, and its path is given. -/
theorem given_operation (s : Scopes) (op : Operation) :
    s.given (.operation op) =
      if op.opens && s.allows op then some (s.perform op).path else none := by
  cases hopening : op.opening? with
  | none =>
    rw [given, hopening, op.opens_of_opening hopening]
    rfl
  | some m =>
    obtain ⟨hopens, hrun⟩ := op.run_of_opening hopening
    rw [given, hopening, Option.bind_some, hopens, allows, perform, hrun, Session.run_silent]
    cases hm : m.run s with
    | mk result t =>
      cases result with
      | ok path => exact congrArg some (Session.opening_arrives hopening hm)
      | error fault => rfl

theorem counting_of_outcome {op : Operation} {scopes : List Scope} (h : s.Outcome op scopes) :
    Counting s.counts (if op.opens then (scopes.map Scope.path).head? else none)
      (scopes.map Scope.count) := by
  cases h with
  | still hopens =>
    rw [hopens]
    exact .still _
  | opened block merge hopens =>
    rw [hopens]
    exact .opened _ _ _
  | closed hopens houter =>
    rw [hopens, counts, all, houter]
    exact .closed _ _ _
  | bound values routines hopens _ =>
    rw [hopens]
    exact .still _

theorem counting_perform (s : Scopes) (op : Operation) :
    Counting s.counts (s.given (.operation op)) (s.perform op).counts := by
  rw [given_operation]
  refine run_cases (P := fun t => Counting s.counts
    (if op.opens && s.allows op then some t.path else none) t.counts) op.run s
    (fun _ t h => ?_) fun t h => ?_
  · rw [allows_of_succeeds h, Bool.and_true]
    exact counting_of_outcome (outcome_of_succeeds h)
  · have hcounts : t.counts = s.counts := congrArg (List.map Scope.count) (all_of_breaks h)
    rw [allows_of_breaks h, Bool.and_false, hcounts]
    exact .still _

/-- One step of a run. -/
theorem counting_undergo (s : Scopes) (event : Event) :
    Counting s.counts (s.given event) (s.undergo event).counts := by
  cases event with
  | operation op => exact counting_perform s op
  | edit change => exact .still s.counts

end Scopes

/-- Paths from the inside. Each is the one around it with one more number; the outermost is that of
the file. -/
inductive Descends : List ScopePath → Prop where
  | root : Descends [[0]]
  | inside {path : ScopePath} {outer : List ScopePath} (n : Nat) (h : Descends (path :: outer)) :
      Descends ((path ++ [n]) :: path :: outer)

namespace Descends

variable {path : ScopePath} {outer : List ScopePath}

theorem length_eq (h : Descends (path :: outer)) : path.length = outer.length + 1 := by
  generalize hpaths : path :: outer = paths at h
  induction h generalizing path outer with
  | root =>
    obtain ⟨rfl, rfl⟩ := List.cons.inj hpaths
    rfl
  | inside n _ ih =>
    obtain ⟨rfl, rfl⟩ := List.cons.inj hpaths
    rw [List.length_append, ih rfl]
    rfl

theorem tail {next : ScopePath} (h : Descends (path :: next :: outer)) :
    Descends (next :: outer) := by
  cases h with
  | inside _ h => exact h

theorem length_lt (h : Descends (path :: outer)) : ∀ p ∈ outer, p.length < path.length := by
  induction outer generalizing path with
  | nil => simp
  | cons next outer ih =>
    have hnext : next.length < path.length := by
      rw [h.length_eq, h.tail.length_eq]
      exact Nat.lt_succ_self _
    rw [List.forall_mem_cons]
    exact ⟨hnext, fun p hp => Nat.lt_trans (ih h.tail p hp) hnext⟩

end Descends

/-- The invariant of a run, between all paths given so far and the counts of the open scopes. What
was ever opened in an open scope, at any distance, has a number below the count. -/
structure Tallied (paths : List ScopePath) (counts : List (ScopePath × Nat)) : Prop where
  nodup : paths.Nodup
  descends : Descends (counts.map Prod.fst)
  live : ∀ c ∈ counts, c.1 ∈ paths
  below : ∀ c ∈ counts, ∀ path ∈ paths, ∀ n, c.1 ++ [n] <+: path → n < c.2

namespace Tallied

variable {paths : List ScopePath} {counts counts' : List (ScopePath × Nat)}

theorem opened {path : ScopePath} {n : Nat} {outer : List (ScopePath × Nat)}
    (h : Tallied paths ((path, n) :: outer)) :
    Tallied (paths ++ [path ++ [n]]) ((path ++ [n], 0) :: (path, n + 1) :: outer) := by
  have hnew : ∀ p ∈ paths, ¬ path ++ [n] <+: p := fun p hp hprefix =>
    Nat.lt_irrefl n (h.below (path, n) List.mem_cons_self p hp n hprefix)
  have hpath : path ∈ paths := h.live (path, n) List.mem_cons_self
  refine ⟨?_, .inside n h.descends, ?_, ?_⟩
  · refine h.nodup.append (List.nodup_singleton _) ?_
    rw [List.disjoint_singleton]
    exact fun hmem => hnew _ hmem List.prefix_rfl
  · rw [List.forall_mem_cons, List.forall_mem_cons]
    exact ⟨List.mem_append_right _ List.mem_cons_self, List.mem_append_left _ hpath,
      fun c hc => List.mem_append_left _ (h.live c (List.mem_cons_of_mem _ hc))⟩
  · intro c hc p hp m hprefix
    rw [List.mem_cons, List.mem_cons] at hc
    rcases List.mem_append.mp hp with hold | hlast
    · -- Of a path given before, only the counts have changed.
      rcases hc with rfl | rfl | hc
      · exact absurd ((List.prefix_append _ _).trans hprefix) (hnew p hold)
      · exact Nat.lt_succ_of_lt (h.below (path, n) List.mem_cons_self p hold m hprefix)
      · exact h.below c (List.mem_cons_of_mem _ hc) p hold m hprefix
    · obtain rfl := List.mem_singleton.mp hlast
      rcases hc with rfl | rfl | hc
      · exact absurd hprefix.length_le (by simp)
      · have hsame := (List.prefix_append_right_inj path).mp hprefix
        rw [(List.cons_prefix_cons.mp hsame).1]
        exact Nat.lt_succ_self n
      · -- A scope further out has counted the scope that the new one is in.
        have hshort : c.1.length < path.length :=
          h.descends.length_lt c.1 (List.mem_map_of_mem hc)
        rcases List.prefix_concat_iff.mp hprefix with heq | hprefix
        · have hlength := congrArg List.length heq
          simp only [List.length_append, List.length_singleton] at hlength
          omega
        · exact h.below c (List.mem_cons_of_mem _ hc) path hpath m hprefix

theorem closed {top next : ScopePath × Nat} {outer : List (ScopePath × Nat)}
    (h : Tallied paths (top :: next :: outer)) : Tallied paths (next :: outer) where
  nodup := h.nodup
  descends := h.descends.tail
  live c hc := h.live c (List.mem_cons_of_mem _ hc)
  below c hc := h.below c (List.mem_cons_of_mem _ hc)

theorem step {given : Option ScopePath} (h : Tallied paths counts)
    (hstep : Counting counts given counts') : Tallied (paths ++ given.toList) counts' := by
  cases hstep with
  | still => rwa [Option.toList_none, List.append_nil]
  | opened path n outer => exact h.opened
  | closed top next outer =>
    rw [Option.toList_none, List.append_nil]
    exact h.closed

theorem run {s : Scopes} (h : Tallied paths s.counts) (events : List Event) :
    Tallied (paths ++ s.givenAll events) (s.undergoAll events).counts := by
  induction events generalizing paths s with
  | nil => rwa [Scopes.givenAll, List.append_nil]
  | cons event rest ih =>
    rw [Scopes.givenAll, ← List.append_assoc]
    exact ih (h.step (s.counting_undergo event))

end Tallied

namespace Scopes

variable {s t : Scopes}

theorem length_counts (s : Scopes) : s.counts.length = s.depth + 1 := by
  rw [counts, List.length_map]
  rfl

theorem undergoAll_append (s : Scopes) (first second : List Event) :
    s.undergoAll (first ++ second) = (s.undergoAll first).undergoAll second :=
  List.foldl_append

theorem depth_undergo_le (s : Scopes) (event : Event) :
    (s.undergo event).depth ≤ s.depth + (s.given event).toList.length := by
  have hlength := (s.counting_undergo event).length_le
  rw [length_counts, length_counts] at hlength
  omega

/-- Every depth that a run has reached and not left since was reached by opening a scope. -/
theorem exists_opening (s : Scopes) (events : List Event) {depth : Nat} (hs : s.depth ≤ depth)
    (h : depth < (s.undergoAll events).depth) :
    ∃ before opening inside, events = before ++ opening :: inside ∧
      (s.undergoAll before).depth = depth ∧
      ((s.undergoAll before).given opening).isSome = true ∧
      ∀ front, front <+: inside → depth < (s.undergoAll (before ++ opening :: front)).depth := by
  induction events using List.reverseRecOn with
  | nil => exact absurd h (Nat.not_lt.mpr hs)
  | append_singleton events event ih =>
    by_cases hdeep : depth < (s.undergoAll events).depth
    · obtain ⟨before, opening, inside, rfl, hdepth, hopens, hinside⟩ := ih hdeep
      refine ⟨before, opening, inside ++ [event], by simp, hdepth, hopens, fun front hfront => ?_⟩
      rcases List.prefix_concat_iff.mp hfront with rfl | hfront
      · simpa using h
      · exact hinside front hfront
    · -- The last event goes deeper, so it opens the scope.
      have hle := (s.undergoAll events).depth_undergo_le event
      have hlast : s.undergoAll (events ++ [event]) = (s.undergoAll events).undergo event :=
        s.undergoAll_append events [event]
      rw [hlast] at h
      cases hgiven : (s.undergoAll events).given event with
      | none =>
        rw [hgiven, Option.toList_none, List.length_nil] at hle
        omega
      | some path =>
        rw [hgiven, Option.toList_some, List.length_singleton] at hle
        refine ⟨events, event, [], rfl, by omega, by rw [hgiven]; rfl, fun front hfront => ?_⟩
        rw [List.prefix_nil.mp hfront, hlast]
        exact h

/-- The scopes up to a depth stay as they are as long as a run stays deeper. -/
theorem below_undergo {event : Event} {depth : Nat} (hs : depth ≤ s.depth)
    (ht : depth ≤ (s.undergo event).depth)
    (h : depth < s.depth ∨ (s.given event).isSome = true) :
    (s.undergo event).below depth = s.below depth := by
  cases event with
  | edit change => rfl
  | operation op =>
    refine (effect_perform s op).below_eq hs ht fun heq hbinds => ?_
    rcases h with hlt | hgiven
    · exact absurd heq (Nat.ne_of_gt hlt)
    · cases op with
      | declare _ _ | bind _ _ | declareRoutine _ _ => cases hgiven
      | push | pushKind _ | enter _ | enterHandler _ _ | pop | append _ | importModule _
      | setPackage _ => cases hbinds

theorem below_undergoAll {depth : Nat} (s : Scopes) (events : List Event)
    (h : ∀ front, front <+: events → depth < (s.undergoAll front).depth) :
    (s.undergoAll events).below depth = s.below depth := by
  induction events generalizing s with
  | nil => rfl
  | cons event rest ih =>
    have hstart : depth < s.depth := h [] (List.nil_prefix)
    have hnext : depth < (s.undergo event).depth := h [event] (by simp)
    have hrest := ih (s.undergo event) fun front hfront =>
      h (event :: front) (List.cons_prefix_cons.mpr ⟨rfl, hfront⟩)
    exact hrest.trans (below_undergo (Nat.le_of_lt hstart) (Nat.le_of_lt hnext) (Or.inl hstart))

/-- The event opens the scope that is the current one after the events behind it: what is opened
inside is closed again, and the scope itself is not. -/
structure Matches (s : Scopes) (before : List Event) (opening : Event) (inside : List Event) :
    Prop where
  opens : ((s.undergoAll before).given opening).isSome = true
  deeper : ∀ front, front <+: inside →
    (s.undergoAll before).depth < (s.undergoAll (before ++ opening :: front)).depth
  ends : (s.undergoAll (before ++ opening :: inside)).depth = (s.undergoAll before).depth + 1

/-- Around the current scope are the scopes that were open before it, all but their counts. -/
theorem Matches.outer_eq {before inside : List Event} {opening : Event}
    (h : s.Matches before opening inside) :
    (s.undergoAll (before ++ opening :: inside)).outer.map Scope.lasting =
      (s.undergoAll before).all.map Scope.lasting := by
  have hbelow : (s.undergoAll (before ++ opening :: inside)).below (s.undergoAll before).depth =
      (s.undergoAll before).below (s.undergoAll before).depth := by
    have hopened := h.deeper [] List.nil_prefix
    rw [undergoAll_append] at hopened ⊢
    refine (below_undergoAll _ inside fun front hfront => ?_).trans
      (below_undergo (Nat.le_refl _) (Nat.le_of_lt hopened) (Or.inr h.opens))
    have hdeeper := h.deeper front hfront
    rwa [undergoAll_append] at hdeeper
  rw [below_depth, below, h.ends, Nat.add_sub_cancel_left] at hbelow
  exact hbelow

/-- A scope is closed in favour of the one that it was opened in. -/
theorem Matches.path_of_pop {before inside : List Event} {opening : Event} {path : ScopePath}
    (h : s.Matches before opening inside)
    (hpop : Succeeds Session.pop (s.undergoAll (before ++ opening :: inside)) path t) :
    path = (s.undergoAll before).path := by
  obtain ⟨hcloses, rfl⟩ := Session.pop_closes hpop
  have houter := h.outer_eq
  cases hcloses with
  | close log hparent _ =>
    rw [hparent] at houter
    have hpath := congrArg Scope.path (List.cons.inj houter).1
    exact hpath

theorem Matches.exists_of_pop {events : List Event} {path : ScopePath} (hs : s.outer = [])
    (hpop : Succeeds Session.pop (s.undergoAll events) path t) :
    ∃ before opening inside, events = before ++ opening :: inside ∧
      s.Matches before opening inside := by
  have hdepth : (s.undergoAll events).depth ≠ 0 := by
    cases Session.pop_ok hpop with
    | close log hparent _ =>
      rw [depth, hparent]
      exact Nat.succ_ne_zero _
  obtain ⟨before, opening, inside, rfl, hbefore, hopens, hdeeper⟩ :=
    @exists_opening s events ((s.undergoAll events).depth - 1)
      (by rw [depth, hs]; exact Nat.zero_le _) (by omega)
  exact ⟨before, opening, inside, rfl, hopens, by rwa [hbefore], by omega⟩

theorem openFile_start {name : String} {isModule : Bool} {preamble : List String}
    (h : openFile name isModule preamble = .ok s) : s.counts = [([0], 0)] ∧ s.outer = [] := by
  unfold openFile at h
  split at h
  · obtain rfl := Except.ok.inj h
    exact ⟨rfl, rfl⟩
  · cases h

end Scopes

theorem Tallied.start : Tallied [[0]] [([0], 0)] where
  nodup := List.nodup_singleton _
  descends := .root
  live := by simp
  below := by
    intro c hc path hpath n hprefix
    obtain rfl := List.mem_singleton.mp hc
    obtain rfl := List.mem_singleton.mp hpath
    exact absurd hprefix.length_le (by simp)

/-- Paths of scopes tell all scopes apart. Take any run from the scope of a new file: operations in
any order, which may be refused, and any changes of the store between them. The paths that the run
gives the scopes it opens and the path of the file are distinct. At its end the open scopes have
some of these paths, each the path of the scope around it and one more number, and the innermost
path is one longer than the depth. If the current scope can be closed then, the path given is that
of the scope that was current when it was opened. -/
theorem scope_paths_unique {name : String} {isModule : Bool} {preamble : List String}
    {start : Scopes} (hstart : Scopes.openFile name isModule preamble = .ok start)
    (events : List Event) :
    ([0] :: start.givenAll events).Nodup ∧
      (∀ scope ∈ (start.undergoAll events).all, scope.path ∈ [0] :: start.givenAll events) ∧
      Descends ((start.undergoAll events).all.map Scope.path) ∧
      (start.undergoAll events).path.length = (start.undergoAll events).depth + 1 ∧
      ∀ path t, Succeeds Session.pop (start.undergoAll events) path t →
        (∃ before opening inside, events = before ++ opening :: inside ∧
          start.Matches before opening inside) ∧
        ∀ before opening inside, events = before ++ opening :: inside →
          start.Matches before opening inside → path = (start.undergoAll before).path := by
  obtain ⟨hcounts, houter⟩ := Scopes.openFile_start hstart
  have htallied := (hcounts ▸ Tallied.start : Tallied [[0]] start.counts).run events
  have hdescends : Descends ((start.undergoAll events).all.map Scope.path) := by
    have hpaths := htallied.descends
    rwa [Scopes.counts, List.map_map] at hpaths
  refine ⟨htallied.nodup,
    fun scope hscope => htallied.live scope.count (List.mem_map_of_mem hscope), hdescends,
    hdescends.length_eq.trans (by rw [List.length_map]; rfl), fun path t hpop =>
      ⟨Scopes.Matches.exists_of_pop houter hpop, ?_⟩⟩
  rintro before opening inside rfl hmatches
  exact hmatches.path_of_pop hpop

/-- The scope of a new file. -/
def fileStart : Scopes :=
  ⟨Store.empty.after (.newFile "t" false []), 0, ⟨[0], 0, [], [], 0, .block⟩, [], []⟩

/-- Two scopes are closed and others are opened in their places; the file itself cannot be entered,
and a routine is made without an operation. -/
def reopening : List Event :=
  [.operation .push, .operation .push, .operation .pop, .operation .pop, .operation (.enter 0),
    .edit fun store => store.after (.newRoutine none [] .shift none),
    .operation (.enterHandler .int 3), .operation .push]

theorem scope_paths_unique_reopening :
    fileStart.givenAll reopening = [[0, 0], [0, 0, 0], [0, 1], [0, 1, 0]] ∧
      ([0] :: fileStart.givenAll reopening).Nodup ∧
      (fileStart.undergoAll reopening).path.length = 3 ∧
      ∃ before opening inside, reopening = before ++ opening :: inside ∧
        (fileStart.undergoAll before).path = [0, 1] := by
  have hstart : Scopes.openFile "t" false [] = .ok fileStart := rfl
  have hpop : (Session.pop.run (fileStart.undergoAll reopening)).1 = .ok [0, 1] :=
    except_toOption_eq_some (by decide +kernel)
  obtain ⟨hnodup, _, _, hlength, hpops⟩ := scope_paths_unique hstart reopening
  obtain ⟨⟨before, opening, inside, heq, hmatches⟩, hpath⟩ := hpops [0, 1] _ (Prod.ext hpop rfl)
  refine ⟨by decide +kernel, hnodup, hlength.trans (by decide +kernel),
    before, opening, inside, heq, (hpath before opening inside heq hmatches).symm⟩

end LineScript
