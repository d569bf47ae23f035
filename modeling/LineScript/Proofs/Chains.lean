import LineScript.Compile
import LineScript.Proofs.Constructs
import LineScript.Proofs.Failure

/-!
# Chains in lines

Every chain of calls that a line carries can be read back without a fault. What is left to go
wrong with a chain after its line has been recognised are the arguments between its parentheses,
one of which may be empty.
-/
namespace LineScript

mutual

/-- The chains of calls in an expression, also in the arguments of routines. -/
def Expression.chains : Expression → List String
  | .routine _ arguments => argumentChains arguments
  | .method _ chain => [chain]
  | _ => []

def argumentChains : List Expression → List String
  | [] => []
  | argument :: rest => argument.chains ++ argumentChains rest

end

def Construct.chains : Construct → List String
  | .declare _ _ value => value.chains
  | .assign _ value => value.chains
  | .methodChain _ chain => [chain]
  | .giveBack values => argumentChains values
  | .condition _ value => argumentChains value.toList
  | .print value => argumentChains value.toList
  | _ => []

section WellFormed

variable {ok : Char → Prop}

mutual

theorem isChain_of_mem_chains {e : Expression} (h : e.WellFormed ok) :
    ∀ chain ∈ e.chains, IsChain chain := by
  cases e with
  | literal content => simp [Expression.chains]
  | «variable» name => simp [Expression.chains]
  | arguments => simp [Expression.chains]
  | method receiver chain => simpa [Expression.chains] using h.2.1
  | routine name arguments =>
    rw [Expression.chains]
    exact isChain_of_mem_argumentChains h.2

theorem isChain_of_mem_argumentChains {expressions : List Expression}
    (h : ArgumentsWellFormed ok expressions) :
    ∀ chain ∈ argumentChains expressions, IsChain chain := by
  cases expressions with
  | nil => simp [argumentChains]
  | cons e rest =>
    rw [argumentChains, List.forall_mem_append]
    exact ⟨isChain_of_mem_chains h.1, isChain_of_mem_argumentChains h.2⟩

end

theorem Construct.WellFormed.isChain {c : Construct} (h : c.WellFormed ok) :
    ∀ chain ∈ c.chains, IsChain chain := by
  cases c with
  | declare type name value => exact isChain_of_mem_chains h.2
  | assign name value => exact isChain_of_mem_chains h.2
  | methodChain receiver chain => simpa [Construct.chains] using h.2.1
  | giveBack values => exact isChain_of_mem_argumentChains (argumentsWellFormed_iff.mpr h)
  | condition branch value =>
    exact isChain_of_mem_argumentChains (argumentsWellFormed_iff.mpr fun e he =>
      h e (Option.mem_toList.mp he))
  | print value =>
    exact isChain_of_mem_argumentChains (argumentsWellFormed_iff.mpr fun e he =>
      h e (Option.mem_toList.mp he))
  | blank | comment | openScope | closeScope | importModule _ _ | package _ | routine _ _ _
  | loop _ _ | attempt | signal _ _ | exit _ => simp [Construct.chains]

end WellFormed

/-- The chains of a line that is recognised can be read. -/
theorem Line.chained_of_classify {line : String} {c : Construct}
    (h : Line.classify line = .ok c) : ∀ chain ∈ c.chains, IsChain chain :=
  Construct.WellFormed.isChain (Line.wellFormed_of_classify h fun _ _ => trivial)

theorem splitArguments_error {text : String} {fault : Fault}
    (h : splitArguments text = .error fault) : fault = .emptyArgument (Text.trim text) := by
  simp only [splitArguments] at h
  split_ifs at h
  exact (Except.error.inj h).symm

/-- A call has an empty argument, of which the fault tells. -/
def Invocation.FailsWith (fault : Fault) (i : Invocation) : Prop :=
  ∃ arguments, i.arguments = some arguments ∧ fault = .emptyArgument (Text.trim arguments)

theorem Invocation.failsWith_of_argumentList {i : Invocation} {fault : Fault}
    (h : i.argumentList = .error fault) : i.FailsWith fault := by
  unfold Invocation.argumentList at h
  split at h
  · rename_i arguments harguments
    exact ⟨arguments, harguments, splitArguments_error h⟩
  · cases h

namespace Scopes

variable {s : Scopes}

theorem cls_of_requireVariable {name : String} {fault : Fault}
    (h : s.requireVariable name = .error fault) : fault.cls ≠ .form := by
  rcases (except_bind_error _ _ _).mp h with hmissing | ⟨value, _, hvalue⟩
  · unfold require at hmissing
    cases hresolve : s.resolve name with
    | none =>
      rw [hresolve] at hmissing
      obtain rfl := Except.error.inj hmissing
      simp [Fault.cls]
    | some value =>
      rw [hresolve] at hmissing
      cases hmissing
  · unfold Value.toVariable at hvalue
    split at hvalue
    · cases hvalue
    · obtain rfl := Except.error.inj hvalue
      simp [Fault.cls]

theorem extendCalls_error {receiver : Variable} {previous : Option MethodCall}
    {calls : List Invocation} {fault : Fault}
    (h : s.extendCalls receiver previous (calls.map .ok) = .error fault) :
    ∃ i ∈ calls, i.FailsWith fault := by
  induction calls generalizing previous with
  | nil => cases h
  | cons i rest ih =>
    rw [List.map_cons, extendCalls] at h
    rcases (except_bind_error _ _ _).mp h with hread | ⟨_, hread, h⟩
    · cases hread
    obtain rfl := Except.ok.inj hread
    rcases (except_bind_error _ _ _).mp h with harguments | ⟨arguments, _, hrest⟩
    · exact ⟨i, List.mem_cons_self, Invocation.failsWith_of_argumentList harguments⟩
    · obtain ⟨j, hj, hfails⟩ := ih hrest
      exact ⟨j, List.mem_cons_of_mem i hj, hfails⟩

theorem methodCall_error {receiver chain : String} {calls : List Invocation} {fault : Fault}
    (hcalls : (Chain.ofText chain).results.1 = calls.map .ok)
    (h : s.methodCall receiver chain = .error fault) (hform : fault.cls = .form) :
    ∃ i ∈ calls, i.FailsWith fault := by
  rcases (except_bind_error _ _ _).mp h with hreceiver | ⟨target, _, h⟩
  · exact absurd hform (cls_of_requireVariable hreceiver)
  rcases (except_bind_error _ _ _).mp h with hextend | ⟨result, _, h⟩
  · rw [hcalls] at hextend
    exact extendCalls_error hextend
  · cases result with
    | some call => cases h
    | none =>
      obtain rfl := Except.error.inj h
      cases hform

end Scopes

namespace Session

theorem cls_of_append_method {call : MethodCall} {s : Scopes} {fault : Fault}
    (h : Fails (append (.method call)) s fault) : fault.cls ≠ .form := by
  unfold append at h
  rw [fails_get_bind, fails_edit, Edit.append, fails_bind] at h
  rcases h with hblock | ⟨block, t, _, h⟩
  · rw [((Edit.fails_requireBlock _ _ _).mp hblock).2]
    simp [Fault.cls]
  · split_ifs at h with hclosed
    · rw [fails_bind] at h
      rcases h with h | ⟨_, _, h, _⟩
      · rw [← (fails_throw _ _ _).mp h]
        simp [Fault.cls]
      · exact absurd h (succeeds_throw _ _ _ _)
    · exact absurd h (fails_modify _ _ _)

theorem appendCalls_fails {receiver : Variable} {calls : List Invocation} {s : Scopes}
    {fault : Fault} (h : Fails (appendCalls receiver (calls.map .ok)) s fault)
    (hform : fault.cls = .form) : ∃ i ∈ calls, i.FailsWith fault := by
  induction calls generalizing s with
  | nil => exact absurd h (fails_pure _ _ _)
  | cons i rest ih =>
    rw [List.map_cons, appendCalls, fails_bind] at h
    rcases h with h | ⟨_, _, hread, h⟩
    · cases (fails_ofExcept _ _ _).mp h
    obtain ⟨hok, rfl⟩ := (succeeds_ofExcept _ _ _ _).mp hread
    obtain rfl := Except.ok.inj hok
    rw [fails_bind] at h
    rcases h with h | ⟨_, _, _, h⟩
    · exact ⟨i, List.mem_cons_self,
        Invocation.failsWith_of_argumentList ((fails_ofExcept _ _ _).mp h)⟩
    rw [fails_get_bind, fails_bind] at h
    rcases h with h | ⟨_, _, _, h⟩
    · exact absurd hform (cls_of_append_method h)
    obtain ⟨j, hj, hfails⟩ := ih h
    exact ⟨j, List.mem_cons_of_mem i hj, hfails⟩

theorem applyCalls_fails {receiver chain : String} {calls : List Invocation} {s : Scopes}
    {fault : Fault} (hcalls : (Chain.ofText chain).results.1 = calls.map .ok)
    (h : Fails (applyCalls receiver chain) s fault) (hform : fault.cls = .form) :
    ∃ i ∈ calls, i.FailsWith fault := by
  unfold applyCalls look at h
  rw [fails_bind] at h
  rcases h with h | ⟨_, _, _, h⟩
  · rw [fails_get_bind, fails_ofExcept] at h
    exact absurd hform (Scopes.cls_of_requireVariable h)
  · rw [hcalls] at h
    exact appendCalls_fails h hform

end Session

/-- Every chain in a line that is recognised is read into calls, at least one, whose texts one
after the other are the chain. As for the form of the source, only an empty argument of one of
these calls can be at fault when the chain is put to use, be it in a value or as statements. -/
theorem classify_chains_readable {line : String} {c : Construct}
    (h : Line.classify line = .ok c) :
    ∀ chain ∈ c.chains, ∃ calls, (Chain.ofText chain).invocations = .ok calls ∧ calls ≠ [] ∧
      String.join (calls.map Invocation.text) = chain ∧
      (∀ (s : Scopes) receiver fault, s.methodCall receiver chain = .error fault →
        fault.cls = .form → ∃ i ∈ calls, i.FailsWith fault) ∧
      ∀ s receiver fault, Fails (Session.applyCalls receiver chain) s fault →
        fault.cls = .form → ∃ i ∈ calls, i.FailsWith fault := by
  intro chain hchain
  obtain ⟨calls, hne, hreadable, rfl⟩ := Line.chained_of_classify h chain hchain
  have hresults := Chain.results_join_text hreadable
  refine ⟨calls, ?_, hne, rfl, fun s receiver fault => Scopes.methodCall_error hresults,
    fun s receiver fault => Session.applyCalls_fails hresults⟩
  rw [Chain.invocations, hresults, except_mapM_ok, List.forall₂_map_left_iff]
  exact List.forall₂_same.mpr fun _ _ => rfl

theorem classify_chains_readable_nested :
    ∃ c calls, Line.classify "x = f(y, g(z.a(\"\\\")\", [1]).b(,)))" = .ok c ∧
      (Chain.ofText ".a(\"\\\")\", [1]).b(,)").invocations = .ok calls ∧ calls ≠ [] ∧
      String.join (calls.map Invocation.text) = ".a(\"\\\")\", [1]).b(,)" ∧
      ∃ (s : Scopes) (fault : Fault),
        s.methodCall "z" ".a(\"\\\")\", [1]).b(,)" = .error fault ∧
        fault.cls = .form ∧ ∃ i ∈ calls, i.FailsWith fault := by
  have hchains : (Line.classify "x = f(y, g(z.a(\"\\\")\", [1]).b(,)))").toOption.map
      Construct.chains = some [".a(\"\\\")\", [1]).b(,)"] := by
    decide +kernel
  let z : Value := ⟨.array, some "z", none, .literal .undefined, false⟩
  let s : Scopes := ⟨.empty, 0, ⟨[0], 0, [("z", z)], [], 0, .block⟩, [], []⟩
  have hfault : s.methodCall "z" ".a(\"\\\")\", [1]).b(,)" = .error (.emptyArgument ",") := by
    rfl
  cases h : Line.classify "x = f(y, g(z.a(\"\\\")\", [1]).b(,)))" with
  | error fault =>
    rw [h] at hchains
    cases hchains
  | ok c =>
    rw [h] at hchains
    have hmem : ".a(\"\\\")\", [1]).b(,)" ∈ c.chains := by
      rw [Option.some.inj hchains]
      exact List.mem_singleton_self _
    obtain ⟨calls, hcalls, hne, htext, hform, _⟩ := classify_chains_readable h _ hmem
    exact ⟨c, calls, rfl, hcalls, hne, htext, s, _, hfault, rfl, hform s "z" _ hfault rfl⟩

end LineScript
