import LineScript.Proofs.Written

/-!
# Reading a chain again

A reader of a chain of calls can be asked for the next result and be set back to the start, in any
order. `Chain.Takes` says what asking once can do: a call takes two characters at least, and a
fault is given where text is left and ends the reading. What a reader gives therefore depends on
nothing but the number of results that were taken since it was last at the start.
-/
namespace LineScript

/-- Before what is left after a split stands the parenthesis that closes. -/
theorem Text.append_of_splitClosing {quoting : Text.Quoting} {depth : Nat}
    {s inner after : List Char} (h : Text.splitClosing quoting depth s = some (inner, after)) :
    s = inner ++ ')' :: after := by
  fun_induction Text.splitClosing quoting depth s generalizing inner with
  | case1 quoting depth => cases h
  | case2 depth c rest hopens ih =>
    obtain ⟨inner', hrest, rfl⟩ := eq_cons_of_map h
    rw [List.cons_append, ← ih hrest]
  | case3 rest hopens hcloses =>
    obtain ⟨rfl, rfl⟩ := Prod.mk.inj (Option.some.inj h)
    rfl
  | case4 c rest hopens hcloses hother => cases h
  | case5 c rest hopens hcloses depth ih =>
    obtain ⟨inner', hrest, rfl⟩ := eq_cons_of_map h
    rw [List.cons_append, ← ih hrest]
  | case6 depth c rest hopens hcloses ih =>
    obtain ⟨inner', hrest, rfl⟩ := eq_cons_of_map h
    rw [List.cons_append, ← ih hrest]
  | case7 quoting depth c rest hquoted ih =>
    obtain ⟨inner', hrest, rfl⟩ := eq_cons_of_map h
    rw [List.cons_append, ← ih hrest]

theorem Text.length_pos_of_isName {s : List Char} (h : Text.isName s = true) : 0 < s.length := by
  cases s with
  | nil => cases h
  | cons c rest => exact Nat.succ_pos _

theorem Text.utf8ByteSize_lt_of_suffix {s t : List Char} (h : s <:+ t) (hlt : s.length < t.length) :
    (String.ofList s).utf8ByteSize < (String.ofList t).utf8ByteSize := by
  obtain ⟨front, rfl⟩ := h
  have hfront : (String.ofList front).utf8ByteSize ≠ 0 := by
    rw [Ne, String.utf8ByteSize_eq_zero_iff, String.ofList_eq_empty_iff]
    rintro rfl
    rw [List.nil_append] at hlt
    omega
  rw [String.ofList_append, String.utf8ByteSize_append]
  omega

namespace Chain

/-- What a reader can do when it is asked for the next result. -/
inductive Takes (c : Chain) : Option (Except Fault Invocation) × Chain → Prop where
  | failed (hfailed : c.failed = true) : Takes c (none, c)
  | ended (hgoing : c.failed = false) : Takes c (none, ⟨c.source, [], false⟩)
  | call {i : Invocation} {left : List Char} (hgoing : c.failed = false)
      (hname : Text.isName i.method.toList = true) (hleft : left <:+ c.rest)
      (hlength : left.length + 2 ≤ c.rest.length) :
      Takes c (some (.ok i), ⟨c.source, left, false⟩)
  | fault {fault : Fault} {left : List Char} (hgoing : c.failed = false) (hleft : left <:+ c.rest)
      (hne : left ≠ []) : Takes c (some (.error fault), ⟨c.source, left, true⟩)

theorem takes_next (c : Chain) : c.Takes c.next := by
  have hblanks : Text.trimLeft c.rest <:+ c.rest := List.dropWhile_suffix _
  -- A method with what precedes the text left after it takes its dot and its name at least.
  have hcall (method front left : List Char) (hname : Text.isName method = true)
      (htrim : Text.trimLeft c.rest = '.' :: (method ++ (front ++ left))) :
      left <:+ c.rest ∧ left.length + 2 ≤ c.rest.length := by
    have hpos := Text.length_pos_of_isName hname
    have hlength := hblanks.length_le
    rw [htrim] at hblanks hlength
    refine ⟨List.IsSuffix.trans ⟨'.' :: (method ++ front), by simp⟩ hblanks, ?_⟩
    simp only [List.length_cons, List.length_append] at hlength
    omega
  unfold next
  by_cases hfailed : c.failed = true
  · rw [if_pos hfailed]
    exact .failed hfailed
  rw [if_neg hfailed]
  have hgoing : c.failed = false := Bool.eq_false_iff.mpr hfailed
  split
  · exact .ended hgoing
  · rename_i rest htrim
    split
    · exact .fault hgoing (htrim ▸ hblanks) (List.cons_ne_nil _ _)
    · rename_i method after hsplit
      have hname := Text.isName_of_splitName hsplit
      rw [Text.append_of_splitName hsplit] at htrim
      split
      · rename_i arguments left hclosing
        rw [Text.append_of_splitClosing hclosing] at htrim
        obtain ⟨hleft, hlength⟩ :=
          hcall method ('(' :: (arguments ++ [')'])) left hname (by simpa using htrim)
        exact .call hgoing (by rwa [String.toList_ofList]) hleft hlength
      · obtain ⟨hleft, _⟩ := hcall method [] _ hname htrim
        exact .fault hgoing hleft (List.cons_ne_nil _ _)
    · rename_i method after _ hsplit
      have hname := Text.isName_of_splitName hsplit
      rw [Text.append_of_splitName hsplit] at htrim
      obtain ⟨hleft, hlength⟩ := hcall method [] after hname htrim
      exact .call hgoing (by rwa [String.toList_ofList]) hleft hlength
  · rename_i rest hne _
    exact .fault hgoing hblanks hne

/-- The reader after it has been asked for a number of results. -/
def skip : Nat → Chain → Chain
  | 0, c => c
  | n + 1, c => skip n c.next.2

theorem skip_add_one (n : Nat) (c : Chain) : skip (n + 1) c = (skip n c).next.2 := by
  induction n generalizing c with
  | zero => rfl
  | succ n ih => exact ih c.next.2

theorem next_of_failed {c : Chain} (h : c.failed = true) : c.next = (none, c) := by
  rw [next, if_pos h]

/-- A reader that has come to its end stays there. -/
theorem next_skip_of_none {c : Chain} (h : c.next.1 = none) (n : Nat) :
    (skip n c).next.1 = none := by
  induction n generalizing c with
  | zero => exact h
  | succ n ih =>
    apply ih
    have htakes := c.takes_next
    generalize c.next = taken at h htakes
    cases htakes with
    | failed hfailed => rw [next_of_failed hfailed]
    | ended _ => rfl
    | call _ _ _ _ => cases h
    | fault _ _ _ => cases h

section Results

theorem resultsWithin_of_none {c : Chain} (h : c.next.1 = none) (bound : Nat) :
    (resultsWithin bound c).1 = [] := by
  cases bound with
  | zero => rfl
  | succ bound =>
    rw [resultsWithin]
    generalize c.next = taken at h
    obtain ⟨result, after⟩ := taken
    obtain rfl : result = none := h
    rfl

theorem resultsWithin_of_some {c after : Chain} {result : Except Fault Invocation}
    (h : c.next = (some result, after)) (bound : Nat) :
    (resultsWithin (bound + 1) c).1 = result :: (resultsWithin bound after).1 := by
  rw [resultsWithin, h]

/-- What holds of no results at an end, of the one fault where text is left, and of a call before
results of which it holds, holds of all the results of a reader. -/
theorem results_induction {P : Chain → List (Except Fault Invocation) → Prop}
    (hend : ∀ c, c.next.1 = none → P c [])
    (hcall : ∀ c after i results, c.next = (some (.ok i), after) →
      Text.isName i.method.toList = true → after.rest.length + 2 ≤ c.rest.length →
      P after results → P c (.ok i :: results))
    (hfault : ∀ c after fault, c.next = (some (.error fault), after) → after.next.1 = none →
      P c [.error fault])
    (c : Chain) : P c c.results.1 := by
  have hbound : c.rest.length < c.rest.length + 1 := Nat.lt_succ_self _
  unfold results
  generalize c.rest.length + 1 = bound at hbound
  induction bound generalizing c with
  | zero => omega
  | succ bound ih =>
    have htakes := c.takes_next
    generalize hnext : c.next = taken at htakes
    cases htakes with
    | failed _ | ended _ =>
      have hnone : c.next.1 = none := by rw [hnext]
      rw [resultsWithin_of_none hnone]
      exact hend c hnone
    | @call i left _ hname _ hlength =>
      rw [resultsWithin_of_some hnext]
      apply hcall c _ i _ hnext hname hlength
      apply ih
      change left.length < bound
      omega
    | @fault fault left _ _ _ =>
      have hnone : (⟨c.source, left, true⟩ : Chain).next.1 = none := by rw [next_of_failed rfl]
      rw [resultsWithin_of_some hnext, resultsWithin_of_none hnone]
      exact hfault c _ fault hnext hnone

variable (c : Chain)

/-- The results are what the reader gives when it is asked again and again. -/
theorem getElem?_results (n : Nat) : c.results.1[n]? = (skip n c).next.1 := by
  induction c using results_induction generalizing n with
  | hend c hnone =>
    rw [next_skip_of_none hnone]
    rfl
  | hcall c after i results hnext _ _ ih =>
    cases n with
    | zero => rw [skip, hnext]; rfl
    | succ n => rw [skip, hnext, ← ih n]; rfl
  | hfault c after fault hnext hnone =>
    cases n with
    | zero => rw [skip, hnext]; rfl
    | succ n => rw [skip, hnext, next_skip_of_none hnone]; rfl

/-- After a fault there is no result. -/
theorem fault_last {n : Nat} {fault : Fault} (h : c.results.1[n]? = some (.error fault)) :
    n + 1 = c.results.1.length := by
  induction c using results_induction generalizing n with
  | hend c _ => cases h
  | hcall c after i results _ _ _ ih =>
    cases n with
    | zero => cases h
    | succ n => rw [List.length_cons, ← ih h]
  | hfault c after fault _ _ =>
    cases n with
    | zero => rfl
    | succ n => cases h

/-- A call takes its dot and its name, so that the results are few. -/
theorem length_results_le : c.results.1.length ≤ c.rest.length / 2 + 1 := by
  induction c using results_induction with
  | hend c _ => exact Nat.zero_le _
  | hcall c after i results _ _ hlength ih =>
    rw [List.length_cons]
    omega
  | hfault c after fault _ _ => exact Nat.le_add_left 1 _

theorem isName_of_mem_results {i : Invocation} (h : .ok i ∈ c.results.1) :
    Text.isName i.method.toList = true := by
  induction c using results_induction with
  | hend c _ => cases h
  | hcall c after j results _ hname _ ih =>
    rcases List.mem_cons.mp h with heq | hmem
    · rwa [Except.ok.inj heq]
    · exact ih hmem
  | hfault c after fault _ _ => cases List.mem_singleton.mp h

end Results

/-- What a reader can be asked to do. -/
inductive Request where
  | next
  | restart

def serve (c : Chain) : Request → Chain
  | .next => c.next.2
  | .restart => c.restart

/-- The reader after requests. -/
def serveAll (c : Chain) (requests : List Request) : Chain :=
  requests.foldl serve c

/-- The results asked for since the reader was last at the start, after one request more. -/
def Request.count (n : Nat) : Request → Nat
  | .next => n + 1
  | .restart => 0

/-- The number of results asked for since the reader was last at the start. -/
def sinceStart (requests : List Request) : Nat :=
  requests.foldl Request.count 0

/-- The text before the place of the reader, in bytes. -/
def position (c : Chain) : String.Pos.Raw :=
  ⟨(String.ofList c.source).utf8ByteSize - (String.ofList c.rest).utf8ByteSize⟩

/-- The reader keeps its source, and what is left is the end of it. -/
structure Reads (text : String) (c : Chain) : Prop where
  source : c.source = text.toList
  rest : c.rest <:+ text.toList

namespace Reads

variable {text : String} {c : Chain}

theorem ofText (text : String) : Reads text (.ofText text) :=
  ⟨rfl, List.suffix_refl _⟩

theorem next (h : Reads text c) : Reads text c.next.2 := by
  have htakes := c.takes_next
  generalize c.next = taken at htakes
  cases htakes with
  | failed _ => exact h
  | ended _ => exact ⟨h.source, List.nil_suffix⟩
  | call _ _ hleft _ => exact ⟨h.source, hleft.trans h.rest⟩
  | fault _ hleft _ => exact ⟨h.source, hleft.trans h.rest⟩

theorem skip (h : Reads text c) (n : Nat) : Reads text (skip n c) := by
  induction n generalizing c with
  | zero => exact h
  | succ n ih => exact ih h.next

theorem restart (h : Reads text c) : c.restart = .ofText text := by
  rw [Chain.restart, h.source]
  rfl

theorem isValid (h : Reads text c) : c.position.IsValid text := by
  obtain ⟨front, hfront⟩ := h.rest
  have htext : text = String.ofList front ++ String.ofList c.rest := by
    rw [← String.ofList_append, hfront, String.ofList_toList]
  rw [String.Pos.Raw.isValid_iff_exists_append]
  refine ⟨_, _, htext, ?_⟩
  rw [String.Pos.Raw.ext_iff, String.byteIdx_rawEndPos, position, h.source, String.ofList_toList]
  simp only
  nth_rewrite 1 [htext]
  rw [String.utf8ByteSize_append]
  omega

theorem position_lt (h : Reads text c) {i : Invocation} (hcall : c.next.1 = some (.ok i)) :
    c.position < c.next.2.position := by
  have htakes := c.takes_next
  generalize c.next = taken at hcall htakes
  cases htakes with
  | failed _ | ended _ | fault _ _ _ => cases hcall
  | @call _ left _ _ hleft hlength =>
    have hbytes := Text.utf8ByteSize_lt_of_suffix hleft (by omega)
    obtain ⟨front, hfront⟩ := h.rest
    have hsource : (String.ofList c.source).utf8ByteSize =
        (String.ofList front).utf8ByteSize + (String.ofList c.rest).utf8ByteSize := by
      rw [h.source, ← hfront, String.ofList_append, String.utf8ByteSize_append]
    rw [String.Pos.Raw.lt_iff, position, position]
    simp only
    omega

end Reads

/-- After requests in any order the reader is where asking for results since the last start has
brought it. -/
theorem serveAll_ofText (text : String) (requests : List Request) :
    (ofText text).serveAll requests = skip (sinceStart requests) (ofText text) := by
  unfold serveAll sinceStart
  induction requests using List.reverseRecOn with
  | nil => rfl
  | append_singleton requests request ih =>
    simp only [List.foldl_append, List.foldl_cons, List.foldl_nil, ih]
    cases request with
    | next => exact (skip_add_one _ _).symm
    | restart => exact ((Reads.ofText text).skip _).restart

end Chain

/-- A reader of a chain of calls has one list of results for its text. Of these only the last can
be a fault, each of the others is a call of a method with a proper name, and there are at most half
as many as the text has characters, and one. However often the reader is asked for the next result
and set back to the start, what it gives next is the result whose number is that of the results
asked for since the last start, and nothing once these are over. Its place is always at the edge of
a character of the text and moves forward with every call that it gives. -/
theorem chain_reading_restarts (text : String) :
    (∀ n fault, (Chain.ofText text).results.1[n]? = some (.error fault) →
      n + 1 = (Chain.ofText text).results.1.length) ∧
    (Chain.ofText text).results.1.length ≤ text.length / 2 + 1 ∧
    (∀ i, .ok i ∈ (Chain.ofText text).results.1 → Text.isName i.method.toList = true) ∧
    ∀ requests : List Chain.Request,
      ((Chain.ofText text).serveAll requests).next.1 =
        (Chain.ofText text).results.1[Chain.sinceStart requests]? ∧
      ((Chain.ofText text).serveAll requests).position.IsValid text ∧
      ∀ i, ((Chain.ofText text).serveAll requests).next.1 = some (.ok i) →
        ((Chain.ofText text).serveAll requests).position <
          ((Chain.ofText text).serveAll requests).next.2.position := by
  refine ⟨fun n fault => Chain.fault_last _, ?_, fun i => Chain.isName_of_mem_results _, ?_⟩
  · rw [← String.length_toList]
    exact Chain.length_results_le (.ofText text)
  · intro requests
    have hreads := (Chain.Reads.ofText text).skip (Chain.sinceStart requests)
    rw [Chain.serveAll_ofText, Chain.getElem?_results]
    exact ⟨rfl, hreads.isValid, fun i => hreads.position_lt⟩

/-- A blank of three bytes and a parenthesis in quotes before parentheses that do not close. -/
def unclosedCalls : String :=
  "\u3000.a(\")\u00e9\") .b("

theorem chain_reading_restarts_unclosed :
    (Chain.ofText unclosedCalls).results.1 =
      [.ok ⟨"a", some "\")\u00e9\""⟩, .error (.callBrackets "b")] ∧
    1 + 1 = (Chain.ofText unclosedCalls).results.1.length ∧
    (Chain.ofText unclosedCalls).results.1.length ≤ unclosedCalls.length / 2 + 1 ∧
    Text.isName "a".toList = true ∧
    ((Chain.ofText unclosedCalls).serveAll [.next, .restart, .next]).next.1 =
      some (.error (.callBrackets "b")) ∧
    ((Chain.ofText unclosedCalls).serveAll [.next, .restart, .next, .next]).next.1 = none ∧
    ((Chain.ofText unclosedCalls).serveAll [.next, .next, .restart]).position <
      ((Chain.ofText unclosedCalls).serveAll [.next, .next, .restart]).next.2.position := by
  have hresults : (Chain.ofText unclosedCalls).results.1 =
      [.ok ⟨"a", some "\")\u00e9\""⟩, .error (.callBrackets "b")] := by decide +kernel
  obtain ⟨hlast, hlength, hnames, hserved⟩ := chain_reading_restarts unclosedCalls
  rw [hresults] at hlast hlength hnames hserved ⊢
  refine ⟨rfl, hlast 1 _ rfl, hlength, hnames _ List.mem_cons_self, (hserved _).1,
    (hserved _).1, ?_⟩
  exact (hserved [.next, .next, .restart]).2.2 _ (hserved _).1

end LineScript
