import LineScript.Chain
import LineScript.Proofs.Brackets

/-!
# Calls as they are written

A line takes a chain of calls as one word, and the chain is read call by call later on. Both agree
on where a call ends: a chain is made of the texts of its calls, and reading it gives these calls
back. The word is stricter about brackets, which have to close in kind; the reader only counts
them.
-/
namespace LineScript

namespace Text

theorem isName_of_splitName {s name after : List Char} (h : splitName s = some (name, after)) :
    isName name = true := by
  cases s with
  | nil => cases h
  | cons c rest =>
    rw [splitName] at h
    split_ifs at h with hc
    obtain ⟨rfl, _⟩ := Prod.mk.inj (Option.some.inj h)
    rw [isName, hc, Bool.true_and, List.all_takeWhile]

theorem append_of_splitName {s name after : List Char} (h : splitName s = some (name, after)) :
    s = name ++ after := by
  cases s with
  | nil => cases h
  | cons c rest =>
    rw [splitName] at h
    split_ifs at h
    obtain ⟨rfl, rfl⟩ := Prod.mk.inj (Option.some.inj h)
    rw [List.cons_append, List.takeWhile_append_dropWhile]

theorem splitName_append {name tail : List Char} (hname : isName name = true)
    (htail : ∀ c ∈ tail.head?, continuesName c = false) :
    splitName (name ++ tail) = some (name, tail) := by
  cases name with
  | nil => cases hname
  | cons c rest =>
    rw [isName, Bool.and_eq_true, List.all_eq_true] at hname
    have htake : tail.takeWhile continuesName = [] := by
      cases tail with
      | nil => rfl
      | cons d tail => rw [List.takeWhile_cons_of_neg (by simp [htail d rfl])]
    have hdrop : tail.dropWhile continuesName = tail := by
      cases tail with
      | nil => rfl
      | cons d tail => rw [List.dropWhile_cons_of_neg (by simp [htail d rfl])]
    rw [List.cons_append, splitName, if_pos hname.1, List.takeWhile_append_of_pos hname.2,
      List.dropWhile_append_of_pos hname.2, htake, hdrop, List.append_nil]

section Closing

variable {c : Char} (depth : Nat) (rest : List Char)

theorem splitClosing_opens (h : opensBracket c = true) :
    splitClosing .outside depth (c :: rest) =
      (splitClosing .outside (depth + 1) rest).map fun (inner, after) => (c :: inner, after) :=
  if_pos h

theorem splitClosing_closes (h : ¬ opensBracket c = true) (hcloses : closesBracket c = true) :
    splitClosing .outside (depth + 1) (c :: rest) =
      (splitClosing .outside depth rest).map fun (inner, after) => (c :: inner, after) :=
  (if_neg h).trans (if_pos hcloses)

theorem splitClosing_other (h : ¬ opensBracket c = true) (hcloses : ¬ closesBracket c = true) :
    splitClosing .outside depth (c :: rest) =
      (splitClosing (Quoting.outside.next c) depth rest).map fun (inner, after) =>
        (c :: inner, after) :=
  (if_neg h).trans (if_neg hcloses)

theorem splitClosing_quoted {quoting : Quoting} (h : quoting ≠ .outside) :
    splitClosing quoting depth (c :: rest) =
      (splitClosing (quoting.next c) depth rest).map fun (inner, after) => (c :: inner, after) := by
  cases quoting with
  | outside => exact absurd rfl h
  | inside mark => rfl
  | escaped mark => rfl

end Closing

/-- Where brackets of all kinds nest up to a parenthesis, counting them finds the same one,
whatever comes after it. -/
theorem splitClosing_of_splitNested {quoting : Quoting} {awaited : Char}
    {outer s inner after : List Char}
    (h : Line.splitNested quoting awaited outer s = some (inner, after))
    (hlast : (awaited :: outer).getLast? = some ')') (tail : List Char) :
    splitClosing quoting outer.length (inner ++ ')' :: tail) = some (inner, tail) := by
  fun_induction Line.splitNested quoting awaited outer s generalizing inner with
  | case1 quoting awaited outer => cases h
  | case2 awaited outer c rest hopens ih =>
    obtain ⟨inner', hnested, rfl⟩ := eq_cons_of_map h
    have hinner := ih hnested (by rwa [List.getLast?_cons_cons])
    rw [List.length_cons] at hinner
    rw [List.cons_append, splitClosing_opens _ _ hopens, hinner, Option.map_some]
  | case3 c rest hopens hcloses =>
    obtain ⟨rfl, _⟩ := Prod.mk.inj (Option.some.inj h)
    rfl
  | case4 c rest hopens hcloses next outer ih =>
    obtain ⟨inner', hnested, rfl⟩ := eq_cons_of_map h
    rw [List.getLast?_cons_cons] at hlast
    rw [List.cons_append, List.length_cons, splitClosing_closes _ _ hopens hcloses,
      ih hnested hlast, Option.map_some]
  | case5 awaited outer c rest hopens hcloses hother => cases h
  | case6 awaited outer c rest hopens hcloses ih =>
    obtain ⟨inner', hnested, rfl⟩ := eq_cons_of_map h
    rw [List.cons_append, splitClosing_other _ _ hopens hcloses, ih hnested hlast, Option.map_some]
  | case7 quoting awaited outer c rest hquoted ih =>
    obtain ⟨inner', hnested, rfl⟩ := eq_cons_of_map h
    rw [List.cons_append, splitClosing_quoted _ _ hquoted, ih hnested hlast, Option.map_some]

/-- Between the two parts of a split stands the last bracket that was awaited. -/
theorem append_of_splitNested {quoting : Quoting} {awaited d : Char}
    {outer s inner after : List Char}
    (h : Line.splitNested quoting awaited outer s = some (inner, after))
    (hlast : (awaited :: outer).getLast? = some d) : s = inner ++ d :: after := by
  fun_induction Line.splitNested quoting awaited outer s generalizing inner with
  | case1 quoting awaited outer => cases h
  | case2 awaited outer c rest hopens ih =>
    obtain ⟨inner', hnested, rfl⟩ := eq_cons_of_map h
    rw [List.cons_append, ← ih hnested (by rwa [List.getLast?_cons_cons])]
  | case3 c rest hopens hcloses =>
    obtain ⟨rfl, rfl⟩ := Prod.mk.inj (Option.some.inj h)
    obtain rfl := Option.some.inj hlast
    rfl
  | case4 c rest hopens hcloses next outer ih =>
    obtain ⟨inner', hnested, rfl⟩ := eq_cons_of_map h
    rw [List.getLast?_cons_cons] at hlast
    rw [List.cons_append, ← ih hnested hlast]
  | case5 awaited outer c rest hopens hcloses hother => cases h
  | case6 awaited outer c rest hopens hcloses ih =>
    obtain ⟨inner', hnested, rfl⟩ := eq_cons_of_map h
    rw [List.cons_append, ← ih hnested hlast]
  | case7 quoting awaited outer c rest hquoted ih =>
    obtain ⟨inner', hnested, rfl⟩ := eq_cons_of_map h
    rw [List.cons_append, ← ih hnested hlast]

end Text

/-- A call as it is written in a chain. -/
def Invocation.text (i : Invocation) : String :=
  "." ++ i.method ++
    match i.arguments with
    | some arguments => "(" ++ arguments ++ ")"
    | none => ""

theorem Invocation.toList_text_bare (method : String) :
    (⟨method, none⟩ : Invocation).text.toList = '.' :: method.toList := by
  simp [Invocation.text]

theorem Invocation.toList_text_with (method arguments : String) :
    (⟨method, some arguments⟩ : Invocation).text.toList =
      '.' :: (method.toList ++ '(' :: (arguments.toList ++ [')'])) := by
  simp [Invocation.text]

/-- The method is a name, and the parenthesis before the arguments is closed right after them. The
arguments of a call in a line have no brackets left open. -/
structure Invocation.Readable (i : Invocation) : Prop where
  method : Text.isName i.method.toList = true
  arguments : ∀ arguments, i.arguments = some arguments → ∀ tail,
    Text.splitClosing .outside 0 (arguments.toList ++ ')' :: tail) = some (arguments.toList, tail)
  paired : ∀ arguments, i.arguments = some arguments → ∀ semi,
    (∀ c ∈ arguments.toList, Text.fits semi c = true) → Text.Paired semi arguments

/-- The characters of the calls one after the other. -/
def callChars (calls : List Invocation) : List Char :=
  calls.flatMap fun i => i.text.toList

theorem toList_join_text (calls : List Invocation) :
    (String.join (calls.map Invocation.text)).toList = callChars calls := by
  rw [String.toList_join, List.flatMap_map, callChars]

theorem head?_callChars (calls : List Invocation) : ∀ c ∈ (callChars calls).head?, c = '.' := by
  cases calls with
  | nil => simp [callChars]
  | cons i rest => simp [callChars, Invocation.text]

theorem length_le_callChars (calls : List Invocation) : calls.length ≤ (callChars calls).length := by
  induction calls with
  | nil => exact Nat.le_refl 0
  | cons i rest ih =>
    have hpos : 1 ≤ i.text.toList.length := by simp [Invocation.text]
    rw [callChars, List.flatMap_cons, List.length_append, ← callChars, List.length_cons]
    omega

namespace Chain

/-- A readable call is what the reader takes next, if the end or another call follows. -/
theorem next_text {i : Invocation} (h : i.Readable) (source : List Char) {tail : List Char}
    (htail : ∀ c ∈ tail.head?, c = '.') :
    next ⟨source, i.text.toList ++ tail, false⟩ = (some (.ok i), ⟨source, tail, false⟩) := by
  have htrim (rest : List Char) : Text.trimLeft ('.' :: rest) = '.' :: rest := rfl
  obtain ⟨method, arguments⟩ := i
  cases arguments with
  | none =>
    have hname : Text.splitName (method.toList ++ tail) = some (method.toList, tail) :=
      Text.splitName_append h.method fun c hc => htail c hc ▸ rfl
    rw [Invocation.toList_text_bare, List.cons_append, next]
    simp only [Bool.false_eq_true, if_false, htrim, hname]
    cases tail with
    | nil => simp only [String.ofList_toList]
    | cons c tail =>
      obtain rfl := htail c rfl
      change (some (Except.ok (⟨String.ofList method.toList, none⟩ : Invocation)), _) = _
      rw [String.ofList_toList]
  | some arguments =>
    have hname : Text.splitName (method.toList ++ '(' :: (arguments.toList ++ ')' :: tail)) =
        some (method.toList, '(' :: (arguments.toList ++ ')' :: tail)) :=
      Text.splitName_append h.method fun c hc => Option.some.inj hc ▸ rfl
    rw [Invocation.toList_text_with, List.cons_append, List.append_assoc, List.cons_append,
      List.append_assoc, List.singleton_append, next]
    simp only [Bool.false_eq_true, if_false, htrim, hname, h.arguments arguments rfl tail,
      String.ofList_toList]

theorem resultsWithin_callChars {calls : List Invocation} (h : ∀ i ∈ calls, i.Readable)
    (source : List Char) {bound : Nat} (hbound : calls.length < bound) :
    resultsWithin bound ⟨source, callChars calls, false⟩ =
      (calls.map .ok, ⟨source, [], false⟩) := by
  induction calls generalizing bound with
  | nil =>
    cases bound with
    | zero => cases hbound
    | succ bound => rfl
  | cons i rest ih =>
    cases bound with
    | zero => cases hbound
    | succ bound =>
      rw [List.forall_mem_cons] at h
      have hchars : callChars (i :: rest) = i.text.toList ++ callChars rest := List.flatMap_cons
      rw [hchars, resultsWithin, next_text h.1 source (head?_callChars rest)]
      simp only [ih h.2 (Nat.lt_of_succ_lt_succ hbound)]
      rfl

/-- Reading the texts of readable calls gives the calls back. -/
theorem results_join_text {calls : List Invocation} (h : ∀ i ∈ calls, i.Readable) :
    (ofText (String.join (calls.map Invocation.text))).results.1 = calls.map .ok := by
  rw [results, ofText, toList_join_text]
  have hbound : calls.length < (callChars calls).length + 1 :=
    Nat.lt_succ_of_le (length_le_callChars calls)
  rw [resultsWithin_callChars h _ hbound]

end Chain

namespace Line

theorem splitCall_ok {s text rest : List Char} (h : splitCall s = some (text, rest)) :
    s = text ++ rest ∧ ∃ i : Invocation, i.Readable ∧ text = i.text.toList := by
  have hbare (name : List Char) (hname : Text.isName name = true) :
      ∃ i : Invocation, i.Readable ∧ '.' :: name = i.text.toList := by
    refine ⟨⟨String.ofList name, none⟩, ⟨?_, by simp, by simp⟩, ?_⟩
    · rwa [String.toList_ofList]
    · rw [Invocation.toList_text_bare, String.toList_ofList]
  unfold splitCall at h
  split at h
  · split at h
    · rename_i rest name after hname
      have hisName := Text.isName_of_splitName hname
      have hrest := Text.append_of_splitName hname
      split at h
      · rename_i arguments left hnested
        obtain ⟨rfl, rfl⟩ := Prod.mk.inj (Option.some.inj h)
        refine ⟨?_, ⟨String.ofList name, some (String.ofList arguments)⟩, ⟨?_, ?_, ?_⟩, ?_⟩
        · rw [hrest, Text.append_of_splitNested hnested rfl]
          simp
        · rwa [String.toList_ofList]
        · rintro _ ⟨rfl⟩ tail
          rw [String.toList_ofList]
          exact Text.splitClosing_of_splitNested hnested rfl tail
        · rintro _ ⟨rfl⟩ semi hfits outer
          rw [String.toList_ofList] at hfits ⊢
          exact Text.closing_splitNested hnested hfits outer
        · rw [Invocation.toList_text_with, String.toList_ofList, String.toList_ofList]
          simp
      · obtain ⟨rfl, rfl⟩ := Prod.mk.inj (Option.some.inj h)
        exact ⟨by rw [hrest, List.cons_append], hbare name hisName⟩
    · rename_i name after hother hname
      obtain ⟨rfl, rfl⟩ := Prod.mk.inj (Option.some.inj h)
      exact ⟨by rw [Text.append_of_splitName hname, List.cons_append],
        hbare _ (Text.isName_of_splitName hname)⟩
    · cases h
  · cases h

theorem splitCallsWithin_ok (bound : Nat) (s : List Char) :
    s = (splitCallsWithin bound s).1 ++ (splitCallsWithin bound s).2 ∧
      ∃ calls : List Invocation, (∀ i ∈ calls, i.Readable) ∧
        (splitCallsWithin bound s).1 = callChars calls := by
  induction bound generalizing s with
  | zero => exact ⟨rfl, [], by simp, rfl⟩
  | succ bound ih =>
    rw [splitCallsWithin]
    cases hcall : splitCall s with
    | none => exact ⟨rfl, [], by simp, rfl⟩
    | some split =>
      obtain ⟨text, rest⟩ := split
      obtain ⟨hs, i, hi, rfl⟩ := splitCall_ok hcall
      obtain ⟨hrest, calls, hcalls, hchars⟩ := ih rest
      refine ⟨?_, i :: calls, List.forall_mem_cons.mpr ⟨hi, hcalls⟩, ?_⟩
      · simp only [List.append_assoc]
        rw [← hrest, ← hs]
      · simp only [hchars]
        rfl

/-- A chain that a line takes as one word is made of readable calls, one at least. -/
theorem splitChain_ok {s text rest : List Char} (h : splitChain s = some (text, rest)) :
    s = text ++ rest ∧ ∃ calls : List Invocation, calls ≠ [] ∧ (∀ i ∈ calls, i.Readable) ∧
      text = callChars calls := by
  rw [splitChain] at h
  cases hcall : splitCall s with
  | none =>
    rw [hcall] at h
    cases h
  | some split =>
    obtain ⟨first, left⟩ := split
    simp only [hcall, Option.some.injEq, Prod.mk.injEq] at h
    obtain ⟨hs, i, hi, rfl⟩ := splitCall_ok hcall
    obtain ⟨hleft, calls, hcalls, hchars⟩ := splitCallsWithin_ok left.length left
    refine ⟨?_, i :: calls, List.cons_ne_nil i calls, List.forall_mem_cons.mpr ⟨hi, hcalls⟩, ?_⟩
    · rw [← h.1, ← h.2, List.append_assoc, ← hleft, ← hs]
    · rw [← h.1, hchars]
      rfl

end Line

end LineScript
