import LineScript.Program
import LineScript.Proofs.Brackets

/-!
# Lines that nest by braces

`Nests` is the shape of a laid out text: lines whose brackets close within them, and blocks that are
opened at the end of one line and closed at the beginning of another. Each line comes with the
number of blocks around it. On such lines the counting of braces is exact, and every line is
indented by the number of blocks around it.
-/
namespace LineScript

namespace Layout

open Text

/-- Lines with the number of brace blocks that are open around each of them. -/
inductive Nests : Nat → List (Nat × String) → Prop where
  | nil {depth : Nat} : Nests depth []
  | line {depth : Nat} {text : String} {rest : List (Nat × String)} (h : Paired true text)
      (hrest : Nests depth rest) : Nests depth ((depth, text) :: rest)
  | block {depth : Nat} {head tail : String} {inner rest : List (Nat × String)}
      (hhead : Paired true head) (hinner : Nests (depth + 1) inner) (htail : Paired true tail)
      (hrest : Nests depth rest) :
      Nests depth ((depth, head ++ "\x7b") :: inner ++ (depth, "\x7d" ++ tail) :: rest)

theorem Nests.append {depth : Nat} {lines more : List (Nat × String)} (h : Nests depth lines)
    (hmore : Nests depth more) : Nests depth (lines ++ more) := by
  induction h with
  | nil => exact hmore
  | line h _ ih => exact .line h (ih hmore)
  | block hhead hinner htail _ _ ih =>
    rw [List.append_assoc, List.cons_append]
    exact .block hhead hinner htail (ih hmore)

/-- Every line with its line feed. -/
def unlines (lines : List String) : String :=
  String.join (lines.map (· ++ "\n"))

theorem unlines_append (lines more : List String) :
    unlines (lines ++ more) = unlines lines ++ unlines more := by
  rw [unlines, List.map_append, String.join_append]
  rfl

theorem unlines_cons (line : String) (more : List String) :
    unlines (line :: more) = line ++ "\n" ++ unlines more := by
  rw [unlines, List.map_cons, String.join_cons]
  rfl

/-- The text is made of lines that nest, at whatever depth it stands. -/
def Laid (text : String) : Prop :=
  ∀ depth, ∃ lines, Nests depth lines ∧ text = unlines (lines.map Prod.snd)

namespace Laid

theorem empty : Laid "" :=
  fun _ => ⟨[], .nil, rfl⟩

theorem append {t u : String} (ht : Laid t) (hu : Laid u) : Laid (t ++ u) := by
  intro depth
  obtain ⟨lines, hlines, rfl⟩ := ht depth
  obtain ⟨more, hmore, rfl⟩ := hu depth
  exact ⟨lines ++ more, hlines.append hmore, by rw [List.map_append, unlines_append]⟩

/-- A line in two parts, the last of which brings the line feed. -/
theorem line {a : List Char} {t : String} (ht : Passes true [] t a) (ending : String)
    (hending : Passes true a ending []) : Laid (t ++ (ending ++ "\n")) := by
  intro depth
  refine ⟨[(depth, t ++ ending)], .line (ht.append hending) .nil, ?_⟩
  rw [List.map_singleton, unlines_cons, ← String.append_assoc]
  exact (String.append_empty).symm

theorem block {head body : String} (hhead : Paired true head) (hbody : Laid body) (tail : String)
    (htail : Paired true tail) : Laid (head ++ inBraces body ++ (tail ++ "\n")) := by
  intro depth
  obtain ⟨inner, hinner, rfl⟩ := hbody (depth + 1)
  refine ⟨_, .block hhead hinner htail .nil, String.toList_injective ?_⟩
  rw [List.cons_append, List.map_cons, List.map_append, unlines_cons, unlines_append,
    List.map_cons, unlines_cons]
  simp [inBraces, unlines]

end Laid

/-- The text does not start with a blank. -/
def startsSolid (t : String) : Bool :=
  t.toList.head?.any fun c => !isBlank c

def endsSolid (t : String) : Bool :=
  t.toList.getLast?.any fun c => !isBlank c

theorem startsSolid_append {t : String} (h : startsSolid t = true) (u : String) :
    startsSolid (t ++ u) = true := by
  unfold startsSolid at h ⊢
  rw [String.toList_append, List.head?_append]
  cases hhead : t.toList.head? with
  | none =>
    rw [hhead] at h
    cases h
  | some c =>
    rw [hhead] at h
    exact h

theorem endsSolid_append (t : String) {u : String} (h : endsSolid u = true) :
    endsSolid (t ++ u) = true := by
  unfold endsSolid at h ⊢
  rw [String.toList_append, List.getLast?_append]
  cases hlast : u.toList.getLast? with
  | none =>
    rw [hlast] at h
    cases h
  | some c =>
    rw [hlast] at h
    exact h

/-- A line of a statement with its line feed: it has no blanks at its ends, and its brackets close
within it. -/
inductive Sentence : String → Prop where
  | intro {awaited : List Char} {head : String} (hstarts : startsSolid head = true)
      (hhead : Passes true [] head awaited) (ending : String) (hends : endsSolid ending = true)
      (hending : Passes true awaited ending []) : Sentence (head ++ (ending ++ "\n"))

/-- Sentences and empty lines, one after the other. -/
inductive Spelled : String → Prop where
  | empty : Spelled ""
  | blank : Spelled "\n"
  | sentence {text : String} (h : Sentence text) : Spelled text
  | append {t u : String} (ht : Spelled t) (hu : Spelled u) : Spelled (t ++ u)

theorem Spelled.join {texts : List String} (h : ∀ text ∈ texts, Spelled text) :
    Spelled (String.join texts) := by
  induction texts with
  | nil => exact .empty
  | cons text rest ih =>
    rw [List.forall_mem_cons] at h
    rw [String.join_cons]
    exact .append h.1 (ih h.2)

theorem Spelled.laid {text : String} (h : Spelled text) : Laid text := by
  induction h with
  | empty => exact .empty
  | blank => exact .line (fun _ => rfl : Paired true "") "" fun _ => rfl
  | sentence h =>
    obtain ⟨_, hhead, ending, _, hending⟩ := h
    exact .line hhead ending hending
  | append _ _ iht ihu => exact iht.append ihu

section Counting

variable {semi : Bool} {quoting : Quoting} {t : List Char} {b : Braces}

/-- The braces among the brackets that are awaited. -/
def awaitedBraces (awaited : List Char) : Nat :=
  awaited.count '\x7d'

theorem scanFrom_cons_outside (b : Braces) (c : Char) (rest : List Char) :
    scanFrom .outside b (c :: rest) = scanFrom (Quoting.outside.next c) (b.count c) rest :=
  rfl

theorem scanFrom_cons_quoted (h : quoting ≠ .outside) (b : Braces) (c : Char) (rest : List Char) :
    scanFrom quoting b (c :: rest) = scanFrom (quoting.next c) b rest := by
  cases quoting with
  | outside => exact absurd rfl h
  | inside mark => rfl
  | escaped mark => rfl

theorem Braces.count_other (b : Braces) {c : Char} (hopens : c ≠ '\x7b') (hcloses : c ≠ '\x7d') :
    b.count c = b := by
  rw [Braces.count, if_neg hopens, if_neg hcloses]

/-- Counting a character keeps track of the braces that are awaited. Where none has been opened yet
and none is awaited, none is closed. -/
theorem count_of_step {awaited awaited' : List Char} {c : Char} {quoting' : Quoting}
    (h : step (.outside, awaited) c = some (quoting', awaited')) (b : Braces)
    (hb : b.opens = 0 → awaitedBraces awaited = 0) :
    (b.count c).opens + b.closes + awaitedBraces awaited =
        b.opens + (b.count c).closes + awaitedBraces awaited' ∧
      (b.count c).leading = b.leading ∧
      ((b.count c).opens = 0 → awaitedBraces awaited' = 0) := by
  unfold awaitedBraces at hb ⊢
  by_cases hopen : c = '\x7b'
  · subst hopen
    obtain ⟨rfl, rfl⟩ := Prod.mk.inj (Option.some.inj h)
    refine ⟨?_, rfl, fun hzero => ?_⟩
    · change b.opens + 1 + b.closes + _ = b.opens + b.closes + _
      rw [show Line.closerOf '\x7b' = '\x7d' from rfl, List.count_cons_self]
      omega
    · cases hzero
  by_cases hclose : c = '\x7d'
  · subst hclose
    obtain ⟨_, ⟨hfalse, _⟩ | ⟨_, _, rfl⟩ | ⟨_, hfalse, _⟩⟩ := step_outside_cases h
    · cases hfalse
    · rw [List.count_cons_self] at hb ⊢
      have hpos : b.opens ≠ 0 := fun hzero => Nat.succ_ne_zero _ (hb hzero)
      refine ⟨?_, if_neg hpos, fun hzero => absurd hzero hpos⟩
      change b.opens + b.closes + _ = b.opens + (b.closes + 1) + _
      omega
    · exact absurd rfl hfalse
  · rw [Braces.count_other b hopen hclose]
    have hsame : awaited'.count '\x7d' = awaited.count '\x7d' := by
      obtain ⟨_, ⟨hopens, rfl⟩ | ⟨_, _, rfl⟩ | ⟨_, _, rfl⟩⟩ := step_outside_cases h
      · refine List.count_cons_of_ne ?_
        simp only [opensBracket, Bool.or_eq_true, beq_iff_eq] at hopens
        rcases hopens with (rfl | rfl) | rfl
        · decide
        · decide
        · exact absurd rfl hopen
      · rw [List.count_cons_of_ne hclose]
      · rfl
    rw [hsame]
    exact ⟨rfl, rfl, hb⟩

/-- Counting the braces of a text keeps track of the braces that are awaited. -/
theorem scanFrom_of_passAll {awaited awaited' : List Char} {quoting' : Quoting}
    (h : passAll semi (quoting, awaited) t = some (quoting', awaited')) (b : Braces)
    (hb : b.opens = 0 → awaitedBraces awaited = 0) :
    (scanFrom quoting b t).opens + b.closes + awaitedBraces awaited =
        b.opens + (scanFrom quoting b t).closes + awaitedBraces awaited' ∧
      (scanFrom quoting b t).leading = b.leading ∧
      ∀ u, scanFrom quoting b (t ++ u) = scanFrom quoting' (scanFrom quoting b t) u := by
  induction t generalizing quoting awaited b with
  | nil =>
    obtain ⟨rfl, rfl⟩ := Prod.mk.inj (Option.some.inj h)
    cases quoting <;> exact ⟨rfl, rfl, fun _ => rfl⟩
  | cons c t ih =>
    rw [passAll_cons_of_fits (fits_of_passAll h c List.mem_cons_self),
      Option.bind_eq_some_iff] at h
    obtain ⟨⟨next, inner⟩, hstep, h⟩ := h
    by_cases hquoted : quoting = .outside
    · subst hquoted
      obtain ⟨hcount, hleading, hnone⟩ := count_of_step hstep b hb
      obtain ⟨rfl, _⟩ := step_outside_cases hstep
      obtain ⟨hcount', hleading', happend⟩ := ih h (b.count c) hnone
      rw [scanFrom_cons_outside]
      refine ⟨by omega, hleading'.trans hleading, fun u => ?_⟩
      rw [List.cons_append, scanFrom_cons_outside, happend]
    · rw [step_quoted hquoted] at hstep
      obtain ⟨rfl, rfl⟩ := Prod.mk.inj (Option.some.inj hstep)
      obtain ⟨hcount, hleading, happend⟩ := ih h b hb
      rw [scanFrom_cons_quoted hquoted]
      refine ⟨hcount, hleading, fun u => ?_⟩
      rw [List.cons_append, scanFrom_cons_quoted hquoted, happend]

end Counting

section Lines

variable {text : String}

theorem trimLeft_append_singleton {c : Char} (h : isBlank c = false) (t : List Char) :
    trimLeft (t ++ [c]) = trimLeft t ++ [c] := by
  unfold trimLeft
  induction t with
  | nil => rw [List.nil_append, List.dropWhile_cons_of_neg (by simp [h])]; rfl
  | cons d t ih =>
    rw [List.cons_append]
    by_cases hd : isBlank d = true
    · rw [List.dropWhile_cons_of_pos hd, List.dropWhile_cons_of_pos hd, ih]
    · rw [List.dropWhile_cons_of_neg hd, List.dropWhile_cons_of_neg hd, List.cons_append]

/-- The braces of a text that closes all its brackets itself, after some that have been counted. -/
theorem scanFrom_paired {semi : Bool} {t : List Char}
    (h : passAll semi (.outside, []) t = some (.outside, [])) (b : Braces) :
    (scanFrom .outside b t).opens + b.closes = b.opens + (scanFrom .outside b t).closes ∧
      (scanFrom .outside b t).leading = b.leading ∧
      ∀ u, scanFrom .outside b (t ++ u) = scanFrom .outside (scanFrom .outside b t) u :=
  scanFrom_of_passAll h b fun _ => rfl

theorem scan_line (h : Paired true text) :
    (scan (trimBoth text.toList)).leading = 0 ∧
      (scan (trimBoth text.toList)).closes = (scan (trimBoth text.toList)).opens := by
  obtain ⟨hcount, hleading, _⟩ := scanFrom_paired (passAll_trimBoth (h [])) ⟨0, 0, 0⟩
  refine ⟨hleading, ?_⟩
  rw [scan]
  simp only [Nat.add_zero, Nat.zero_add] at hcount
  exact hcount.symm

theorem trimBoth_head (head : String) :
    trimBoth (head ++ "\x7b").toList = trimLeft head.toList ++ ['\x7b'] := by
  have hbrace : "\x7b".toList = ['\x7b'] := rfl
  rw [String.toList_append, hbrace, trimBoth, trimLeft_append_singleton rfl, trimRight_snoc]
  rfl

theorem scan_head (h : Paired true text) :
    (scan (trimBoth (text ++ "\x7b").toList)).leading = 0 ∧
      (scan (trimBoth (text ++ "\x7b").toList)).opens =
        (scan (trimBoth (text ++ "\x7b").toList)).closes + 1 := by
  obtain ⟨hcount, hleading, happend⟩ := scanFrom_paired (passAll_trimLeft (h [])) ⟨0, 0, 0⟩
  rw [trimBoth_head, scan, happend]
  simp only [Nat.add_zero, Nat.zero_add] at hcount
  exact ⟨hleading, congrArg (· + 1) hcount⟩

theorem trimBoth_tail (tail : String) :
    trimBoth ("\x7d" ++ tail).toList = '\x7d' :: trimRight tail.toList := by
  have hbrace : "\x7d".toList = ['\x7d'] := rfl
  rw [String.toList_append, hbrace, List.singleton_append, trimBoth_cons rfl]

theorem scan_tail (h : Paired true text) :
    (scan (trimBoth ("\x7d" ++ text).toList)).leading = 1 ∧
      (scan (trimBoth ("\x7d" ++ text).toList)).closes =
        (scan (trimBoth ("\x7d" ++ text).toList)).opens + 1 := by
  have hright : passAll true (.outside, []) (trimRight text.toList) = some (.outside, []) :=
    passAll_trimRight trivial (h [])
  obtain ⟨hcount, hleading, _⟩ := scanFrom_paired hright ⟨0, 1, 1⟩
  rw [trimBoth_tail, scan]
  refine ⟨hleading, ?_⟩
  simp only [Nat.zero_add] at hcount
  exact hcount.symm

end Lines

/-- The braces that are taken to be open after some lines. -/
def depthAfter (depth : Nat) (lines : List (List Char)) : Nat :=
  lines.foldl (fun depth line => depth + (scan line).opens - (scan line).closes) depth

/-- No count of braces is cut off at zero: the braces that a line closes are open. -/
def Exact (depth : Nat) (lines : List (List Char)) : Prop :=
  ∀ front line back, lines = front ++ line :: back →
    (scan line).leading ≤ depthAfter depth front ∧
      (scan line).closes ≤ depthAfter depth front + (scan line).opens

/-- A line as it is laid out, with the number of blocks around it. -/
def placed (tab : Nat) (line : Nat × String) : String :=
  if trim line.2 = "" then "" else repeated (tab * line.1) ' ' ++ trim line.2

theorem depthAfter_append (depth : Nat) (lines more : List (List Char)) :
    depthAfter depth (lines ++ more) = depthAfter (depthAfter depth lines) more :=
  List.foldl_append

theorem Exact.append {depth : Nat} {lines more : List (List Char)} (h : Exact depth lines)
    (hmore : Exact (depthAfter depth lines) more) : Exact depth (lines ++ more) := by
  intro front line back heq
  rcases List.append_eq_append_iff.mp heq with ⟨mid, rfl, hmid⟩ | ⟨mid, rfl, hmid⟩
  · rw [depthAfter_append]
    exact hmore mid line back hmid
  · cases mid with
    | nil =>
      rw [List.append_nil] at hmore
      exact hmore [] line back hmid.symm
    | cons d mid =>
      obtain ⟨rfl, rfl⟩ := List.cons.inj hmid
      exact h front line mid rfl

theorem exact_singleton {depth : Nat} {line : List Char} (hleading : (scan line).leading ≤ depth)
    (hcloses : (scan line).closes ≤ depth + (scan line).opens) : Exact depth [line] := by
  intro front line' back heq
  cases front with
  | nil =>
    obtain ⟨rfl, _⟩ := List.cons.inj heq
    exact ⟨hleading, hcloses⟩
  | cons c front => simp at heq

theorem indentLines_append (tab depth : Nat) (lines more : List (List Char)) :
    indentLines tab depth (lines ++ more) =
      indentLines tab depth lines ++ indentLines tab (depthAfter depth lines) more := by
  induction lines generalizing depth with
  | nil => rfl
  | cons line rest ih =>
    rw [List.cons_append, indentLines, indentLines]
    split_ifs with hempty
    · rw [ih, List.isEmpty_iff.mp hempty]
      rfl
    · dsimp only
      rw [ih]
      rfl

theorem indentLines_singleton (tab : Nat) {depth level : Nat} {text : String}
    (h : depth - (scan (trimBoth text.toList)).leading = level) :
    indentLines tab depth [trimBoth text.toList] = [(placed tab (level, text)).toList] := by
  have hempty : trim text = "" ↔ trimBoth text.toList = [] := by
    rw [trim, ← String.toList_inj, String.toList_ofList]
    rfl
  rw [indentLines, placed]
  simp only [hempty, List.isEmpty_iff]
  split_ifs
  · rfl
  · rw [h, String.toList_append, repeated, trim, String.toList_ofList, String.toList_ofList]
    rfl

/-- The lines take the count of open braces from one number to another, the count is exact, and
each line is indented by the blocks around it. -/
structure Counted (depth after : Nat) (lines : List (Nat × String)) : Prop where
  after : depthAfter depth (lines.map fun line => trimBoth line.2.toList) = after
  exact : Exact depth (lines.map fun line => trimBoth line.2.toList)
  indents : ∀ tab, indentLines tab depth (lines.map fun line => trimBoth line.2.toList) =
    lines.map fun line => (placed tab line).toList

theorem Counted.append {depth mid after : Nat} {lines more : List (Nat × String)}
    (h : Counted depth mid lines) (hmore : Counted mid after more) :
    Counted depth after (lines ++ more) := by
  constructor
  · rw [List.map_append, depthAfter_append, h.after, hmore.after]
  · rw [List.map_append]
    exact h.exact.append (by rw [h.after]; exact hmore.exact)
  · intro tab
    rw [List.map_append, indentLines_append, h.after, h.indents, hmore.indents, List.map_append]

theorem counted_singleton {depth level after : Nat} {text : String}
    (hleading : (scan (trimBoth text.toList)).leading + level = depth)
    (hcount : depth + (scan (trimBoth text.toList)).opens =
      after + (scan (trimBoth text.toList)).closes) : Counted depth after [(level, text)] := by
  have hlevel : depth - (scan (trimBoth text.toList)).leading = level := by omega
  have hexact : (scan (trimBoth text.toList)).leading ≤ depth ∧
      (scan (trimBoth text.toList)).closes ≤ depth + (scan (trimBoth text.toList)).opens := by
    omega
  refine ⟨?_, exact_singleton hexact.1 hexact.2, fun tab => indentLines_singleton tab hlevel⟩
  change depth + (scan (trimBoth text.toList)).opens - (scan (trimBoth text.toList)).closes = _
  omega

theorem Nests.counted {depth : Nat} {lines : List (Nat × String)} (h : Nests depth lines) :
    Counted depth depth lines := by
  induction h with
  | nil => exact ⟨rfl, by intro front line back heq; simp at heq, fun _ => rfl⟩
  | @line depth text rest h _ ih =>
    obtain ⟨hleading, hcloses⟩ := scan_line h
    have hline : Counted depth depth [(depth, text)] := counted_singleton (by omega) (by omega)
    exact hline.append ih
  | @block depth head tail inner rest hhead _ htail _ ihinner ih =>
    obtain ⟨hleading, hopens⟩ := scan_head hhead
    obtain ⟨hleading', hcloses⟩ := scan_tail htail
    have hfirst : Counted depth (depth + 1) [(depth, head ++ "\x7b")] :=
      counted_singleton (by omega) (by omega)
    have hlast : Counted (depth + 1) depth [(depth, "\x7d" ++ tail)] :=
      counted_singleton (by omega) (by omega)
    exact (hfirst.append ihinner).append (hlast.append ih)

theorem Nests.not_mem_line {depth : Nat} {lines : List (Nat × String)} (h : Nests depth lines) :
    ∀ line ∈ lines, '\n' ∉ line.2.toList := by
  have hfree {text : String} (h : Paired true text) : '\n' ∉ text.toList := by
    intro hmem
    exact absurd (h.fits _ hmem) (by decide)
  induction h with
  | nil => simp
  | line h _ ih => exact List.forall_mem_cons.mpr ⟨hfree h, ih⟩
  | block hhead _ htail _ ihinner ih =>
    rw [List.forall_mem_append, List.forall_mem_cons, List.forall_mem_cons]
    refine ⟨⟨?_, ihinner⟩, ?_, ih⟩
    · simpa using hfree hhead
    · simpa using hfree htail

theorem toList_unlines (lines : List String) :
    (unlines lines).toList = ['\n'].intercalate (lines.map String.toList ++ [[]]) := by
  induction lines with
  | nil => rfl
  | cons line rest ih =>
    rw [unlines_cons, String.toList_append, String.toList_append, ih, List.map_cons,
      List.cons_append, List.intercalate_cons_of_ne_nil (by simp)]
    rfl

theorem joinWith_append_empty (lines : List String) :
    joinWith "\n" (lines ++ [""]) = unlines lines := by
  apply String.toList_injective
  rw [joinWith, String.toList_intercalate, toList_unlines, List.map_append]
  rfl

/-- The lines that the layout sees in a text, and what it makes of them. -/
theorem Nests.format {lines : List (Nat × String)} (h : Nests 0 lines) :
    ((unlines (lines.map Prod.snd)).toList.splitOn '\n').map trimBoth =
        (lines.map fun line => trimBoth line.2.toList) ++ [[]] ∧
      ∀ tab, format (unlines (lines.map Prod.snd)) tab = unlines (lines.map (placed tab)) := by
  have hsplit : (unlines (lines.map Prod.snd)).toList.splitOn '\n' =
      (lines.map fun line => line.2.toList) ++ [[]] := by
    rw [toList_unlines, List.map_map]
    refine List.splitOn_intercalate _ (fun l hl => ?_) (by simp)
    rcases List.mem_append.mp hl with hl | hl
    · obtain ⟨line, hline, rfl⟩ := List.mem_map.mp hl
      exact h.not_mem_line line hline
    · rw [List.mem_singleton.mp hl]
      exact List.not_mem_nil
  have htrimmed : ((unlines (lines.map Prod.snd)).toList.splitOn '\n').map trimBoth =
      (lines.map fun line => trimBoth line.2.toList) ++ [[]] := by
    rw [hsplit, List.map_append, List.map_map]
    rfl
  refine ⟨htrimmed, fun tab => ?_⟩
  have hback : (lines.map fun line => (placed tab line).toList).map String.ofList =
      lines.map (placed tab) := by
    rw [List.map_map]
    exact List.map_congr_left fun line _ => String.ofList_toList
  rw [Layout.format, htrimmed, indentLines_append, h.counted.after, h.counted.indents,
    ← joinWith_append_empty, List.map_append, hback]
  rfl

end Layout

end LineScript
