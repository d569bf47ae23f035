import LineScript.Proofs.Quotes
import LineScript.Proofs.TrimmedLines

/-!
# Arguments between commas

The arguments of a call are cut at the commas outside quotes and brackets. `Cuts` says which pieces
a text has without a scan of it; the scan finds exactly these, also where quotes and brackets are
left open. Nothing is lost between the pieces but commas and blanks, and arguments that close their
quotes and brackets come back from their join as they were.
-/
namespace LineScript

namespace Text

/-- Where a reader of arguments stands: inside quotes or outside, and behind how many brackets that
are still open. -/
structure Standing where
  quoting : Quoting
  depth : Nat
deriving DecidableEq, Repr

namespace Standing

/-- Outside quotes and brackets. -/
def top : Standing :=
  ⟨.outside, 0⟩

/-- The depth behind a character outside quotes. Nothing is closed at depth zero. -/
def depthAfter (depth : Nat) (c : Char) : Nat :=
  if opensBracket c then depth + 1 else if closesBracket c then depth - 1 else depth

def next (s : Standing) (c : Char) : Standing where
  quoting := s.quoting.next c
  depth := if s.quoting = .outside then depthAfter s.depth c else s.depth

def after (s : Standing) (t : List Char) : Standing :=
  t.foldl next s

/-- No comma of the text stands outside quotes and brackets. -/
def Whole (s : Standing) (t : List Char) : Prop :=
  ∀ front back, t = front ++ ',' :: back → s.after front ≠ top

variable {s : Standing} {t u : List Char} {c : Char}

theorem after_append : s.after (t ++ u) = (s.after t).after u :=
  List.foldl_append

theorem whole_nil (s : Standing) : s.Whole [] := by
  intro front back h
  simp at h

theorem whole_cons : s.Whole (c :: t) ↔ ¬ (c = ',' ∧ s = top) ∧ (s.next c).Whole t := by
  constructor
  · intro h
    constructor
    · rintro ⟨rfl, hs⟩
      exact h [] t rfl hs
    · intro front back ht
      exact h (c :: front) back (by rw [ht, List.cons_append])
  · rintro ⟨hfirst, hrest⟩ front back ht hfront
    cases front with
    | nil =>
      obtain ⟨rfl, rfl⟩ := List.cons.inj ht
      exact hfirst ⟨rfl, hfront⟩
    | cons d front =>
      obtain ⟨rfl, rfl⟩ := List.cons.inj ht
      exact hrest front back rfl hfront

theorem Whole.left (h : s.Whole (t ++ u)) : s.Whole t := by
  intro front back ht
  exact h front (back ++ u) (by rw [ht, List.append_assoc, List.cons_append])

theorem Whole.right (h : s.Whole (t ++ u)) : (s.after t).Whole u := by
  intro front back hu
  rw [← after_append]
  exact h (t ++ front) back (by rw [hu, List.append_assoc])

theorem whole_append (ht : s.Whole t) (hu : (s.after t).Whole u) : s.Whole (t ++ u) := by
  induction t generalizing s with
  | nil => exact hu
  | cons c t ih =>
    rw [whole_cons] at ht
    exact whole_cons.mpr ⟨ht.1, ih ht.2 hu⟩

instance decidableWhole (s : Standing) : (t : List Char) → Decidable (s.Whole t)
  | [] => isTrue s.whole_nil
  | c :: t =>
    have := decidableWhole (s.next c) t
    decidable_of_iff' _ whole_cons

theorem next_blank (h : isBlank c = true) (depth : Nat) :
    next ⟨.outside, depth⟩ c = ⟨.outside, depth⟩ := by
  have hneutral := isNeutral_of_isBlank h
  simp only [isNeutral, Bool.and_eq_true, Bool.not_eq_true'] at hneutral
  simp [next, depthAfter, Quoting.next, hneutral]

theorem after_blank (h : ∀ c ∈ t, isBlank c = true) : top.after t = top := by
  induction t with
  | nil => rfl
  | cons c t ih =>
    rw [List.forall_mem_cons] at h
    have hnext : top.next c = top := next_blank h.1 0
    change (top.next c).after t = top
    rw [hnext, ih h.2]

theorem whole_blank (h : ∀ c ∈ t, isBlank c = true) (s : Standing) : s.Whole t := by
  rintro front back rfl
  have hcomma := h ',' (by simp)
  exact absurd hcomma (by decide)

theorem marked_after (h : s.quoting.Marked) (t : List Char) : (s.after t).quoting.Marked := by
  induction t generalizing s with
  | nil => exact h
  | cons c t ih => exact ih (h.next c)

/-- Blanks do not lead out of quotes or brackets. -/
theorem eq_top_of_after_blank (hs : s.quoting.Marked) (ht : ∀ c ∈ t, isBlank c = true)
    (h : s.after t = top) : s = top := by
  induction t generalizing s with
  | nil => exact h
  | cons c t ih =>
    rw [List.forall_mem_cons] at ht
    have hnext : s.next c = top := ih (hs.next c) ht.2 h
    have hquoting : s.quoting.next c = .outside := congrArg Standing.quoting hnext
    obtain ⟨quoting, depth⟩ := s
    cases quoting with
    | outside => rwa [next_blank ht.1] at hnext
    | escaped mark => cases hquoting
    | inside mark =>
      simp only [Quoting.next] at hquoting
      split_ifs at hquoting with hslash hmark
      have hneutral := isNeutral_of_isBlank ht.1
      rw [isNeutral, hmark, show isQuoteMark mark = true from hs] at hneutral
      simp at hneutral

end Standing

open Standing

/-- The pieces of a text between its commas outside quotes and brackets. At each cut the reader is
outside again, so that every piece but the first is read from there. -/
inductive Cuts : Standing → List Char → List (List Char) → Prop where
  | last {s : Standing} {t : List Char} (h : s.Whole t) : Cuts s t [t]
  | cut {s : Standing} {t rest : List Char} {pieces : List (List Char)} (h : s.Whole t)
      (htop : s.after t = top) (hrest : Cuts top rest pieces) :
      Cuts s (t ++ ',' :: rest) (t :: pieces)

section Cuts

variable {s : Standing} {t : List Char} {c : Char} {pieces : List (List Char)}

theorem Cuts.cons (hc : ¬ (c = ',' ∧ s = top)) (h : Cuts (s.next c) t pieces) :
    Cuts s (c :: t) (pieces.modifyHead (c :: ·)) := by
  cases h with
  | last h => exact .last (whole_cons.mpr ⟨hc, h⟩)
  | cut h htop hrest => exact .cut (t := c :: _) (whole_cons.mpr ⟨hc, h⟩) htop hrest

theorem splitCommas_comma (rest : List Char) :
    splitCommas .outside 0 (',' :: rest) = [] :: splitCommas .outside 0 rest := by
  rw [splitCommas, if_pos ⟨rfl, rfl⟩]

theorem splitCommas_other (hc : ¬ (c = ',' ∧ s = top)) (rest : List Char) :
    splitCommas s.quoting s.depth (c :: rest) =
      (splitCommas (s.next c).quoting (s.next c).depth rest).modifyHead (c :: ·) := by
  obtain ⟨quoting, depth⟩ := s
  by_cases hquoting : quoting = .outside
  · subst hquoting
    have hcut : ¬ (c = ',' ∧ depth = 0) := fun h => hc ⟨h.1, by rw [h.2]; rfl⟩
    rw [splitCommas, if_neg hcut]
    rfl
  · rw [splitCommas_quoted hquoting, next, if_neg hquoting]

/-- The scan cuts where it should. -/
theorem cuts_splitCommas (s : Standing) (t : List Char) :
    Cuts s t (splitCommas s.quoting s.depth t) := by
  induction t generalizing s with
  | nil =>
    rw [splitCommas]
    exact .last s.whole_nil
  | cons c t ih =>
    by_cases hc : c = ',' ∧ s = top
    · obtain ⟨rfl, rfl⟩ := hc
      change Cuts top (',' :: t) (splitCommas .outside 0 (',' :: t))
      rw [splitCommas_comma]
      exact .cut (t := []) top.whole_nil rfl (ih top)
    · rw [splitCommas_other hc]
      exact (ih (s.next c)).cons hc

theorem splitCommas_whole (h : s.Whole t) : splitCommas s.quoting s.depth t = [t] := by
  induction t generalizing s with
  | nil => rw [splitCommas]
  | cons c t ih =>
    rw [whole_cons] at h
    rw [splitCommas_other h.1, ih h.2]
    rfl

theorem splitCommas_first (h : s.Whole t) (htop : s.after t = top) (rest : List Char) :
    splitCommas s.quoting s.depth (t ++ ',' :: rest) = t :: splitCommas .outside 0 rest := by
  induction t generalizing s with
  | nil =>
    obtain rfl : s = top := htop
    exact splitCommas_comma rest
  | cons c t ih =>
    rw [whole_cons] at h
    rw [List.cons_append, splitCommas_other h.1, ih h.2 htop]
    rfl

theorem Cuts.splitCommas_eq (h : Cuts s t pieces) : splitCommas s.quoting s.depth t = pieces := by
  induction h with
  | last h => exact splitCommas_whole h
  | cut h htop _ ih =>
    rw [splitCommas_first h htop]
    exact congrArg _ ih

theorem Cuts.ne_nil (h : Cuts s t pieces) : pieces ≠ [] := by
  cases h <;> simp

theorem Cuts.intercalate_eq (h : Cuts s t pieces) : [','].intercalate pieces = t := by
  induction h with
  | last => exact List.intercalate_singleton
  | cut _ _ hrest ih =>
    rw [List.intercalate_cons_of_ne_nil hrest.ne_nil, ih, List.append_assoc, List.singleton_append]

theorem Cuts.whole (h : Cuts s t pieces) (hs : s = top) : ∀ piece ∈ pieces, top.Whole piece := by
  induction h with
  | last h =>
    subst hs
    simpa using h
  | cut h _ _ ih =>
    subst hs
    exact List.forall_mem_cons.mpr ⟨h, ih rfl⟩

theorem Cuts.closed (h : Cuts s t pieces) (hs : s = top) :
    ∀ piece ∈ pieces.dropLast, top.after piece = top := by
  induction h with
  | last => simp
  | cut _ htop hrest ih =>
    subst hs
    rw [List.dropLast_cons_of_ne_nil hrest.ne_nil]
    exact List.forall_mem_cons.mpr ⟨htop, ih rfl⟩

end Cuts

section Trimmed

variable {t before behind : List Char}

theorem exists_blanks (t : List Char) :
    ∃ before behind, (∀ c ∈ before, isBlank c = true) ∧ (∀ c ∈ behind, isBlank c = true) ∧
      t = before ++ trimBoth t ++ behind := by
  refine ⟨t.takeWhile isBlank, (trimLeft t).rtakeWhile isBlank, ?_, ?_, ?_⟩
  · intro c hc
    exact List.mem_takeWhile_imp hc
  · intro c hc
    exact List.mem_rtakeWhile_imp hc
  · have hleft : t.takeWhile isBlank ++ trimLeft t = t := List.takeWhile_append_dropWhile
    have hright : trimBoth t ++ (trimLeft t).rtakeWhile isBlank = trimLeft t :=
      List.rdropWhile_append_rtakeWhile
    rw [List.append_assoc, hright, hleft]

theorem head?_trimBoth (t : List Char) : ∀ c ∈ (trimBoth t).head?, isBlank c = false := by
  intro c hc
  obtain ⟨rest, hrest⟩ : trimBoth t <+: trimLeft t := List.rdropWhile_prefix isBlank _
  have hhead := List.head?_dropWhile_not isBlank t
  rw [show t.dropWhile isBlank = trimBoth t ++ rest from hrest.symm, List.head?_append,
    Option.mem_def.mp hc] at hhead
  exact hhead

theorem getLast?_trimBoth (t : List Char) : ∀ c ∈ (trimBoth t).getLast?, isBlank c = false := by
  intro c hc
  obtain ⟨hne, hlast⟩ := List.mem_getLast?_eq_getLast hc
  have hnot := List.rdropWhile_last_not isBlank (trimLeft t) hne
  rw [hlast]
  exact (Bool.not_eq_true _).mp hnot

/-- Trimming takes away the blanks around a text, and nothing of a text that is trimmed itself. -/
theorem trimBoth_padded {c : Char} (hc : isBlank c = false) (htrimmed : trimBoth (c :: t) = c :: t)
    (hbefore : ∀ d ∈ before, isBlank d = true) (hbehind : ∀ d ∈ behind, isBlank d = true) :
    trimBoth (before ++ (c :: t) ++ behind) = c :: t := by
  have hleft : trimLeft (before ++ (c :: t) ++ behind) = c :: t ++ behind := by
    rw [trimLeft, List.append_assoc, List.dropWhile_append_of_pos hbefore, List.cons_append,
      List.dropWhile_cons_of_neg (by simp [hc])]
  have hright : trimRight (c :: t ++ behind) = trimRight (c :: t) := by
    rw [trimRight, List.reverse_append, List.dropWhile_append_of_pos (by simpa using hbehind),
      trimRight]
  calc trimBoth (before ++ (c :: t) ++ behind)
    _ = trimRight (c :: t) := by rw [trimBoth, hleft, hright]
    _ = trimBoth (c :: t) := by rw [trimBoth_cons hc, trimRight_cons hc]
    _ = c :: t := htrimmed

end Trimmed

/-- The text is not empty, has no blanks at its ends, and no comma outside quotes and brackets. -/
structure Separate (part : String) : Prop where
  nonempty : part ≠ ""
  starts : ∀ c ∈ part.toList.head?, isBlank c = false
  ends : ∀ c ∈ part.toList.getLast?, isBlank c = false
  whole : top.Whole part.toList

/-- All quotes and brackets of the text end in it. -/
def Closed (part : String) : Prop :=
  top.after part.toList = top

instance decidableClosed (part : String) : Decidable (Closed part) :=
  inferInstanceAs (Decidable (top.after part.toList = top))

/-- The piece is the part with blanks on both sides. -/
def Pads (part piece : String) : Prop :=
  ∃ before behind : String, allBlank before = true ∧ allBlank behind = true ∧
    piece = before ++ part ++ behind

/-- The text lists the parts: between commas and blanks, each of them with an end of its own. -/
structure Lists (text : String) (parts : List String) : Prop where
  joined : ∃ pieces, List.Forall₂ Pads parts pieces ∧ text = joinWith "," pieces
  separate : ∀ part ∈ parts, Separate part
  closed : ∀ part ∈ parts.dropLast, Closed part

theorem allBlank_iff {text : String} : allBlank text = true ↔ ∀ c ∈ text.toList, isBlank c = true :=
  List.all_eq_true

theorem Separate.exists_cons {part : String} (h : Separate part) :
    ∃ c rest, part.toList = c :: rest ∧ isBlank c = false := by
  cases hpart : part.toList with
  | nil => exact absurd (String.toList_eq_nil_iff.mp hpart) h.nonempty
  | cons c rest => exact ⟨c, rest, rfl, h.starts c (by rw [hpart]; rfl)⟩

theorem separate_of_trim {part : String} (hne : part ≠ "") (htrim : trim part = part)
    (hwhole : top.Whole part.toList) : Separate part := by
  have htrimmed : trimBoth part.toList = part.toList := by
    conv_rhs => rw [← htrim, trim, String.toList_ofList]
  refine ⟨hne, ?_, ?_, hwhole⟩
  · rw [← htrimmed]
    exact head?_trimBoth _
  · rw [← htrimmed]
    exact getLast?_trimBoth _

section Pads

variable {part piece : String} {parts pieces : List String}

theorem pads_trim (piece : String) : Pads (trim piece) piece := by
  obtain ⟨before, behind, hbefore, hbehind, h⟩ := exists_blanks piece.toList
  refine ⟨String.ofList before, String.ofList behind, ?_, ?_, ?_⟩
  · rw [allBlank_iff, String.toList_ofList]
    exact hbefore
  · rw [allBlank_iff, String.toList_ofList]
    exact hbehind
  · apply String.toList_injective
    simp only [String.toList_append, String.toList_ofList, trim]
    exact h

theorem Pads.trim_eq (h : Pads part piece) (hpart : Separate part) : trim piece = part := by
  obtain ⟨before, behind, hbefore, hbehind, rfl⟩ := h
  obtain ⟨c, rest, hcons, hc⟩ := hpart.exists_cons
  have htrimmed := trimBoth_eq_self hpart.starts hpart.ends
  apply String.toList_injective
  rw [trim, String.toList_ofList, String.toList_append, String.toList_append]
  rw [hcons] at htrimmed ⊢
  exact trimBoth_padded hc htrimmed (allBlank_iff.mp hbefore) (allBlank_iff.mp hbehind)

theorem Pads.whole_iff (h : Pads part piece) : top.Whole piece.toList ↔ top.Whole part.toList := by
  obtain ⟨before, behind, hbefore, hbehind, rfl⟩ := h
  rw [allBlank_iff] at hbefore hbehind
  rw [String.toList_append, String.toList_append]
  constructor
  · intro h
    have hright := h.left.right
    rwa [after_blank hbefore] at hright
  · intro h
    refine whole_append (whole_append (whole_blank hbefore _) ?_) (whole_blank hbehind _)
    rwa [after_blank hbefore]

theorem Pads.closed_iff (h : Pads part piece) : Closed piece ↔ Closed part := by
  obtain ⟨before, behind, hbefore, hbehind, rfl⟩ := h
  rw [allBlank_iff] at hbefore hbehind
  rw [Closed, Closed, String.toList_append, String.toList_append, after_append, after_append,
    after_blank hbefore]
  constructor
  · intro h
    have hmarked : (top.after part.toList).quoting.Marked := marked_after (s := top) trivial _
    exact eq_top_of_after_blank hmarked hbehind h
  · intro h
    rw [h, after_blank hbehind]

/-- Closed parts with blanks around them are cut apart at the commas between them. -/
theorem cuts_joinWith (h : List.Forall₂ Pads parts pieces) (hne : parts ≠ [])
    (hwhole : ∀ part ∈ parts, top.Whole part.toList)
    (hclosed : ∀ part ∈ parts.dropLast, Closed part) :
    Cuts top (joinWith "," pieces).toList (pieces.map String.toList) := by
  induction h with
  | nil => exact absurd rfl hne
  | @cons part piece parts pieces hpads hrest ih =>
    rw [List.forall_mem_cons] at hwhole
    have hpiece := hpads.whole_iff.mpr hwhole.1
    cases hrest with
    | nil =>
      rw [joinWith, String.intercalate_singleton]
      exact .last hpiece
    | @cons part' piece' parts pieces hpads' hrest =>
      rw [List.dropLast_cons_of_ne_nil (by simp), List.forall_mem_cons] at hclosed
      have hcuts := ih (by simp) hwhole.2 hclosed.2
      have hjoin : (joinWith "," (piece :: piece' :: pieces)).toList =
          piece.toList ++ ',' :: (joinWith "," (piece' :: pieces)).toList := by
        simp [joinWith, String.intercalate_cons_cons]
      rw [hjoin]
      exact .cut hpiece (hpads.closed_iff.mpr hclosed.1) hcuts

theorem map_trim_of_pads (h : List.Forall₂ Pads parts pieces)
    (hseparate : ∀ part ∈ parts, Separate part) : pieces.map trim = parts := by
  induction h with
  | nil => rfl
  | cons hpads _ ih =>
    rw [List.forall_mem_cons] at hseparate
    rw [List.map_cons, hpads.trim_eq hseparate.1, ih hseparate.2]

theorem allBlank_joinWith (h : List.Forall₂ Pads parts pieces) (hne : parts ≠ [])
    (hseparate : ∀ part ∈ parts, Separate part) : allBlank (joinWith "," pieces) = false := by
  cases h with
  | nil => exact absurd rfl hne
  | cons hpads _ =>
    obtain ⟨before, behind, _, _, rfl⟩ := hpads
    obtain ⟨c, rest, hcons, hc⟩ := (hseparate _ List.mem_cons_self).exists_cons
    rw [Bool.eq_false_iff, ne_eq, allBlank_iff]
    intro hblank
    have hmem := hblank c (by
      rw [joinWith, String.toList_intercalate, List.map_cons]
      simp [Line.intercalate_cons, hcons])
    rw [hc] at hmem
    cases hmem

/-- A space behind each comma is a blank in front of the next part. -/
theorem joinWith_spaced (lead part : String) (parts : List String) :
    lead ++ joinWith ", " (part :: parts) =
      joinWith "," ((lead ++ part) :: parts.map (" " ++ ·)) := by
  induction parts generalizing lead part with
  | nil => simp [joinWith]
  | cons next parts ih =>
    have hcomma : ", " = "," ++ " " := rfl
    have hnext := ih " " next
    unfold joinWith at hnext ⊢
    rw [List.map_cons, String.intercalate_cons_cons, String.intercalate_cons_cons, ← hnext]
    simp only [hcomma, String.append_assoc]

theorem pads_self (part : String) : Pads part part :=
  ⟨"", "", rfl, rfl, by simp⟩

theorem pads_space (part : String) : Pads part (" " ++ part) :=
  ⟨" ", "", by decide, rfl, by simp⟩

end Pads

end Text

open Text

variable {text : String} {parts : List String}

theorem splitArguments_blank (h : allBlank text = true) : splitArguments text = .ok [] := by
  rw [splitArguments, if_pos h]

/-- The arguments of a text that is not blank are its trimmed pieces, unless one of them is
empty. -/
theorem splitArguments_cuts {pieces : List (List Char)} (h : allBlank text = false)
    (hcuts : Cuts .top text.toList pieces) :
    splitArguments text = .ok parts ↔
      parts = pieces.map (fun piece => trim (String.ofList piece)) ∧ "" ∉ parts := by
  have hpieces : splitCommas .outside 0 text.toList = pieces := hcuts.splitCommas_eq
  have hparts : (pieces.map trimBoth).map String.ofList =
      pieces.map fun piece => trim (String.ofList piece) := by
    simp [trim]
  have hempty : (pieces.map trimBoth).any List.isEmpty = true ↔
      "" ∈ (pieces.map trimBoth).map String.ofList := by
    simp [String.ofList_eq_empty_iff]
  unfold splitArguments
  simp only [h, hpieces, Bool.false_eq_true, if_false, hempty]
  split_ifs with hmem
  · rw [hparts] at hmem
    constructor
    · intro hok
      cases hok
    · rintro ⟨rfl, hnot⟩
      exact absurd hmem hnot
  · rw [hparts] at hmem ⊢
    constructor
    · intro hok
      obtain rfl := Except.ok.inj hok
      exact ⟨rfl, hmem⟩
    · rintro ⟨rfl, _⟩
      rfl

theorem lists_of_splitArguments (hne : parts ≠ []) (h : splitArguments text = .ok parts) :
    Lists text parts := by
  have hblank : allBlank text = false := by
    by_contra hblank
    rw [splitArguments_blank (by simpa using hblank)] at h
    exact hne (Except.ok.inj h).symm
  have hcuts := cuts_splitCommas .top text.toList
  obtain ⟨rfl, hempty⟩ := (splitArguments_cuts hblank hcuts).mp h
  generalize splitCommas Standing.top.quoting Standing.top.depth text.toList = pieces at *
  refine ⟨⟨pieces.map String.ofList, ?_, ?_⟩, ?_, ?_⟩
  · rw [List.forall₂_map_left_iff, List.forall₂_map_right_iff, List.forall₂_same]
    intro piece _
    exact pads_trim _
  · apply String.toList_injective
    rw [joinWith, String.toList_intercalate, List.map_map]
    simpa using hcuts.intercalate_eq.symm
  · rw [List.forall_mem_map]
    intro piece hpiece
    apply separate_of_trim
    · intro hnil
      exact hempty (List.mem_map.mpr ⟨piece, hpiece, hnil⟩)
    · simp only [trim, String.toList_ofList, trimBoth_trimBoth]
    · apply (pads_trim _).whole_iff.mp
      rw [String.toList_ofList]
      exact hcuts.whole rfl piece hpiece
  · rw [← List.map_dropLast, List.forall_mem_map]
    intro piece hpiece
    apply (pads_trim _).closed_iff.mp
    rw [Closed, String.toList_ofList]
    exact hcuts.closed rfl piece hpiece

theorem splitArguments_of_lists (hne : parts ≠ []) (h : Lists text parts) :
    splitArguments text = .ok parts := by
  obtain ⟨pieces, hpads, rfl⟩ := h.joined
  have hcuts := cuts_joinWith hpads hne (fun part hpart => (h.separate part hpart).whole) h.closed
  rw [splitArguments_cuts (allBlank_joinWith hpads hne h.separate) hcuts]
  constructor
  · rw [← map_trim_of_pads hpads h.separate]
    simp
  · intro hempty
    exact (h.separate "" hempty).nonempty rfl

theorem splitArguments_eq_nil_iff : splitArguments text = .ok [] ↔ allBlank text = true := by
  constructor
  · intro h
    by_contra hblank
    have hcuts := cuts_splitCommas .top text.toList
    have hnil := ((splitArguments_cuts (by simpa using hblank) hcuts).mp h).1
    exact hcuts.ne_nil (List.map_eq_nil_iff.mp hnil.symm)
  · exact splitArguments_blank

theorem lists_joinWith {pieces : List String} (hpads : List.Forall₂ Pads parts pieces)
    (hparts : ∀ part ∈ parts, Separate part ∧ Closed part) : Lists (joinWith "," pieces) parts where
  joined := ⟨pieces, hpads, rfl⟩
  separate part hpart := (hparts part hpart).1
  closed part hpart := (hparts part (List.dropLast_subset _ hpart)).2

theorem lists_joinWith_spaced (hne : parts ≠ [])
    (hparts : ∀ part ∈ parts, Separate part ∧ Closed part) : Lists (joinWith ", " parts) parts := by
  cases parts with
  | nil => exact absurd rfl hne
  | cons part parts =>
    have hjoin : joinWith ", " (part :: parts) = joinWith "," (part :: parts.map (" " ++ ·)) := by
      simpa using joinWith_spaced "" part parts
    rw [hjoin]
    apply lists_joinWith _ hparts
    apply List.Forall₂.cons (pads_self part)
    rw [List.forall₂_map_right_iff, List.forall₂_same]
    intro next _
    exact pads_space next

/-- The arguments of a call. There are none exactly if the text is blank. The text has arguments
exactly if it is a list of them: blanks around them aside, it is their join by commas, none of them
is empty or has blanks at its ends or a comma outside quotes and brackets, and each but the last
closes its quotes and brackets. Arguments that all close them come back from their join. -/
theorem splitArguments_inverts_join :
    (∀ text, splitArguments text = .ok [] ↔ ∀ c ∈ text.toList, isBlank c = true) ∧
      (∀ text parts, parts ≠ [] → (splitArguments text = .ok parts ↔ Lists text parts)) ∧
      ∀ parts, parts ≠ [] → (∀ part ∈ parts, Separate part ∧ Closed part) →
        splitArguments (joinWith ", " parts) = .ok parts ∧
          splitArguments (joinWith "," parts) = .ok parts := by
  refine ⟨?_, ?_, ?_⟩
  · intro text
    rw [splitArguments_eq_nil_iff, allBlank_iff]
  · intro text parts hne
    exact ⟨lists_of_splitArguments hne, splitArguments_of_lists hne⟩
  · intro parts hne hparts
    have hself : List.Forall₂ Pads parts parts := List.forall₂_same.mpr fun part _ => pads_self part
    exact ⟨splitArguments_of_lists hne (lists_joinWith_spaced hne hparts),
      splitArguments_of_lists hne (lists_joinWith hself hparts)⟩

/-- Commas in brackets and in quotes, and a bracket that closes nothing; then a bracket that is left
open. -/
theorem splitArguments_inverts_join_nested :
    splitArguments "f(a, [b, c]), \"x\\\", y\", )" = .ok ["f(a, [b, c])", "\"x\\\", y\"", ")"] ∧
      Lists " a ,(b, c " ["a", "(b, c"] := by
  have hparts : ∀ part ∈ ["f(a, [b, c])", "\"x\\\", y\"", ")"], Separate part ∧ Closed part := by
    simp only [List.forall_mem_cons]
    refine ⟨⟨?_, by decide +kernel⟩, ⟨?_, by decide +kernel⟩, ⟨?_, by decide +kernel⟩, by simp⟩
    · exact separate_of_trim (by decide) (by decide +kernel) (by decide +kernel)
    · exact separate_of_trim (by decide) (by decide +kernel) (by decide +kernel)
    · exact separate_of_trim (by decide) (by decide +kernel) (by decide +kernel)
  have hopen : splitArguments " a ,(b, c " = .ok ["a", "(b, c"] :=
    except_toOption_eq_some (by decide +kernel)
  exact ⟨(splitArguments_inverts_join.2.2 _ (by simp) hparts).1,
    (splitArguments_inverts_join.2.1 _ _ (by simp)).mp hopen⟩

end LineScript
