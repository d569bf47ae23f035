import LineScript.Proofs.Reads
import Mathlib.Data.List.Forall2

/-!
# Literals are read back

The native text of a literal is itself a literal of a line, and reading it gives the literal back,
with truth values as the numbers that they are written as. Numbers have to be spelled as numbers;
texts and keys are arbitrary.
-/
namespace LineScript

namespace Line

def IsDigits (s : List Char) : Prop :=
  s ≠ [] ∧ ∀ c ∈ s, c.isDigit = true

inductive IsUnsigned : List Char → Prop where
  | whole {s : List Char} (h : IsDigits s) : IsUnsigned s
  | fraction {s t : List Char} (hs : IsDigits s) (ht : IsDigits t) : IsUnsigned (s ++ '.' :: t)

/-- Digits with a point between them or none, and a minus sign in front of them or none. -/
inductive IsNumber : List Char → Prop where
  | unsigned {s : List Char} (h : IsUnsigned s) : IsNumber s
  | negative {s : List Char} (h : IsUnsigned s) : IsNumber ('-' :: s)

end Line

namespace Literal

section Leaves

variable (P Q : String → Prop)

mutual

/-- `P` holds of the numbers in the literal, and `Q` of its texts and keys. -/
def Forall : Literal → Prop
  | text content => Q content
  | number spelling => P spelling
  | truth _ => True
  | list items => ForallItems items
  | object fields => ForallFields fields
  | undefined => True

def ForallItems : List Literal → Prop
  | [] => True
  | item :: rest => item.Forall ∧ ForallItems rest

def ForallFields : List (String × Literal) → Prop
  | [] => True
  | (name, value) :: rest => Q name ∧ value.Forall ∧ ForallFields rest

end

end Leaves

/-- All numbers are spelled as numbers of a line. -/
def Numeric : Literal → Prop :=
  Forall (fun spelling => Line.IsNumber spelling.toList) fun _ => True

mutual

/-- Truth values as the numbers one and zero, at any depth. -/
def truthsAsNumbers : Literal → Literal
  | truth value => number (Perl.truth value)
  | list items => list (itemsAsNumbers items)
  | object fields => object (fieldsAsNumbers fields)
  | other => other

def itemsAsNumbers : List Literal → List Literal
  | [] => []
  | item :: rest => item.truthsAsNumbers :: itemsAsNumbers rest

def fieldsAsNumbers : List (String × Literal) → List (String × Literal)
  | [] => []
  | (name, value) :: rest => (name, value.truthsAsNumbers) :: fieldsAsNumbers rest

end

theorem toList_bracketed (items : List String) :
    (bracketed items).toList = '[' :: ([','].intercalate (items.map String.toList) ++ [']']) := by
  rw [bracketed, String.toList_append, String.toList_append, String.toList_intercalate]
  rfl

theorem toList_braced (fields : List String) :
    (braced fields).toList =
      '\x7b' :: ([','].intercalate (fields.map String.toList) ++ ['\x7d']) := by
  rw [braced, String.toList_append, String.toList_append, String.toList_intercalate]
  rfl

theorem toList_fieldText (name value : String) :
    (fieldText name value).toList =
      (Perl.key name).toList ++ ' ' :: '=' :: '>' :: ' ' :: value.toList := by
  rw [fieldText, String.toList_append, String.toList_append, List.append_assoc]
  rfl

end Literal

namespace Perl

theorem unescapeChars_cons {c : Char} (h : c ≠ '\\') (rest : List Char) :
    unescapeChars (c :: rest) = c :: unescapeChars rest := by
  conv_lhs => unfold unescapeChars
  split
  · rename_i heq
    cases heq
  · rename_i heq
    exact absurd (List.cons.inj heq).1 h
  · rename_i heq
    obtain ⟨rfl, rfl⟩ := List.cons.inj heq
    rfl

theorem unescapeChars_quoteBody (s : List Char) : unescapeChars (quoteBody s) = s := by
  induction s with
  | nil => rfl
  | cons c s ih =>
    rw [quoteBody_cons]
    rcases quoteChar_cases c with ⟨hchar, hc, _⟩ | ⟨d, hchar, _, hmeaning⟩
    · rw [hchar, List.singleton_append, unescapeChars_cons hc, ih]
    · rw [hchar, List.cons_append, List.singleton_append, unescapeChars, hmeaning, ih]

end Perl

namespace Line

open Phrase

theorem splitQuoted_cons {mark c : Char} (hc : c ≠ '\\') (hmark : c ≠ mark) (s : List Char) :
    splitQuoted mark (c :: s) =
      (splitQuoted mark s).map fun (body, after) => (c :: body, after) := by
  conv_lhs => unfold splitQuoted
  split
  · rename_i heq
    cases heq
  · rename_i heq
    exact absurd (List.cons.inj heq).1 hc
  · rename_i heq
    obtain ⟨rfl, rfl⟩ := List.cons.inj heq
    rw [if_neg hmark]

theorem splitQuoted_quoteBody (s tail : List Char) :
    splitQuoted '"' (Perl.quoteBody s ++ '"' :: tail) = some (Perl.quoteBody s, tail) := by
  induction s with
  | nil => rfl
  | cons c s ih =>
    rw [Perl.quoteBody_cons]
    rcases Perl.quoteChar_cases c with ⟨hchar, hc, hmark, _⟩ | ⟨d, hchar, _, _⟩
    · rw [hchar, List.singleton_append, List.cons_append, splitQuoted_cons hc hmark, ih,
        Option.map_some]
    · rw [hchar, List.cons_append, List.singleton_append, List.cons_append, List.cons_append,
        splitQuoted, ih, Option.map_some]

theorem splitString_quote (s : String) (tail : List Char) :
    splitString ((Perl.quote s).toList ++ tail) = some (Perl.quoteBody s.toList, tail) := by
  rw [Perl.toList_quote, List.cons_append, List.append_assoc, List.singleton_append, splitString,
    if_pos (by rfl), splitQuoted_quoteBody]

theorem string_reads (s : String) (tail : List Char) :
    string.Reads ((Perl.quote s).toList ++ tail) s (skipFiller tail) := by
  have hread : (splitString ((Perl.quote s).toList ++ tail)).map (fun (body, rest) =>
      (String.ofList (Perl.unescapeChars body), rest)) = some (s, tail) := by
    simp only [splitString_quote, Option.map_some, Perl.unescapeChars_quoteBody,
      String.ofList_toList]
  exact .named (.token hread)

section Misses

variable {c : Char} (s : List Char)

theorem string_misses (h : Text.isQuoteMark c = false) : string.Misses (c :: s) := by
  refine .named (.token ?_)
  rw [splitString, if_neg (by simp [h]), Option.map_none]

theorem number_misses (hdigit : c.isDigit = false) (hminus : c ≠ '-') :
    number.Misses (c :: s) := by
  have hdigits : splitDigits (c :: s) = none := by
    rw [splitDigits, List.takeWhile_cons_of_neg (by simp [hdigit])]
  refine word_misses ?_
  unfold splitNumber
  split
  · rename_i heq
    exact absurd (List.cons.inj heq).1 hminus
  · rw [splitUnsigned, hdigits]

theorem splitKeyword_misses {d : Char} {text : List Char} (h : c ≠ d) :
    splitKeyword (d :: text) (c :: s) = none := by
  rw [splitKeyword, dropText, if_neg (Ne.symm h)]

theorem truth_misses (htrue : c ≠ 't') (hfalse : c ≠ 'f') : truth.Misses (c :: s) := by
  have hfirst : splitKeyword "true".toList (c :: s) = none := splitKeyword_misses s htrue
  have hsecond : splitKeyword "false".toList (c :: s) = none := splitKeyword_misses s hfalse
  refine .named (.token ?_)
  simp only [hfirst, hsecond, Option.map_none]

theorem undefinedWord_misses (hundef : c ≠ 'u') (hnull : c ≠ 'n') :
    undefinedWord.Misses (c :: s) := by
  have hfirst : splitKeyword "undef".toList (c :: s) = none := splitKeyword_misses s hundef
  have hsecond : splitKeyword "null".toList (c :: s) = none := splitKeyword_misses s hnull
  refine .named (.token ?_)
  rw [hfirst, hsecond]
  rfl

end Misses

/-- The end of a text, or what may follow an entry of a list or of an object. -/
def EndsEntry (tail : List Char) : Prop :=
  ∀ c ∈ tail.head?, c = ',' ∨ c = ']' ∨ c = '\x7d'

namespace EndsEntry

variable {tail : List Char}

theorem nil : EndsEntry [] := by
  simp [EndsEntry]

theorem cons {c : Char} (h : c = ',' ∨ c = ']' ∨ c = '\x7d') (tail : List Char) :
    EndsEntry (c :: tail) := by
  simpa [EndsEntry] using h

theorem skipFiller (h : EndsEntry tail) : Line.skipFiller tail = tail := by
  cases tail with
  | nil => rfl
  | cons c tail => rcases h c rfl with rfl | rfl | rfl <;> rfl

theorem continuesName (h : EndsEntry tail) : ∀ c ∈ tail.head?, Text.continuesName c = false := by
  intro c hc
  rcases h c hc with rfl | rfl | rfl <;> rfl

theorem not_digit (h : EndsEntry tail) : ∀ c ∈ tail.head?, c.isDigit = false := by
  intro c hc
  rcases h c hc with rfl | rfl | rfl <;> rfl

end EndsEntry

theorem splitDigits_append {s tail : List Char} (hs : IsDigits s)
    (htail : ∀ c ∈ tail.head?, c.isDigit = false) : splitDigits (s ++ tail) = some (s, tail) := by
  have htake : (s ++ tail).takeWhile Char.isDigit = s := by
    rw [List.takeWhile_append_of_pos hs.2]
    cases tail with
    | nil => exact List.append_nil s
    | cons c tail => rw [List.takeWhile_cons_of_neg (by simp [htail c rfl]), List.append_nil]
  have hdrop : (s ++ tail).dropWhile Char.isDigit = tail := by
    rw [List.dropWhile_append_of_pos hs.2]
    cases tail with
    | nil => rfl
    | cons c tail => rw [List.dropWhile_cons_of_neg (by simp [htail c rfl])]
  obtain ⟨c, rest, rfl⟩ := List.exists_cons_of_ne_nil hs.1
  rw [splitDigits, htake, hdrop]

theorem splitUnsigned_append {s tail : List Char} (hs : IsUnsigned s) (htail : EndsEntry tail) :
    splitUnsigned (s ++ tail) = some (s, tail) := by
  cases hs with
  | whole h =>
    rw [splitUnsigned, splitDigits_append h htail.not_digit]
    cases tail with
    | nil => rfl
    | cons c tail => rcases htail c rfl with rfl | rfl | rfl <;> rfl
  | @fraction s t hs ht =>
    rw [List.append_assoc, List.cons_append, splitUnsigned, splitDigits_append hs (by simp)]
    simp only [splitDigits_append ht htail.not_digit]

theorem IsUnsigned.head_isDigit {s : List Char} (h : IsUnsigned s) :
    ∃ c rest, s = c :: rest ∧ c.isDigit = true := by
  have hdigits {s : List Char} (h : IsDigits s) : ∃ c rest, s = c :: rest ∧ c.isDigit = true := by
    obtain ⟨c, rest, rfl⟩ := List.exists_cons_of_ne_nil h.1
    exact ⟨c, rest, rfl, h.2 c List.mem_cons_self⟩
  cases h with
  | whole h => exact hdigits h
  | fraction hs _ =>
    obtain ⟨c, rest, rfl, hc⟩ := hdigits hs
    exact ⟨c, _, rfl, hc⟩

theorem splitNumber_append {s tail : List Char} (hs : IsNumber s) (htail : EndsEntry tail) :
    splitNumber (s ++ tail) = some (s, tail) := by
  cases hs with
  | negative h => rw [List.cons_append, splitNumber, splitUnsigned_append h htail, Option.map_some]
  | unsigned h =>
    have hsplit := splitUnsigned_append h htail
    obtain ⟨c, rest, rfl, hc⟩ := h.head_isDigit
    unfold splitNumber
    split
    · rename_i heq
      obtain rfl := (List.cons.inj heq).1
      cases hc
    · exact hsplit

theorem number_reads {n : String} (hn : IsNumber n.toList) {tail : List Char}
    (htail : EndsEntry tail) : number.Reads (n.toList ++ tail) n tail := by
  have h := word_reads (splitNumber_append hn htail)
  rwa [String.ofList_toList, htail.skipFiller] at h

/-- The phrase reads the text as the value, wherever the text stands as an entry. -/
structure Entry {α : Type} (p : Phrase α) (text : List Char) (a : α) : Prop where
  start : ∀ tail, skipFiller (text ++ tail) = text ++ tail
  reads : ∀ tail, EndsEntry tail → p.Reads (text ++ tail) a tail

section Entries

variable {α : Type} {p : Phrase α} {texts : List (List Char)} {values : List α} {c : Char}

theorem intercalate_cons (text : List Char) (texts : List (List Char)) :
    [','].intercalate (text :: texts) = text ++ texts.flatMap fun text => ',' :: text := by
  induction texts generalizing text with
  | nil => simp [List.intercalate]
  | cons next texts ih => rw [List.intercalate_cons_cons, ih, List.flatMap_cons]; simp

theorem length_le_flatMap (texts : List (List Char)) :
    texts.length ≤ (texts.flatMap fun text => ',' :: text).length := by
  induction texts with
  | nil => exact Nat.le_refl 0
  | cons text texts ih =>
    rw [List.flatMap_cons, List.length_append, List.length_cons, List.length_cons]
    omega

theorem length_le_intercalate {text : List Char} (h : text ∈ texts) :
    text.length ≤ ([','].intercalate texts).length := by
  have hmem {texts : List (List Char)} (h : text ∈ texts) :
      text.length ≤ (texts.flatMap fun text => ',' :: text).length := by
    obtain ⟨front, back, rfl⟩ := List.append_of_mem h
    rw [List.flatMap_append, List.flatMap_cons, List.length_append, List.length_append,
      List.length_cons]
    omega
  cases texts with
  | nil => cases h
  | cons first texts =>
    rw [intercalate_cons, List.length_append]
    rcases List.mem_cons.mp h with rfl | h
    · exact Nat.le_add_right _ _
    · exact Nat.le_add_left_of_le (hmem h)

variable (hc : c = ']' ∨ c = '\x7d') (tail : List Char)

include hc

theorem endsEntry_flatMap (texts : List (List Char)) :
    EndsEntry ((texts.flatMap fun text => ',' :: text) ++ c :: tail) := by
  cases texts with
  | nil => exact .cons (Or.inr hc) tail
  | cons text texts => exact .cons (Or.inl rfl) _

theorem readsAll_entries (h : List.Forall₂ (Entry p) texts values) :
    (symbol "," >>= fun _ => p).ReadsAll ((texts.flatMap fun text => ',' :: text) ++ c :: tail)
      values (c :: tail) := by
  induction h with
  | nil =>
    refine .nil (.bind (symbol_misses (d := ',') rfl ?_))
    rcases hc with rfl | rfl <;> decide
  | @cons text a texts values hfirst _ ih =>
    rw [List.flatMap_cons, List.append_assoc, List.cons_append]
    have hcomma := symbol_reads "," (text ++ ((texts.flatMap fun text => ',' :: text) ++ c :: tail))
    rw [hfirst.start] at hcomma
    exact .cons (hcomma.bind (hfirst.reads _ (endsEntry_flatMap hc tail texts))) ih

theorem entries_reads (h : List.Forall₂ (Entry p) texts values) (hend : p.Misses (c :: tail)) :
    (entries p).Reads ([','].intercalate texts ++ c :: tail) values (c :: tail) := by
  cases h with
  | nil => exact (Misses.optional (Misses.bind (Misses.bind hend))).bind (reads_pure _ _)
  | @cons text a texts values hfirst hrest =>
    have hothers := readsAll_entries hc tail hrest
    have hlength : values.length ≤
        ((texts.flatMap fun text => ',' :: text) ++ c :: tail).length := by
      have hle := length_le_flatMap texts
      rw [← hrest.length_eq, List.length_append]
      omega
    have hall : (commaSeparated p).Reads
        (text ++ ((texts.flatMap fun text => ',' :: text) ++ c :: tail)) (a :: values)
        (c :: tail) :=
      (hfirst.reads _ (endsEntry_flatMap hc tail texts)).bind
        ((hothers.many hlength).bind (reads_pure _ _))
    have hcomma : (symbol ",").Misses (c :: tail) := by
      refine symbol_misses (d := ',') rfl ?_
      rcases hc with rfl | rfl <;> decide
    rw [intercalate_cons, List.append_assoc]
    exact (hall.bind (hcomma.optional.bind (reads_pure (a :: values) _))).optional.bind
      (reads_pure _ _)

theorem skipFiller_entries (h : List.Forall₂ (Entry p) texts values) :
    skipFiller ([','].intercalate texts ++ c :: tail) = [','].intercalate texts ++ c :: tail := by
  cases h with
  | nil => rcases hc with rfl | rfl <;> rfl
  | cons hfirst _ => rw [intercalate_cons, List.append_assoc, hfirst.start]

/-- Entries between an opening and a closing mark. -/
theorem enclosed_reads (opening closing : String) {o : Char} (hopening : opening.toList = [o])
    (hclosing : closing.toList = [c]) (h : List.Forall₂ (Entry p) texts values)
    (hend : p.Misses (c :: tail)) :
    (symbol opening >>= fun _ => entries p >>= fun all => symbol closing >>= fun _ =>
      pure all : Phrase (List α)).Reads (o :: ([','].intercalate texts ++ c :: tail)) values
        (skipFiller tail) := by
  have hopen := symbol_reads opening ([','].intercalate texts ++ c :: tail)
  have hclose := symbol_reads closing tail
  rw [hopening, skipFiller_entries hc tail h] at hopen
  rw [hclosing] at hclose
  exact hopen.bind ((entries_reads hc tail h hend).bind (hclose.bind (reads_pure _ _)))

end Entries

theorem entry_of_head {α : Type} {p : Phrase α} {a : α} {c : Char} {more : List Char}
    (hspace : isSpace c = false) (hslash : c ≠ '/')
    (h : ∀ tail, EndsEntry tail → p.Reads (c :: more ++ tail) a tail) : Entry p (c :: more) a :=
  ⟨fun _ => skipFiller_cons hspace hslash, h⟩

theorem exists_cons_of_isName {s : List Char} (h : Text.isName s = true) :
    ∃ c rest, s = c :: rest ∧ Text.startsName c = true := by
  cases s with
  | nil => cases h
  | cons c rest =>
    rw [Text.isName, Bool.and_eq_true] at h
    exact ⟨c, rest, rfl, h.1⟩

theorem startsName_ne {c d : Char} (hc : Text.startsName c = true)
    (hd : Text.startsName d = false) : c ≠ d := by
  rintro rfl
  rw [hc] at hd
  cases hd

theorem isQuoteMark_of_startsName {c : Char} (h : Text.startsName c = true) :
    Text.isQuoteMark c = false := by
  rw [Bool.eq_false_iff]
  intro hmark
  simp only [Text.isQuoteMark, Bool.or_eq_true, beq_iff_eq] at hmark
  rcases hmark with rfl | rfl <;> exact absurd h (by decide)

theorem isSpace_of_startsName {c : Char} (h : Text.startsName c = true) : isSpace c = false := by
  rw [Bool.eq_false_iff]
  intro hspace
  simp only [isSpace, Bool.or_eq_true, beq_iff_eq] at hspace
  rcases hspace with rfl | rfl <;> exact absurd h (by decide)

/-- A key is read back before the arrow, be it bare or quoted. -/
theorem key_reads (k : String) (s : List Char) :
    (string <|> name).Reads ((Perl.key k).toList ++ ' ' :: '=' :: s) k ('=' :: s) := by
  unfold Perl.key
  split_ifs with hname
  · have hread : name.Reads (k.toList ++ ' ' :: '=' :: s) k _ :=
      name_reads hname (by simp; decide)
    refine Misses.either_reads ?_ hread
    obtain ⟨c, rest, hk, hstarts⟩ := exists_cons_of_isName hname
    rw [hk]
    exact string_misses _ (isQuoteMark_of_startsName hstarts)
  · exact (string_reads k (' ' :: '=' :: s)).either

theorem field_entry {item : Phrase Literal} {k value : String} {l : Literal}
    (h : Entry item value.toList l) :
    Entry (field item) (Literal.fieldText k value).toList (k, l) := by
  constructor
  · intro tail
    rw [Literal.toList_fieldText]
    unfold Perl.key
    split_ifs with hname
    · obtain ⟨c, rest, hk, hstarts⟩ := exists_cons_of_isName hname
      rw [hk]
      exact skipFiller_cons (isSpace_of_startsName hstarts) (startsName_ne hstarts rfl)
    · rw [Perl.toList_quote]
      exact skipFiller_cons rfl (by decide)
  · intro tail htail
    rw [Literal.toList_fieldText, List.append_assoc]
    have hcolon : (symbol ":").Misses ('=' :: '>' :: ' ' :: (value.toList ++ tail)) :=
      symbol_misses (d := ':') rfl (by decide)
    have harrow := symbol_reads "=>" (' ' :: (value.toList ++ tail))
    rw [skipFiller_space, h.start] at harrow
    exact .named ((key_reads k _).bind ((hcolon.either_reads harrow).bind
      ((h.reads tail htail).bind (reads_pure _ _))))

section Leaves

variable {depth : Nat}

theorem literalWithin_text (s : String) :
    Entry (literalWithin (depth + 1)) (Perl.quote s).toList (.text s) := by
  have hread (tail : List Char) := string_reads s tail
  rw [Perl.toList_quote] at hread ⊢
  refine entry_of_head rfl (by decide) fun tail htail => .named (.either ?_)
  have h := (hread tail).map Literal.text
  rwa [htail.skipFiller] at h

theorem literalWithin_number {n : String} (hn : IsNumber n.toList) :
    Entry (literalWithin (depth + 1)) n.toList (.number n) := by
  obtain ⟨c, more, hcons, hc⟩ : ∃ c more, n.toList = c :: more ∧ (c = '-' ∨ c.isDigit = true) := by
    generalize n.toList = s at hn
    cases hn with
    | negative h => exact ⟨'-', _, rfl, Or.inl rfl⟩
    | unsigned h =>
      obtain ⟨c, rest, rfl, hc⟩ := h.head_isDigit
      exact ⟨c, rest, rfl, Or.inr hc⟩
  have hne {d : Char} (hminus : d ≠ '-') (hd : d.isDigit = false) : c ≠ d := by
    rintro rfl
    rcases hc with hc | hc
    · exact hminus hc
    · rw [hd] at hc
      cases hc
  have hread (tail : List Char) (htail : EndsEntry tail) := number_reads hn htail
  rw [hcons] at hread ⊢
  refine entry_of_head ?_ (hne (by decide) rfl) fun tail htail => .named ?_
  · simp [isSpace, hne]
  · refine Misses.either_reads (Misses.map (string_misses _ ?_) _) ?_
    · simp [Text.isQuoteMark, hne]
    · exact ((hread tail htail).map Literal.number).either

theorem undefinedWord_reads {tail : List Char} (htail : EndsEntry tail) :
    undefinedWord.Reads ("undef".toList ++ tail) () tail := by
  have hsplit : splitKeyword "undef".toList ("undef".toList ++ tail) = some ((), tail) := by
    have hhead : (tail.head?.map Text.continuesName).getD false = false := by
      cases tail with
      | nil => rfl
      | cons c tail => exact htail.continuesName c rfl
    rw [splitKeyword, dropText_append]
    exact if_neg (by rw [hhead]; exact Bool.false_ne_true)
  have h : undefinedWord.Reads ("undef".toList ++ tail) () (skipFiller tail) :=
    .named (.token (by rw [hsplit]; rfl))
  rwa [htail.skipFiller] at h

theorem literalWithin_undefined :
    Entry (literalWithin (depth + 1)) "undef".toList .undefined := by
  refine entry_of_head (c := 'u') rfl (by decide) fun tail htail => .named ?_
  refine Misses.either_reads (.map (string_misses _ rfl) _) ?_
  refine Misses.either_reads (.map (number_misses _ rfl (by decide)) _) ?_
  refine Misses.either_reads (.map (truth_misses _ (by decide) (by decide)) _) ?_
  exact ((undefinedWord_reads htail).map fun () => Literal.undefined).either

/-- No literal starts with a closing mark. -/
theorem literalWithin_misses {c : Char} (hc : c = ']' ∨ c = '\x7d') (s : List Char) :
    (literalWithin depth).Misses (c :: s) := by
  cases depth with
  | zero => rfl
  | succ depth =>
    rcases hc with rfl | rfl
    all_goals
      refine .named (.either (.map (string_misses _ rfl) _) ?_)
      refine .either (.map (number_misses _ rfl (by decide)) _) ?_
      refine .either (.map (truth_misses _ (by decide) (by decide)) _) ?_
      refine .either (.map (undefinedWord_misses _ (by decide) (by decide)) _) ?_
      refine .either (.map (.named (.bind (symbol_misses (d := '[') rfl (by decide)))) _) ?_
      exact .map (.named (.bind (symbol_misses (d := '\x7b') rfl (by decide)))) _

theorem literalWithin_list {texts : List (List Char)} {items : List Literal}
    (h : List.Forall₂ (Entry (literalWithin depth)) texts items) :
    Entry (literalWithin (depth + 1)) ('[' :: ([','].intercalate texts ++ [']']))
      (.list items) := by
  refine entry_of_head rfl (by decide) fun tail htail => .named ?_
  have hread := enclosed_reads (Or.inl rfl) tail "[" "]" rfl rfl h
    (literalWithin_misses (Or.inl rfl) tail)
  rw [htail.skipFiller] at hread
  rw [List.cons_append, List.append_assoc, List.singleton_append]
  refine Misses.either_reads (.map (string_misses _ rfl) _) ?_
  refine Misses.either_reads (.map (number_misses _ rfl (by decide)) _) ?_
  refine Misses.either_reads (.map (truth_misses _ (by decide) (by decide)) _) ?_
  refine Misses.either_reads (.map (undefinedWord_misses _ (by decide) (by decide)) _) ?_
  exact (Reads.map (.named hread) Literal.list).either

theorem literalWithin_object {texts : List (List Char)} {fields : List (String × Literal)}
    (h : List.Forall₂ (Entry (field (literalWithin depth))) texts fields) :
    Entry (literalWithin (depth + 1)) ('\x7b' :: ([','].intercalate texts ++ ['\x7d']))
      (.object fields) := by
  refine entry_of_head rfl (by decide) fun tail htail => .named ?_
  have hend : (field (literalWithin depth)).Misses ('\x7d' :: tail) :=
    .named (.bind (.either (string_misses _ rfl) (name_misses rfl)))
  have hread := enclosed_reads (Or.inr rfl) tail "\x7b" "\x7d" rfl rfl h hend
  rw [htail.skipFiller] at hread
  rw [List.cons_append, List.append_assoc, List.singleton_append]
  refine Misses.either_reads (.map (string_misses _ rfl) _) ?_
  refine Misses.either_reads (.map (number_misses _ rfl (by decide)) _) ?_
  refine Misses.either_reads (.map (truth_misses _ (by decide) (by decide)) _) ?_
  refine Misses.either_reads (.map (undefinedWord_misses _ (by decide) (by decide)) _) ?_
  refine Misses.either_reads (.map (.named (.bind (symbol_misses (d := '[') rfl (by decide)))) _) ?_
  exact Reads.map (.named hread) Literal.object

end Leaves

theorem isNumber_truth (b : Bool) : IsNumber (Perl.truth b).toList := by
  cases b <;> exact .unsigned (.whole ⟨by decide, List.all_eq_true.mp (by decide)⟩)

mutual

/-- The bound on the nesting is the length of the text: every bracket takes a character. -/
theorem native_entry : (l : Literal) → l.Numeric → (depth : Nat) →
    l.native.toList.length ≤ depth →
    Entry (literalWithin (depth + 1)) l.native.toList l.truthsAsNumbers
  | .text content, _ => fun _ _ => literalWithin_text content
  | .number _, hnumber => fun _ _ => literalWithin_number hnumber
  | .truth value, _ => fun _ _ => literalWithin_number (isNumber_truth value)
  | .undefined, _ => fun _ _ => literalWithin_undefined
  | .list items, hitems => by
    intro depth hdepth
    rw [Literal.native, Literal.toList_bracketed] at hdepth ⊢
    rw [List.length_cons, List.length_append, List.length_singleton] at hdepth
    obtain ⟨depth, rfl⟩ := Nat.exists_eq_add_one_of_ne_zero (Nat.ne_zero_of_lt hdepth)
    refine literalWithin_list (items_entries items hitems depth fun text htext => ?_)
    have hle := length_le_intercalate (List.mem_map_of_mem (f := String.toList) htext)
    omega
  | .object fields, hfields => by
    intro depth hdepth
    rw [Literal.native, Literal.toList_braced] at hdepth ⊢
    rw [List.length_cons, List.length_append, List.length_singleton] at hdepth
    obtain ⟨depth, rfl⟩ := Nat.exists_eq_add_one_of_ne_zero (Nat.ne_zero_of_lt hdepth)
    refine literalWithin_object (fields_entries fields hfields depth fun text htext => ?_)
    have hle := length_le_intercalate (List.mem_map_of_mem (f := String.toList) htext)
    omega

theorem items_entries : (items : List Literal) →
    Literal.ForallItems (fun spelling => IsNumber spelling.toList) (fun _ => True) items →
    (depth : Nat) → (∀ text ∈ Literal.nativeItems items, text.toList.length ≤ depth) →
    List.Forall₂ (Entry (literalWithin (depth + 1)))
      ((Literal.nativeItems items).map String.toList) (Literal.itemsAsNumbers items)
  | [], _, _, _ => .nil
  | item :: rest, hitems, depth, hdepth => by
    have hrest (text : String) (htext : text ∈ Literal.nativeItems rest) :
        text.toList.length ≤ depth := hdepth text (List.mem_cons_of_mem _ htext)
    exact .cons (native_entry item hitems.1 depth (hdepth _ List.mem_cons_self))
      (items_entries rest hitems.2 depth hrest)

theorem fields_entries : (fields : List (String × Literal)) →
    Literal.ForallFields (fun spelling => IsNumber spelling.toList) (fun _ => True) fields →
    (depth : Nat) → (∀ text ∈ Literal.nativeFields fields, text.toList.length ≤ depth) →
    List.Forall₂ (Entry (field (literalWithin (depth + 1))))
      ((Literal.nativeFields fields).map String.toList) (Literal.fieldsAsNumbers fields)
  | [], _, _, _ => .nil
  | (name, value) :: rest, hfields, depth, hdepth => by
    have hvalue : value.native.toList.length ≤ depth := by
      have hfirst := hdepth _ List.mem_cons_self
      rw [Literal.toList_fieldText, List.length_append] at hfirst
      simp only [List.length_cons] at hfirst
      omega
    have hrest (text : String) (htext : text ∈ Literal.nativeFields rest) :
        text.toList.length ≤ depth := hdepth text (List.mem_cons_of_mem _ htext)
    exact .cons (field_entry (native_entry value hfields.2.1 depth hvalue))
      (fields_entries rest hfields.2.2 depth hrest)

end

theorem literal_apply (s : List Char) : literal s = literalWithin (s.length + 1) s :=
  rfl

/-- The text of a literal is read as the literal, up to its end. -/
theorem literal_reads (l : Literal) (hl : l.Numeric) :
    literal.Reads l.native.toList l.truthsAsNumbers [] := by
  have hread := (native_entry l hl _ (Nat.le_refl _)).reads [] .nil
  rw [List.append_nil] at hread
  unfold Reads at hread ⊢
  rw [literal_apply, hread]

end Line

end LineScript
