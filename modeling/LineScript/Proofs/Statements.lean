import LineScript.Proofs.Expressions
import LineScript.Proofs.Laid

/-!
# Texts of statements

Every statement that a line becomes is a line of the generated program, or a few of them. No such
line has blanks at its ends, and brackets close within each line.
-/
namespace LineScript

open Text Layout

theorem Value.sentence_declaration {v : Value} {name : String} (hv : v.Tidy true)
    (hname : v.name = some name) (hisName : IsName name)
    {routineText : BlockId → Except Fault String} {t : String}
    (h : v.declaration routineText = .ok t) : Sentence t := by
  obtain ⟨expression, hexpression, h⟩ := (except_bind_ok _ _ _).mp h
  have hpaired : Paired true expression := hv _ _ hexpression
  rw [hname] at h
  obtain rfl := (except_pure_ok _ _).mp h
  have hmy : Paired true "my $" := fun _ => rfl
  have hequals : Paired true " = " := fun _ => rfl
  have hnamed := (hmy.append (Paired.name true hisName)).append hequals
  exact .intro (startsSolid_append (startsSolid_append (startsSolid_append rfl _) _) _)
    (hnamed.append hpaired) ";" rfl fun _ => rfl

theorem MethodCall.startsSolid_on {receiver : Variable} {method : String}
    {arguments : List Argument} {routineText : BlockId → Except Fault String} {t : String}
    (h : (MethodCall.on receiver method arguments).expression routineText = .ok t) :
    startsSolid t = true := by
  obtain ⟨texts, _, h⟩ := (except_bind_ok _ _ _).mp h
  obtain rfl := (except_pure_ok _ _).mp h
  have hreference : startsSolid receiver.reference = true := startsSolid_append rfl _
  simp only [applied, String.append_assoc]
  exact startsSolid_append hreference _

theorem Return.sentence_text {r : Return} {routineText : BlockId → Except Fault String}
    {t : String}
    (hvalues : ∀ value ∈ r.values, ∀ text, valueText routineText value = .ok text →
      Paired true text)
    (h : r.text routineText = .ok t) : Sentence t := by
  obtain ⟨texts, htexts, h⟩ := (except_bind_ok _ _ _).mp h
  have hpaired : ∀ text ∈ texts, Paired true text := by
    intro text hmem
    obtain ⟨value, hvalue, htext⟩ := exists_of_mem_mapM htexts hmem
    exact hvalues value hvalue text htext
  have hreturn : Paired true "return " := fun _ => rfl
  split_ifs at h
  · obtain rfl := (except_pure_ok _ _).mp h
    have hcomma : Paired true "," := fun _ => rfl
    have hopening : Passes true [] "return (" [')'] := fun _ => rfl
    exact .intro (startsSolid_append rfl _)
      (hopening.append ((hcomma.joinWith hpaired).frame _)) ");" rfl fun _ => rfl
  · cases texts with
    | nil =>
      obtain rfl := (except_pure_ok _ _).mp h
      exact .intro rfl (fun _ => rfl : Paired true "return") ";" rfl fun _ => rfl
    | cons text rest =>
      obtain rfl := (except_pure_ok _ _).mp h
      exact .intro (startsSolid_append rfl _)
        (hreturn.append (hpaired text List.mem_cons_self)) ";" rfl fun _ => rfl

/-- A message is a variable or a paired text. -/
def Message.Tidy : Message → Prop
  | .value content => IsName content.name
  | .raw text => Paired true text
  | .empty => True

theorem Print.sentence_raw {text : String} (h : Paired true text) (newline : Bool) :
    Sentence (Print.text ⟨.raw text, newline⟩) := by
  have hopening : Passes true [] "print(" [')'] := fun _ => rfl
  simp only [Print.text]
  split
  · exact .intro rfl hopening "\"\\n\");" rfl fun _ => rfl
  · exact .intro rfl hopening "\"\");" rfl fun _ => rfl
  · exact .intro (startsSolid_append rfl _) (hopening.append (h.frame _)) ".\"\\n\");" rfl
      fun _ => rfl
  · exact .intro (startsSolid_append rfl _) (hopening.append (h.frame _)) ");" rfl fun _ => rfl

theorem Print.sentence_text {p : Print} (h : p.message.Tidy) : Sentence p.text := by
  obtain ⟨message, newline⟩ := p
  cases message with
  | value content => exact Print.sentence_raw (paired_accessor h) newline
  | raw text => exact Print.sentence_raw h newline
  | empty => exact Print.sentence_raw (fun _ => rfl : Paired true "") newline

section Binding

variable {p : BoundParameter} (hname : IsName p.name) (hwrap : ∀ cls ∈ p.wrap, Paired true cls)

include hname hwrap

theorem Binding.spelled_wrapText : Spelled (wrapText p) := by
  unfold wrapText
  split
  · rename_i cls hcls
    have hsigil : Paired true "$" := fun _ => rfl
    have hequals : Paired true " = " := fun _ => rfl
    have hnew : Passes true [] "->new($" [')'] := fun _ => rfl
    have hisName : Paired true p.name := .name true hname
    have hassigned := ((hsigil.append hisName).append hequals).append (hwrap cls hcls)
    refine .sentence (.intro ?_ ((hassigned.append hnew).append (hisName.frame _)) ");" rfl
      fun _ => rfl)
    simp only [String.append_assoc]
    exact startsSolid_append rfl _
  · exact .empty

theorem Binding.spelled_shiftText : Spelled (shiftText p) := by
  have hmy : Paired true "my $" := fun _ => rfl
  have hequals : Paired true " = " := fun _ => rfl
  have hisName : Paired true p.name := .name true hname
  unfold shiftText
  split
  · rename_i cls hcls
    refine .sentence (.intro ?_ (((hmy.append hisName).append hequals).append (hwrap cls hcls))
      "->new(shift);" rfl fun _ => rfl)
    simp only [String.append_assoc]
    exact startsSolid_append rfl _
  · exact .sentence (.intro (startsSolid_append rfl _) (hmy.append hisName) " = shift;" rfl
      fun _ => rfl)

end Binding

theorem Binding.spelled_text {b : Binding}
    (h : ∀ p ∈ b.parameters, IsName p.name ∧ ∀ cls ∈ p.wrap, Paired true cls) :
    Spelled b.text := by
  unfold Binding.text
  split
  · exact .empty
  · have hcomma : Paired true ", " := fun _ => rfl
    have hopening : Passes true [] "my (" [')'] := fun _ => rfl
    have hnames : ∀ name ∈ b.names.map ("$" ++ ·), Paired true name := by
      rw [List.forall_mem_map, Binding.names, List.forall_mem_map]
      intro p hp
      have hsigil : Paired true "$" := fun _ => rfl
      exact hsigil.append (Paired.name true (h p hp).1)
    refine .append (.sentence (.intro (startsSolid_append rfl _)
      (hopening.append ((hcomma.joinWith hnames).frame _)) ") = @_;" rfl fun _ => rfl)) (.join ?_)
    rw [List.forall_mem_map]
    exact fun p hp => spelled_wrapText (h p hp).1 (h p hp).2
  · refine .join ?_
    rw [List.forall_mem_map]
    exact fun p hp => spelled_shiftText (h p hp).1 (h p hp).2

section ModulePath

variable {s : List Char} {c : Char}

theorem splitDoubleColons_ne_nil (s : List Char) : splitDoubleColons s ≠ [] := by
  fun_induction splitDoubleColons s with
  | case1 => simp
  | case2 rest ih => simp
  | case3 d rest _ ih => simpa using ih

theorem mem_splitDoubleColons (h : c ∈ s) : c = ':' ∨ ∃ piece ∈ splitDoubleColons s, c ∈ piece := by
  fun_induction splitDoubleColons s with
  | case1 => cases h
  | case2 rest ih =>
    rcases List.mem_cons.mp h with rfl | h
    · exact Or.inl rfl
    rcases List.mem_cons.mp h with rfl | h
    · exact Or.inl rfl
    · exact (ih h).imp_right fun ⟨piece, hpiece, hc⟩ => ⟨piece, List.mem_cons_of_mem _ hpiece, hc⟩
  | case3 d rest _ ih =>
    obtain ⟨first, others, hsplit⟩ := List.exists_cons_of_ne_nil (splitDoubleColons_ne_nil rest)
    rw [hsplit] at ih
    rw [hsplit, List.modifyHead_cons]
    rcases List.mem_cons.mp h with rfl | h
    · exact Or.inr ⟨c :: first, List.mem_cons_self, List.mem_cons_self⟩
    · refine (ih h).imp_right fun ⟨piece, hpiece, hc⟩ => ?_
      rcases List.mem_cons.mp hpiece with rfl | hpiece
      · exact ⟨d :: piece, List.mem_cons_self, List.mem_cons_of_mem _ hc⟩
      · exact ⟨piece, List.mem_cons_of_mem _ hpiece, hc⟩

theorem paired_modulePath {path module : String} (h : modulePath path = .ok module) :
    Paired true module := by
  simp only [modulePath] at h
  split_ifs at h with hnames
  obtain rfl := Except.ok.inj h
  rw [List.all_eq_true] at hnames
  refine .neutral (fun c hc => ?_) fun c hc => ?_
  · rw [String.toList_ofList] at hc
    rcases mem_splitDoubleColons hc with rfl | ⟨piece, hpiece, hc⟩
    · rfl
    · exact fits_of_continuesName true (continuesName_of_isName (hnames piece hpiece) c hc)
  · rw [String.toList_ofList] at hc
    rcases mem_splitDoubleColons hc with rfl | ⟨piece, hpiece, hc⟩
    · rfl
    · exact isNeutral_of_continuesName (continuesName_of_isName (hnames piece hpiece) c hc)

end ModulePath

theorem Dependency.sentence_text {path : String} {symbols : Option (List String)} {d : Dependency}
    (hsymbols : ∀ names ∈ symbols, ∀ name ∈ names, IsName name)
    (h : Dependency.make path symbols = .ok d) : Sentence d.text := by
  obtain ⟨module, hmodule, h⟩ := (except_bind_ok _ _ _).mp h
  obtain rfl := (except_pure_ok _ _).mp h
  have huse : Paired true "use " := fun _ => rfl
  have hpath : Paired true module := paired_modulePath hmodule
  unfold Dependency.text
  split
  · rename_i names hnames
    have hspace : Paired true " " := fun _ => rfl
    have hopening : Passes true [] " qw(" [')'] := fun _ => rfl
    have hpaired : ∀ name ∈ names, Paired true name := fun name hname =>
      .name true (hsymbols names (Option.eq_some_of_filter_eq_some hnames) name hname)
    exact .intro (startsSolid_append (startsSolid_append (startsSolid_append rfl _) _) _)
      (((huse.append hpath).append hopening).append ((hspace.joinWith hpaired).frame _)) ");" rfl
      fun _ => rfl
  · exact .intro (startsSolid_append rfl _) (huse.append hpath) ";" rfl fun _ => rfl

theorem continuesName_toString (n : Nat) : ∀ c ∈ (toString n).toList, continuesName c = true := by
  have hdigits : (toString n).toList = Nat.toDigits 10 n := String.toList_ofList
  intro c hc
  rw [hdigits] at hc
  have hdigit := Nat.isDigit_of_mem_toDigits (by decide) (by decide) hc
  simp [continuesName, Char.isAlphanum, hdigit]

theorem paired_nat (n : Nat) : Paired true (toString n) :=
  .neutral (fun c hc => fits_of_continuesName true (continuesName_toString n c hc)) fun c hc =>
    isNeutral_of_continuesName (continuesName_toString n c hc)

/-- Names that are made up are names. -/
theorem isName_fresh {stem : String} (hstem : IsName stem) (n : Nat) :
    IsName (stem ++ toString n) := by
  unfold IsName at hstem ⊢
  rw [String.toList_append]
  cases hchars : stem.toList with
  | nil =>
    rw [hchars] at hstem
    cases hstem
  | cons c rest =>
    rw [hchars, isName, Bool.and_eq_true] at hstem
    rw [List.cons_append, isName, hstem.1, Bool.true_and, List.all_append, hstem.2, Bool.true_and,
      List.all_eq_true]
    exact continuesName_toString n

theorem paired_int (code : Int) : Paired true (toString code) := by
  cases code with
  | ofNat n => exact paired_nat n
  | negSucc n =>
    have hminus : Paired true "-" := fun _ => rfl
    exact hminus.append (paired_nat (n + 1))

theorem sentence_exit (code : Int) : Sentence s!"exit({code});\n" := by
  have hopening : Passes true [] "exit(" [')'] := fun _ => rfl
  exact .intro (startsSolid_append rfl _) (hopening.append ((paired_int code).frame _)) ");" rfl
    fun _ => rfl

end LineScript
