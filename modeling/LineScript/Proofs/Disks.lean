import LineScript.Disk
import LineScript.Proofs.Success

/-!
# What a write leaves on a disk

A write makes folders where nothing was and then puts one file in its place. All other entries stay
as they are, so that paths lead where they led before, and a text can be read until another write
comes to the same place.
-/
namespace LineScript

theorem Path.getLast?_splitOn_ne_nil {s : List Char} (h : s ≠ [])
    (hslash : s.getLast? ≠ some '/') : (s.splitOn '/').getLast? ≠ some [] := by
  induction s with
  | nil => exact absurd rfl h
  | cons c rest ih =>
    rw [List.splitOn_cons_eq_if_modifyHead]
    cases rest with
    | nil =>
      have hc : (c == '/') = false := by simpa using hslash
      rw [hc]
      simp
    | cons c' rest =>
      rw [List.getLast?_cons_cons] at hslash
      have hrest := ih (by simp) hslash
      cases hpieces : (c' :: rest).splitOn '/' with
      | nil => exact absurd hpieces (List.splitOn_ne_nil _ _)
      | cons piece pieces =>
        rw [hpieces] at hrest
        split_ifs
        · rwa [List.getLast?_cons_cons]
        · cases pieces with
          | nil => simp
          | cons piece' pieces =>
            rw [List.getLast?_cons_cons] at hrest
            rwa [List.modifyHead_cons, List.getLast?_cons_cons]

/-- A path that does not end with a slash ends with a part that is not empty. -/
theorem Path.parts_eq_append {path : String} (h : path ≠ "")
    (hslash : path.toList.getLast? ≠ some '/') :
    ∃ front last, Path.parts path = front ++ [last] ∧ last ≠ "" := by
  have hne : path.toList ≠ [] := fun hnil => h (String.toList_eq_nil_iff.mp hnil)
  have hend := getLast?_splitOn_ne_nil hne hslash
  rcases (path.toList.splitOn '/').eq_nil_or_concat with hnil | ⟨front, piece, hpieces⟩
  · exact absurd hnil (List.splitOn_ne_nil _ _)
  · rw [hpieces, List.concat_eq_append, List.getLast?_concat] at hend
    refine ⟨front.map String.ofList, String.ofList piece, ?_, ?_⟩
    · rw [Path.parts, hpieces, List.concat_eq_append, List.map_append, List.map_singleton]
    · intro hempty
      rw [String.ofList_eq_empty_iff] at hempty
      exact hend (congrArg some hempty)

namespace Disk

section Entries

theorem lookup_overwritten (entries : List (Place × DiskEntry)) (place q : Place)
    (entry : DiskEntry) :
    (entries.map fun item => if item.1 = place then (item.1, entry) else item).lookup q =
      if q = place then (entries.lookup q).map fun _ => entry else entries.lookup q := by
  induction entries with
  | nil => simp
  | cons item rest ih =>
    obtain ⟨p, e⟩ := item
    rw [List.map_cons, List.lookup_cons]
    by_cases hp : p = place
    · subst hp
      by_cases hq : q = p
      · subst hq
        simp
      · have hbeq : (q == p) = false := beq_eq_false_iff_ne.mpr hq
        rw [if_pos rfl, List.lookup_cons, hbeq, ih]
    · rw [if_neg hp, List.lookup_cons, ih]
      by_cases hq : q = place
      · subst hq
        have hbeq : (q == p) = false := beq_eq_false_iff_ne.mpr (Ne.symm hp)
        rw [hbeq]
      · rw [if_neg hq, if_neg hq]

theorem lookup_put (d : Disk) (place q : Place) (entry : DiskEntry) :
    (d.put place entry).entries.lookup q =
      if q = place then some entry else d.entries.lookup q := by
  unfold put
  split_ifs with hthere heq heq
  · obtain ⟨found, hfound⟩ := Option.isSome_iff_exists.mp hthere
    refine (lookup_overwritten d.entries place q entry).trans ?_
    rw [if_pos heq, heq, hfound, Option.map_some]
  · refine (lookup_overwritten d.entries place q entry).trans ?_
    rw [if_neg heq]
  · rw [Bool.not_eq_true, Option.isSome_eq_false_iff, Option.isNone_iff_eq_none] at hthere
    rw [List.lookup_append, heq, hthere, Option.none_or]
    exact List.lookup_cons_self
  · have hbeq : (q == place) = false := beq_eq_false_iff_ne.mpr heq
    rw [List.lookup_append, List.lookup_cons, hbeq, List.lookup_nil, Option.or_none]

theorem get?_put (d : Disk) (place : Place) (name : String) (entry : DiskEntry) (q : Place) :
    (d.put (place ++ [name]) entry).get? q =
      if q = place ++ [name] then some entry else d.get? q := by
  unfold get?
  rw [lookup_put]
  split_ifs with hroot hplace
  · rw [hroot] at hplace
    simp at hplace
  · rfl
  · rfl
  · rfl

@[simp] theorem working_put (d : Disk) (place : Place) (entry : DiskEntry) :
    (d.put place entry).working = d.working := by
  unfold put
  split_ifs <;> rfl

end Entries

/-- The second disk has all that the first one has. -/
structure Extends (d e : Disk) : Prop where
  working : e.working = d.working
  kept : ∀ place entry, d.get? place = some entry → e.get? place = some entry

/-- A text has come to a place, over a file or where nothing was, and all else is kept. -/
structure Rewrites (d : Disk) (place : Place) (text : String) (e : Disk) : Prop where
  working : e.working = d.working
  written : e.get? place = some (.file (.text text))
  vacant : d.get? place ≠ some .folder
  kept : ∀ q entry, q ≠ place → d.get? q = some entry → e.get? q = some entry

/-- What is on the first disk is on the second one, but that files may have been overwritten by
texts. -/
structure Follows (d e : Disk) : Prop where
  working : e.working = d.working
  kept : ∀ place entry, d.get? place = some entry →
    e.get? place = some entry ∨ entry ≠ .folder ∧ ∃ text, e.get? place = some (.file (.text text))

section Relations

variable {d e f : Disk} {place : Place} {text : String}

theorem Extends.refl (d : Disk) : Extends d d :=
  ⟨rfl, fun _ _ h => h⟩

theorem Extends.trans (h : Extends d e) (h' : Extends e f) : Extends d f :=
  ⟨h'.working.trans h.working, fun place entry hd => h'.kept _ _ (h.kept place entry hd)⟩

theorem Extends.follows (h : Extends d e) : Follows d e :=
  ⟨h.working, fun place entry hd => Or.inl (h.kept place entry hd)⟩

theorem Extends.rewrites (h : Extends d e) (h' : Rewrites e place text f) :
    Rewrites d place text f where
  working := h'.working.trans h.working
  written := h'.written
  vacant hd := h'.vacant (h.kept _ _ hd)
  kept q entry hq hd := h'.kept q entry hq (h.kept _ _ hd)

theorem Rewrites.follows (h : Rewrites d place text e) : Follows d e where
  working := h.working
  kept q entry hd := by
    by_cases hq : q = place
    · subst hq
      exact Or.inr ⟨fun hfolder => h.vacant (hfolder ▸ hd), text, h.written⟩
    · exact Or.inl (h.kept q entry hq hd)

theorem Follows.refl (d : Disk) : Follows d d :=
  (Extends.refl d).follows

theorem Follows.trans (h : Follows d e) (h' : Follows e f) : Follows d f where
  working := h'.working.trans h.working
  kept q entry hd := by
    rcases h.kept q entry hd with he | ⟨hfile, text, he⟩
    · exact h'.kept q entry he
    · refine Or.inr ⟨hfile, ?_⟩
      rcases h'.kept q _ he with hf | ⟨_, hf⟩
      · exact ⟨text, hf⟩
      · exact hf

end Relations

section Paths

variable {d e : Disk}

theorem isFolderAt_iff (d : Disk) (place : Place) :
    d.isFolderAt place = true ↔ d.get? place = some .folder :=
  beq_iff_eq

theorem Follows.isFolderAt (h : Follows d e) {place : Place} (hd : d.isFolderAt place = true) :
    e.isFolderAt place = true := by
  rw [isFolderAt_iff] at hd ⊢
  rcases h.kept place _ hd with he | ⟨hne, _⟩
  · exact he
  · exact absurd rfl hne

theorem Follows.start (h : Follows d e) (path : String) : e.start path = d.start path := by
  unfold Disk.start
  rw [h.working]

theorem Follows.step (h : Follows d e) {place next : Place} {part : String}
    (hd : d.step place part = .ok next) : e.step place part = .ok next := by
  unfold Disk.step at hd ⊢
  cases hfolder : d.isFolderAt place with
  | false =>
    rw [hfolder] at hd
    cases hd
  | true =>
    rw [hfolder] at hd
    rw [h.isFolderAt hfolder]
    simp only [Bool.not_true, Bool.false_eq_true, if_false] at hd ⊢
    split_ifs at hd ⊢
    · exact hd
    · exact hd
    · cases hentry : d.get? (place ++ [part]) with
      | none =>
        rw [hentry] at hd
        cases hd
      | some entry =>
        rw [hentry] at hd
        rcases h.kept _ _ hentry with he | ⟨_, text, he⟩
        · rw [he]
          exact hd
        · rw [he]
          exact hd

theorem Follows.foldlM_step (h : Follows d e) {parts : List String} {place next : Place}
    (hd : parts.foldlM d.step place = .ok next) : parts.foldlM e.step place = .ok next := by
  induction parts generalizing place with
  | nil => exact hd
  | cons part parts ih =>
    rw [List.foldlM_cons, except_bind_ok] at hd ⊢
    obtain ⟨middle, hstep, hrest⟩ := hd
    exact ⟨middle, h.step hstep, ih hrest⟩

theorem locate_ok_iff (d : Disk) (path : String) (place : Place) :
    d.locate path = .ok place ↔
      checkPath path = .ok () ∧ (Path.parts path).foldlM d.step (d.start path) = .ok place := by
  unfold locate
  rw [except_bind_ok]
  constructor
  · rintro ⟨_, hcheck, hparts⟩
    exact ⟨hcheck, hparts⟩
  · rintro ⟨hcheck, hparts⟩
    exact ⟨(), hcheck, hparts⟩

/-- A path leads to the same place as long as entries are only added and overwritten. -/
theorem Follows.locate (h : Follows d e) {path : String} {place : Place}
    (hd : d.locate path = .ok place) : e.locate path = .ok place := by
  rw [locate_ok_iff] at hd ⊢
  rw [h.start]
  exact ⟨hd.1, h.foldlM_step hd.2⟩

theorem read_ok_iff (d : Disk) (path text : String) :
    d.read path = .ok text ↔
      ∃ place, d.locate path = .ok place ∧ d.get? place = some (.file (.text text)) := by
  unfold read entry
  simp only [except_bind_ok]
  constructor
  · rintro ⟨found, ⟨place, hlocate, hfound⟩, hread⟩
    refine ⟨place, hlocate, ?_⟩
    cases hget : d.get? place with
    | none =>
      rw [hget] at hfound
      cases hfound
    | some entry =>
      rw [hget] at hfound
      obtain rfl := Except.ok.inj hfound
      split at hread
      · exact congrArg (fun content => some (DiskEntry.file (.text content))) (Except.ok.inj hread)
      · cases hread
      · cases hread
  · rintro ⟨place, hlocate, hget⟩
    refine ⟨.file (.text text), ⟨place, hlocate, ?_⟩, rfl⟩
    rw [hget]
    rfl

theorem read_congr {path path' : String} (h : d.locate path' = d.locate path) :
    d.read path' = d.read path := by
  unfold read entry
  rw [h]

/-- A text that can be read can be read later, although it may be another one. -/
theorem Follows.read (h : Follows d e) {path text : String} (hd : d.read path = .ok text) :
    ∃ later, e.read path = .ok later := by
  obtain ⟨place, hlocate, hget⟩ := (read_ok_iff _ _ _).mp hd
  rcases h.kept place _ hget with he | ⟨_, later, he⟩
  · exact ⟨text, (read_ok_iff _ _ _).mpr ⟨place, h.locate hlocate, he⟩⟩
  · exact ⟨later, (read_ok_iff _ _ _).mpr ⟨place, h.locate hlocate, he⟩⟩

end Paths

section Writing

variable {d e : Disk} {path text : String} {refusal : Refusal}

theorem extends_put {place : Place} {name : String} (h : d.get? (place ++ [name]) = none)
    (entry : DiskEntry) : Extends d (d.put (place ++ [name]) entry) where
  working := working_put _ _ _
  kept q found hq := by
    rw [get?_put, if_neg]
    · exact hq
    · rintro rfl
      rw [h] at hq
      cases hq

theorem extends_of_makeFolder (h : d.makeFolder path = .ok e) : Extends d e := by
  unfold makeFolder at h
  rw [except_bind_ok] at h
  obtain ⟨⟨place, name⟩, _, h⟩ := h
  dsimp only at h
  simp only [except_guard_ok, except_pure_ok, Option.isSome_iff_ne_none, not_not] at h
  obtain ⟨_, _, hfree, rfl⟩ := h
  exact extends_put hfree _

theorem extends_of_makeFoldersAlong {paths : List String} {result : Except Refusal Unit}
    (h : d.makeFoldersAlong paths = (result, e)) : Extends d e := by
  induction paths generalizing d e result with
  | nil =>
    obtain ⟨_, rfl⟩ := Prod.mk.inj h
    exact .refl d
  | cons path around ih =>
    unfold makeFoldersAlong at h
    split at h
    · rename_i made hmade
      obtain ⟨_, rfl⟩ := Prod.mk.inj h
      exact extends_of_makeFolder hmade
    · split at h
      · rename_i hfailed
        obtain ⟨_, rfl⟩ := Prod.mk.inj h
        exact ih hfailed
      · rename_i around hmade
        have haround := ih hmade
        split at h
        · rename_i made hlast
          obtain ⟨_, rfl⟩ := Prod.mk.inj h
          exact haround.trans (extends_of_makeFolder hlast)
        · obtain ⟨_, rfl⟩ := Prod.mk.inj h
          exact haround
    · split_ifs at h
      · obtain ⟨_, rfl⟩ := Prod.mk.inj h
        exact .refl d
      · obtain ⟨_, rfl⟩ := Prod.mk.inj h
        exact .refl d

theorem locateParent_ok {place : Place} {name : String} (hslash : path.toList.getLast? ≠ some '/')
    (h : d.locateParent path = .ok (place, name)) :
    checkPath path = .ok () ∧ d.isFolderAt place = true ∧ name ≠ "" ∧
      ∃ front, Path.parts path = front ++ [name] ∧
        front.foldlM d.step (d.start path) = .ok place := by
  unfold locateParent at h
  rw [except_bind_ok] at h
  obtain ⟨_, hcheck, h⟩ := h
  have hne : path ≠ "" := by
    rintro rfl
    cases hcheck
  obtain ⟨front, last, hparts, hlast⟩ := Path.parts_eq_append hne hslash
  have hreverse : (Path.parts path).reverse.dropWhile (· == "") = last :: front.reverse := by
    rw [hparts, List.reverse_append, List.reverse_singleton, List.singleton_append,
      List.dropWhile_cons_of_neg (by simpa using hlast)]
  rw [hreverse] at h
  dsimp only at h
  rw [List.reverse_reverse, except_bind_ok] at h
  obtain ⟨found, hfound, h⟩ := h
  split_ifs at h with hfolder
  obtain ⟨rfl, rfl⟩ := Prod.mk.inj (Except.ok.inj h)
  exact ⟨hcheck, hfolder, hlast, front, hparts, hfound⟩

/-- A text that has been moved to a path is found there. -/
theorem rewrites_of_replace (h : d.replace path text = .ok e) :
    ∃ place, e.locate path = .ok place ∧ Rewrites d place text e := by
  unfold replace at h
  dsimp only at h
  rw [except_guard_ok, except_bind_ok] at h
  obtain ⟨_, ⟨place, name⟩, hparent, h⟩ := h
  dsimp only at h
  rw [except_guard_ok, except_guard_ok, except_guard_ok] at h
  obtain ⟨hdots, hlong, hslash, h⟩ := h
  have hvacant : d.get? (place ++ [name]) ≠ some .folder := by
    intro hfolder
    rw [hfolder] at h
    cases h
  have hput : d.put (place ++ [name]) (.file (.text text)) = e := by
    split at h
    · cases h
    · exact Except.ok.inj h
  subst hput
  have hrewrites : Rewrites d (place ++ [name]) text
      (d.put (place ++ [name]) (.file (.text text))) := by
    refine ⟨working_put _ _ _, ?_, hvacant, ?_⟩
    · rw [get?_put, if_pos rfl]
    · intro q entry hq hd
      rw [get?_put, if_neg hq]
      exact hd
  obtain ⟨hcheck, hfolder, hname, front, hparts, hfront⟩ := locateParent_ok hslash hparent
  have hfollows := hrewrites.follows
  refine ⟨place ++ [name], (locate_ok_iff _ _ _).mpr ⟨hcheck, ?_⟩, hrewrites⟩
  rw [hparts, hfollows.start, List.foldlM_append, except_bind_ok]
  refine ⟨place, hfollows.foldlM_step hfront, ?_⟩
  rw [List.foldlM_cons, except_bind_ok]
  refine ⟨place ++ [name], ?_, rfl⟩
  rw [not_or] at hdots
  unfold step
  rw [hfollows.isFolderAt hfolder, if_neg (by simp), if_neg (by simp [hname, hdots.1]),
    if_neg hdots.2, if_neg hlong, hrewrites.written]

/-- A text that has been written to a path is found there, and no other entry has changed. -/
theorem rewrites_of_write (h : d.write path text = (.ok (), e)) :
    ∃ place, e.locate path = .ok place ∧ Rewrites d place text e := by
  unfold write at h
  dsimp only at h
  split at h
  · cases congrArg Prod.fst h
  · rename_i made hmade
    split at h
    · rename_i written hwritten
      obtain ⟨_, rfl⟩ := Prod.mk.inj h
      obtain ⟨place, hlocate, hrewrites⟩ := rewrites_of_replace hwritten
      exact ⟨place, hlocate, (extends_of_makeFoldersAlong hmade).rewrites hrewrites⟩
    · cases congrArg Prod.fst h

/-- A write that is refused leaves new folders at most. -/
theorem extends_of_write (h : d.write path text = (.error refusal, e)) : Extends d e := by
  unfold write at h
  dsimp only at h
  split at h
  · rename_i hfailed
    obtain ⟨_, rfl⟩ := Prod.mk.inj h
    exact extends_of_makeFoldersAlong hfailed
  · rename_i made hmade
    split at h
    · cases congrArg Prod.fst h
    · obtain ⟨_, rfl⟩ := Prod.mk.inj h
      exact extends_of_makeFoldersAlong hmade

end Writing

end Disk

end LineScript
