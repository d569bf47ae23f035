import LineScript.Proofs.Echoing

/-!
# Lines over alike stores

Scopes are alike if they differ in the log and in alike stores only. They echo each other then, with
no blocks in front and no scopes around. A line that can be applied to one of them, and is no
import, can therefore be applied to the other, and leads to alike scopes.
-/
namespace LineScript

variable {R : BlockId → List Element → List Element → Prop}

theorem except_bind_congr {α β : Type} {x y : Except Fault α} {f g : α → Except Fault β}
    (hxy : y = x) (hfg : ∀ a, x = .ok a → g a = f a) : (y >>= g) = (x >>= f) := by
  subst hxy
  cases y with
  | error fault => rfl
  | ok a => exact hfg a rfl

/-- What depends on the kind of a block only is the same in both stores. -/
theorem Store.Alike.block_bind {s t : Store} {α : Type} (h : s.Alike R t) (id : BlockId)
    {f : Block → Except Fault α} (hf : ∀ b b', b'.kind = b.kind → f b' = f b) :
    (t.block id >>= f) = (s.block id >>= f) := by
  unfold Store.block
  cases hid : s.get? id with
  | none => rw [h.get?_none hid]
  | some b =>
    obtain ⟨b', hb', hblock⟩ := h.block id b hid
    rw [hb']
    exact hf b b' hblock.kind

/-- Alike scopes as scopes that echo each other. -/
def Inert.echo (hR : Inert R) : Echo :=
  .inPlace 1 R hR.made hR.snoc hR.last

theorem Block.alike_iff_echoes {R : List Element → List Element → Prop} {b b' : Block} :
    b.Alike R b' ↔ b.Echoes 0 R b' := by
  constructor
  · rintro ⟨hkind, hclosed, hroot, helements⟩
    refine ⟨?_, hclosed, ?_, ?_⟩
    · rw [hkind, BlockKind.shift_zero]
    · rw [hroot]
      exact Option.map_id'.symm
    · rwa [Element.map_shift_zero]
  · rintro ⟨hkind, hclosed, hroot, helements⟩
    refine ⟨?_, hclosed, ?_, ?_⟩
    · rw [hkind, BlockKind.shift_zero]
    · rw [hroot]
      exact Option.map_id'
    · rwa [Element.map_shift_zero] at helements

theorem Store.alike_iff_echoes (hR : Inert R) {s t : Store} :
    s.Alike R t ↔ s.Echoes hR.echo t := by
  constructor
  · rintro ⟨hfresh, hsize, hnonempty, hblock⟩
    refine ⟨hfresh, hsize, hnonempty, fun id hid => absurd hid (Nat.not_lt_zero id), ?_⟩
    intro id b hb
    obtain ⟨b', hb', halike⟩ := hblock id b hb
    exact ⟨b', hb', Block.alike_iff_echoes.mp halike⟩
  · rintro ⟨hfresh, hsize, hbounded, _, hblock⟩
    refine ⟨hfresh, hsize, hbounded, ?_⟩
    intro id b hb
    obtain ⟨b', hb', hechoes⟩ := hblock id b hb
    exact ⟨b', hb', Block.alike_iff_echoes.mpr hechoes⟩

namespace Scopes

/-- Scopes that differ in the log and in the elements of blocks at most. -/
def Alike (R : BlockId → List Element → List Element → Prop) (s t : Scopes) : Prop :=
  ∃ store log, s.store.Alike R store ∧ t = { s with store := store, log := log }

theorem alike_iff_echoes (hR : Inert R) {s t : Scopes} : s.Alike R t ↔ s.Echoes hR.echo t := by
  have hshift : Scope.shift 0 [] = id := funext Scope.shift_zero
  constructor
  · rintro ⟨store, log, hstore, rfl⟩
    refine ⟨(Store.alike_iff_echoes hR).mp hstore, rfl, s.current.shift_zero.symm, ?_⟩
    exact ((List.append_nil _).trans (hshift ▸ List.map_id _)).symm
  · rintro ⟨hstore, hfile, hcurrent, houter⟩
    refine ⟨t.store, t.log, (Store.alike_iff_echoes hR).mpr hstore, ?_⟩
    have houter' : t.outer = s.outer :=
      houter.trans ((List.append_nil _).trans (hshift ▸ List.map_id _))
    have hcurrent' : t.current = s.current := hcurrent.trans s.current.shift_zero
    rw [← hfile, ← houter', ← hcurrent']

end Scopes

/-- Every line but an import repeats over alike scopes. -/
theorem Session.apply_repeats (hR : Inert R) {s t : Scopes} (hlinked : s.Linked) (hnamed : s.Named)
    (h : s.Alike R t) {c : Construct} (hc : c.isImport = false) :
    Repeats (Scopes.Alike R) (apply c) s t := by
  intro _ s' happly
  have hechoes := (Scopes.alike_iff_echoes hR).mp h
  obtain ⟨_, t', happly', rfl, hechoes'⟩ :=
    apply_simulates hlinked hnamed hechoes hc (fun _ => rfl) _ s' happly
  exact ⟨t', happly', (Scopes.alike_iff_echoes hR).mpr hechoes'⟩

end LineScript
