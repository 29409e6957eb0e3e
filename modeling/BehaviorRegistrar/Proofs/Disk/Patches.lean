import BehaviorRegistrar.Proofs.Disk.Changes
import Mathlib.Data.List.Infix

/-!
# Patches of a view

What is changed by several operations is written down once, as what becomes of each location.
Patches that agree where both change something can be applied in either order.
-/

namespace BehaviorRegistrar

namespace View

/-- Whether a file stands at a location or on the way to it. -/
def isBlocked (view : View) (location : Location) : Bool :=
  location.inits.any fun front => (view front).join.isSome

theorem isBlocked_iff {view : View} {location : Location} :
    view.isBlocked location = true ↔
      ∃ front contents, front <+: location ∧ view front = some (some contents) := by
  simp only [isBlocked, List.any_eq_true, List.mem_inits]
  constructor
  · rintro ⟨front, hfront, hsome⟩
    obtain ⟨contents, hcontents⟩ := Option.isSome_iff_exists.mp hsome
    exact ⟨front, contents, hfront, Option.join_eq_some_iff.mp hcontents⟩
  · rintro ⟨front, contents, hfront, hview⟩
    exact ⟨front, hfront, by simp [hview]⟩

def made (view : View) (location : Location) : View := fun other =>
  if other <+: location then some none else view other

theorem set_set (view : View) (location : Location) (first second : Option (Option Contents)) :
    (view.set location first).set location second = view.set location second := by
  funext other
  rw [set, set, set]
  split <;> rfl

theorem made_concat (view : View) (location : Location) (name : Name) :
    (view.made location).set (location ++ [name]) (some none) = view.made (location ++ [name]) := by
  funext other
  rw [set, made, made]
  by_cases heq : other = location ++ [name]
  · simp [heq]
  · simp [heq, List.prefix_concat_iff]

theorem made_made (view : View) {first second : Location} (h : first <+: second) :
    (view.made first).made second = view.made second := by
  funext other
  rw [made, made, made]
  by_cases hsecond : other <+: second
  · simp [hsecond]
  · have hfirst : ¬ other <+: first := fun hfirst => hsecond (hfirst.trans h)
    simp [hsecond, hfirst]

theorem isBlocked_made {view : View} {made location : Location}
    (h : view.isBlocked location = false) : (view.made made).isBlocked location = false := by
  rw [← Bool.not_eq_true, isBlocked_iff] at h ⊢
  rintro ⟨front, contents, hfront, hfile⟩
  rw [View.made] at hfile
  split at hfile
  · cases hfile
  · exact h ⟨front, contents, hfront, hfile⟩

theorem made_of_ne (view : View) (location : Location) (name : Name) :
    view.made location (location ++ [name]) = view (location ++ [name]) := by
  rw [made, if_neg]
  intro h
  have hlength := h.length_le
  simp only [List.length_append, List.length_singleton] at hlength
  omega

end View

/-- What becomes of the locations that are changed. -/
abbrev Patch := Location → Option (Option (Option Contents))

namespace Patch

def empty : Patch := fun _ => none

def directories (location : Location) : Patch := fun other =>
  if other <+: location then some (some none) else none

def set (patch : Patch) (location : Location) (what : Option (Option Contents)) : Patch :=
  fun other => if other = location then some what else patch other

theorem of_set {patch : Patch} {location other : Location} {what put : Option (Option Contents)}
    (h : patch.set location put other = some what) :
    patch other = some what ∨ other = location ∧ put = what := by
  rw [set] at h
  split at h
  · exact .inr ⟨‹_›, Option.some.inj h⟩
  · exact .inl h

end Patch

namespace View

def patched (view : View) (patch : Patch) : View := fun location =>
  (patch location).getD (view location)

theorem patched_directories (view : View) (location : Location) :
    view.patched (Patch.directories location) = view.made location := by
  funext other
  rw [patched, Patch.directories, made]
  split <;> rfl

theorem patched_set (view : View) (patch : Patch) (location : Location)
    (what : Option (Option Contents)) :
    view.patched (patch.set location what) = (view.patched patch).set location what := by
  funext other
  rw [patched, Patch.set, set, patched]
  split <;> rfl

/-- Patches that agree where both change something can be applied in either order. -/
theorem patched_comm {first second : Patch} (view : View)
    (h : ∀ location what other, first location = some what → second location = some other →
      what = other) :
    (view.patched first).patched second = (view.patched second).patched first := by
  funext location
  simp only [patched]
  cases hfirst : first location with
  | none => cases second location <;> rfl
  | some what =>
    cases hsecond : second location with
    | none => rfl
    | some other => simp [h location what other hfirst hsecond]

end View

theorem Disk.made_eq_view {disk : Disk} {location : Location} (h : disk.view location = some none) :
    disk.view.made location = disk.view := by
  funext other
  rw [View.made]
  split
  · rename_i hstart
    by_cases heq : other = location
    · rw [heq, h]
    · exact (view_above (by simp [h]) hstart heq).symm
  · rfl

end BehaviorRegistrar
