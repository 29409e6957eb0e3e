import BehaviorRegistrar.Proofs.Disk.Following

/-!
# Spellings of a path

What a path resolves to is told by rules on its parts, one for each kind of part, and resolving a path
finds exactly that. A path can be spelled in many ways: with more slashes, with `.`, with a detour into a
directory and back, or taken from another directory. However it is spelled again, it resolves to the
same entry.
-/

namespace BehaviorRegistrar.Disk

/-- Where parts lead from a location. A part that stands for nothing stays in a directory, `..` leads to
the directory that holds it, and a name to an entry of it that is not too deep. -/
inductive Follows (disk : Disk) : Location → List (List Char) → Location → Prop
  | done (location : Location) : Follows disk location [] location
  | stay {location reached : Location} {part : List Char} {rest : List (List Char)}
      (hdirectory : disk.view location = some none) (hpart : Path.component? part = none)
      (hrest : Follows disk location rest reached) : Follows disk location (part :: rest) reached
  | up {location reached : Location} {part : List Char} {rest : List (List Char)}
      (hdirectory : disk.view location = some none) (hpart : Path.component? part = some .up)
      (hrest : Follows disk location.dropLast rest reached) :
      Follows disk location (part :: rest) reached
  | down {location reached : Location} {part : List Char} {name : Name} {rest : List (List Char)}
      (hdirectory : disk.view location = some none)
      (hpart : Path.component? part = some (.name name))
      (hshort : Text.byteLength name ≤ nameLimit) (hentry : disk.view (location ++ [name]) ≠ none)
      (hshallow : isDeep (location ++ [name]) rest = false)
      (hrest : Follows disk (location ++ [name]) rest reached) :
      Follows disk location (part :: rest) reached

/-- Whether a path resolves to a location. The empty path does to none. -/
def ResolvesTo (disk : Disk) (path : Path) (location : Location) : Prop :=
  path.spelling ≠ [] ∧ disk.Follows (disk.start path) path.parts location

def Resolves (disk : Disk) (path : Path) : Prop := ∃ location, disk.ResolvesTo path location

/-- Whether a path leads to an entry, however deep that lies. -/
def Leads (disk : Disk) (path : Path) : Prop := ∃ location, disk.locate path = .ok location

/-- Whether two paths resolve to the same entry. -/
def Coincide (disk : Disk) (first second : Path) : Prop :=
  ∃ location, disk.ResolvesTo first location ∧ disk.ResolvesTo second location

variable {disk : Disk} {path other base : Path} {location reached : Location}
  {parts : List (List Char)}

theorem follow_eq_ok_iff_component {part : List Char} :
    disk.follow location part = .ok reached ↔
      disk.view location = some none ∧
        match Path.component? part with
        | none => reached = location
        | some .up => reached = location.dropLast
        | some (.name name) => reached = location ++ [name] ∧
            Text.byteLength name ≤ nameLimit ∧ disk.view reached ≠ none
        | some _ => False := by
  rw [follow_eq_ok_iff]
  fun_cases Path.component? part <;> simp_all [enter]

theorem resolveAll_cons_eq_ok_iff {part : List Char} {rest : List (List Char)} :
    disk.resolveAll location (part :: rest) = .ok reached ↔
      ∃ next, disk.follow location part = .ok next ∧
        (location.length < next.length → isDeep next rest = false) ∧
          disk.resolveAll next rest = .ok reached := by
  rw [resolveAll, resolvePart]
  cases hfollow : disk.follow location part with
  | error fault => simp
  | ok next =>
    by_cases hdown : location.length < next.length
    · cases hdeep : isDeep next rest <;> simp [hdown, hdeep]
    · simp [hdown]

/-- Resolving parts finds exactly where they lead. -/
theorem follows_iff : disk.Follows location parts reached ↔
    disk.resolveAll location parts = .ok reached := by
  constructor
  · intro h
    induction h with
    | done location => rfl
    | stay hdirectory hpart _ ih =>
      exact resolveAll_cons_eq_ok_iff.mpr
        ⟨_, follow_eq_ok_iff_component.mpr ⟨hdirectory, by rw [hpart]⟩, by simp, ih⟩
    | up hdirectory hpart _ ih =>
      exact resolveAll_cons_eq_ok_iff.mpr
        ⟨_, follow_eq_ok_iff_component.mpr ⟨hdirectory, by rw [hpart]⟩,
          fun hdown => absurd (List.length_dropLast ▸ hdown) (by omega), ih⟩
    | down hdirectory hpart hshort hentry hshallow _ ih =>
      exact resolveAll_cons_eq_ok_iff.mpr
        ⟨_, follow_eq_ok_iff_component.mpr ⟨hdirectory, by rw [hpart]; exact ⟨rfl, hshort, hentry⟩⟩,
          fun _ => hshallow, ih⟩
  · intro h
    induction parts generalizing location with
    | nil =>
      obtain rfl := Except.ok.inj h
      exact .done _
    | cons part rest ih =>
      obtain ⟨next, hfollow, hshallow, hrest⟩ := resolveAll_cons_eq_ok_iff.mp h
      obtain ⟨hdirectory, hnext⟩ := follow_eq_ok_iff_component.mp hfollow
      cases hpart : Path.component? part with
      | none =>
        rw [hpart] at hnext
        exact .stay hdirectory hpart (ih (hnext ▸ hrest))
      | some component =>
        rw [hpart] at hnext
        cases component with
        | root => exact hnext.elim
        | here => exact hnext.elim
        | up => exact .up hdirectory hpart (ih (hnext ▸ hrest))
        | name name =>
          obtain ⟨rfl, hshort, hentry⟩ := hnext
          exact .down hdirectory hpart hshort hentry (hshallow (by simp)) (ih hrest)

theorem resolvesTo_iff : disk.ResolvesTo path location ↔
    path.spelling ≠ [] ∧ disk.resolveAll (disk.start path) path.parts = .ok location := by
  rw [ResolvesTo, follows_iff]

theorem resolvesTo_iff_resolve :
    disk.ResolvesTo path location ↔ disk.resolve path = .ok location := by
  rw [resolvesTo_iff, resolve]
  split <;> simp_all

theorem followAll_of_resolveAll (h : disk.resolveAll location parts = .ok reached) :
    disk.followAll location parts = .ok reached := by
  induction parts generalizing location with
  | nil => exact h
  | cons part rest ih =>
    obtain ⟨next, hfollow, -, hrest⟩ := resolveAll_cons_eq_ok_iff.mp h
    exact followAll_cons_eq_ok_iff.mpr ⟨next, hfollow, ih hrest⟩

theorem Resolves.leads (h : disk.Resolves path) : disk.Leads path := by
  obtain ⟨location, hresolves⟩ := h
  obtain ⟨hspelling, hparts⟩ := resolvesTo_iff.mp hresolves
  refine ⟨location, ?_⟩
  rw [locate, if_neg hspelling]
  exact followAll_of_resolveAll hparts

theorem ResolvesTo.unique (h : disk.ResolvesTo path location) (h' : disk.ResolvesTo path reached) :
    location = reached :=
  Except.ok.inj ((resolvesTo_iff_resolve.mp h).symm.trans (resolvesTo_iff_resolve.mp h'))

theorem Coincide.symm (h : disk.Coincide path other) : disk.Coincide other path := by
  obtain ⟨location, hpath, hother⟩ := h
  exact ⟨location, hother, hpath⟩

theorem Coincide.trans (h : disk.Coincide path other) (h' : disk.Coincide other base) :
    disk.Coincide path base := by
  obtain ⟨location, hpath, hother⟩ := h
  obtain ⟨reached, hother', hbase⟩ := h'
  exact ⟨location, hpath, hother.unique hother' ▸ hbase⟩

end BehaviorRegistrar.Disk
