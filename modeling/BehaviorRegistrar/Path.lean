import BehaviorRegistrar.Text.Pieces

/-!
# Paths as they are spelled

A path is kept as it was written, and joining adds to the spelling without tidying it. Two spellings
are compared by their components: repeated and final slashes do not count, and neither does a `.`
unless the path starts with it; `..` is kept, for where it leads depends on the disk.
-/

namespace BehaviorRegistrar

/-- A path as it is spelled. -/
structure Path where
  spelling : List Char
  deriving DecidableEq, Repr

namespace Path

def ofString (s : String) : Path := ⟨s.toList⟩

def text (path : Path) : String := String.ofList path.spelling

inductive Component where
  | root
  | here
  | up
  | name (text : List Char)
  deriving DecidableEq, Repr

def isAbsolute (path : Path) : Bool := path.spelling.head? == some '/'

def parts (path : Path) : List (List Char) := Text.pieces '/' path.spelling

def component? : List Char → Option Component
  | [] => none
  | ['.'] => none
  | ['.', '.'] => some .up
  | name => some (.name name)

def components (path : Path) : List Component :=
  (if path.isAbsolute then [.root]
    else if path.parts.head? = some ['.'] then [.here] else []) ++
  path.parts.filterMap component?

def same (a b : Path) : Bool := a.components == b.components

/-- A path taken from another one. An absolute path stands for itself. -/
def join (base path : Path) : Path :=
  if path.isAbsolute then path
  else if base.spelling = [] ∨ base.spelling.getLast? = some '/' then
    ⟨base.spelling ++ path.spelling⟩
  else ⟨base.spelling ++ '/' :: path.spelling⟩

def spell : List Component → List Char
  | [] => []
  | [component] => spellOne component
  | component :: rest => spellOne component ++ '/' :: spell rest
where
  /-- The spelling of one component inside a path. -/
  spellOne : Component → List Char
    | .root => []
    | .here => ['.']
    | .up => ['.', '.']
    | .name text => text

/-- The path that leads from `base` to `path`, when the components of `base` come first in it. -/
def below? (base path : Path) : Option Path :=
  if base.components.isPrefixOf path.components then
    some ⟨spell (path.components.drop base.components.length)⟩
  else none

/-- The start of a spelling that is no part of its names, with what follows it: the slash of an
absolute path, or a leading `.`. -/
def anchored : List Char → List Char × List Char
  | '/' :: r => (['/'], r)
  | ['.'] => (['.'], [])
  | '.' :: '/' :: r => (['.'], '/' :: r)
  | s => ([], s)

def dropIdle : List Char → List Char
  | '/' :: r => dropIdle r
  | ['.'] => []
  | '.' :: '/' :: r => dropIdle r
  | s => s

/-- The path without its last component. A path that has none, and the root, have no parent. -/
def parent? (path : Path) : Option Path :=
  let (anchor, body) := anchored path.spelling
  match dropIdle body.reverse with
  | [] => if anchor = ['.'] then some ⟨[]⟩ else none
  | c :: r => some ⟨anchor ++ (dropIdle ((c :: r).dropWhile (· != '/'))).reverse⟩

/-- The last component, when it is a name. -/
def fileName? (path : Path) : Option (List Char) :=
  match dropIdle (anchored path.spelling).2.reverse with
  | [] => none
  | c :: r =>
    let name := ((c :: r).takeWhile (· != '/')).reverse
    if name = ['.', '.'] then none else some name

theorem length_dropIdle_le (s : List Char) : (dropIdle s).length ≤ s.length := by
  fun_induction dropIdle s with
  | case1 r ih =>
    simp only [List.length_cons]
    omega
  | case2 => simp
  | case3 r ih =>
    simp only [List.length_cons]
    omega
  | case4 => exact Nat.le_refl _

theorem dropIdle_ne_slash (s r : List Char) : dropIdle s ≠ '/' :: r := by
  fun_induction dropIdle s with
  | case1 t ih => exact ih
  | case2 => simp
  | case3 t ih => exact ih
  | case4 t hslash _ _ =>
    intro h
    exact hslash r h

theorem length_anchored (s : List Char) :
    (anchored s).1.length + (anchored s).2.length = s.length := by
  fun_cases anchored s <;> simp [Nat.add_comm]

theorem length_lt_of_parent? {path parent : Path} (h : path.parent? = some parent) :
    parent.spelling.length < path.spelling.length := by
  have hanchored := length_anchored path.spelling
  rw [parent?] at h
  cases hbody : anchored path.spelling with
  | mk anchor body =>
    rw [hbody] at h hanchored
    have hidle := length_dropIdle_le body.reverse
    simp only [List.length_reverse] at hidle hanchored
    simp only at h
    split at h
    · split at h
      · rename_i hanchor
        simp only [Option.some.injEq] at h
        rw [← h]
        simp only [hanchor, List.length_cons, List.length_nil] at hanchored ⊢
        omega
      · simp at h
    · rename_i c r hcons
      have hslash : c ≠ '/' := by
        intro hc
        exact dropIdle_ne_slash _ r (hc ▸ hcons)
      have hdrop := (List.dropWhile_sublist (l := r) (· != '/')).length_le
      have hle := length_dropIdle_le (r.dropWhile (· != '/'))
      rw [hcons, List.length_cons] at hidle
      simp only [Option.some.injEq] at h
      rw [← h]
      simp only [List.dropWhile_cons, bne_iff_ne, ne_eq, hslash, not_false_eq_true, ↓reduceIte,
        List.length_append, List.length_reverse]
      omega

end Path

end BehaviorRegistrar
