import BehaviorRegistrar.ModuleId
import BehaviorRegistrar.Output
import BehaviorRegistrar.Proofs.Straight

/-!
# The paths of an output

The file beside an output stands in the same directory under a name that is longer than that of the
output and tells it.
-/

namespace BehaviorRegistrar

namespace ModuleId

theorem plain_of_mem_toString {number : Nat} {c : Char} (h : c ∈ (toString number).toList) :
    isSeparator c = false ∧ c ≠ '.' := by
  rw [Nat.toString_eq_repr, Nat.toList_repr] at h
  have hdigit := Nat.isDigit_of_mem_toDigits (by decide) (by decide) h
  have hne : ∀ d : Char, d.isDigit = false → c ≠ d := by
    rintro d hd rfl
    rw [hdigit] at hd
    cases hd
  have hslash := hne '/' (by decide)
  have hbackslash := hne '\\' (by decide)
  exact ⟨by simp [isSeparator, hslash, hbackslash], hne '.' (by decide)⟩

end ModuleId

namespace Output

variable {path other : Path} {run : Nat}

theorem isEntryName_temporaryName (path : Path) (run : Nat) :
    IsEntryName (temporaryName path run).spelling := by
  have hname : '/' ∉ path.fileName?.getD "behavior".toList := by
    cases h : path.fileName? with
    | none =>
      rw [Option.getD_none]
      decide
    | some name => exact Path.not_mem_fileName? h
  have hnumber : '/' ∉ (toString run).toList := by
    intro hslash
    have := (ModuleId.plain_of_mem_toString hslash).1
    simp [ModuleId.isSeparator] at this
  rw [temporaryName]
  generalize path.fileName?.getD "behavior".toList = name at hname ⊢
  generalize (toString run).toList = digits at hnumber ⊢
  change IsEntryName ('.' :: name ++ ".tmp.".toList ++ digits)
  have hlength : 2 < ('.' :: name ++ ".tmp.".toList ++ digits).length := by
    simp only [String.reduceToList, List.length_append, List.length_cons]
    omega
  refine ⟨?_, ?_, ?_, by simp [hname, hnumber]⟩ <;>
  · intro h
    rw [h] at hlength
    simp at hlength

theorem directory_of_straight (h : path.IsStraight) (hend : path.EndsInName) :
    (directory path).IsStraight ∧
      ((directory path).spelling = ['/'] ∨ (directory path).EndsInName) ∧
      (directory path).names = path.names.dropLast := by
  obtain ⟨parent, hparent, hstraight, hparentEnd, hnames, -⟩ :=
    Path.exists_parent_of_straight h hend
  rw [directory, hparent, Option.getD_some]
  exact ⟨hstraight, hparentEnd, hnames⟩

theorem directory_above (h : path.IsStraight) (hend : path.EndsInName) :
    (directory path).names <+: path.names := by
  rw [(directory_of_straight h hend).2.2]
  exact List.dropLast_prefix _

/-- The file beside an output stands in its directory under a longer name. -/
theorem temporary_of_straight (h : path.IsStraight) (hend : path.EndsInName) (run : Nat) :
    (temporary path run).IsStraight ∧ (temporary path run).EndsInName ∧
      ∃ names name, path.names = names ++ [name] ∧
        (temporary path run).names =
          names ++ ['.' :: name ++ ".tmp.".toList ++ (toString run).toList] := by
  obtain ⟨hdirectory, -, hnames⟩ := directory_of_straight h hend
  obtain ⟨front, name, hparts, hname⟩ := hend
  have hpath := Path.names_of_parts hparts hname
  have hfileName := Path.fileName?_of_parts hparts hname
  have hentry : ∀ other ∈ [(temporaryName path run).spelling], IsEntryName other := by
    simpa using isEntryName_temporaryName path run
  refine ⟨Path.isStraight_descend hdirectory hentry,
    Path.endsInName_descend _ (List.cons_ne_nil _ _) hentry, front.filter Path.leads, name, hpath, ?_⟩
  have htemporary := Path.names_descend (directory path) hentry
  rw [hnames, hpath, List.dropLast_concat] at htemporary
  rw [temporaryName, hfileName, Option.getD_some] at htemporary
  rw [temporary, temporaryName, hfileName, Option.getD_some]
  exact htemporary

theorem names_temporary_ne (h : path.IsStraight) (hend : path.EndsInName) (run : Nat) :
    (temporary path run).names ≠ path.names := by
  obtain ⟨-, -, names, name, hpath, htemporary⟩ := temporary_of_straight h hend run
  rw [hpath, htemporary]
  intro heq
  have hname := congrArg List.length (List.head_eq_of_cons_eq (List.append_cancel_left heq))
  simp only [List.length_append, List.length_cons] at hname
  omega

/-- Different outputs have different files beside them. -/
theorem names_of_names_temporary (h : path.IsStraight) (hend : path.EndsInName)
    (h' : other.IsStraight) (hend' : other.EndsInName)
    (heq : (temporary path run).names = (temporary other run).names) : path.names = other.names := by
  obtain ⟨-, -, names, name, hpath, htemporary⟩ := temporary_of_straight h hend run
  obtain ⟨-, -, names', name', hother, htemporary'⟩ := temporary_of_straight h' hend' run
  rw [htemporary, htemporary'] at heq
  obtain ⟨hnames, hname⟩ := List.append_inj' heq rfl
  have hname := List.append_cancel_right
    (List.append_cancel_right (List.head_eq_of_cons_eq hname))
  rw [hpath, hother, hnames, (List.cons.inj hname).2]

end Output

end BehaviorRegistrar
