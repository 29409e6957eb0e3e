import BehaviorRegistrar.Proofs.Build.Preservation
import BehaviorRegistrar.Proofs.Export.Spans
import BehaviorRegistrar.Proofs.Json.ReadBack
import BehaviorRegistrar.Proofs.Utf8

/-!
# The text of a transformation on every channel

A transformation has one text. It is printed as it is, written to the output file as UTF-8, or put into
the JSON result as a string that is read as that text; the size in the result is that of the UTF-8 form.
-/

namespace BehaviorRegistrar

open Json OnDisk

namespace Command

theorem isPlain_number (depth : Nat) {n : Nat} (h : n < Number.significandLimit) :
    IsPlain depth (number n) := by
  apply IsPlain.number
  constructor <;> omega

theorem isPlain_optionalMember {depth : Nat} {value : Option Json} (key : String)
    (h : ∀ own ∈ value, IsPlain depth own) :
    ∀ member ∈ optionalMember key value, IsPlain depth member.2 := by
  cases value with
  | none => simp [optionalMember]
  | some own => simpa [optionalMember] using h

theorem Failure.isPlain (depth : Nat) (failure : Failure) : IsPlain (depth + 1) failure.toJson := by
  apply IsPlain.object
  simp only [List.forall_mem_append, List.forall_mem_cons]
  refine ⟨⟨⟨.string .., .string .., by simp⟩, ?_⟩, ?_⟩
  · exact isPlain_optionalMember _ (by simp [IsPlain.string])
  · exact isPlain_optionalMember _ (by simp [IsPlain.string])

theorem TransformResult.isPlain (result : TransformResult)
    (hsize : result.size < Number.significandLimit)
    (hduration : result.duration < Number.significandLimit) : IsPlain depthLimit result.toJson := by
  have htext : ∀ own : Option String, ∀ value ∈ own.map Json.string, IsPlain 126 value := by
    simp [IsPlain.string]
  have hpath : ∀ own : Option Path, ∀ value ∈ own.map fun path => Json.string path.text,
      IsPlain 126 value := by
    simp [IsPlain.string]
  have hfailure : ∀ own : Option Failure, ∀ value ∈ own.map Failure.toJson, IsPlain 126 value := by
    intro own value hvalue
    obtain ⟨failure, -, rfl⟩ := Option.map_eq_some_iff.mp hvalue
    exact failure.isPlain 125
  apply IsPlain.object
  simp only [List.forall_mem_append, List.forall_mem_cons]
  refine ⟨⟨⟨⟨⟨⟨⟨.bool .., .string .., by simp⟩, ?_⟩, ?_⟩, .bool .., by simp⟩, ?_⟩,
    isPlain_number 126 hsize, isPlain_number 126 hduration, by simp⟩, ?_⟩
  · exact isPlain_optionalMember _ (htext result.name)
  · exact isPlain_optionalMember _ (hpath result.outfile)
  · exact isPlain_optionalMember _ (htext result.code)
  · exact isPlain_optionalMember _ (hfailure result.failure)

namespace Transform

/-- Whether a line holds an object with a text, if any, and the size of a text in bytes. -/
structure TellsText (stdout : String) (code : Option String) (size : Nat) : Prop where
  /-- The line is the only one. -/
  line : ∃ body, stdout = body ++ "\n" ∧ IsVisible body.toList
  /-- It is read as the object that was printed. A size has 64 bits, so the condition on it holds of
  every text in memory. -/
  object : ∃ members, stdout = Command.line (.object members) ∧
    valuesOf "code" members = (code.map .string).toList ∧
      valuesOf "size_bytes" members = [.number (.integer size)] ∧
        (size < Number.significandLimit → Json.read stdout.toList = .ok (.object members))

theorem tellsText_line {result : TransformResult} (hduration : result.duration = 0) :
    TellsText (Command.line result.toJson) result.code result.size := by
  refine ⟨⟨_, rfl, isVisible_compact _⟩, ?_⟩
  obtain ⟨members, hresult, -, hcode, hsize⟩ := result.exists_members
  refine ⟨members, congrArg Command.line hresult, hcode, hsize, fun hlimit => ?_⟩
  have hplain := result.isPlain hlimit (by rw [hduration]; decide)
  rw [Command.line, String.toList_append, compact, String.toList_ofList, ← hresult]
  exact read_print hplain (by simp [isSpace])

variable {json : Bool} {runNumber : Nat} {file outfile : Path} {options : Options}
  {disk after : Disk} {contents : Contents}

theorem run_printed (json : Bool) (runNumber : Nat) (options : Options)
    (hread : disk.read file = .ok contents) :
    let request : TransformRequest := ⟨file, none, .ok options⟩
    ∃ log, (run json runNumber request : OnDisk Outcome) disk =
      (.finished json
        (result request options (some (output request options contents))
          (output request options contents).utf8ByteSize).toJson
        (output request options contents) log, disk) := by
  intro request
  have hends := ends_run json runNumber request disk
  generalize (run json runNumber request : OnDisk Outcome) disk = ended at hends ⊢
  obtain ⟨outcome, last⟩ := ended
  cases hends with
  | refused hoptions => cases hoptions
  | unread hoptions hother =>
    rw [hread] at hother
    cases hother
  | printed log hoptions hother houtfile =>
    cases hoptions
    cases hread.symm.trans hother
    exact ⟨log, rfl⟩
  | unwritten log hoptions hother houtfile => cases houtfile
  | written log hoptions hother houtfile => cases houtfile

theorem run_written (json : Bool) (hread : disk.read file = .ok contents)
    (hwrite : (Output.write runNumber outfile
      (Loader.standard.transformWith (Text.decode contents) file.text options) :
        OnDisk (Except DiskFault Unit)) disk = (.ok (), after)) :
    let request : TransformRequest := ⟨file, some outfile, .ok options⟩
    ∃ log, (run json runNumber request : OnDisk Outcome) disk =
      (.finished json
        (result request options none (output request options contents).utf8ByteSize).toJson "" log,
        after) := by
  intro request
  have hends := ends_run json runNumber request disk
  generalize (run json runNumber request : OnDisk Outcome) disk = ended at hends ⊢
  obtain ⟨outcome, last⟩ := ended
  cases hends with
  | refused hoptions => cases hoptions
  | unread hoptions hother =>
    rw [hread] at hother
    cases hother
  | printed log hoptions hother houtfile => cases houtfile
  | unwritten log hoptions hother houtfile hother' =>
    cases hoptions
    cases houtfile
    cases hread.symm.trans hother
    cases hwrite.symm.trans hother'
  | written log hoptions hother houtfile hother' =>
    cases hoptions
    cases houtfile
    cases hread.symm.trans hother
    cases hwrite.symm.trans hother'
    exact ⟨log, rfl⟩

/-- A text in which nothing opens and that gets no footer is left as it is. -/
theorem transformWith_eq_self {text id : String} {options : Options}
    (hopening : ¬ ∃ start, Export.Viable text.toList start) (hoptions : options.hotReload = false) :
    Loader.standard.transformWith text id options = text := by
  have hnone : Export.hasOpening text.toList = false := by
    rw [← Export.hasOpening_iff_exists_viable] at hopening
    exact Bool.eq_false_iff.mpr hopening
  rw [Loader.transformWith, hoptions, Export.register, Export.registered_eq_self hnone]
  simp

/-- Whatever bytes a source has, its text is the same on every channel: printed with nothing added,
written to the output file as UTF-8, and in the JSON result as a string with the size of the UTF-8 form.
A text in UTF-8 in which nothing opens is reproduced byte for byte when hot reload is off. -/
theorem run_delivers (runNumber : Nat) (options : Options) (hordered : disk.top.Ordered)
    (hread : disk.read file = .ok contents) :
    let code := Loader.standard.transformWith (Text.decode contents) file.text options
    let size := (Text.encode code).length
    let transform (json : Bool) (outfile : Option Path) : Outcome × Disk :=
      (run json runNumber ⟨file, outfile, .ok options⟩ : OnDisk Outcome) disk
    (∃ log, transform false none = (.success code log, disk)) ∧
    (∃ stdout log, transform true none = (.success stdout log, disk) ∧
      TellsText stdout (some code) size) ∧
    (∀ outfile after, (Output.write runNumber outfile code : OnDisk (Except DiskFault Unit)) disk =
        (.ok (), after) →
      after.read outfile = .ok (Text.encode code) ∧
      (∃ log, transform false (some outfile) = (.success "" log, after)) ∧
      ∃ stdout log, transform true (some outfile) = (.success stdout log, after) ∧
        TellsText stdout none size) ∧
    ∀ text, contents = Text.encode text → (¬ ∃ start, Export.Viable text.toList start) →
      options.hotReload = false → code = text ∧ Text.encode code = contents := by
  intro code size transform
  refine ⟨run_printed false runNumber options hread, ?_, fun outfile after hwrite => ?_, ?_⟩
  · obtain ⟨log, hrun⟩ := run_printed true runNumber options hread
    exact ⟨_, log, hrun, tellsText_line rfl⟩
  · obtain ⟨log, hrun⟩ := run_written true hread hwrite
    exact ⟨Output.read_of_write hordered hwrite, run_written false hread hwrite, _, log, hrun,
      tellsText_line rfl⟩
  · rintro text rfl hopening hoptions
    have hcode : code = text := by
      rw [show code = Loader.standard.transformWith text file.text options by
        rw [← Text.decode_encode text]]
      exact transformWith_eq_self hopening hoptions
    exact ⟨hcode, by rw [hcode]⟩

/-- The module in `src`, printed and written to a file at the top. -/
theorem run_delivers_menu :
    let disk := Build.Job.menuDisk
    let file : Path := .ofString "/src/menu.behavior.js"
    let outfile : Path := .ofString "/menu.js"
    let code := "window.Drupal.behaviors.menu = \x7b\n\x7d"
    let transform (json : Bool) (outfile : Option Path) : Outcome × Disk :=
      (run json 1 ⟨file, outfile, .ok ⟨false⟩⟩ : OnDisk Outcome) disk
    (transform false none).1.stdout = code ∧
      TellsText (transform true none).1.stdout (some code) 34 ∧
        (transform false (some outfile)).2.read outfile = .ok (Text.encode code) ∧
          TellsText (transform true (some outfile)).1.stdout none 34 := by
  intro disk file outfile code transform
  have hread : disk.read file = .ok (Text.encode "export default \x7b\n\x7d") :=
    eq_ok_of_toOption (by decide +kernel)
  have hcode : Loader.standard.transformWith
      (Text.decode (Text.encode "export default \x7b\n\x7d")) file.text ⟨false⟩ = code := by
    decide +kernel
  have hsize : (Text.encode code).length = 34 := by decide +kernel
  have hwrite : ((Output.write 1 outfile code : OnDisk (Except DiskFault Unit)) disk).1 = .ok () :=
    eq_ok_of_toOption (by decide +kernel)
  have hdelivers := run_delivers 1 ⟨false⟩ Build.Job.ordered_menuDisk hread
  dsimp only at hdelivers
  rw [hcode, hsize] at hdelivers
  obtain ⟨⟨_, hprinted⟩, ⟨stdout, _, hjson, hline⟩, houtfile, -⟩ := hdelivers
  obtain ⟨hfile, ⟨_, hwritten⟩, stdout', _, hjson', hline'⟩ := houtfile outfile _ (Prod.ext hwrite rfl)
  have hprinted : transform false none = _ := hprinted
  have hjson : transform true none = _ := hjson
  have hwritten : transform false (some outfile) = _ := hwritten
  have hjson' : transform true (some outfile) = _ := hjson'
  rw [hprinted, hjson, hwritten, hjson']
  exact ⟨rfl, hline, hfile, hline'⟩

end Transform

end Command

end BehaviorRegistrar
