import BehaviorRegistrar.CommandLine
import Mathlib.Data.List.TakeWhile

/-!
# The loader options in a command line

A command line that gives the loader options as a text gives them in one argument or in two, and the
other arguments do not depend on them. So the same command line without the text, or with the switch
for hot reload in its place, is in order too and says the same otherwise.
-/

namespace BehaviorRegistrar.CommandLine

def Given.withLoader (given : Given) (options : Option String) (enableHmr : Bool) : Given :=
  { given with options := options, enableHmr := enableHmr }

section

variable {given next after : Given} {scope : Scope} {verb : Verb} {argument text value : String}
  {arguments rest : List String} {pending : Option Setting}

theorem turn_withLoader {switch : Switch} (hswitch : switch ≠ .enableHmr)
    (h : given.turn switch = .ok next) (options : Option String) (enableHmr : Bool) :
    (given.withLoader options enableHmr).turn switch = .ok (next.withLoader options enableHmr) := by
  cases switch with
  | json =>
    simp only [Given.turn] at h ⊢
    split at h
    · cases h
    · obtain rfl := Except.ok.inj h
      exact if_neg ‹_›
  | verbose =>
    obtain rfl := Except.ok.inj h
    rfl
  | enableHmr => exact absurd rfl hswitch
  | help => cases h
  | version => cases h

theorem assign_withLoader {setting : Setting} (hsetting : setting ≠ .options)
    (h : given.assign setting value = .ok next) (options : Option String) (enableHmr : Bool) :
    (given.withLoader options enableHmr).assign setting value =
      .ok (next.withLoader options enableHmr) := by
  simp only [Given.assign] at h ⊢
  split at h
  · cases h
  · rename_i hfree
    obtain rfl := Except.ok.inj h
    cases setting with
    | options => exact absurd rfl hsetting
    | cwd => exact if_neg hfree
    | outfile => exact if_neg hfree
    | outDir => exact if_neg hfree

theorem assign_options (given : Given) (value : String) :
    given.assign .options value =
      if given.options = none then .ok (given.withLoader (some value) given.enableHmr)
      else .error .mistake := by
  rw [Given.assign.eq_def]
  cases hoptions : given.options <;> simp [Given.value?, hoptions, Given.withLoader]

theorem take_withLoader (h : given.take scope argument = .ok next) (options : Option String)
    (enableHmr : Bool) :
    (given.withLoader options enableHmr).take scope argument =
      .ok (next.withLoader options enableHmr) := by
  rw [Given.take] at h ⊢
  split at h
  · cases h
  · obtain rfl := Except.ok.inj h
    exact if_neg ‹_›

theorem takeWords_withLoader (h : takeWords scope given arguments = .ok (after, none))
    (options : Option String) (enableHmr : Bool) :
    takeWords scope (given.withLoader options enableHmr) arguments =
      .ok (after.withLoader options enableHmr, none) := by
  induction arguments generalizing given with
  | nil =>
    obtain rfl := (Prod.mk.inj (Except.ok.inj h)).1
    rfl
  | cons word rest ih =>
    rw [takeWords] at h ⊢
    cases htake : given.take scope word with
    | error halt =>
      rw [htake] at h
      cases h
    | ok next =>
      rw [htake] at h
      rw [take_withLoader htake options enableHmr]
      exact ih h

theorem shortKey?_ne (scope : Scope) (name : Char) :
    shortKey? scope name ≠ some (.switch .enableHmr) ∧
      shortKey? scope name ≠ some (.setting .options) := by
  fun_cases shortKey? scope name <;> simp

private theorem map_eq_ok {α : Type} {found : Except Halt α}
    {result : α × Option Setting} (h : found.map (·, none) = .ok result) :
    found = .ok result.1 ∧ result.2 = none := by
  cases found with
  | error halt => cases h
  | ok value =>
    obtain rfl := Except.ok.inj h
    exact ⟨rfl, rfl⟩

theorem takeShort_withLoader {s : List Char} (h : takeShort scope given s = .ok (next, pending)) :
    pending ≠ some .options ∧ ∀ options enableHmr,
      takeShort scope (given.withLoader options enableHmr) s =
        .ok (next.withLoader options enableHmr, pending) := by
  induction s generalizing given with
  | nil =>
    obtain ⟨rfl, rfl⟩ := Prod.mk.inj (Except.ok.inj h)
    exact ⟨by simp, fun _ _ => rfl⟩
  | cons c r ih =>
    obtain ⟨hswitch, hsetting⟩ := shortKey?_ne scope c
    simp only [takeShort] at h ⊢
    cases hkey : shortKey? scope c with
    | none =>
      rw [hkey] at h
      cases h
    | some key =>
      rw [hkey] at h hswitch hsetting
      cases key with
      | switch switch =>
        have hne : switch ≠ .enableHmr := by
          rintro rfl
          exact hswitch rfl
        dsimp only at h ⊢
        cases hturn : given.turn switch with
        | error halt =>
          rw [hturn] at h
          cases h
        | ok turned =>
          rw [hturn] at h
          obtain ⟨hpending, hrest⟩ := ih h
          refine ⟨hpending, fun options enableHmr => ?_⟩
          rw [turn_withLoader hne hturn options enableHmr]
          exact hrest options enableHmr
      | setting setting =>
        have hne : setting ≠ .options := by
          rintro rfl
          exact hsetting rfl
        dsimp only at h ⊢
        split at h
        · obtain ⟨rfl, rfl⟩ := Prod.mk.inj (Except.ok.inj h)
          exact ⟨by simpa using hne, fun _ _ => rfl⟩
        · obtain ⟨hassign, hpending⟩ := map_eq_ok h
          obtain rfl : pending = none := hpending
          refine ⟨by simp, fun options enableHmr => ?_⟩
          rw [assign_withLoader hne hassign options enableHmr]
          rfl
        · obtain ⟨hassign, hpending⟩ := map_eq_ok h
          obtain rfl : pending = none := hpending
          refine ⟨by simp, fun options enableHmr => ?_⟩
          rw [assign_withLoader hne hassign options enableHmr]
          rfl

theorem name_of_longKey? {name : String} :
    (longKey? (some verb) name = some (.switch .enableHmr) → name = "enable-hmr") ∧
      (longKey? (some verb) name = some (.setting .options) → name = "options") := by
  have hloader : (loaderKey? name = some (.switch .enableHmr) → name = "enable-hmr") ∧
      (loaderKey? name = some (.setting .options) → name = "options") := by
    fun_cases loaderKey? name <;> simp
  fun_cases longKey? (some verb) name <;> simp
  all_goals exact hloader

/-- A long option with its value is cut at the equals sign. -/
theorem takeLong_attached {name : List Char} (h : '=' ∉ name) (value : List Char) :
    takeLong scope given (name ++ '=' :: value) =
      match longKey? scope (String.ofList name) with
      | some (.setting setting) => (given.assign setting (String.ofList value)).map (·, none)
      | _ => .error .mistake := by
  have hname : (name ++ '=' :: value).takeWhile (· != '=') = name := by
    rw [List.takeWhile_append_of_pos]
    · simp
    · intro c hc
      have : c ≠ '=' := fun heq => h (heq ▸ hc)
      simpa using this
  rw [takeLong, hname, List.drop_left]
  rcases longKey? scope (String.ofList name) with _ | _ | _ <;> rfl

theorem takeLong_plain {name : List Char} (h : '=' ∉ name) :
    takeLong scope given name =
      match longKey? scope (String.ofList name) with
      | none => .error .mistake
      | some (.switch switch) => (given.turn switch).map (·, none)
      | some (.setting setting) => .ok (given, some setting) := by
  have hname : name.takeWhile (· != '=') = name := by
    rw [List.takeWhile_eq_self_iff]
    intro c hc
    have : c ≠ '=' := fun heq => h (heq ▸ hc)
    simpa using this
  rw [takeLong, hname, List.drop_length]
  rcases longKey? scope (String.ofList name) with _ | _ | _ <;> rfl

/-- What an argument after a command does to the loader options. -/
inductive Taking (verb : Verb) (given : Given) (argument : String) : Given → Option Setting → Prop
  | switch (hoff : given.enableHmr = false) (h : argument = "--enable-hmr") :
      Taking verb given argument (given.withLoader given.options true) none
  | text {text : String} (hnone : given.options = none) (h : argument = "--options=" ++ text) :
      Taking verb given argument (given.withLoader (some text) given.enableHmr) none
  | name (h : argument = "--options") : Taking verb given argument given (some .options)
  | apart {next : Given} {pending : Option Setting} (hpending : pending ≠ some .options)
      (h : ∀ options enableHmr, takeArgument (some verb) (given.withLoader options enableHmr) argument =
        .ok (next.withLoader options enableHmr, pending)) : Taking verb given argument next pending

private theorem taking_of_takeLong {s : List Char} (hargument : argument.toList = '-' :: '-' :: s)
    (h : takeLong (some verb) given s = .ok (next, pending)) :
    Taking verb given argument next pending := by
  have htake : ∀ given, takeArgument (some verb) given argument = takeLong (some verb) given s := by
    intro given
    rw [takeArgument, hargument]
    rfl
  have hspelled : argument = String.ofList ('-' :: '-' :: s) := by
    rw [← hargument, String.ofList_toList]
  by_cases hequals : '=' ∈ s
  · obtain ⟨name, value, rfl, hname⟩ := List.eq_append_cons_of_mem hequals
    rw [takeLong_attached hname] at h
    cases hkey : longKey? (some verb) (String.ofList name) with
    | none => rw [hkey] at h; cases h
    | some key =>
      rw [hkey] at h
      cases key with
      | switch switch => cases h
      | setting setting =>
        obtain ⟨hassign, hpending⟩ := map_eq_ok h
        obtain rfl : pending = none := hpending
        by_cases hsetting : setting = .options
        · subst hsetting
          have hoptions : name = "options".toList := by
            rw [← name_of_longKey?.2 hkey, String.toList_ofList]
          rw [assign_options] at hassign
          split at hassign
          · obtain rfl := Except.ok.inj hassign
            apply Taking.text ‹_›
            rw [hspelled, hoptions]
            apply String.toList_injective
            simp
          · cases hassign
        · apply Taking.apart (by simp)
          intro options enableHmr
          rw [htake, takeLong_attached hname, hkey]
          dsimp only
          rw [assign_withLoader hsetting hassign options enableHmr]
          rfl
  · rw [takeLong_plain hequals] at h
    cases hkey : longKey? (some verb) (String.ofList s) with
    | none => rw [hkey] at h; cases h
    | some key =>
      rw [hkey] at h
      cases key with
      | switch switch =>
        obtain ⟨hturn, hpending⟩ := map_eq_ok h
        obtain rfl : pending = none := hpending
        by_cases hswitch : switch = .enableHmr
        · subst hswitch
          have hname : s = "enable-hmr".toList := by
            rw [← name_of_longKey?.1 hkey, String.toList_ofList]
          simp only [Given.turn] at hturn
          split at hturn
          · cases hturn
          · rename_i hoff
            obtain rfl := Except.ok.inj hturn
            apply Taking.switch (by simpa using hoff)
            rw [hspelled, hname]
            rfl
        · apply Taking.apart (by simp)
          intro options enableHmr
          rw [htake, takeLong_plain hequals, hkey]
          dsimp only
          rw [turn_withLoader hswitch hturn options enableHmr]
          rfl
      | setting setting =>
        obtain ⟨rfl, rfl⟩ := Prod.mk.inj (Except.ok.inj h)
        by_cases hsetting : setting = .options
        · subst hsetting
          have hname : s = "options".toList := by
            rw [← name_of_longKey?.2 hkey, String.toList_ofList]
          apply Taking.name
          rw [hspelled, hname]
          rfl
        · apply Taking.apart (by simpa using hsetting)
          intro options enableHmr
          rw [htake, takeLong_plain hequals, hkey]

/-- An argument is taken for long options, short ones or a path by its spelling alone. -/
theorem takeArgument_cases (scope : Scope) (argument : String) :
    (∃ s, argument.toList = '-' :: '-' :: s ∧
      ∀ given, takeArgument scope given argument = takeLong scope given s) ∨
    (∃ s, ∀ given, takeArgument scope given argument = takeShort scope given s) ∨
    ∀ given, takeArgument scope given argument = (given.take scope argument).map (·, none) := by
  simp only [takeArgument]
  generalize argument.toList = s
  rcases s with _ | ⟨a, _ | ⟨b, r⟩⟩
  · exact .inr (.inr fun _ => rfl)
  · exact .inr (.inr fun _ => by split <;> simp_all)
  · by_cases ha : a = '-'
    · subst ha
      by_cases hb : b = '-'
      · subst hb
        exact .inl ⟨r, rfl, fun _ => rfl⟩
      · exact .inr (.inl ⟨b :: r, fun _ => by split <;> simp_all⟩)
    · exact .inr (.inr fun _ => by split <;> simp_all)

theorem taking_of_takeArgument (h : takeArgument (some verb) given argument = .ok (next, pending)) :
    Taking verb given argument next pending := by
  rcases takeArgument_cases (some verb) argument with ⟨s, hargument, htake⟩ | ⟨s, htake⟩ | htake
  · exact taking_of_takeLong hargument (htake given ▸ h)
  · obtain ⟨hpending, hshort⟩ := takeShort_withLoader (htake given ▸ h)
    apply Taking.apart hpending
    intro options enableHmr
    rw [htake]
    exact hshort options enableHmr
  · obtain ⟨hword, hpending⟩ := map_eq_ok (htake given ▸ h)
    obtain rfl : pending = none := hpending
    apply Taking.apart (by simp)
    intro options enableHmr
    rw [htake, take_withLoader hword options enableHmr]
    rfl

/-- The texts that give the loader options: an option with its value in one argument or in two. -/
def GivesOptions (text : String) (arguments : List String) : Prop :=
  arguments = ["--options=" ++ text] ∨ arguments = ["--options", text]

def IsTaken (scope : Scope) (argument : String) : Prop :=
  argument ≠ "--" ∧ (scope = none → Verb.ofName? argument = none ∧ argument ≠ "help")

/-- An argument of a place is taken, with the value that it waits for. -/
inductive Takes (scope : Scope) (given : Given) : List String → Given → Prop
  | argument {next : Given} {argument : String} (htaken : IsTaken scope argument)
      (htake : takeArgument scope given argument = .ok (next, none)) :
      Takes scope given [argument] next
  | setting {named next : Given} {argument value : String} {setting : Setting}
      (htaken : IsTaken scope argument)
      (htake : takeArgument scope given argument = .ok (named, some setting))
      (hvalue : isOption value = false) (hassign : named.assign setting value = .ok next) :
      Takes scope given [argument, value] next

/-- The arguments of a place are taken one after another, up to a command when one is named. -/
inductive Reads (scope : Scope) : Given → List String → Given → Option (Verb × List String) → Prop
  | done (given : Given) : Reads scope given [] given none
  | words {given after : Given} {words : List String}
      (h : takeWords scope given words = .ok (after, none)) :
      Reads scope given ("--" :: words) after none
  | named {given : Given} {argument : String} {verb : Verb} {rest : List String} (hscope : scope = none)
      (h : Verb.ofName? argument = some verb) :
      Reads scope given (argument :: rest) given (some (verb, rest))
  | step {given next after : Given} {taken rest : List String}
      {ending : Option (Verb × List String)} (h : Takes scope given taken next)
      (tail : Reads scope next rest after ending) : Reads scope given (taken ++ rest) after ending

/-- What an argument does to the loader options. -/
inductive Effect (verb : Verb) (given : Given) (taken : List String) : Given → Prop
  | switch : Effect verb given taken (given.withLoader given.options true)
  | text {text : String} (hnone : given.options = none) (htext : GivesOptions text taken) :
      Effect verb given taken (given.withLoader (some text) given.enableHmr)
  | apart {next : Given} (hoptions : next.options = given.options)
      (hswitch : next.enableHmr = given.enableHmr)
      (h : ∀ options enableHmr,
        Takes (some verb) (given.withLoader options enableHmr) taken
          (next.withLoader options enableHmr)) :
      Effect verb given taken next

/-- An action that does the same whatever the loader options are leaves them as they are. -/
theorem loader_of_apart {α : Type} (action : Given → Except Halt α) {wrap : Given → α}
    (hwrap : wrap.Injective) (h : action given = .ok (wrap next))
    (hapart : ∀ options enableHmr, action (given.withLoader options enableHmr) =
      .ok (wrap (next.withLoader options enableHmr))) :
    next.options = given.options ∧ next.enableHmr = given.enableHmr := by
  have hself : action given = .ok (wrap (next.withLoader given.options given.enableHmr)) :=
    hapart given.options given.enableHmr
  have heq := hwrap (Except.ok.inj (h.symm.trans hself))
  have hoptions := congrArg Given.options heq
  have hswitch := congrArg Given.enableHmr heq
  exact ⟨hoptions, hswitch⟩

theorem takeWords_loader (h : takeWords scope given arguments = .ok (after, none)) :
    after.options = given.options ∧ after.enableHmr = given.enableHmr :=
  loader_of_apart (takeWords scope · arguments) (fun _ _ heq => (Prod.mk.inj heq).1) h
    (takeWords_withLoader h)

theorem Takes.effect {taken : List String} (h : Takes (some verb) given taken next) :
    Effect verb given taken next := by
  have hpair : ∀ pending : Option Setting, Function.Injective fun given : Given => (given, pending) :=
    fun pending _ _ heq => (Prod.mk.inj heq).1
  cases h with
  | argument hnot htake =>
    cases taking_of_takeArgument htake with
    | switch hoff hargument => exact .switch
    | text hnone hargument => exact .text hnone (.inl (by rw [hargument]))
    | apart hpending hapart =>
      obtain ⟨hoptions, hswitch⟩ :=
        loader_of_apart (takeArgument (some verb) · _) (hpair none) htake hapart
      exact .apart hoptions hswitch fun options enableHmr => .argument hnot (hapart options enableHmr)
  | @setting named _ argument value setting hnot htake hvalue hassign =>
    cases taking_of_takeArgument htake with
    | name hargument =>
      rw [assign_options] at hassign
      split at hassign
      · obtain rfl := Except.ok.inj hassign
        exact .text ‹_› (.inr (by rw [hargument]))
      · cases hassign
    | apart hpending hapart =>
      have hsetting : setting ≠ .options := by simpa using hpending
      have hassigned := assign_withLoader hsetting hassign
      obtain ⟨hoptions, hswitch⟩ :=
        loader_of_apart (takeArgument (some verb) · argument) (hpair (some setting)) htake hapart
      obtain ⟨hoptions', hswitch'⟩ :=
        loader_of_apart (Given.assign · setting value) Function.injective_id hassign hassigned
      exact .apart (hoptions'.trans hoptions) (hswitch'.trans hswitch) fun options enableHmr =>
        .setting hnot (hapart options enableHmr) hvalue (hassigned options enableHmr)

theorem takeWords_eq_none {ending : Given × Option (Verb × List String)}
    (h : takeWords scope given arguments = .ok ending) : ending.2 = none := by
  induction arguments generalizing given with
  | nil =>
    obtain rfl := Except.ok.inj h
    rfl
  | cons word rest ih =>
    rw [takeWords] at h
    split at h
    · cases h
    · exact ih h

/-- An argument that names no command is taken, or ends the options. -/
theorem takeAll_cons (h : scope = none → Verb.ofName? argument = none ∧ argument ≠ "help")
    (given : Given) (rest : List String) :
    takeAll scope given (argument :: rest) =
      if argument = "--" then takeWords scope given rest
      else
        match takeArgument scope given argument with
        | .error halt => .error halt
        | .ok (given, none) => takeAll scope given rest
        | .ok (given, some setting) =>
          match rest with
          | [] => .error .mistake
          | value :: more =>
            if isOption value then .error .mistake
            else
              match given.assign setting value with
              | .error halt => .error halt
              | .ok given => takeAll scope given more := by
  rw [takeAll.eq_def]
  cases scope with
  | none =>
    simp only [(h rfl).1]
    exact if_neg (by simp [(h rfl).2])
  | some verb => exact if_neg (by simp)

theorem takeAll_named (h : Verb.ofName? argument = some verb) (given : Given) (rest : List String) :
    takeAll none given (argument :: rest) = .ok (given, some (verb, rest)) := by
  rw [takeAll.eq_def]
  simp only [h]

variable {ending : Option (Verb × List String)}

theorem reads_of_takeAll (h : takeAll scope given arguments = .ok (after, ending)) :
    Reads scope given arguments after ending := by
  -- an option can take two arguments at once, so the induction is on their number
  induction hlength : arguments.length using Nat.strongRecOn generalizing given arguments with
  | ind n ih =>
    subst hlength
    cases arguments with
    | nil =>
      cases h
      exact .done _
    | cons argument rest =>
      by_cases hcommand : scope = none ∧ (Verb.ofName? argument ≠ none ∨ argument = "help")
      · obtain ⟨rfl, hnamed⟩ := hcommand
        cases hname : Verb.ofName? argument with
        | some verb =>
          rw [takeAll_named hname] at h
          cases h
          exact .named rfl hname
        | none =>
          rcases hnamed with hnot | rfl
          · exact absurd hname hnot
          · rw [takeAll.eq_def] at h
            simp [hname] at h
      · have hplain : scope = none → Verb.ofName? argument = none ∧ argument ≠ "help" := by
          intro hscope
          simpa [hscope] using hcommand
        rw [takeAll_cons hplain] at h
        split at h
        · rename_i hend
          subst hend
          obtain rfl : ending = none := takeWords_eq_none h
          exact .words h
        · rename_i hnot
          split at h
          · cases h
          · exact .step (.argument ⟨hnot, hplain⟩ ‹_›) (ih rest.length (by simp) h rfl)
          · split at h
            · cases h
            · split at h
              · cases h
              · split at h
                · cases h
                · rename_i value more hvalue _ next hassign
                  exact .step (.setting ⟨hnot, hplain⟩ ‹_› (by simpa using hvalue) hassign)
                    (ih more.length (by simp only [List.length_cons]; omega) h rfl)

theorem takeAll_of_reads (h : Reads scope given arguments after ending) :
    takeAll scope given arguments = .ok (after, ending) := by
  induction h with
  | done given => rfl
  | words h =>
    rw [takeAll_cons (fun _ => by decide), if_pos rfl, h]
  | named hscope h =>
    subst hscope
    exact takeAll_named h _ _
  | step h tail ih =>
    cases h with
    | argument htaken htake =>
      rw [List.singleton_append, takeAll_cons htaken.2, if_neg htaken.1]
      simp only [htake, ih]
    | setting htaken htake hvalue hassign =>
      rw [List.cons_append, takeAll_cons htaken.2, if_neg htaken.1]
      simp [htake, hvalue, hassign, ih]

/-- What stands in front of the arguments of a command does not depend on them. -/
theorem Reads.exists_front (h : Reads scope given arguments after (some (verb, rest))) :
    ∃ front, arguments = front ++ rest ∧
      ∀ other, Reads scope given (front ++ other) after (some (verb, other)) := by
  generalize hending : some (verb, rest) = ending at h
  induction h with
  | done => cases hending
  | words => cases hending
  | @named given argument _ _ hscope h =>
    cases hending
    exact ⟨[argument], rfl, fun other => .named hscope h⟩
  | @step given next after taken _ _ h tail ih =>
    obtain ⟨front, rfl, hfront⟩ := ih hending
    refine ⟨taken ++ front, by simp, fun other => ?_⟩
    rw [List.append_assoc]
    exact .step h (hfront other)

theorem Reads.enableHmr_eq_false (h : Reads (some verb) given arguments after ending)
    (hoff : after.enableHmr = false) : given.enableHmr = false := by
  induction h with
  | done => exact hoff
  | words h => rwa [← (takeWords_loader h).2]
  | named => exact hoff
  | step h _ ih =>
    have hnext := ih hoff
    cases h.effect with
    | switch => cases hnext
    | text => exact hnext
    | apart _ hswitch => rwa [← hswitch]

/-- Arguments behind the text of the options say the same whatever the options are. -/
theorem Reads.withLoader (h : Reads (some verb) given arguments after ending)
    (hsome : given.options ≠ none) (hoff : after.enableHmr = false) :
    after.options = given.options ∧ ∀ options enableHmr,
      Reads (some verb) (given.withLoader options enableHmr) arguments
        (after.withLoader options enableHmr) ending := by
  induction h with
  | done given => exact ⟨rfl, fun options enableHmr => .done _⟩
  | words h =>
    exact ⟨(takeWords_loader h).1, fun options enableHmr =>
      .words (takeWords_withLoader h options enableHmr)⟩
  | named hscope => cases hscope
  | step h tail ih =>
    cases h.effect with
    | switch => cases tail.enableHmr_eq_false hoff
    | text hnone => exact absurd hnone hsome
    | apart hoptions hswitch happly =>
      obtain ⟨hafter, hrest⟩ := ih (by rwa [hoptions]) hoff
      exact ⟨hafter.trans hoptions, fun options enableHmr =>
        .step (happly options enableHmr) (hrest options enableHmr)⟩

theorem takeArgument_enableHmr (hverb : verb ≠ .version) (hoff : given.enableHmr = false) :
    takeArgument (some verb) given "--enable-hmr" =
      .ok (given.withLoader given.options true, none) := by
  have hkey : longKey? (some verb) "enable-hmr" = some (.switch .enableHmr) := by
    cases verb with
    | version => exact absurd rfl hverb
    | transform => rfl
    | build => rfl
  have htake : takeArgument (some verb) given "--enable-hmr" =
      takeLong (some verb) given "enable-hmr".toList := rfl
  rw [htake, takeLong_plain (by decide), String.ofList_toList, hkey]
  simp [Given.turn, hoff, Given.withLoader, Except.map]

/-- The arguments that give the options as a text can be left out, or the switch can stand in their
place. -/
theorem Reads.exists_options (hverb : verb ≠ .version)
    (h : Reads (some verb) given arguments after ending) (hnone : given.options = none)
    (htext : after.options = some text) (hoff : after.enableHmr = false) :
    ∃ before options behind, arguments = before ++ options ++ behind ∧ GivesOptions text options ∧
      Reads (some verb) given (before ++ behind) (after.withLoader none false) ending ∧
        Reads (some verb) given (before ++ "--enable-hmr" :: behind) (after.withLoader none true)
          ending := by
  induction h with
  | done given =>
    rw [hnone] at htext
    cases htext
  | words h =>
    rw [(takeWords_loader h).1, hnone] at htext
    cases htext
  | named hscope => cases hscope
  | @step given next after taken rest ending h tail ih =>
    have hnext := tail.enableHmr_eq_false hoff
    cases h.effect with
    | switch => cases hnext
    | @text own _ hgives =>
      obtain ⟨hafter, hrest⟩ := tail.withLoader (by simp [Given.withLoader]) hoff
      obtain rfl : own = text := Option.some.inj (hafter.symm.trans htext)
      have hgiven : given.enableHmr = false := hnext
      have hself : given.withLoader none false = given := by
        rw [Given.withLoader, ← hnone, ← hgiven]
      have hswitch : Takes (some verb) given ["--enable-hmr"] (given.withLoader none true) := by
        apply Takes.argument ⟨by decide, by simp⟩
        rw [takeArgument_enableHmr hverb hgiven, hnone]
      have hswitched : Reads (some verb) given (["--enable-hmr"] ++ rest)
          (after.withLoader none true) ending := .step hswitch (hrest none true)
      exact ⟨[], taken, rest, rfl, hgives, hself ▸ hrest none false, hswitched⟩
    | apart hoptions hswitch happly =>
      obtain ⟨before, options, behind, rfl, hgives, hwithout, hswitched⟩ :=
        ih (hoptions.trans hnone) htext hoff
      refine ⟨taken ++ before, options, behind, by simp, hgives, ?_, ?_⟩
      · rw [List.append_assoc]
        exact .step h hwithout
      · rw [List.append_assoc]
        exact .step h hswitched

def Task.source? : Task → Option OptionsSource
  | .version => none
  | .transform _ _ options => some options
  | .build _ _ options => some options

def Task.withSource (source : OptionsSource) : Task → Task
  | .version => .version
  | .transform file outfile _ => .transform file outfile source
  | .build root outDir _ => .build root outDir source

theorem source_eq_text (h : given.source = .ok (.text text)) :
    given.options = some text ∧ given.enableHmr = false := by
  rw [Given.source] at h
  split at h
  · cases h
  · split at h
    · cases h
    · rename_i hoff
      cases h
      exact ⟨‹_›, by simpa using hoff⟩

theorem taskOf_withLoader {task : Task} (h : taskOf given verb = .ok task)
    (hsource : task.source? = some (.text text)) :
    verb ≠ .version ∧ given.options = some text ∧ given.enableHmr = false ∧
      ∀ hotReload, taskOf (given.withLoader none hotReload) verb =
        .ok (task.withSource (.switch hotReload)) := by
  cases verb with
  | version =>
    cases h
    cases hsource
  | transform =>
    simp only [taskOf] at h
    split at h
    · rename_i file source hword hgiven
      cases h
      cases hsource
      obtain ⟨hoptions, hoff⟩ := source_eq_text hgiven
      refine ⟨by simp, hoptions, hoff, fun hotReload => ?_⟩
      have hword' : (given.withLoader none hotReload).word = some file := hword
      have hsource' : (given.withLoader none hotReload).source = .ok (.switch hotReload) := rfl
      simp only [taskOf, hword', hsource']
      rfl
    · cases h
  | build =>
    simp only [taskOf] at h
    split at h
    · rename_i outDir source houtDir hgiven
      cases h
      cases hsource
      obtain ⟨hoptions, hoff⟩ := source_eq_text hgiven
      refine ⟨by simp, hoptions, hoff, fun hotReload => ?_⟩
      have houtDir' : (given.withLoader none hotReload).outDir = some outDir := houtDir
      have hsource' : (given.withLoader none hotReload).source = .ok (.switch hotReload) := rfl
      simp only [taskOf, houtDir', hsource']
      rfl
    · cases h

/-- A command line with the loader options as a text says the same with the switch for hot reload in
the place of the text, or with nothing there. -/
theorem read_without_text {invocation : Invocation} (h : read arguments = .ok invocation)
    (hsource : invocation.task.source? = some (.text text)) :
    ∃ before options behind, arguments = before ++ options ++ behind ∧ GivesOptions text options ∧
      ∀ hotReload, read (before ++ (if hotReload then ["--enable-hmr"] else []) ++ behind) =
        .ok { invocation with task := invocation.task.withSource (.switch hotReload) } := by
  rw [read] at h
  split at h
  · cases h
  · cases h
  · rename_i first verb rest hfirst
    split at h
    · cases h
    · rename_i after ending hafter
      cases htask : taskOf after verb with
      | error halt =>
        rw [htask] at h
        cases h
      | ok task =>
        rw [htask] at h
        cases h
        obtain ⟨hverb, hoptions, hoff, hswitched⟩ := taskOf_withLoader htask hsource
        obtain ⟨front, rfl, hfront⟩ := (reads_of_takeAll hfirst).exists_front
        obtain ⟨before, options, behind, rfl, hgives, hwithout, hwith⟩ :=
          (reads_of_takeAll hafter).exists_options hverb rfl hoptions hoff
        refine ⟨front ++ before, options, behind, by simp, hgives, fun hotReload => ?_⟩
        have hrest : takeAll (some verb) {} (before ++ (if hotReload then ["--enable-hmr"] else []) ++
            behind) = .ok (after.withLoader none hotReload, ending) := by
          apply takeAll_of_reads
          cases hotReload with
          | false => simpa using hwithout
          | true => simpa using hwith
        rw [read, List.append_assoc, List.append_assoc, takeAll_of_reads (hfront _),
          ← List.append_assoc]
        simp only [hrest, hswitched hotReload]
        rfl

end

end BehaviorRegistrar.CommandLine
