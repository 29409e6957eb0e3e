import BehaviorRegistrar.Loader
import BehaviorRegistrar.Proofs.Export.Quiet

/-!
# A second transformation finds nothing to register

Neither the assignment to a registration path nor the hot-reload footer lets an opening start, if
the words that go into them hold no keyword: both are fixed texts with words between separators.
With the text of the module, which registration leaves quiet, a whole output is quiet.
-/

namespace BehaviorRegistrar

open Export

def assignmentSlots (root name : List Char) : List (List Char × List Char) :=
  [(root, ".behaviors.".toList), (name, " = \x7b".toList)]

def footerSlots (root name : List Char) : List (List Char × List Char) :=
  [(root, " Behaviors - attaching: ".toList),
    (name, "')".toList ++ '\n' :: "    module.hot.accept()".toList ++ '\n' :: '\n' ::
      "    if (module.hot.status() === 'apply' && typeof ".toList ++ "window.".toList),
    (root, ".behaviors.".toList),
    (name, ".attach === 'function') \x7b".toList ++ '\n' :: "      ".toList ++ "window.".toList),
    (root, ".behaviors.".toList),
    (name, ".attach()".toList ++ '\n' :: "    \x7d".toList ++ '\n' :: '\n' ::
      "    module.hot.dispose(function () \x7b".toList ++ '\n' ::
        "      if (typeof ".toList ++ "window.".toList),
    (root, ".behaviors.".toList),
    (name, ".detach === 'function') \x7b".toList ++ '\n' :: "        console.log('".toList),
    (root, " Behaviors - detaching: ".toList),
    (name, "')".toList ++ '\n' :: "        ".toList ++ "window.".toList),
    (root, ".behaviors.".toList),
    (name, ".detach()".toList ++ '\n' :: "      \x7d".toList ++ '\n' :: "    \x7d)".toList ++
      '\n' :: "  \x7d".toList)]

def footerHead : List Char :=
  '\n' :: "  if (module.hot) \x7b".toList ++ '\n' :: "    console.log('".toList

private theorem toString_string (s : String) : toString s = s := rfl

theorem assignment_registrationPath (root name : String) :
    assignment (registrationPath root name).toList =
      "window.".toList ++ fill (assignmentSlots root.toList name.toList) := by
  simp [assignment, registrationPath, fill, assignmentSlots, toString_string]

theorem toList_footer (root name : String) :
    (HotReload.footer (registrationPath root name) name root).toList =
      footerHead ++ fill (footerSlots root.toList name.toList) := by
  have hempty : "".toList = [] := rfl
  have hnewline : "\n".toList = ['\n'] := by
    rw [String.toList_ofList]
  simp only [HotReload.footer, registrationPath, toString_string, fill, footerHead, footerSlots,
    String.intercalate_cons_cons, String.intercalate_singleton, String.toList_append, hempty,
    hnewline, List.flatMap_cons, List.flatMap_nil, List.append_assoc, List.cons_append,
    List.nil_append, List.append_nil]

theorem word_of_mem_slots {root name : List Char} {slot : List Char × List Char}
    (h : slot ∈ assignmentSlots root name ∨ slot ∈ footerSlots root name) :
    slot.1 = root ∨ slot.1 = name := by
  rcases h with h | h
  · simp only [assignmentSlots, List.mem_cons, List.not_mem_nil, or_false] at h
    rcases h with rfl | rfl <;> simp
  · simp only [footerSlots, List.mem_cons, List.not_mem_nil, or_false] at h
    rcases h with rfl | rfl | rfl | rfl | rfl | rfl | rfl | rfl | rfl | rfl | rfl | rfl <;> simp

theorem isSettledAfterWord_of_mem_slots {root name : List Char} {slot : List Char × List Char}
    (h : slot ∈ assignmentSlots root name ∨ slot ∈ footerSlots root name) :
    isSettledAfterWord slot.2 = true := by
  have hassignment : ∀ fixed ∈ (assignmentSlots [] []).map Prod.snd,
      isSettledAfterWord fixed = true := by
    rw [assignmentSlots]
    repeat rw [String.toList_ofList]
    decide
  have hfooter : ∀ fixed ∈ (footerSlots [] []).map Prod.snd,
      isSettledAfterWord fixed = true := by
    rw [footerSlots]
    repeat rw [String.toList_ofList]
    decide
  rcases h with h | h
  · have hmem : slot.2 ∈ (assignmentSlots root name).map Prod.snd := List.mem_map_of_mem h
    exact hassignment slot.2 hmem
  · have hmem : slot.2 ∈ (footerSlots root name).map Prod.snd := List.mem_map_of_mem h
    exact hfooter slot.2 hmem

section Words

variable {root name : String} (hroot : ∀ keyword ∈ keywords, ¬keyword <:+: root.toList)
  (hname : ∀ keyword ∈ keywords, ¬keyword <:+: name.toList)

include hroot hname

theorem no_keyword_of_mem_slots {slot : List Char × List Char}
    (h : slot ∈ assignmentSlots root.toList name.toList ∨
      slot ∈ footerSlots root.toList name.toList) :
    ∀ keyword ∈ keywords, ¬keyword <:+: slot.1 := by
  rcases word_of_mem_slots h with h | h
  · rw [h]
    exact hroot
  · rw [h]
    exact hname

theorem quiet_assignment (b : List Char) :
    Quiet (assignment (registrationPath root name).toList) b := by
  rw [assignment_registrationPath, quiet_append]
  refine ⟨quiet_of_isSettled (by decide) _, quiet_fill (fun slot h => ?_) (fun slot h => ?_) b⟩
  · exact no_keyword_of_mem_slots hroot hname (.inl h)
  · exact isSettledAfterWord_of_mem_slots (.inl h)

theorem quiet_footer (b : List Char) :
    Quiet (HotReload.footer (registrationPath root name) name root).toList b := by
  have hhead : isSettled footerHead = true := by
    rw [footerHead]
    repeat rw [String.toList_ofList]
    decide
  rw [toList_footer, quiet_append]
  refine ⟨quiet_of_isSettled hhead _, quiet_fill (fun slot h => ?_) (fun slot h => ?_) b⟩
  · exact no_keyword_of_mem_slots hroot hname (.inr h)
  · exact isSettledAfterWord_of_mem_slots (.inr h)

end Words

theorem afterGap?_assignment (root name : String) (b : List Char) :
    afterGap? (assignment (registrationPath root name).toList ++ b) = none := by
  rw [assignment_registrationPath]
  simp [afterGap?, isGap, Text.isBlank, Text.isLineEnd, afterWord?, closingWords, Text.after?]

/-- A gap that runs into the footer meets no closing word there. -/
theorem afterGap?_footer (root name : String) :
    afterGap? (HotReload.footer (registrationPath root name) name root).toList = none := by
  rw [toList_footer, footerHead]
  simp [afterGap?, isGap, Text.isBlank, Text.isLineEnd, afterWord?, closingWords, Text.after?]

theorem isLineEnd_of_head?_footer {root name : String} {c : Char}
    (h : (HotReload.footer (registrationPath root name) name root).toList.head? = some c) :
    Text.isLineEnd c = true := by
  rw [toList_footer, footerHead] at h
  obtain rfl : '\n' = c := by simpa using h
  rfl

namespace Loader

theorem quiet_transformWith {loader : Loader} {id : String}
    (hroot : ∀ keyword ∈ keywords, ¬keyword <:+: loader.root.toList)
    (hname : ∀ keyword ∈ keywords, ¬keyword <:+: (ModuleId.moduleName id).toList)
    (content : String) (options : Options) :
    Quiet (loader.transformWith content id options).toList [] := by
  have hregistered : ∀ b, afterGap? b = none → (∀ c, b.head? = some c → Text.isLineEnd c = true) →
      Quiet (registered (registrationPath loader.root (ModuleId.moduleName id)).toList
        content.toList) b := by
    intro b hgap hend
    exact quiet_registered (afterGap?_assignment _ _) hgap hend (quiet_assignment hroot hname) _
  simp only [transformWith, register, path]
  split
  · rw [String.toList_append, String.toList_ofList, quiet_append, List.append_nil]
    refine ⟨?_, quiet_footer hroot hname []⟩
    exact hregistered _ (afterGap?_footer _ _) fun c hc => isLineEnd_of_head?_footer hc
  · rw [String.toList_ofList]
    exact hregistered [] rfl (by simp)

/-- The pattern of openings matches nowhere in an output whose path holds no keyword. So a second
registration changes nothing, to whatever path, and a second transformation appends no more than
its footer. -/
theorem no_match_in_transformWith {loader : Loader} {id : String}
    (hroot : ∀ keyword ∈ keywords, ¬keyword <:+: loader.root.toList)
    (hname : ∀ keyword ∈ keywords, ¬keyword <:+: (ModuleId.moduleName id).toList)
    (content : String) (options : Options) :
    (∀ m, m <:+: (loader.transformWith content id options).toList →
        ¬Pattern.opening.Matches m) ∧
      (∀ path, register (loader.transformWith content id options) path =
        ⟨loader.transformWith content id options, false⟩) ∧
      ∀ (again : Loader) (id' : String),
        again.transformWith (loader.transformWith content id options) id' ⟨false⟩ =
            loader.transformWith content id options ∧
          again.transformWith (loader.transformWith content id options) id' ⟨true⟩ =
            loader.transformWith content id options ++
              HotReload.footer (again.path id') (ModuleId.moduleName id') again.root := by
  have hnone := (quiet_transformWith hroot hname content options).hasOpening_eq_false
  have hregister : ∀ path, register (loader.transformWith content id options) path =
      ⟨loader.transformWith content id options, false⟩ := by
    intro path
    rw [register, registered_eq_self hnone, hnone, String.ofList_toList]
  refine ⟨?_, hregister, fun again id' => ?_⟩
  · rw [hasOpening_eq_isSome_search, Option.isSome_eq_false_iff, Option.isNone_iff_eq_none] at hnone
    exact Pattern.search_eq_none_iff_matches.1 hnone
  · generalize loader.transformWith content id options = output at hregister
    simp [transformWith, hregister]

/-- A module with two exports on neighbouring lines, taken up by hot reload. -/
theorem no_match_in_transformWith_menu :
    let content := "module.exports = \x7b\n\x7d\nexport\ndefault \x7b a: \x7b\x7d\n\x7d"
    let output := Loader.standard.transformWith content "js/menu.behavior.js" ⟨true⟩
    (∀ keyword ∈ keywords, ¬keyword <:+: Loader.standard.root.toList) ∧
      (∀ keyword ∈ keywords, ¬keyword <:+: (ModuleId.moduleName "js/menu.behavior.js").toList) ∧
      (register content "window.Drupal.behaviors.menu").matched = true ∧
      ∀ path, register output path = ⟨output, false⟩ := by
  have hroot : ∀ keyword ∈ keywords, ¬keyword <:+: Loader.standard.root.toList := by decide
  have hname : ∀ keyword ∈ keywords,
      ¬keyword <:+: (ModuleId.moduleName "js/menu.behavior.js").toList := by decide
  have hopening : afterLastOpening?
      "module.exports = \x7b\n\x7d\nexport\ndefault \x7b a: \x7b\x7d\n\x7d".toList =
        some "\n\x7d\nexport\ndefault \x7b a: \x7b\x7d\n\x7d".toList := by decide
  exact ⟨hroot, hname, hasOpening_of_opening hopening,
    (no_match_in_transformWith hroot hname _ _).2.1⟩

end Loader

end BehaviorRegistrar
