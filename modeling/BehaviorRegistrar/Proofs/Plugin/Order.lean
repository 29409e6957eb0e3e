import BehaviorRegistrar.Plugin.Container

/-!
# The order of plugins in a container

A list of plugins in the order of their stages is determined by its plugins of each stage. Adding a
plugin keeps this order and puts the plugin behind those of its stage, as a stable sort of the longer
list does. So a container holds what was added, the stages one after another and each stage in the
order of the additions, in whatever order the stages took turns.
-/

namespace BehaviorRegistrar.Container

def inOrder (first second : Plugin) : Bool := first.stage.rank ≤ second.stage.rank

def ofStage (stage : Stage) (plugins : List Plugin) : List Plugin :=
  plugins.filter fun plugin => plugin.stage = stage

abbrev InOrder (plugins : List Plugin) : Prop := plugins.Pairwise (inOrder · ·)

def addAll (container : Container) (added : List Plugin) : Container :=
  added.foldl Container.add container

theorem inOrder_iff {first second : Plugin} :
    inOrder first second ↔ first.stage.rank ≤ second.stage.rank := by
  simp [inOrder]

theorem inOrder_trans (a b c : Plugin) (hab : inOrder a b) (hbc : inOrder b c) : inOrder a c := by
  rw [inOrder_iff] at *
  exact Nat.le_trans hab hbc

theorem inOrder_total (a b : Plugin) : inOrder a b || inOrder b a := by
  rw [Bool.or_eq_true, inOrder_iff, inOrder_iff]
  exact Nat.le_total _ _

theorem ofStage_cons (stage : Stage) (plugin : Plugin) (plugins : List Plugin) :
    ofStage stage (plugin :: plugins) =
      (if plugin.stage = stage then [plugin] else []) ++ ofStage stage plugins := by
  simp only [ofStage, List.filter_cons, decide_eq_true_eq]
  split <;> rfl

theorem ofStage_append (stage : Stage) (first rest : List Plugin) :
    ofStage stage (first ++ rest) = ofStage stage first ++ ofStage stage rest :=
  List.filter_append first rest

private theorem ofStage_eq_nil {stage : Stage} {first : Plugin} {rest : List Plugin}
    (h : ∀ plugin ∈ rest, inOrder first plugin) (hlt : stage.rank < first.stage.rank) :
    ofStage stage rest = [] := by
  rw [ofStage, List.filter_eq_nil_iff]
  intro plugin hplugin hstage
  have hle := inOrder_iff.mp (h plugin hplugin)
  rw [of_decide_eq_true hstage] at hle
  omega

/-- Plugins in order are those of the stages, one stage after another. -/
theorem eq_of_inOrder {plugins : List Plugin} (h : InOrder plugins) :
    plugins = ofStage .pre plugins ++ ofStage .normal plugins ++ ofStage .post plugins := by
  induction plugins with
  | nil => rfl
  | cons first rest ih =>
    obtain ⟨hfirst, hrest⟩ := List.pairwise_cons.mp h
    have hbefore : ∀ stage : Stage, stage.rank < first.stage.rank → ofStage stage rest = [] :=
      fun _ => ofStage_eq_nil hfirst
    have hstages := ih hrest
    cases hstage : first.stage with
    | pre => simpa [ofStage_cons, hstage] using hstages
    | normal =>
      have hpre := hbefore .pre (by simp [hstage, Stage.rank])
      simpa [ofStage_cons, hstage, hpre] using hstages
    | post =>
      have hpre := hbefore .pre (by simp [hstage, Stage.rank])
      have hnormal := hbefore .normal (by simp [hstage, Stage.rank])
      simpa [ofStage_cons, hstage, hpre, hnormal] using hstages

theorem eq_of_ofStage {first second : List Plugin} (hfirst : InOrder first)
    (hsecond : InOrder second) (h : ∀ stage, ofStage stage first = ofStage stage second) :
    first = second := by
  rw [eq_of_inOrder hfirst, eq_of_inOrder hsecond, h, h, h]

theorem perm_insert (plugin : Plugin) (plugins : List Plugin) :
    (insert plugin plugins).Perm (plugin :: plugins) := by
  fun_induction insert plugin plugins with
  | case1 => rfl
  | case2 => rfl
  | case3 first rest _ ih => exact (ih.cons first).trans (List.Perm.swap plugin first rest)

theorem inOrder_insert (plugin : Plugin) {plugins : List Plugin} (h : InOrder plugins) :
    InOrder (insert plugin plugins) := by
  fun_induction insert plugin plugins with
  | case1 => exact List.pairwise_singleton _ plugin
  | case2 first rest hlt =>
    refine List.pairwise_cons.mpr ⟨fun other hother => ?_, h⟩
    have hfirst : inOrder plugin first := inOrder_iff.mpr (Nat.le_of_lt hlt)
    obtain rfl | hrest := List.mem_cons.mp hother
    · exact hfirst
    · exact inOrder_trans plugin first other hfirst ((List.pairwise_cons.mp h).1 other hrest)
  | case3 first rest hle ih =>
    obtain ⟨hfirst, hrest⟩ := List.pairwise_cons.mp h
    refine List.pairwise_cons.mpr ⟨fun other hother => ?_, ih hrest⟩
    obtain rfl | hmem := List.mem_cons.mp ((perm_insert plugin rest).mem_iff.mp hother)
    · exact inOrder_iff.mpr (Nat.le_of_not_lt hle)
    · exact hfirst other hmem

/-- A plugin is put behind those of its stage. -/
theorem ofStage_insert (stage : Stage) (plugin : Plugin) {plugins : List Plugin}
    (h : InOrder plugins) :
    ofStage stage (insert plugin plugins) = ofStage stage (plugins ++ [plugin]) := by
  rw [ofStage_append]
  fun_induction insert plugin plugins with
  | case1 => rfl
  | case2 first rest hlt =>
    by_cases hstage : plugin.stage = stage
    · have hrest : ofStage stage (first :: rest) = [] := by
        have hbehind : ∀ other ∈ first :: rest, inOrder first other := by
          intro other hother
          obtain rfl | hother := List.mem_cons.mp hother
          · exact inOrder_iff.mpr (Nat.le_refl _)
          · exact (List.pairwise_cons.mp h).1 other hother
        exact ofStage_eq_nil hbehind (hstage ▸ hlt)
      rw [ofStage_cons, hrest, List.append_nil, List.nil_append]
      simp [ofStage, hstage]
    · simp [ofStage, hstage]
  | case3 first rest _ ih =>
    rw [ofStage_cons, ofStage_cons, ih (List.pairwise_cons.mp h).2, List.append_assoc]

/-- A stable sort keeps the plugins of each stage as they stand. -/
theorem ofStage_mergeSort (stage : Stage) (plugins : List Plugin) :
    ofStage stage (plugins.mergeSort inOrder) = ofStage stage plugins := by
  have hsame : InOrder (ofStage stage plugins) := by
    refine List.pairwise_filter.mpr (List.pairwise_of_forall fun first second hfirst hsecond => ?_)
    exact inOrder_iff.mpr
      (Nat.le_of_eq (by rw [of_decide_eq_true hfirst, of_decide_eq_true hsecond]))
  have hsub : (ofStage stage plugins).Sublist (plugins.mergeSort inOrder) :=
    List.sublist_mergeSort inOrder_trans inOrder_total hsame List.filter_sublist
  have hstage := hsub.filter fun plugin => plugin.stage = stage
  rw [ofStage, List.filter_filter] at hstage
  simp only [Bool.and_self] at hstage
  exact (hstage.eq_of_length ((List.mergeSort_perm plugins inOrder).filter _).length_eq.symm).symm

theorem inOrder_mergeSort (plugins : List Plugin) : InOrder (plugins.mergeSort inOrder) :=
  List.pairwise_mergeSort inOrder_trans inOrder_total plugins

/-- To put a plugin into plugins in order is to append it and to sort. -/
theorem insert_eq_mergeSort (plugin : Plugin) {plugins : List Plugin} (h : InOrder plugins) :
    insert plugin plugins = (plugins ++ [plugin]).mergeSort inOrder := by
  refine eq_of_ofStage (inOrder_insert plugin h) (inOrder_mergeSort _) fun stage => ?_
  rw [ofStage_insert stage plugin h, ofStage_mergeSort]

theorem addAll_append (container : Container) (first rest : List Plugin) :
    container.addAll (first ++ rest) = (container.addAll first).addAll rest :=
  List.foldl_append

theorem cwd_addAll (container : Container) (added : List Plugin) :
    (container.addAll added).cwd = container.cwd := by
  induction added generalizing container with
  | nil => rfl
  | cons plugin rest ih => exact ih (container.add plugin)

theorem addAll_empty (cwd : String) (added : List Plugin) :
    (empty cwd).addAll added = ⟨cwd, ((empty cwd).addAll added).plugins⟩ := by
  have hcwd := cwd_addAll (empty cwd) added
  generalize (empty cwd).addAll added = container at hcwd ⊢
  rw [← show container.cwd = cwd from hcwd]

/-- What additions to a container in order come to. -/
theorem addAll_spec {container : Container} (h : InOrder container.plugins) (added : List Plugin) :
    InOrder (container.addAll added).plugins ∧
      (∀ stage, ofStage stage (container.addAll added).plugins =
        ofStage stage (container.plugins ++ added)) ∧
      (container.addAll added).plugins =
        added.foldl (fun plugins plugin => (plugins ++ [plugin]).mergeSort inOrder)
          container.plugins := by
  induction added generalizing container with
  | nil => exact ⟨h, fun stage => by rw [List.append_nil]; rfl, rfl⟩
  | cons plugin rest ih =>
    have hadded : InOrder (container.add plugin).plugins := inOrder_insert plugin h
    obtain ⟨horder, hstages, hsorted⟩ := ih hadded
    refine ⟨horder, fun stage => ?_, ?_⟩
    · calc ofStage stage (container.addAll (plugin :: rest)).plugins
          = ofStage stage (insert plugin container.plugins ++ rest) := hstages stage
        _ = ofStage stage (container.plugins ++ plugin :: rest) := by
          rw [ofStage_append, ofStage_insert stage plugin h, ← ofStage_append, List.append_assoc,
            List.singleton_append]
    · rw [List.foldl_cons, ← insert_eq_mergeSort plugin h]
      exact hsorted

/-- A container holds the stages one after another, each in the order of the additions. -/
theorem plugins_eq_stages (cwd : String) (added : List Plugin) :
    ((empty cwd).addAll added).plugins =
      ofStage .pre added ++ ofStage .normal added ++ ofStage .post added := by
  obtain ⟨horder, hstages, -⟩ := addAll_spec (show InOrder (empty cwd).plugins from .nil) added
  rw [eq_of_inOrder horder, hstages, hstages, hstages]
  rfl

/-- A container holds the plugins that were added to it by their stages, and those of a stage in the
order of the additions: what sorting stably after each addition gives, or once at the end. Additions
that agree stage by stage give the same container. -/
theorem plugins_addAll (cwd : String) (added : List Plugin) :
    ((empty cwd).addAll added).plugins =
        ofStage .pre added ++ ofStage .normal added ++ ofStage .post added ∧
      ((empty cwd).addAll added).plugins = added.mergeSort inOrder ∧
      ((empty cwd).addAll added).plugins =
        added.foldl (fun plugins plugin => (plugins ++ [plugin]).mergeSort inOrder) [] ∧
      ((empty cwd).addAll added).plugins.Perm added ∧
      ∀ other, (∀ stage, ofStage stage other = ofStage stage added) →
        (empty cwd).addAll other = (empty cwd).addAll added := by
  have hempty : InOrder (empty cwd).plugins := List.Pairwise.nil
  obtain ⟨horder, hstages, hsorted⟩ := addAll_spec hempty added
  have hsort : ((empty cwd).addAll added).plugins = added.mergeSort inOrder := by
    refine eq_of_ofStage horder (inOrder_mergeSort added) fun stage => ?_
    rw [hstages, ofStage_mergeSort]
    rfl
  refine ⟨plugins_eq_stages cwd added, hsort, hsorted, ?_, fun other h => ?_⟩
  · rw [hsort]
    exact List.mergeSort_perm added inOrder
  · rw [addAll_empty, plugins_eq_stages, h, h, h, ← plugins_eq_stages cwd added, ← addAll_empty]

end BehaviorRegistrar.Container
