import BehaviorRegistrar.Proofs.Disk.Tree
import BehaviorRegistrar.Proofs.Paths

/-!
# Ordered trees

Changing the entries of a directory keeps a tree ordered, and two ordered trees with the same standing
at every location are equal.
-/

namespace BehaviorRegistrar

namespace Entries

theorem lt_of_find? {first name : Name} {node found : Node} :
    ∀ {rest : Entries}, (Entries.entry first node rest).Ordered → rest.find? name = some found →
      first < name
  | .empty, _, h => by simp [find?] at h
  | .entry next other rest, hordered, h => by
    obtain ⟨-, -, hrest, hlt⟩ := hordered
    rw [find?] at h
    split at h
    · rename_i heq
      rwa [heq] at hlt
    · exact List.lt_trans hlt (lt_of_find? hrest h)

theorem ordered_entry_iff {name : Name} {node : Node} {rest : Entries} :
    (Entries.entry name node rest).Ordered ↔
      IsEntryName name ∧ node.Ordered ∧ rest.Ordered ∧
        ∀ other found, rest.find? other = some found → name < other := by
  constructor
  · intro h
    obtain ⟨hname, hnode, hrest, -⟩ := id h
    exact ⟨hname, hnode, hrest, fun other found => lt_of_find? h⟩
  · rintro ⟨hname, hnode, hrest, hlt⟩
    refine ⟨hname, hnode, hrest, ?_⟩
    cases rest with
    | empty => trivial
    | entry next other later => exact hlt next other (by simp [find?])

theorem find?_rest {name : Name} {node : Node} {rest : Entries}
    (h : (Entries.entry name node rest).Ordered) : rest.find? name = none := by
  cases hfind : rest.find? name with
  | none => rfl
  | some found => exact absurd (lt_of_find? h hfind) (List.lt_irrefl name)

theorem ordered_of_find? {name : Name} {node : Node} {entries : Entries} (h : entries.Ordered)
    (hfind : entries.find? name = some node) : IsEntryName name ∧ node.Ordered := by
  fun_induction find? name entries with
  | case1 => cases hfind
  | case2 found rest =>
    obtain ⟨hname, hnode, -⟩ := h
    exact ⟨hname, Option.some.inj hfind ▸ hnode⟩
  | case3 first found rest _ ih => exact ih h.2.2.1 hfind

theorem ordered_set {name : Name} {node : Node} {entries : Entries} (hname : IsEntryName name)
    (hnode : node.Ordered) (h : entries.Ordered) : (entries.set name node).Ordered := by
  fun_induction set name node entries with
  | case1 => exact ⟨hname, hnode, trivial, trivial⟩
  | case2 old rest =>
    rw [ordered_entry_iff] at h ⊢
    exact ⟨hname, hnode, h.2.2⟩
  | case3 first old rest _ hlt => exact ⟨hname, hnode, h, hlt⟩
  | case4 first old rest hne hlt ih =>
    obtain ⟨hfirst, hold, hrest, hbefore⟩ := ordered_entry_iff.mp h
    refine ordered_entry_iff.mpr ⟨hfirst, hold, ih hrest, fun other found hother => ?_⟩
    rw [find?_set] at hother
    split at hother
    · rename_i heq
      refine heq ▸ Decidable.byContradiction fun hnot => hne ?_
      exact List.le_antisymm (List.not_lt.mp hlt) (List.not_lt.mp hnot)
    · exact hbefore other found hother

theorem ordered_erase (name : Name) {entries : Entries} (h : entries.Ordered) :
    (entries.erase name).Ordered ∧ (entries.erase name).find? name = none := by
  fun_induction erase name entries with
  | case1 => exact ⟨trivial, rfl⟩
  | case2 node rest => exact ⟨h.2.2.1, find?_rest h⟩
  | case3 first node rest hne ih =>
    obtain ⟨hfirst, hnode, hrest, hbefore⟩ := ordered_entry_iff.mp h
    obtain ⟨herased, hnone⟩ := ih hrest
    refine ⟨ordered_entry_iff.mpr ⟨hfirst, hnode, herased, fun other found hother => ?_⟩, ?_⟩
    · by_cases heq : name = other
      · rw [← heq, hnone] at hother
        cases hother
      · rw [find?_erase_of_ne heq] at hother
        exact hbefore other found hother
    · simp [find?, hne, hnone]

theorem ordered_adjust {name : Name} {change : Node → Node} {entries : Entries}
    (hchange : ∀ node : Node, node.Ordered → (change node).Ordered) (h : entries.Ordered) :
    (entries.adjust name change).Ordered := by
  fun_induction adjust name change entries with
  | case1 => trivial
  | case2 node rest =>
    rw [ordered_entry_iff] at h ⊢
    exact ⟨h.1, hchange node h.2.1, h.2.2⟩
  | case3 first node rest _ ih =>
    obtain ⟨hfirst, hnode, hrest, hbefore⟩ := ordered_entry_iff.mp h
    refine ordered_entry_iff.mpr ⟨hfirst, hnode, ih hrest, fun other found hother => ?_⟩
    by_cases heq : name = other
    · subst heq
      rw [find?_adjust_self] at hother
      obtain ⟨before, hbefore', -⟩ := Option.map_eq_some_iff.mp hother
      exact hbefore name before hbefore'
    · rw [find?_adjust_of_ne heq] at hother
      exact hbefore other found hother

end Entries

namespace Node

theorem ordered_of_at? {location : Location} {node found : Node} (hordered : node.Ordered)
    (h : node.at? location = some found) : found.Ordered := by
  induction location generalizing node with
  | nil => exact Option.some.inj h ▸ hordered
  | cons name names ih =>
    cases node with
    | file contents => cases h
    | directory entries =>
      obtain ⟨inner, hfind, hinner⟩ := Option.bind_eq_some_iff.mp h
      exact ih (Entries.ordered_of_find? hordered hfind).2 hinner

theorem ordered_update {change : Entries → Entries} {node : Node}
    (hchange : ∀ entries : Entries, entries.Ordered → (change entries).Ordered)
    (h : node.Ordered) (location : Location) : (node.update change location).Ordered := by
  induction location generalizing node with
  | nil =>
    cases node with
    | file contents => trivial
    | directory entries => exact hchange entries h
  | cons name names ih =>
    cases node with
    | file contents => trivial
    | directory entries => exact Entries.ordered_adjust (fun _ hnode => ih hnode) h

theorem held?_cons (name : Name) (rest : Location) (entries : Entries) :
    (Node.directory entries).held? (name :: rest) = (entries.find? name).bind (held? rest) := by
  rw [held?, at?]
  cases entries.find? name <;> rfl

end Node

private theorem Entries.isSome_find? {first second : Entries}
    (h : ∀ name rest, (first.find? name).bind (Node.held? rest) =
      (second.find? name).bind (Node.held? rest)) (name : Name) :
    (first.find? name).isSome = (second.find? name).isSome := by
  have hname := congrArg Option.isSome (h name [])
  cases hfirst : first.find? name <;> cases hsecond : second.find? name <;>
    simp_all [Node.held?, Node.at?]

private theorem Entries.not_lt_of_isSome_find? (name : Name) {other : Name} {node : Node}
    {rest : Entries} (hordered : (Entries.entry other node rest).Ordered)
    (h : ((Entries.entry other node rest).find? name).isSome) : ¬ name < other := by
  rw [find?] at h
  split at h
  · rename_i heq
    exact heq ▸ List.lt_irrefl other
  · obtain ⟨found, hfound⟩ := Option.isSome_iff_exists.mp h
    exact fun hlt => List.lt_irrefl name (List.lt_trans hlt (lt_of_find? hordered hfound))

mutual

/-- Ordered trees with the same standing everywhere are equal. -/
theorem Node.eq_of_held? {first second : Node} (hfirst : first.Ordered) (hsecond : second.Ordered)
    (h : ∀ location, first.held? location = second.held? location) : first = second := by
  have htop := h []
  cases first with
  | file contents =>
    cases second with
    | file others =>
      have heq : contents = others := by simpa [Node.held?, Node.at?, Node.contents?] using htop
      rw [heq]
    | directory others => simp [Node.held?, Node.at?, Node.contents?] at htop
  | directory entries =>
    cases second with
    | file others => simp [Node.held?, Node.at?, Node.contents?] at htop
    | directory others =>
      congr 1
      refine Entries.eq_of_held? hfirst hsecond fun name rest => ?_
      rw [← Node.held?_cons, ← Node.held?_cons]
      exact h (name :: rest)

theorem Entries.eq_of_held? {first second : Entries} (hfirst : first.Ordered)
    (hsecond : second.Ordered)
    (h : ∀ name rest, (first.find? name).bind (Node.held? rest) =
      (second.find? name).bind (Node.held? rest)) : first = second := by
  cases first with
  | empty =>
    cases second with
    | empty => rfl
    | entry name node rest => simpa [Entries.find?, Node.held?, Node.at?] using h name []
  | entry name node rest =>
    cases second with
    | empty => simpa [Entries.find?, Node.held?, Node.at?] using h name []
    | entry other node' rest' =>
      have hsome := Entries.isSome_find? h
      have hname : name = other := by
        have hle := Entries.not_lt_of_isSome_find? other hfirst
          (by rw [hsome other]; simp [Entries.find?])
        have hge := Entries.not_lt_of_isSome_find? name hsecond
          (by rw [← hsome name]; simp [Entries.find?])
        exact List.le_antisymm (List.not_lt.mp hle) (List.not_lt.mp hge)
      subst hname
      have hnode : node = node' := by
        refine Node.eq_of_held? hfirst.2.1 hsecond.2.1 fun location => ?_
        simpa [Entries.find?] using h name location
      have hrest : rest = rest' := by
        refine Entries.eq_of_held? hfirst.2.2.1 hsecond.2.2.1 fun other location => ?_
        by_cases heq : name = other
        · rw [← heq, Entries.find?_rest hfirst, Entries.find?_rest hsecond]
        · simpa [Entries.find?, heq] using h other location
      rw [hnode, hrest]

end

end BehaviorRegistrar
