import BehaviorRegistrar.Proofs.Json.Locality
import BehaviorRegistrar.Proofs.Json.Members

/-!
# Texts of objects

A text that holds an object is made of a text for each member, with commas between them and braces
around them. So the members of an object can be written in another order, or be left out, and a text
of this kind holds just those that are written.
-/

namespace BehaviorRegistrar.Json

def IsMemberText (text : List Char) (member : String × Json) : Prop :=
  ∃ r rest, skip text = '"' :: r ∧
    Gives (readMember (readNested (depthLimit - 1))) r member rest ∧ skip rest = []

structure WrittenMember where
  text : List Char
  member : String × Json
  holds : IsMemberText text member

/-- The text of an object, between blanks. -/
def objectText (before : List Char) (written : List WrittenMember) (after : List Char) : List Char :=
  before ++ '{' :: List.intercalate [','] (written.map (·.text)) ++ '}' :: after

theorem isMemberText_printMember {member : String × Json} (h : IsPlain (depthLimit - 1) member.2) :
    IsMemberText (printMember member) member := by
  obtain ⟨taken, behind, hbehind, htaken⟩ := holdsMember_printMember (readsBack_of_isPlain h)
  obtain ⟨hskip, hmember⟩ := htaken [] endsNumber_nil
  simp only [List.append_nil] at hskip hmember
  exact ⟨taken ++ behind, behind, hskip, hmember, hbehind⟩

def WrittenMember.printed (member : String × Json) (h : IsPlain (depthLimit - 1) member.2) :
    WrittenMember :=
  ⟨printMember member, member, isMemberText_printMember h⟩

def moreText (written : List WrittenMember) (rest : List Char) : List Char :=
  written.flatMap (',' :: WrittenMember.text ·) ++ '}' :: rest

section Written

variable {before after s rest : List Char} {members : List (String × Json)}

theorem moreText_cons (member : WrittenMember) (written : List WrittenMember) (rest : List Char) :
    moreText (member :: written) rest = ',' :: (member.text ++ moreText written rest) := by
  simp [moreText]

theorem objectText_cons (before : List Char) (member : WrittenMember) (written : List WrittenMember)
    (after : List Char) :
    objectText before (member :: written) after =
      before ++ '{' :: (member.text ++ moreText written after) := by
  have hcommas : ∀ (text : List Char) (texts : List (List Char)),
      List.intercalate [','] (text :: texts) = text ++ texts.flatMap (',' :: ·) := by
    intro text texts
    induction texts generalizing text with
    | nil => simp
    | cons next texts ih => rw [List.intercalate_cons_cons, ih]; simp
  rw [objectText, List.map_cons, hcommas, List.flatMap_map, moreText]
  simp

/-! ## From members to texts and back -/

/-- A member is read from its text in front of the comma or the brace that follows it. -/
theorem WrittenMember.holdsMember (member : WrittenMember) :
    HoldsMember (readNested (depthLimit - 1)) member.text member.member := by
  obtain ⟨r, behind, hr, hmember, hbehind⟩ := member.holds
  obtain ⟨taken, rfl, htaken⟩ :=
    isLocal_readMember (readsValues_readNested _).isLocal r member.member behind hmember
  refine ⟨taken, behind, hbehind, fun next hnext => ⟨?_, htaken _ (endsNumber_blanks hbehind hnext)⟩⟩
  rw [skip_append_of_skip hr, List.append_assoc]

/-- A text of an object holds the members that are written in it. -/
theorem read_objectText (hbefore : skip before = []) (hafter : skip after = [])
    (written : List WrittenMember) :
    read (objectText before written after) = .ok (.object (written.map (·.member))) := by
  rw [read_eq_object_iff]
  cases written with
  | nil =>
    refine ⟨'}' :: after, after, ?_, gives_readMembers_iff.2 (.inl ⟨skip_cons (by decide) after, rfl⟩),
      hafter⟩
    rw [objectText, List.append_assoc]
    exact skip_blanks_cons hbefore (by decide) _
  | cons member written =>
    refine ⟨member.text ++ moreText written after, after, ?_,
      gives_members (fun own _ => own.holdsMember) after, hafter⟩
    rw [objectText_cons]
    exact skip_blanks_cons hbefore (by decide) _

/-- The text from which a member is read, with the blanks around it, holds this member. -/
theorem exists_writtenMember {t behind next : List Char} {member : String × Json}
    (hs : skip s = '"' :: t) (hbehind : skip behind = [])
    (hmember : Gives (readMember (readNested (depthLimit - 1))) t member (behind ++ next)) :
    ∃ first : WrittenMember, first.member = member ∧ s = first.text ++ next := by
  obtain ⟨before, hbefore, rfl, -⟩ := exists_blanks hs
  obtain ⟨taken, rfl, htaken⟩ :=
    isLocal_readMember (readsValues_readNested _).isLocal t member _ hmember
  have hends : EndsNumber behind := by simpa using endsNumber_blanks hbehind endsNumber_nil
  exact ⟨⟨before ++ '"' :: (taken ++ behind), member, taken ++ behind, behind,
    skip_blanks_cons hbefore (by decide) _, htaken behind hends, hbehind⟩, rfl, by simp⟩

theorem exists_moreText
    (h : Gives (readMoreMembers (readNested (depthLimit - 1))) s members rest) :
    ∃ (blanks : List Char) (written : List WrittenMember), skip blanks = [] ∧
      written.map (·.member) = members ∧ s = blanks ++ moreText written rest := by
  induction members generalizing s with
  | nil =>
    rcases gives_readMoreMembers_iff.1 h with ⟨hs, -⟩ | ⟨_, _, _, _, _, -, -, -, -, hcons⟩
    · obtain ⟨blanks, hblanks, rfl, -⟩ := exists_blanks hs
      exact ⟨blanks, [], hblanks, rfl, rfl⟩
    · cases hcons
  | cons member members ih =>
    rcases gives_readMoreMembers_iff.1 h with
      ⟨-, hnil⟩ | ⟨r, t, _, mid, _, hs, hr, hmember, hmore, hcons⟩
    · cases hnil
    · obtain ⟨rfl, rfl⟩ := List.cons.inj hcons
      obtain ⟨before, hbefore, rfl, -⟩ := exists_blanks hs
      obtain ⟨behind, written, hbehind, rfl, rfl⟩ := ih hmore
      obtain ⟨first, rfl, rfl⟩ := exists_writtenMember hr hbehind hmember
      exact ⟨before, first :: written, hbefore, rfl, by rw [moreText_cons]⟩

/-- Every text that holds an object with members is a text of this kind. -/
theorem exists_objectText {text : List Char} (h : read text = .ok (.object members))
    (hmembers : members ≠ []) :
    ∃ before written after, skip before = [] ∧ skip after = [] ∧
      written.map (·.member) = members ∧ text = objectText before written after := by
  obtain ⟨r, after, hs, hread, hafter⟩ := read_eq_object_iff.1 h
  rcases gives_readMembers_iff.1 hread with ⟨-, hnil⟩ | ⟨t, member, mid, more, hr, hmember, hmore, rfl⟩
  · exact absurd hnil hmembers
  · obtain ⟨before, hbefore, rfl, -⟩ := exists_blanks hs
    obtain ⟨behind, written, hbehind, rfl, rfl⟩ := exists_moreText hmore
    obtain ⟨first, rfl, rfl⟩ := exists_writtenMember hr hbehind hmember
    exact ⟨before, first :: written, after, hbefore, hafter, rfl, by rw [objectText_cons]⟩

end Written

end BehaviorRegistrar.Json
