import BehaviorRegistrar.Json.Quote
import BehaviorRegistrar.Json.Value

/-!
# Reading JSON

A value is read from the front of a text, and what it leaves is always shorter than the text: this
is part of the result, and it is why the loops over items and members end. Arrays and objects nest
up to a depth; one that would go deeper is refused at its bracket.
-/

namespace BehaviorRegistrar.Json

def isSpace (c : Char) : Bool := c == ' ' || c == '\n' || c == '\t' || c == '\r'

def skip (s : List Char) : List Char := s.dropWhile isSpace

theorem length_lt_of_skip {s r : List Char} {c : Char} (h : skip s = c :: r) :
    r.length < s.length := by
  have hle : (skip s).length ≤ s.length := (List.dropWhile_sublist isSpace).length_le
  rw [h, List.length_cons] at hle
  omega

abbrev Rest (s : List Char) := { r : List Char // r.length < s.length }

abbrev Reading (α : Type) (s : List Char) := Except (Fault Cause) (α × Rest s)

def Rest.weaken {s t : List Char} (h : t.length < s.length) (rest : Rest t) : Rest s :=
  ⟨rest.val, Nat.lt_trans rest.property h⟩

def readLetters (value : Json) : List Char → List Char → Except (Fault Cause) (Json × List Char)
  | [], s => .ok (value, s)
  | _ :: _, [] => .error (.here .endInValue [])
  | w :: ws, c :: r =>
    if w = c then readLetters value ws r else .error (.next .misspeltLiteral (c :: r))

def readScalar (s : List Char) : Except (Fault Cause) (Json × List Char) :=
  match s with
  | [] => .error (.here .endInValue [])
  | 'n' :: r => readLetters .null ['u', 'l', 'l'] r
  | 't' :: r => readLetters (.bool true) ['r', 'u', 'e'] r
  | 'f' :: r => readLetters (.bool false) ['a', 'l', 's', 'e'] r
  | '"' :: r => (readString r).map fun found => (.string (String.ofList found.1), found.2)
  | '-' :: r => (Number.readUnsigned true r).map fun found => (.number found.1, found.2)
  | c :: _ =>
    if c.isDigit then (Number.readUnsigned false s).map fun found => (.number found.1, found.2)
    else .error (.next .noValue s)

theorem length_of_readLetters {value v : Json} {word s r : List Char}
    (h : readLetters value word s = .ok (v, r)) : r.length ≤ s.length := by
  induction word generalizing s with
  | nil =>
    simp only [readLetters, Except.ok.injEq, Prod.mk.injEq] at h
    exact Nat.le_of_eq (congrArg List.length h.2.symm)
  | cons w ws ih =>
    cases s with
    | nil => simp [readLetters] at h
    | cons c t =>
      rw [readLetters] at h
      split at h
      · have := ih h
        simp only [List.length_cons]
        omega
      · simp at h

private theorem ok_of_map_ok {α β : Type} {found : Except (Fault Cause) (α × List Char)}
    {f : α × List Char → β} {y : β} (h : found.map f = .ok y) : ∃ x, found = .ok x ∧ f x = y := by
  cases found with
  | error fault => simp [Except.map] at h
  | ok x => exact ⟨x, rfl, by simpa [Except.map] using h⟩

theorem length_of_readScalar {s r : List Char} {v : Json} (h : readScalar s = .ok (v, r)) :
    r.length < s.length := by
  rw [readScalar.eq_def] at h
  split at h
  · simp at h
  · have := length_of_readLetters h
    simp only [List.length_cons]
    omega
  · have := length_of_readLetters h
    simp only [List.length_cons]
    omega
  · have := length_of_readLetters h
    simp only [List.length_cons]
    omega
  · obtain ⟨x, hx, hr⟩ := ok_of_map_ok h
    have := length_of_readString hx
    simp only [Prod.mk.injEq] at hr
    simp only [← hr.2, List.length_cons]
    omega
  · obtain ⟨x, hx, hr⟩ := ok_of_map_ok h
    have := Number.length_of_readUnsigned hx
    simp only [Prod.mk.injEq] at hr
    simp only [← hr.2, List.length_cons]
    omega
  · split at h
    · obtain ⟨x, hx, hr⟩ := ok_of_map_ok h
      have := Number.length_of_readUnsigned hx
      simp only [Prod.mk.injEq] at hr
      rw [← hr.2]
      exact this
    · simp at h

def readMoreItems (item : (s : List Char) → Reading Json s) (s : List Char) :
    Reading (List Json) s :=
  match hs : skip s with
  | [] => .error (.here .endInList [])
  | ']' :: r => .ok ([], ⟨r, length_lt_of_skip hs⟩)
  | ',' :: r =>
    match skip r with
    | [] => .error (.here .endInValue [])
    | ']' :: t => .error (.next .trailingComma (']' :: t))
    | _ :: _ =>
      match item r with
      | .error fault => .error fault
      | .ok (value, rest) =>
        match readMoreItems item rest.val with
        | .error fault => .error fault
        | .ok (values, last) =>
          .ok (value :: values, (last.weaken rest.property).weaken (length_lt_of_skip hs))
  | c :: r => .error (.next .noListSeparator (c :: r))
termination_by s.length
decreasing_by
  have hs := length_lt_of_skip hs
  have := rest.property
  omega

def readItems (item : (s : List Char) → Reading Json s) (s : List Char) : Reading (List Json) s :=
  match hs : skip s with
  | [] => .error (.here .endInList [])
  | ']' :: r => .ok ([], ⟨r, length_lt_of_skip hs⟩)
  | _ :: _ =>
    match item s with
    | .error fault => .error fault
    | .ok (value, rest) =>
      match readMoreItems item rest.val with
      | .error fault => .error fault
      | .ok (values, last) => .ok (value :: values, last.weaken rest.property)

def readMember (item : (s : List Char) → Reading Json s) (s : List Char) :
    Reading (String × Json) s :=
  match hk : readString s with
  | .error fault => .error fault
  | .ok (key, r) =>
    match hr : skip r with
    | [] => .error (.here .endInObject [])
    | ':' :: t =>
      match item t with
      | .error fault => .error fault
      | .ok (value, rest) =>
        .ok ((String.ofList key, value),
          (rest.weaken (length_lt_of_skip hr)).weaken (length_of_readString hk))
    | c :: t => .error (.next .noColon (c :: t))

def readMoreMembers (item : (s : List Char) → Reading Json s) (s : List Char) :
    Reading (List (String × Json)) s :=
  match hs : skip s with
  | [] => .error (.here .endInObject [])
  | '}' :: r => .ok ([], ⟨r, length_lt_of_skip hs⟩)
  | ',' :: r =>
    match hr : skip r with
    | [] => .error (.here .endInValue [])
    | '}' :: t => .error (.next .trailingComma ('}' :: t))
    | '"' :: t =>
      match readMember item t with
      | .error fault => .error fault
      | .ok (member, rest) =>
        match readMoreMembers item rest.val with
        | .error fault => .error fault
        | .ok (members, last) =>
          .ok (member :: members,
            ((last.weaken rest.property).weaken (length_lt_of_skip hr)).weaken
              (length_lt_of_skip hs))
    | c :: t => .error (.next .keyNotString (c :: t))
  | c :: r => .error (.next .noObjectSeparator (c :: r))
termination_by s.length
decreasing_by
  have hs := length_lt_of_skip hs
  have hr := length_lt_of_skip hr
  have := rest.property
  omega

def readMembers (item : (s : List Char) → Reading Json s) (s : List Char) :
    Reading (List (String × Json)) s :=
  match hs : skip s with
  | [] => .error (.here .endInObject [])
  | '}' :: r => .ok ([], ⟨r, length_lt_of_skip hs⟩)
  | '"' :: r =>
    match readMember item r with
    | .error fault => .error fault
    | .ok (member, rest) =>
      match readMoreMembers item rest.val with
      | .error fault => .error fault
      | .ok (members, last) =>
        .ok (member :: members, (last.weaken rest.property).weaken (length_lt_of_skip hs))
  | c :: r => .error (.next .keyNotString (c :: r))

/-- Reads a value, given how to read the values inside it; without that, none may lie inside. -/
def readWith (item? : Option ((s : List Char) → Reading Json s)) (s : List Char) : Reading Json s :=
  match hs : skip s with
  | [] => .error (.here .endInValue [])
  | '[' :: r =>
    match item? with
    | none => .error (.next .tooDeep ('[' :: r))
    | some item =>
      match readItems item r with
      | .error fault => .error fault
      | .ok (items, rest) => .ok (.array items, rest.weaken (length_lt_of_skip hs))
  | '{' :: r =>
    match item? with
    | none => .error (.next .tooDeep ('{' :: r))
    | some item =>
      match readMembers item r with
      | .error fault => .error fault
      | .ok (members, rest) => .ok (.object members, rest.weaken (length_lt_of_skip hs))
  | c :: r =>
    match hv : readScalar (c :: r) with
    | .error fault => .error fault
    | .ok (value, rest) =>
      .ok (value, ⟨rest, by
        have hs := length_lt_of_skip hs
        have hv := length_of_readScalar hv
        simp only [List.length_cons] at hv
        omega⟩)

def readNested : Nat → (s : List Char) → Reading Json s
  | 0 => readWith none
  | depth + 1 => readWith (some (readNested depth))

def depthLimit : Nat := 127

/-- The value that a whole text holds. -/
def read (text : List Char) : Except (Fault Cause) Json :=
  match readNested depthLimit text with
  | .error fault => .error fault
  | .ok (value, rest) =>
    match skip rest.val with
    | [] => .ok value
    | c :: r => .error (.next .trailingText (c :: r))

end BehaviorRegistrar.Json
