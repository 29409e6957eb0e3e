import BehaviorRegistrar.Plugin.Behaviors
import BehaviorRegistrar.Proofs.Plugin.Order

/-!
# Sessions with a container

A session asks a container for one thing after another: to take a plugin, to take the behaviors plugin
with options that may be refused, or to call a hook. A hook visits the plugins in their order up to the
first that fails. Only a plugin that is taken changes the container, so that every answer is that of the
container to which the plugins taken so far were added.
-/

namespace BehaviorRegistrar

namespace Visit

variable {α : Type} {succeeds : Plugin → α → α → Prop} {fails : Plugin → α → PluginError → Prop}

/-- Plugins that succeed in turn, each with what the one before it gave. -/
inductive Chain (succeeds : Plugin → α → α → Prop) : List Plugin → α → α → Prop where
  | done (value : α) : Chain succeeds [] value value
  | step {plugin : Plugin} {rest : List Plugin} {value next last : α}
      (first : succeeds plugin value next) (tail : Chain succeeds rest next last) :
      Chain succeeds (plugin :: rest) value last

/-- Whether a visit calls plugins in turn: all of them when all succeed, and otherwise those up to the
first that fails, whose error it gives. -/
def UpToFailure (succeeds : Plugin → α → α → Prop) (fails : Plugin → α → PluginError → Prop)
    (plugins : List Plugin) (value : α) (visit : Visit α) : Prop :=
  (∃ last, Chain succeeds plugins value last ∧ visit = ⟨plugins, .ok last⟩) ∨
    ∃ before plugin after reached error, plugins = before ++ plugin :: after ∧
      Chain succeeds before value reached ∧ fails plugin reached error ∧
        visit = ⟨before ++ [plugin], .error error⟩

theorem upToFailure_through {call : Plugin → α → HookResult α}
    (hsucceeds : ∀ plugin value next, call plugin value = .ok next → succeeds plugin value next)
    (hfails : ∀ plugin value error, call plugin value = .error error → fails plugin value error)
    (plugins : List Plugin) (value : α) :
    UpToFailure succeeds fails plugins value (through call plugins value) := by
  fun_induction through call plugins value with
  | case1 value => exact .inl ⟨value, .done value, rfl⟩
  | case2 plugin rest value error hcall =>
    exact .inr ⟨[], plugin, rest, value, error, rfl, .done value, hfails _ _ _ hcall, rfl⟩
  | case3 plugin rest value next hcall later ih =>
    have hfirst := hsucceeds _ _ _ hcall
    obtain ⟨last, htail, hvisit⟩ | ⟨before, failing, after, reached, error, rfl, htail, hfailing,
      hvisit⟩ := ih
    · exact .inl ⟨last, .step hfirst htail, by simp [later, hvisit]⟩
    · exact .inr ⟨plugin :: before, failing, after, reached, error, rfl, .step hfirst htail,
        hfailing, by simp [later, hvisit]⟩

end Visit

/-- Whether a plugin takes the code of a module to other code. One that gives none leaves it. -/
def Plugin.Takes (plugin : Plugin) (id cwd code next : String) : Prop :=
  plugin.transform code id cwd = .ok (some next) ∨
    plugin.transform code id cwd = .ok none ∧ next = code

namespace Container

inductive Request where
  | add (plugin : Plugin)
  | addBehaviors (options : Option Json)
  | buildStart
  | transform (code id : String)
  | buildEnd

inductive Answer where
  | added
  | refused (error : OptionsError)
  | visited (visit : Visit Unit)
  | transformed (visit : Visit String)

def handle (container : Container) : Request → Answer × Container
  | .add plugin => (.added, container.add plugin)
  | .addBehaviors options =>
    match Plugin.behaviorsOf options with
    | .error error => (.refused error, container)
    | .ok plugin => (.added, container.add plugin)
  | .buildStart => (.visited container.buildStart, container)
  | .transform code id => (.transformed (container.transform code id), container)
  | .buildEnd => (.visited container.buildEnd, container)

def serve (container : Container) : List Request → List Answer × Container
  | [] => ([], container)
  | request :: rest =>
    let (answer, next) := container.handle request
    let (answers, last) := next.serve rest
    (answer :: answers, last)

def Request.plugin? : Request → Option Plugin
  | .add plugin => some plugin
  | .addBehaviors options => (Plugin.behaviorsOf options).toOption
  | .buildStart | .transform _ _ | .buildEnd => none

def taken (requests : List Request) : List Plugin := requests.filterMap Request.plugin?

def IsCall (hook : Plugin → HookResult Unit) (plugins : List Plugin) (visit : Visit Unit) : Prop :=
  visit.UpToFailure (fun plugin _ _ => hook plugin = .ok ())
    (fun plugin _ error => hook plugin = .error error) plugins ()

def IsPassage (code id cwd : String) (plugins : List Plugin) (visit : Visit String) : Prop :=
  visit.UpToFailure (fun plugin code next => plugin.Takes id cwd code next)
    (fun plugin code error => plugin.transform code id cwd = .error error) plugins code

/-- Whether an answer is the one that a container of plugins owes to a request. -/
def Answer.IsOwed (cwd : String) (plugins : List Plugin) : Request → Answer → Prop
  | .add _, answer => answer = .added
  | .addBehaviors options, answer =>
    match Options.ofValue options with
    | .error error => answer = .refused error
    | .ok _ => answer = .added
  | .buildStart, answer =>
    ∃ visit, answer = .visited visit ∧ IsCall (·.buildStart cwd) plugins visit
  | .transform code id, answer =>
    ∃ visit, answer = .transformed visit ∧ IsPassage code id cwd plugins visit
  | .buildEnd, answer => ∃ visit, answer = .visited visit ∧ IsCall (·.buildEnd cwd) plugins visit

theorem isOwed_handle (container : Container) (request : Request) :
    (container.handle request).1.IsOwed container.cwd container.plugins request := by
  cases request with
  | add plugin => rfl
  | addBehaviors options =>
    simp only [handle, Answer.IsOwed, Plugin.behaviorsOf]
    cases Options.ofValue options <;> rfl
  | buildStart =>
    exact ⟨_, rfl, Visit.upToFailure_through (fun _ _ _ h => h) (fun _ _ _ h => h) _ _⟩
  | transform code id =>
    refine ⟨_, rfl, Visit.upToFailure_through ?_ ?_ _ _⟩
    · intro plugin code next h
      rw [Plugin.Takes]
      cases hresult : plugin.transform code id container.cwd with
      | error error => simp [hresult, Except.map] at h
      | ok result =>
        cases result with
        | none => exact .inr ⟨rfl, by simpa [hresult, Except.map] using h.symm⟩
        | some taken => exact .inl (by simpa [hresult, Except.map] using h)
    · intro plugin code error h
      cases hresult : plugin.transform code id container.cwd with
      | error found => simpa [hresult, Except.map] using h
      | ok result => simp [hresult, Except.map] at h
  | buildEnd =>
    exact ⟨_, rfl, Visit.upToFailure_through (fun _ _ _ h => h) (fun _ _ _ h => h) _ _⟩

/-- A request changes the container by the plugin that it brings and in no other way. -/
theorem container_handle (container : Container) (request : Request) :
    (container.handle request).2 = container.addAll request.plugin?.toList := by
  cases request with
  | addBehaviors options =>
    simp only [handle, Request.plugin?]
    cases Plugin.behaviorsOf options <;> rfl
  | _ => rfl

theorem container_serve (container : Container) (requests : List Request) :
    (container.serve requests).2 = container.addAll (taken requests) := by
  induction requests generalizing container with
  | nil => rfl
  | cons request rest ih =>
    have htaken : taken (request :: rest) = request.plugin?.toList ++ taken rest := by
      rw [taken, List.filterMap_cons]
      cases request.plugin? <;> rfl
    rw [htaken, addAll_append, ← container_handle, ← ih]
    rfl

theorem length_serve (container : Container) (requests : List Request) :
    (container.serve requests).1.length = requests.length := by
  induction requests generalizing container with
  | nil => rfl
  | cons request rest ih => exact congrArg (· + 1) (ih (container.handle request).2)

theorem serve_append (container : Container) (first rest : List Request) :
    container.serve (first ++ rest) =
      ((container.serve first).1 ++ ((container.serve first).2.serve rest).1,
        ((container.serve first).2.serve rest).2) := by
  induction first generalizing container with
  | nil => rfl
  | cons request first ih => simp only [List.cons_append, serve, ih]

/-- The answer to a request is that of the container to which the plugins taken before it were
added. -/
theorem getElem?_serve (container : Container) (before after : List Request) (request : Request) :
    (container.serve (before ++ request :: after)).1[before.length]? =
      some ((container.addAll (taken before)).handle request).1 := by
  have hlength := length_serve container before
  rw [serve_append, container_serve, ← hlength, List.getElem?_append_right (Nat.le_refl _),
    Nat.sub_self]
  rfl

/-- In every session each request has its answer. A hook visits the plugins taken so far, stage after
stage, up to the first that fails and gives its error; a module goes from each plugin to the next. The
container at the end is the one to which the plugins taken were added, and sessions that took the same
plugins before a request answer it alike. -/
theorem isOwed_serve (cwd : String) (before after : List Request) (request : Request) :
    let session := (empty cwd).serve (before ++ request :: after)
    session.1.length = (before ++ request :: after).length ∧
      session.2 = (empty cwd).addAll (taken (before ++ request :: after)) ∧
      (∃ answer, session.1[before.length]? = some answer ∧
        answer.IsOwed cwd (ofStage .pre (taken before) ++ ofStage .normal (taken before) ++
          ofStage .post (taken before)) request) ∧
      ∀ other later, taken other = taken before →
        ((empty cwd).serve (other ++ request :: later)).1[other.length]? =
          session.1[before.length]? := by
  intro session
  refine ⟨length_serve _ _, container_serve _ _, ⟨_, getElem?_serve _ _ _ _, ?_⟩, ?_⟩
  · have howed := isOwed_handle ((empty cwd).addAll (taken before)) request
    rw [cwd_addAll, plugins_eq_stages] at howed
    exact howed
  · intro other later h
    rw [getElem?_serve, getElem?_serve, h]

end Container

end BehaviorRegistrar
