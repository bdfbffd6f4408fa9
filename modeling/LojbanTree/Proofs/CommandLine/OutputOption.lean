import LojbanTree.CommandLine.Request

/-!
The option that names the output.

What the arguments ask for is gathered word by word, but only options for the output have a say in
where the result goes, and of these only the last. Main statement: the output of a run is the value
of the last such option (`output_of_parse`).
-/

namespace LojbanTree.CommandLine

/-- What an action says about the output. -/
def Action.target? : Action → Option Target
  | .output value => some (.ofValue value)
  | _ => none

/-- All that the options among words do, in order. -/
def Word.actions : List Word → List Action
  | [] => []
  | .option use :: rest =>
    match use.cluster with
    | .error _ => []
    | .ok cluster =>
      match cluster.valued with
      | none => cluster.plainActions ++ actions rest
      | some (flag, some value) => cluster.actionsWith flag value ++ actions rest
      | some (flag, none) =>
        match rest with
        | .plain value :: rest => cluster.actionsWith flag value ++ actions rest
        | _ => []
  | _ :: rest => actions rest

/-- Where the actions send the result: the last that says so counts. -/
def lastTarget (actions : List Action) : Option Target :=
  (actions.filterMap Action.target?).getLast?

/-- The value of the last option for the output. -/
def outputTarget? (arguments : List Text) : Option Target :=
  match Word.ofArguments arguments with
  | .error _ => none
  | .ok words => lastTarget (Word.actions words)

theorem lastTarget_append (actions others : List Action) :
    lastTarget (actions ++ others) = (lastTarget others).or (lastTarget actions) := by
  rw [lastTarget, List.filterMap_append, List.getLast?_append]
  rfl

theorem lastTarget_cons (action : Action) (actions : List Action) :
    lastTarget (action :: actions) = (lastTarget actions).or action.target? := by
  rw [← List.singleton_append, lastTarget_append]
  cases action <;> rfl

theorem lastTarget_cons_of_none {action : Action} (h : action.target? = none)
    (actions : List Action) : lastTarget (action :: actions) = lastTarget actions := by
  rw [lastTarget_cons, h, Option.or_none]

namespace Progress

variable {progress next : Progress}

@[simp] theorem output_takePlain (text : Text) :
    (progress.takePlain text).invocation.output = progress.invocation.output := by
  unfold takePlain
  split <;> rfl

@[simp] theorem output_takeSeparator :
    progress.takeSeparator.invocation.output = progress.invocation.output := by
  unfold takeSeparator
  split <;> rfl

/-- Of all actions only those about the output change it. -/
theorem output_perform {actions : List Action} (h : progress.perform actions = .ok (some next)) :
    next.invocation.output = (lastTarget actions).or progress.invocation.output := by
  induction actions generalizing progress with
  | nil =>
    rw [perform] at h
    cases h
    rfl
  | cons action actions ih =>
    cases action with
    | help => cases h
    | verbose =>
      rw [perform] at h
      exact (ih h).trans (by rw [lastTarget_cons_of_none rfl])
    | mode value =>
      rw [perform] at h
      split at h
      · exact (ih h).trans (by rw [lastTarget_cons_of_none rfl]; rfl)
      · cases h
    | output value =>
      rw [perform] at h
      rw [ih h, lastTarget_cons]
      cases lastTarget actions <;> rfl

/-- The actions of one argument and those of the arguments after it. -/
theorem output_perform_append {actions others : List Action}
    (h : progress.leaveSlot.perform actions = .ok (some next)) :
    (lastTarget others).or next.invocation.output =
      (lastTarget (actions ++ others)).or progress.invocation.output := by
  rw [output_perform h, lastTarget_append, Option.or_assoc]
  rfl

theorem output_of_finish {invocation : Invocation} (h : progress.finish = .ok (.run invocation)) :
    invocation.output = progress.invocation.output := by
  unfold finish at h
  split at h
  · cases h
    rfl
  · cases h

end Progress

/-- What has been gathered says where the result goes, unless the words that are left do. -/
theorem output_of_gather {progress : Progress} {words : List Word} {invocation : Invocation}
    (h : gather progress words = .ok (.run invocation)) :
    invocation.output = (lastTarget (Word.actions words)).or progress.invocation.output := by
  fun_induction gather progress words with
  | case1 progress => exact Progress.output_of_finish h
  | case2 progress text rest ih =>
    rw [ih h, Progress.output_takePlain]
    rfl
  | case3 progress rest ih =>
    rw [ih h, Progress.output_takeSeparator]
    rfl
  | case4 progress text rest ih => exact ih h
  | case8 progress use rest cluster hcluster hvalued next hperform ih =>
    rw [ih h, Progress.output_perform_append hperform]
    simp only [Word.actions, hcluster, hvalued]
  | case11 progress use rest cluster hcluster flag value hvalued next hperform ih =>
    rw [ih h, Progress.output_perform_append hperform]
    simp only [Word.actions, hcluster, hvalued]
  | case14 progress use cluster hcluster flag hvalued value rest next hperform ih =>
    rw [ih h, Progress.output_perform_append hperform]
    simp only [Word.actions, hcluster, hvalued]
  | _ => cases h

/-- **The output of a run is the value of the last option for it.** -/
theorem output_of_parse {arguments : List Text} {invocation : Invocation}
    (h : Request.parse arguments = .ok (.run invocation)) :
    invocation.output = outputTarget? arguments := by
  unfold Request.parse at h
  unfold outputTarget?
  cases hwords : Word.ofArguments arguments with
  | error e =>
    rw [hwords] at h
    cases h
  | ok words =>
    rw [hwords] at h
    rw [output_of_gather h, Option.or_none]

end LojbanTree.CommandLine
