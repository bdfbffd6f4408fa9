import LojbanTree.CommandLine.Execution

/-!
The steps of the command among given files.

What each step comes to and what it does to the files is said once, and a step that keeps the files
lets the others go on as if it had not been taken. Main statements: the search for the input comes
first (`run_carryOut`); then the output file is emptied (`run_complete_of_output`), and in the end
it holds what the run over the text delivers (`run_complete_of_place`).
-/

namespace LojbanTree.CommandLine

variable {Place α β : Type}

/-! ### Steps in a row -/

namespace World

variable (world : World Place)

theorem run_orBreak {ε : Type} (breakdown : ε → Breakdown) (result : Except ε α) :
    world.run (orBreak breakdown result) = (result.mapError breakdown, world) := by
  cases result <;> rfl

theorem run_bind (steps : Steps Place α) (more : α → Steps Place β) :
    world.run (steps >>= more) =
      match world.run steps with
      | (.ok a, next) => next.run (more a)
      | (.error cause, next) => (.error cause, next) := by
  change (match StateT.run steps.run world with
    | (result, next) => StateT.run (ExceptT.bindCont more result) next) = _
  unfold run
  generalize StateT.run steps.run world = outcome
  obtain ⟨cause | a, next⟩ := outcome
  · rfl
  · rfl

end World

/-- Whatever comes of the steps, the files are as they were. -/
def KeepsFiles (steps : Steps Place α) : Prop :=
  ∀ world : World Place, (world.run steps).2.system = world.system

namespace KeepsFiles

theorem pure (a : α) : KeepsFiles (Pure.pure a : Steps Place α) :=
  fun _ => rfl

theorem throw (cause : Breakdown) : KeepsFiles (MonadExcept.throw cause : Steps Place α) :=
  fun _ => rfl

theorem orBreak {ε : Type} (breakdown : ε → Breakdown) (result : Except ε α) :
    KeepsFiles (CommandLine.orBreak breakdown result : Steps Place α) := by
  intro world
  rw [World.run_orBreak]

theorem bind {steps : Steps Place α} {more : α → Steps Place β} (h : KeepsFiles steps)
    (hmore : ∀ a, KeepsFiles (more a)) : KeepsFiles (steps >>= more) := by
  intro world
  have hkept := h world
  rw [World.run_bind]
  split
  · next a next hrun =>
    rw [hmore a next, ← hkept, hrun]
  · next cause next hrun =>
    rw [← hkept, hrun]

theorem forM {texts : List Text} {write : Text → Steps Place Unit}
    (h : ∀ text, KeepsFiles (write text)) : KeepsFiles (texts.forM write) := by
  induction texts with
  | nil => exact .pure ()
  | cons text texts ih => exact (h text).bind fun _ => ih

theorem encoding {write : List UInt8 → StateM (World Place) Unit}
    (h : ∀ bytes, KeepsFiles (liftM (write bytes) : Steps Place Unit)) (text : Text) :
    KeepsFiles (Host.encoding write text) :=
  (orBreak _ _).bind h

end KeepsFiles

/-! ### What an invocation finds and where its result goes -/

/-- The text that the command finds, as it is. -/
def Invocation.rawInput [DecidableEq Place] (invocation : Invocation)
    (stdin : Except Utf8.DecodeError Text) (system : FileSystem Place) : Except Breakdown Text :=
  match invocation.treeFile with
  | none => stdin.mapError .undecodable
  | some path =>
    match system.read path with
    | .ok bytes => (Utf8.decode bytes).mapError .undecodable
    | .error e => .error (.path e)

/-- The place of the output file. -/
def Target.place (system : FileSystem Place) : Target → Except Breakdown Place
  | .nameless => .error .namelessOutput
  | .file path => (system.toWrite path).mapError .path

namespace World

variable [DecidableEq Place] {stdin : Except Utf8.DecodeError Text} {toSink : Bool}
  {invocation : Invocation} {text : Text} (world : World Place)

/-- The world with one more line, or several, in its log. -/
def logged (message : String) : World Place :=
  { world with stderr := world.stderr ++ message }

/-- The world with an empty file at a place. -/
def emptied (place : Place) : World Place :=
  { world with system := world.system.put place [] }

theorem run_log (message : String) :
    world.run (liftM ((host stdin toSink : Host (StateM (World Place))).log message)) =
      (.ok (), world.logged message) :=
  rfl

theorem run_find :
    world.run ((host stdin toSink).find invocation) =
      (invocation.rawInput stdin world.system, world) := by
  rw [Host.find, Invocation.rawInput]
  cases invocation.treeFile with
  | none => exact run_orBreak ..
  | some path =>
    simp only [run_bind]
    have hread : world.run ((host stdin toSink).read path) =
        ((world.system.read path).mapError .path, world) := run_orBreak ..
    rw [hread]
    cases world.system.read path with
    | error e => rfl
    | ok bytes => exact run_orBreak ..

/-- The input is sought before anything else is done. -/
theorem run_carryOut :
    world.run ((host stdin toSink).carryOut invocation) =
      match invocation.rawInput stdin world.system with
      | .error cause => (.error cause, world)
      | .ok found =>
        world.run ((host stdin toSink).complete invocation (.withUniformLineEnds found)) := by
  rw [Host.carryOut, run_bind, run_find]
  cases invocation.rawInput stdin world.system with
  | error cause => rfl
  | ok found => rfl

/-- The output is opened before the run over the text. -/
theorem run_complete :
    world.run ((host stdin toSink).complete invocation text) =
      (world.logged (logText invocation.verbosity [.inputRead text.length])).run
        ((host stdin toSink).openOutput invocation >>=
          (host stdin toSink).deliver invocation text) := by
  rw [Host.complete, run_bind, run_log]

/-! ### Where a run over a text writes -/

/-- A way to write to the end of a file. -/
def toEnd (place : Place) (bytes : List UInt8) : StateM (World Place) Unit :=
  updateSystem (·.append place bytes)

theorem run_create (path : Path) :
    world.run ((host stdin toSink).create path) =
      match (Target.file path).place world.system with
      | .ok place => (.ok (toEnd place), world.emptied place)
      | .error cause => (.error cause, world) := by
  change world.run (orBreak .path (world.system.toWrite path) >>= fun place =>
    liftM (updateSystem (·.put place [])) >>= fun _ => pure (toEnd place)) = _
  rw [run_bind, run_orBreak, Target.place]
  cases world.system.toWrite path <;> rfl

theorem openOutput_of_sink :
    (host stdin true : Host (StateM (World Place))).openOutput invocation =
      pure fun text => liftM (collect text : StateM (World Place) Unit) :=
  rfl

theorem openOutput_of_none (h : invocation.output = none) :
    (host stdin false : Host (StateM (World Place))).openOutput invocation =
      pure (Host.encoding (host stdin false).print) := by
  rw [Host.openOutput, h]
  rfl

theorem run_openOutput {target : Target} (h : invocation.output = some target) :
    world.run ((host stdin false).openOutput invocation) =
      match target.place world.system with
      | .ok place => (.ok (Host.encoding (toEnd place)), world.emptied place)
      | .error cause => (.error cause, world) := by
  rw [Host.openOutput, h]
  cases target with
  | nameless => rfl
  | file path =>
    change world.run ((host stdin false).create path >>= fun write =>
      pure (Host.encoding write)) = _
    rw [run_bind, run_create]
    cases (Target.file path).place world.system <;> rfl

end World

theorem KeepsFiles.deliver [DecidableEq Place] {stdin : Except Utf8.DecodeError Text}
    {toSink : Bool} {write : Text → Steps Place Unit} (h : ∀ text, KeepsFiles (write text))
    (invocation : Invocation) (text : Text) :
    KeepsFiles ((World.host stdin toSink).deliver invocation text write) := by
  unfold Host.deliver
  refine bind (fun _ => rfl) fun _ => bind (orBreak _ _) fun report => ?_
  exact bind (forM h) fun _ => pure _

section

variable [DecidableEq Place] {stdin : Except Utf8.DecodeError Text} {toSink : Bool}
  {arguments : List Text} {invocation : Invocation}

theorem keepsFiles_print (text : Text) :
    KeepsFiles (Host.encoding (World.host stdin toSink : Host (StateM (World Place))).print text) :=
  .encoding (fun _ _ => rfl) text

/-- Only a run may change files. -/
theorem keepsFiles_command_of_parse (h : ∀ other, Request.parse arguments ≠ .ok (.run other)) :
    KeepsFiles ((World.host stdin toSink : Host (StateM (World Place))).command arguments) := by
  unfold Host.command
  split
  · exact .bind (fun _ => rfl) fun _ => .pure 2
  · exact (keepsFiles_print helpText).bind fun _ => .pure 0
  · next invocation hparse => exact absurd hparse (h invocation)

theorem keepsFiles_complete_of_sink (text : Text) :
    KeepsFiles ((World.host stdin true : Host (StateM (World Place))).complete invocation
      text) := by
  intro world
  rw [World.run_complete, World.openOutput_of_sink, pure_bind]
  exact KeepsFiles.deliver (fun _ _ => rfl) _ _ _

theorem keepsFiles_complete_of_none (h : invocation.output = none) (text : Text) :
    KeepsFiles ((World.host stdin false : Host (StateM (World Place))).complete invocation
      text) := by
  intro world
  rw [World.run_complete, World.openOutput_of_none h, pure_bind]
  exact KeepsFiles.deliver keepsFiles_print _ _ _

end

/-! ### A run that writes to a file -/

/-- A run over a text writes once at most. -/
theorem runText_writes {text : Text} {mode : Mode} {report : Report}
    (h : runText text mode = .ok report) :
    report.writes = [] ∨ ∃ shown, report.writes = [shown] := by
  unfold runText at h
  split at h
  · cases h
    exact .inr ⟨_, rfl⟩
  · cases h
    exact .inl rfl
  · cases h

/-- What comes of a run over a text. -/
structure Delivery where
  /-- The exit status, or why there is none. -/
  status : Except Breakdown Nat
  /-- What is written; nothing if the run breaks off. -/
  bytes : List UInt8

/-- What comes of the run of an invocation over a text. -/
def Invocation.delivery (invocation : Invocation) (text : Text) : Delivery :=
  match runText text invocation.mode with
  | .error cause => ⟨.error (.oversizedInteger cause), []⟩
  | .ok report =>
    match Utf8.encode (.join report.writes) with
    | .error e => ⟨.error (.unencodable e), []⟩
    | .ok bytes => ⟨.ok report.status, bytes⟩

namespace World

variable [DecidableEq Place] {stdin : Except Utf8.DecodeError Text} {toSink : Bool}
  {invocation : Invocation} {text : Text} (world : World Place)

theorem run_encoding_toEnd (place : Place) :
    world.run (Host.encoding (toEnd place) text) =
      match Utf8.encode text with
      | .ok bytes => (.ok (), { world with system := world.system.append place bytes })
      | .error e => (.error (.unencodable e), world) := by
  rw [Host.encoding, run_bind, run_orBreak]
  cases Utf8.encode text <;> rfl

theorem run_single_toEnd (place : Place) (status : Nat) :
    world.run ([text].forM (Host.encoding (toEnd place)) >>= fun _ => pure status) =
      match Utf8.encode text with
      | .ok bytes => (.ok status, { world with system := world.system.append place bytes })
      | .error e => (.error (.unencodable e), world) := by
  change world.run ((Host.encoding (toEnd place) text >>= fun _ => pure ()) >>=
    fun _ => pure status) = _
  rw [run_bind, run_bind, run_encoding_toEnd]
  cases Utf8.encode text <;> rfl

/-- After its events have been logged, a run over a text writes all that it has to write. -/
theorem run_deliver (write : Text → Steps Place Unit) :
    let ready := world.logged (logText invocation.verbosity (runTextEvents text invocation.mode))
    world.run ((host stdin toSink).deliver invocation text write) =
      match runText text invocation.mode with
      | .error cause => (.error (.oversizedInteger cause), ready)
      | .ok report => ready.run (report.writes.forM write >>= fun _ => pure report.status) := by
  intro ready
  rw [Host.deliver, run_bind, run_log]
  simp only [run_bind, run_orBreak]
  cases runText text invocation.mode <;> rfl

/-- A run that writes to an empty file leaves there what it delivers. -/
theorem run_deliver_toEnd {place : Place} (hempty : world.system.get? place = some []) :
    let after := world.run ((host stdin toSink).deliver invocation text
      (Host.encoding (toEnd place)))
    after.1 = (invocation.delivery text).status ∧
      ∀ other, after.2.system.get? other =
        if other = place then some (invocation.delivery text).bytes
        else world.system.get? other := by
  have hnothing : ∀ other, world.system.get? other =
      if other = place then some [] else world.system.get? other := by
    intro other
    split
    · next h => rw [h, hempty]
    · rfl
  rw [run_deliver, Invocation.delivery]
  cases hrun : runText text invocation.mode with
  | error cause => exact ⟨rfl, hnothing⟩
  | ok report =>
    obtain ⟨status, writes⟩ := report
    obtain rfl | ⟨shown, rfl⟩ := runText_writes hrun
    · exact ⟨rfl, hnothing⟩
    · simp only [Text.join_singleton, run_single_toEnd]
      cases Utf8.encode shown with
      | error e => exact ⟨rfl, hnothing⟩
      | ok bytes =>
        refine ⟨rfl, fun other => ?_⟩
        change (world.system.append place bytes).get? other = _
        rw [FileSystem.get?_append, hempty]
        rfl

/-- A run whose result is to go to a file empties that file first. -/
theorem run_complete_of_output {target : Target} (h : invocation.output = some target) :
    let ready := world.logged (logText invocation.verbosity [.inputRead text.length])
    world.run ((host stdin false).complete invocation text) =
      match target.place world.system with
      | .error cause => (.error cause, ready)
      | .ok place =>
        (ready.emptied place).run
          ((host stdin false).deliver invocation text (Host.encoding (toEnd place))) := by
  intro ready
  have hsystem : ready.system = world.system := rfl
  rw [run_complete, run_bind, run_openOutput _ h, hsystem]
  cases target.place world.system <;> rfl

/-- The output file holds in the end what the run over the text delivers. -/
theorem run_complete_of_place {target : Target} {place : Place}
    (h : invocation.output = some target) (hplace : target.place world.system = .ok place) :
    let after := world.run ((host stdin false).complete invocation text)
    after.1 = (invocation.delivery text).status ∧
      ∀ other, after.2.system.get? other =
        if other = place then some (invocation.delivery text).bytes
        else world.system.get? other := by
  let ready := world.logged (logText invocation.verbosity [.inputRead text.length])
  have hempty : (ready.emptied place).system.get? place = some [] := by
    rw [emptied, FileSystem.get?_put, if_pos rfl]
  rw [run_complete_of_output _ h, hplace]
  refine ⟨(run_deliver_toEnd _ hempty).1, fun other => ?_⟩
  rw [(run_deliver_toEnd _ hempty).2, emptied, FileSystem.get?_put]
  split
  · rfl
  · rfl

end World

end LojbanTree.CommandLine
