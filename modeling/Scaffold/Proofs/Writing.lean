import Scaffold.Proofs.Tasks

/-!
# Tasks beside each other

The tasks of a write share one tree and may move in any order. A temporary file is made
where nothing stands, so it belongs to one task, and what a task adds to the tree beside it
is a directory on the way to its destination or, in the end, the destination itself.
`Sound` says so of a point of a run: each location is as it was before the write, such a
directory, or a file that some task has put there. Every move preserves it, and by
induction on the moves it holds at every point.

That the text in those files is what it should be takes more. Two tasks must not have one
destination, and no temporary file may be given the name of one; then what a task has
finished is left alone by the others, which is what `Whole` says.
-/

namespace Scaffold

namespace Move

def task : Move → Nat
  | step i _ | breakOff i _ | collect i | drop i => i

/-- The letters that a move draws for the name of a temporary file. -/
def drawn? : Move → Option String
  | step _ s => some s.letters
  | _ => none

/-- A move that gives no temporary file the name of one of some places. -/
def Spares (places : List Location) (m : Move) : Prop :=
  ∀ letters ∈ m.drawn?, ∀ place ∈ places, place.getLast? ≠ some (temporaryName letters)

instance (places : List Location) (m : Move) : Decidable (m.Spares places) :=
  inferInstanceAs (Decidable (∀ letters ∈ m.drawn?, ∀ place ∈ places,
    place.getLast? ≠ some (temporaryName letters)))

end Move

namespace WriteRun

/-- Everything that a move can make of a run. -/
inductive Next (workingDirectory : Location) (run : WriteRun) (m : Move) : WriteRun → Prop
  | nothing : Next workingDirectory run m run
  | moves {task : WriteTask} {moved : Moved} {stage : Stage}
      (htask : run.tasks[m.task]? = some task)
      (hmoves : task.MovesTo workingDirectory m.drawn? run.failure.isSome run.tree run.raised
        moved stage) :
      Next workingDirectory run m
        { run with
          tree := moved.tree
          raised := moved.raised
          tasks := run.tasks.set m.task (task.withStage stage) }
  /-- The end of a task is collected, and it is no failure. -/
  | notes {task : WriteTask} {collected : List Path} (hfailure : run.failure = none)
      (htask : run.tasks[m.task]? = some task)
      (hstage : task.stage = .written ∨ task.stage = .skipped) :
      Next workingDirectory run m
        { run with pending := run.pending.filter (· ≠ m.task), collected := collected }
  | breaks {task : WriteTask} {e : Error} (hfailure : run.failure = none)
      (htask : run.tasks[m.task]? = some task) (hstage : task.stage = .failed e) :
      Next workingDirectory run m { run with raised := true, failure := some e }

theorem next_onTask {workingDirectory : Location} {run : WriteRun} {m : Move}
    {f : FileTree → Bool → WriteTask → Moved}
    (hmoves : ∀ task : WriteTask, ∃ stage, task.MovesTo workingDirectory m.drawn?
      run.failure.isSome run.tree run.raised (f run.tree run.raised task) stage) :
    Next workingDirectory run m (run.onTask m.task f) := by
  rw [onTask]
  split
  · exact .nothing
  next task htask =>
    obtain ⟨stage, hstage⟩ := hmoves task
    dsimp only
    rw [hstage.result]
    exact .moves htask hstage

theorem next_collect (workingDirectory : Location) (run : WriteRun) (i : Nat) :
    Next workingDirectory run (.collect i) (run.collect i) := by
  rw [collect]
  split
  next task hfailure htask =>
    split
    · split
      next hstage => exact .notes hfailure htask (.inl hstage)
      next hstage => exact .notes hfailure htask (.inr hstage)
      next e hstage => exact .breaks hfailure htask hstage
      next => exact .nothing
    · exact .nothing
  next => exact .nothing

theorem next_move (workingDirectory : Location) (run : WriteRun) (m : Move) :
    Next workingDirectory run m (run.move workingDirectory m) := by
  cases m with
  | step i s =>
      exact next_onTask fun task =>
        WriteTask.exists_movesTo_step workingDirectory s run.tree run.raised _ task
  | breakOff i reason =>
      exact next_onTask fun task =>
        WriteTask.exists_movesTo_breakOff workingDirectory reason run.tree run.raised _ task
  | collect i => exact next_collect workingDirectory run i
  | drop i =>
      rw [move]
      split
      next hfailure =>
        refine next_onTask fun task => ?_
        rw [hfailure]
        exact WriteTask.exists_movesTo_drop workingDirectory run.tree run.raised task
      next => exact .nothing

theorem play_append (workingDirectory : Location) (run : WriteRun) (moves more : List Move) :
    run.play workingDirectory (moves ++ more) =
      (run.play workingDirectory moves).play workingDirectory more :=
  List.foldl_append

/-- What every move preserves holds at every point of a run. -/
theorem play_induction {workingDirectory : Location} {motive : WriteRun → Prop}
    {moves : List Move}
    (hmove : ∀ run, ∀ m ∈ moves, motive run → motive (run.move workingDirectory m))
    {run : WriteRun} (h : motive run) : motive (run.play workingDirectory moves) := by
  induction moves generalizing run with
  | nil => exact h
  | cons m moves ih =>
      have hrest : ∀ run, ∀ m ∈ moves, motive run → motive (run.move workingDirectory m) :=
        fun run m' hm' => hmove run m' (List.mem_cons_of_mem m hm')
      exact ih hrest (hmove run m List.mem_cons_self h)

end WriteRun

/-! ## What every move preserves

`Sound` holds of every run, whatever its tasks are, and accounts for each location by the
tree before and the tasks. `Whole` is about the texts and needs more of the names drawn; it
is preserved by a move of a run that is sound. -/

theorem getElem?_set_cases {tasks : List WriteTask} {i j : Nat} {task other : WriteTask}
    (h : (tasks.set i task)[j]? = some other) :
    (j = i ∧ other = task) ∨ (j ≠ i ∧ tasks[j]? = some other) := by
  rw [List.getElem?_set] at h
  split at h
  next hij =>
    split at h
    · exact .inl ⟨hij.symm, (Option.some.inj h).symm⟩
    · cases h
  next hij => exact .inr ⟨Ne.symm hij, h⟩

namespace WriteRun

/-- A point of a run that began with some tasks and some tree. -/
structure Sound (workingDirectory : Location) (plan : List WriteTask) (before : FileTree)
    (run : WriteRun) : Prop where
  /-- The tasks are those that the run began with. -/
  planned : run.tasks.map (WriteTask.withStage · .waiting) = plan
  finds : ∀ {i : Nat} {task : WriteTask}, run.tasks[i]? = some task →
    task.Finds workingDirectory run.tree
  /-- Temporary files are new. -/
  fresh : ∀ {i : Nat} {task : WriteTask} {l : Location}, run.tasks[i]? = some task →
    task.stage.temporary? = some l → before.find? l = none
  /-- No two tasks have one temporary file. -/
  exclusive : ∀ {i j : Nat} {task other : WriteTask} {l : Location},
    run.tasks[i]? = some task → run.tasks[j]? = some other →
    task.stage.temporary? = some l → other.stage.temporary? = some l → i = j
  /-- Every location is as it was, or a directory on the way to a destination, or a file
  that a task has put there. -/
  accounted : ∀ l, run.tree.find? l = before.find? l ∨
    (before.find? l = none ∧ run.tree.find? l = some .directory ∧
      ∃ other ∈ plan, other.destination.LeadsThrough workingDirectory l) ∨
    ((∃ text, run.tree.find? l = some (.file text)) ∧
      ∃ (i : Nat) (task : WriteTask), run.tasks[i]? = some task ∧
        task.Touches workingDirectory l)

/-- A point of a run that has kept the temporary files apart from the destinations. -/
structure Whole (workingDirectory : Location) (plan : List WriteTask) (run : WriteRun) :
    Prop where
  apart : ∀ {i : Nat} {task : WriteTask} {l : Location}, run.tasks[i]? = some task →
    task.stage.temporary? = some l → ∀ other ∈ plan, other.place workingDirectory ≠ l
  whole : ∀ {i : Nat} {task : WriteTask}, run.tasks[i]? = some task →
    task.Whole workingDirectory run.tree

section

variable {workingDirectory : Location} {plan : List WriteTask} {before : FileTree}
  {run run' : WriteRun} {i j : Nat} {task other : WriteTask} {drawn : Option String}
  {stage : Stage}

namespace Sound

theorem mem_plan (h : run.Sound workingDirectory plan before) (hi : run.tasks[i]? = some task) :
    task.withStage .waiting ∈ plan := by
  rw [← h.planned]
  exact List.mem_map_of_mem (List.mem_of_getElem? hi)

theorem place_ne (h : run.Sound workingDirectory plan before)
    (hdistinct : (plan.map (WriteTask.place workingDirectory)).Nodup)
    (hi : run.tasks[i]? = some task) (hj : run.tasks[j]? = some other) (hij : i ≠ j) :
    task.place workingDirectory ≠ other.place workingDirectory := by
  intro heq
  have hplaces : run.tasks.map (WriteTask.place workingDirectory) =
      plan.map (WriteTask.place workingDirectory) := by
    rw [← h.planned, List.map_map]
    rfl
  rw [← hplaces] at hdistinct
  have hlt : i < (run.tasks.map (WriteTask.place workingDirectory)).length := by
    rw [List.length_map]
    exact (List.getElem?_eq_some_iff.mp hi).1
  refine hij ((List.getElem?_inj hlt hdistinct).mp ?_)
  rw [List.getElem?_map, List.getElem?_map, hi, hj, Option.map_some, Option.map_some, heq]

theorem of_same (h : run.Sound workingDirectory plan before) (htree : run'.tree = run.tree)
    (htasks : run'.tasks = run.tasks) : run'.Sound workingDirectory plan before := by
  refine ⟨htasks ▸ h.planned, ?_, ?_, ?_, ?_⟩
  · rw [htree, htasks]
    exact h.finds
  · rw [htasks]
    exact h.fresh
  · rw [htasks]
    exact h.exclusive
  · rw [htree, htasks]
    exact h.accounted

/-- What the other tasks have done can be found when a task has moved. -/
theorem finds_other (h : run.Sound workingDirectory plan before) (hi : run.tasks[i]? = some task)
    (hj : run.tasks[j]? = some other) (hij : i ≠ j) {tree : FileTree}
    (heffect : task.Effect workingDirectory drawn run.tree tree stage) :
    other.Finds workingDirectory tree := by
  constructor
  · intro l hl
    refine heffect.exists_file (h.finds hi) (fun htask => ?_) ((h.finds hj).temporary l hl)
    exact hij (h.exclusive hi hj htask hl)
  · intro hwritten
    exact FileTree.resolve_of_keeps (heffect.keepsDirectories (h.finds hi))
      ((h.finds hj).resolved hwritten)

/-- A place where nothing stands was as empty before the run. -/
theorem find?_eq_none (h : run.Sound workingDirectory plan before) {l : Location}
    (hl : run.tree.find? l = none) : before.find? l = none := by
  rcases h.accounted l with hsame | ⟨hnone, -, -⟩ | ⟨⟨text, htext⟩, -⟩
  · exact hsame.symm.trans hl
  · exact hnone
  · rw [hl] at htext
    cases htext

section

variable (h : run.Sound workingDirectory plan before) (hi : run.tasks[i]? = some task)
  (heffect : task.Effect workingDirectory drawn run.tree run'.tree stage)
  (htasks : run'.tasks = run.tasks.set i (task.withStage stage))

include h hi heffect htasks

/-- A temporary file that the task just opened is where nothing stood, so where no other
task has one. -/
theorem exclusive_effect {j k : Nat} {first second : WriteTask} {l : Location}
    (hj : run'.tasks[j]? = some first) (hk : run'.tasks[k]? = some second)
    (hl : first.stage.temporary? = some l) (hl' : second.stage.temporary? = some l) : j = k := by
  have hapart : ∀ {j : Nat} {other : WriteTask}, j ≠ i → run.tasks[j]? = some other →
      stage.temporary? = some l → other.stage.temporary? ≠ some l := by
    intro j other hij hj hl hl'
    rcases heffect.exists_of_temporary hl with hheld | ⟨hfree, -⟩
    · exact hij (h.exclusive hj hi hl' hheld)
    · obtain ⟨text, htext⟩ := (h.finds hj).temporary l hl'
      rw [hfree] at htext
      cases htext
  rw [htasks] at hj hk
  rcases getElem?_set_cases hj with ⟨rfl, rfl⟩ | ⟨hji, hfirst⟩
  · rcases getElem?_set_cases hk with ⟨rfl, -⟩ | ⟨hki, hsecond⟩
    · rfl
    · exact absurd hl' (hapart hki hsecond hl)
  · rcases getElem?_set_cases hk with ⟨rfl, rfl⟩ | ⟨-, hsecond⟩
    · exact absurd hl (hapart hji hfirst hl')
    · exact h.exclusive hfirst hsecond hl hl'

/-- What the task has not changed is accounted for as before, and the rest by the task. -/
theorem accounted_effect (l : Location) :
    run'.tree.find? l = before.find? l ∨
      (before.find? l = none ∧ run'.tree.find? l = some .directory ∧
        ∃ other ∈ plan, other.destination.LeadsThrough workingDirectory l) ∨
      ((∃ text, run'.tree.find? l = some (.file text)) ∧
        ∃ (i : Nat) (task : WriteTask), run'.tasks[i]? = some task ∧
          task.Touches workingDirectory l) := by
  have hself : run'.tasks[i]? = some (task.withStage stage) := by
    rw [htasks, List.getElem?_set_self (List.getElem?_eq_some_iff.mp hi).1]
  by_cases hheld : task.stage.temporary? = some l
  · rcases heffect.temporary_cases (h.finds hi) hheld with hgone | ⟨hfile, htouches⟩
    · exact .inl (hgone.trans (h.fresh hi hheld).symm)
    · exact .inr (.inr ⟨hfile, i, _, hself, htouches⟩)
  rcases heffect.find?_cases (h.finds hi) hheld with
    hsame | ⟨hnone, hdirectory, hthrough⟩ | ⟨hfile, htouches⟩
  · rw [hsame]
    rcases h.accounted l with hbefore | hmade | ⟨hfile, j, other, hj, htouches⟩
    · exact .inl hbefore
    · exact .inr (.inl hmade)
    · refine .inr (.inr ⟨hfile, ?_⟩)
      by_cases hij : i = j
      · subst hij
        obtain rfl := Option.some.inj (hi.symm.trans hj)
        obtain ⟨hwritten, hplace⟩ := htouches.resolve_left hheld
        exact ⟨i, _, hself, .inr ⟨heffect.of_written hwritten, hplace⟩⟩
      · refine ⟨j, other, ?_, htouches⟩
        rw [htasks, List.getElem?_set_ne hij, hj]
  · refine .inr (.inl ⟨h.find?_eq_none hnone, hdirectory, ?_⟩)
    exact ⟨_, h.mem_plan hi, hthrough⟩
  · exact .inr (.inr ⟨hfile, i, _, hself, htouches⟩)

theorem effect : run'.Sound workingDirectory plan before := by
  constructor
  · rw [htasks, List.map_set, ← h.planned]
    obtain ⟨hlt, rfl⟩ := List.getElem?_eq_some_iff.mp hi
    refine Eq.trans (congrArg _ ?_) (List.set_getElem_self (by simpa using hlt))
    rw [List.getElem_map]
    rfl
  · intro j other hj
    rw [htasks] at hj
    rcases getElem?_set_cases hj with ⟨-, rfl⟩ | ⟨hij, hj⟩
    · exact heffect.finds (h.finds hi)
    · exact h.finds_other hi hj (Ne.symm hij) heffect
  · intro j other l hj hl
    rw [htasks] at hj
    rcases getElem?_set_cases hj with ⟨-, rfl⟩ | ⟨-, hj⟩
    · rcases heffect.exists_of_temporary hl with hheld | ⟨hfree, -⟩
      · exact h.fresh hi hheld
      · exact h.find?_eq_none hfree
    · exact h.fresh hj hl
  · intro j k first second l hj hk hl hl'
    exact h.exclusive_effect hi heffect htasks hj hk hl hl'
  · intro l
    exact h.accounted_effect hi heffect htasks l

end

theorem move (h : run.Sound workingDirectory plan before) (m : Move) :
    (run.move workingDirectory m).Sound workingDirectory plan before := by
  have hnext := next_move workingDirectory run m
  generalize run.move workingDirectory m = run' at hnext
  cases hnext with
  | nothing => exact h
  | moves htask hmoves => exact h.effect htask hmoves.effect rfl
  | notes => exact h.of_same rfl rfl
  | breaks => exact h.of_same rfl rfl

theorem play (h : run.Sound workingDirectory plan before) (moves : List Move) :
    (run.play workingDirectory moves).Sound workingDirectory plan before :=
  play_induction (motive := Sound workingDirectory plan before)
    (fun _ m _ hrun => hrun.move m) h

theorem start (workingDirectory : Location) (tree : FileTree) {plan : List WriteTask}
    (hwaiting : ∀ task ∈ plan, task.stage = .waiting) :
    (WriteRun.start tree plan).Sound workingDirectory plan tree := by
  have hstage : ∀ {i : Nat} {task : WriteTask}, plan[i]? = some task → task.stage = .waiting :=
    fun hi => hwaiting _ (List.mem_of_getElem? hi)
  refine ⟨?_, ?_, ?_, ?_, fun l => .inl rfl⟩
  · refine (List.map_congr_left fun task htask => ?_).trans (List.map_id plan)
    rw [← hwaiting task htask]
    rfl
  · intro i task hi
    refine .of_untouched ?_ ?_
    · rw [hstage hi]
      rfl
    · rw [hstage hi]
      nofun
  · intro i task l hi hl
    rw [hstage hi] at hl
    cases hl
  · intro i j task other l hi _ hl
    rw [hstage hi] at hl
    cases hl

end Sound

namespace Whole

theorem place_ne_temporary (h : run.Whole workingDirectory plan)
    (hsound : run.Sound workingDirectory plan before) (hi : run.tasks[i]? = some task)
    (hj : run.tasks[j]? = some other) {l : Location} (hl : other.stage.temporary? = some l) :
    task.place workingDirectory ≠ l :=
  h.apart hj hl (task.withStage .waiting) (hsound.mem_plan hi)

theorem of_same (h : run.Whole workingDirectory plan) (htree : run'.tree = run.tree)
    (htasks : run'.tasks = run.tasks) : run'.Whole workingDirectory plan := by
  refine ⟨?_, ?_⟩
  · rw [htasks]
    exact h.apart
  · rw [htree, htasks]
    exact h.whole

/-- What the other tasks have finished stays whole when a task moves. -/
theorem whole_other (h : run.Whole workingDirectory plan)
    (hsound : run.Sound workingDirectory plan before)
    (hdistinct : (plan.map (WriteTask.place workingDirectory)).Nodup)
    (hi : run.tasks[i]? = some task) (hj : run.tasks[j]? = some other) (hij : i ≠ j)
    {tree : FileTree} (heffect : task.Effect workingDirectory drawn run.tree tree stage) :
    other.Whole workingDirectory tree := by
  have hwhole := h.whole hj
  constructor
  · intro l hl
    have htemporary : other.stage.temporary? = some l := congrArg Stage.temporary? hl
    refine heffect.find?_eq_some (hsound.finds hi) (hwhole.filled l hl) (fun htask => ?_)
      (fun hplace => ?_)
    · exact hij (hsound.exclusive hi hj htask htemporary)
    · exact absurd hplace (h.place_ne_temporary hsound hi hj htemporary)
  · intro hwritten
    refine heffect.find?_eq_some (hsound.finds hi) (hwhole.written hwritten) (fun htask => ?_)
      (fun hplace => ?_)
    · exact h.place_ne_temporary hsound hj hi htask rfl
    · exact absurd hplace (hsound.place_ne hdistinct hi hj hij)

theorem effect (h : run.Whole workingDirectory plan)
    (hsound : run.Sound workingDirectory plan before)
    (hdistinct : (plan.map (WriteTask.place workingDirectory)).Nodup)
    (hi : run.tasks[i]? = some task)
    (heffect : task.Effect workingDirectory drawn run.tree run'.tree stage)
    (hspares : ∀ letters, drawn = some letters → ∀ other ∈ plan,
      (other.place workingDirectory).getLast? ≠ some (temporaryName letters))
    (htasks : run'.tasks = run.tasks.set i (task.withStage stage)) :
    run'.Whole workingDirectory plan := by
  constructor
  · intro j other l hj hl
    rw [htasks] at hj
    rcases getElem?_set_cases hj with ⟨-, rfl⟩ | ⟨-, hj⟩
    · rcases heffect.exists_of_temporary hl with hheld | ⟨-, letters, hdrawn, hname⟩
      · exact h.apart hi hheld
      · rintro other hother rfl
        exact hspares letters hdrawn other hother hname
    · exact h.apart hj hl
  · intro j other hj
    rw [htasks] at hj
    rcases getElem?_set_cases hj with ⟨-, rfl⟩ | ⟨hij, hj⟩
    · exact heffect.whole (hsound.finds hi) (h.whole hi)
    · exact h.whole_other hsound hdistinct hi hj (Ne.symm hij) heffect

theorem move (h : run.Whole workingDirectory plan)
    (hsound : run.Sound workingDirectory plan before)
    (hdistinct : (plan.map (WriteTask.place workingDirectory)).Nodup) {m : Move}
    (hspares : m.Spares (plan.map (WriteTask.place workingDirectory))) :
    (run.move workingDirectory m).Whole workingDirectory plan := by
  have hnames : ∀ letters, m.drawn? = some letters → ∀ other ∈ plan,
      (other.place workingDirectory).getLast? ≠ some (temporaryName letters) := by
    intro letters hdrawn other hother
    exact hspares letters hdrawn _ (List.mem_map_of_mem hother)
  have hnext := next_move workingDirectory run m
  generalize run.move workingDirectory m = run' at hnext
  cases hnext with
  | nothing => exact h
  | moves htask hmoves => exact h.effect hsound hdistinct htask hmoves.effect hnames rfl
  | notes => exact h.of_same rfl rfl
  | breaks => exact h.of_same rfl rfl

theorem play (h : run.Whole workingDirectory plan)
    (hsound : run.Sound workingDirectory plan before)
    (hdistinct : (plan.map (WriteTask.place workingDirectory)).Nodup) {moves : List Move}
    (hspares : ∀ m ∈ moves, m.Spares (plan.map (WriteTask.place workingDirectory))) :
    (run.play workingDirectory moves).Whole workingDirectory plan := by
  have hboth : (run.play workingDirectory moves).Sound workingDirectory plan before ∧
      (run.play workingDirectory moves).Whole workingDirectory plan := by
    refine play_induction (motive := fun run => run.Sound workingDirectory plan before ∧
      run.Whole workingDirectory plan) (fun run m hm hrun => ?_) ⟨hsound, h⟩
    exact ⟨hrun.1.move m, hrun.2.move hrun.1 hdistinct (hspares m hm)⟩
  exact hboth.2

theorem start (workingDirectory : Location) (tree : FileTree) {plan : List WriteTask}
    (hwaiting : ∀ task ∈ plan, task.stage = .waiting) :
    (WriteRun.start tree plan).Whole workingDirectory plan := by
  have hstage : ∀ {i : Nat} {task : WriteTask}, plan[i]? = some task → task.stage = .waiting :=
    fun hi => hwaiting _ (List.mem_of_getElem? hi)
  constructor
  · intro i task l hi hl
    rw [hstage hi] at hl
    cases hl
  · intro i task hi
    refine .of_untouched ?_ ?_
    · rw [hstage hi]
      rfl
    · rw [hstage hi]
      nofun

end Whole

end

end WriteRun

end Scaffold
