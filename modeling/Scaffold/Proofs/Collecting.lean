import Scaffold.Proofs.Writing

/-!
# Flags and answers

A failure is told in three steps: the task fails, the flag is raised, the end of the task
is collected. Between any two of them other tasks move, and a task can break off without
raising the flag at all. What holds at every point all the same is that nothing is told
without a reason: a raised flag goes back to a task that failed, a skipped task to a
raised flag, a dropped task to a collected failure. Read backwards this says that an
answer without an error leaves no room for a task that was skipped.

Once all tasks have come to their ends there is an answer, in whatever order the ends are
collected.
-/

namespace Scaffold

namespace WriteTask

variable {raised raised' failed : Bool} {before stage : Stage}

theorem Turn.of_isFinal (h : Turn raised failed before raised' stage)
    (hfinal : before.isFinal = true) : stage = before := by
  cases h with
  | idle => rfl
  | works hbefore =>
      rw [Stage.isFinal_of_isActive hbefore] at hfinal
      cases hfinal
  | skips hbefore | begins hbefore | fails hbefore | breaks hbefore | drops hbefore =>
      rw [hbefore] at hfinal
      cases hfinal

/-- The flag is raised by a task that fails and lowered by none. -/
theorem Turn.raised_cases (h : Turn raised failed before raised' stage) :
    raised' = raised ∨ (raised' = true ∧ ∃ e, stage = .failed e) := by
  cases h with
  | fails => exact .inr ⟨rfl, _, rfl⟩
  | idle | skips | begins | works | breaks | drops => exact .inl rfl

theorem Turn.of_skipped (h : Turn raised failed before raised' .skipped) :
    before = .skipped ∨ raised = true := by
  cases h with
  | idle => exact .inl rfl
  | skips _ hraised => exact .inr hraised
  | works _ hstage => simp [Stage.isActive] at hstage

theorem Turn.of_dropped (h : Turn raised failed before raised' .dropped) :
    before = .dropped ∨ failed = true := by
  cases h with
  | idle => exact .inl rfl
  | works _ hstage => simp [Stage.isActive] at hstage
  | drops _ hfailed => exact .inr hfailed

/-- A task that has begun is not skipped any more. -/
theorem Turn.ne_skipped (h : Turn raised failed before raised' stage) (hwaiting : before ≠ .waiting)
    (hskipped : before ≠ .skipped) : stage ≠ .waiting ∧ stage ≠ .skipped := by
  cases h with
  | idle => exact ⟨hwaiting, hskipped⟩
  | skips hbefore | begins hbefore | drops hbefore => exact absurd hbefore hwaiting
  | works _ hstage =>
      rcases hstage with hactive | rfl
      · constructor
        · rintro rfl
          cases hactive
        · rintro rfl
          cases hactive
      · exact ⟨nofun, nofun⟩
  | fails | breaks => exact ⟨nofun, nofun⟩

theorem Turn.of_waiting (h : Turn true failed .waiting raised' stage) :
    stage = .waiting ∨ stage.isFinal = true := by
  cases h with
  | idle => exact .inl rfl
  | skips | breaks | drops => exact .inr rfl
  | begins _ hraised => cases hraised
  | works hbefore => cases hbefore
  | fails hbefore => cases hbefore

end WriteTask

namespace WriteRun

variable {workingDirectory : Location} {run : WriteRun} {m : Move} {i : Nat} {task : WriteTask}

theorem length_tasks_move (workingDirectory : Location) (run : WriteRun) (m : Move) :
    (run.move workingDirectory m).tasks.length = run.tasks.length := by
  have hnext := next_move workingDirectory run m
  generalize run.move workingDirectory m = run' at hnext ⊢
  cases hnext with
  | moves => exact List.length_set
  | nothing | notes | breaks => rfl

/-- Every task takes a turn in a move, and all but one of them an idle one. -/
theorem exists_turn (workingDirectory : Location) (m : Move) (htask : run.tasks[i]? = some task) :
    ∃ stage failed raised, (run.move workingDirectory m).tasks[i]? = some (task.withStage stage) ∧
      WriteTask.Turn run.raised failed task.stage raised stage := by
  have hnext := next_move workingDirectory run m
  generalize run.move workingDirectory m = run' at hnext
  cases hnext with
  | @moves other moved stage hother hmoves =>
      by_cases hi : m.task = i
      · subst hi
        obtain rfl := Option.some.inj (htask.symm.trans hother)
        have hlt := (List.getElem?_eq_some_iff.mp htask).1
        exact ⟨stage, _, _, List.getElem?_set_self hlt, hmoves.turn⟩
      · exact ⟨task.stage, false, _, (List.getElem?_set_ne hi).trans htask, .idle⟩
  | nothing | notes | breaks => exact ⟨task.stage, false, _, htask, .idle⟩

theorem tasks_move_of_isFinal (htask : run.tasks[i]? = some task)
    (hfinal : task.stage.isFinal = true) :
    (run.move workingDirectory m).tasks[i]? = some task := by
  obtain ⟨stage, failed, raised, hafter, hturn⟩ := exists_turn workingDirectory m htask
  rw [hafter, hturn.of_isFinal hfinal]
  rfl

theorem exists_of_tasks_move (htask : (run.move workingDirectory m).tasks[i]? = some task) :
    ∃ before, run.tasks[i]? = some before ∧ (before.stage.isFinal = true → before = task) := by
  have hlt := (List.getElem?_eq_some_iff.mp htask).1
  rw [length_tasks_move] at hlt
  have hbefore := List.getElem?_eq_getElem hlt
  refine ⟨_, hbefore, fun hfinal => ?_⟩
  rw [tasks_move_of_isFinal hbefore hfinal] at htask
  exact Option.some.inj htask

theorem raised_move (h : run.raised = true) : (run.move workingDirectory m).raised = true := by
  have hnext := next_move workingDirectory run m
  generalize run.move workingDirectory m = run' at hnext ⊢
  cases hnext with
  | moves _ hmoves =>
      rcases hmoves.turn.raised_cases with hsame | ⟨hraised, -⟩
      · exact hsame.trans h
      · exact hraised
  | nothing | notes => exact h
  | breaks => rfl

theorem answer?_cases {r : Except Error (List Path)} (hr : run.answer? = some r) :
    (∃ e, run.failure = some e ∧ r = .error e) ∨
      (run.failure = none ∧ run.pending = [] ∧ r = .ok (Path.sort run.collected)) := by
  rw [answer?] at hr
  split at hr
  next hanswered =>
    obtain rfl := Option.some.inj hr
    rw [answer]
    split
    next e hfailure => exact .inl ⟨e, hfailure, rfl⟩
    next hfailure =>
      exact .inr ⟨hfailure, by simpa [hasAnswered, hfailure] using hanswered, rfl⟩
  next => cases hr

structure Faithful (run : WriteRun) : Prop where
  raised : run.raised = true → ∃ (i : Nat) (task : WriteTask) (e : Error),
    run.tasks[i]? = some task ∧ task.stage = .failed e
  skipped : ∀ {i : Nat} {task : WriteTask}, run.tasks[i]? = some task →
    task.stage = .skipped → run.raised = true
  dropped : ∀ {i : Nat} {task : WriteTask}, run.tasks[i]? = some task →
    task.stage = .dropped → run.failure.isSome = true
  failure : ∀ {e : Error}, run.failure = some e → ∃ (i : Nat) (task : WriteTask),
    run.tasks[i]? = some task ∧ task.stage = .failed e
  pending : ∀ {i : Nat}, i ∈ run.pending → i < run.tasks.length
  collected : ∀ {i : Nat} {task : WriteTask}, run.tasks[i]? = some task → i ∉ run.pending →
    task.stage = .written ∨ task.stage = .skipped

namespace Faithful

theorem start (tree : FileTree) {plan : List WriteTask}
    (hwaiting : ∀ task ∈ plan, task.stage = .waiting) : (WriteRun.start tree plan).Faithful := by
  have hstage : ∀ {i : Nat} {task : WriteTask}, plan[i]? = some task → task.stage = .waiting :=
    fun hi => hwaiting _ (List.mem_of_getElem? hi)
  refine ⟨nofun, ?_, ?_, nofun, fun hi => List.mem_range.mp hi, ?_⟩
  · intro i task hi hskipped
    rw [hstage hi] at hskipped
    cases hskipped
  · intro i task hi hdropped
    rw [hstage hi] at hdropped
    cases hdropped
  · intro i task hi hpending
    exact absurd (List.mem_range.mpr (List.getElem?_eq_some_iff.mp hi).1) hpending

/-- A turn of one task leaves every reason where it was, and brings its own where it tells
something new. -/
theorem of_turn (h : run.Faithful) (htask : run.tasks[i]? = some task) {raised : Bool}
    {stage : Stage}
    (hturn : WriteTask.Turn run.raised run.failure.isSome task.stage raised stage)
    (tree : FileTree) :
    ({ run with
      tree := tree
      raised := raised
      tasks := run.tasks.set i (task.withStage stage) } : WriteRun).Faithful := by
  have hself : (run.tasks.set i (task.withStage stage))[i]? = some (task.withStage stage) :=
    List.getElem?_set_self (List.getElem?_eq_some_iff.mp htask).1
  have hstays : ∀ {j : Nat} {other : WriteTask}, run.tasks[j]? = some other →
      other.stage.isFinal = true →
      (run.tasks.set i (task.withStage stage))[j]? = some other := by
    intro j other hj hfinal
    by_cases hij : i = j
    · subst hij
      obtain rfl := Option.some.inj (htask.symm.trans hj)
      rw [hself, hturn.of_isFinal hfinal]
      rfl
    · rw [List.getElem?_set_ne hij, hj]
  have hraise : run.raised = true → raised = true := by
    intro hraised
    rcases hturn.raised_cases with hsame | ⟨hraised', -⟩
    · exact hsame.trans hraised
    · exact hraised'
  refine ⟨fun hraised => ?_, ?_, ?_, fun hfailure => ?_, fun hi => ?_, ?_⟩
  · rcases hturn.raised_cases with hsame | ⟨-, e, he⟩
    · obtain ⟨j, other, e, hj, he⟩ := h.raised (hsame.symm.trans hraised)
      exact ⟨j, other, e, hstays hj (by rw [he]; rfl), he⟩
    · exact ⟨i, _, e, hself, he⟩
  · intro j other hj hskipped
    rcases getElem?_set_cases hj with ⟨-, rfl⟩ | ⟨-, hj⟩
    · rw [show stage = .skipped from hskipped] at hturn
      rcases hturn.of_skipped with hbefore | hraised
      · exact hraise (h.skipped htask hbefore)
      · exact hraise hraised
    · exact hraise (h.skipped hj hskipped)
  · intro j other hj hdropped
    rcases getElem?_set_cases hj with ⟨-, rfl⟩ | ⟨-, hj⟩
    · rw [show stage = .dropped from hdropped] at hturn
      rcases hturn.of_dropped with hbefore | hfailed
      · exact h.dropped htask hbefore
      · exact hfailed
    · exact h.dropped hj hdropped
  · obtain ⟨j, other, hj, he⟩ := h.failure hfailure
    exact ⟨j, other, hstays hj (by rw [he]; rfl), he⟩
  · exact Nat.lt_of_lt_of_eq (h.pending hi) List.length_set.symm
  · intro j other hj hpending
    rcases getElem?_set_cases hj with ⟨rfl, rfl⟩ | ⟨-, hj⟩
    · have hend := h.collected htask hpending
      have hfinal : task.stage.isFinal = true := by
        rcases hend with hend | hend
        · rw [hend]; rfl
        · rw [hend]; rfl
      rwa [← hturn.of_isFinal hfinal] at hend
    · exact h.collected hj hpending

theorem move (h : run.Faithful) : (run.move workingDirectory m).Faithful := by
  have hnext := next_move workingDirectory run m
  generalize run.move workingDirectory m = run' at hnext ⊢
  cases hnext with
  | nothing => exact h
  | moves htask hmoves => exact h.of_turn htask hmoves.turn _
  | @notes task collected hfailure htask hstage =>
      refine ⟨h.raised, h.skipped, h.dropped, h.failure, fun hi => ?_, ?_⟩
      · exact h.pending (List.mem_of_mem_filter hi)
      · intro j other hj hpending
        by_cases hi : j = m.task
        · subst hi
          obtain rfl := Option.some.inj (htask.symm.trans hj)
          exact hstage
        · refine h.collected hj fun hmem => hpending ?_
          exact List.mem_filter.mpr ⟨hmem, decide_eq_true hi⟩
  | @breaks task e hfailure htask hstage =>
      refine ⟨fun _ => ⟨m.task, task, e, htask, hstage⟩, fun _ _ => rfl, fun _ _ => rfl, ?_,
        h.pending, h.collected⟩
      intro e' he
      obtain rfl := Option.some.inj he
      exact ⟨m.task, task, htask, hstage⟩

theorem play (h : run.Faithful) (moves : List Move) :
    (run.play workingDirectory moves).Faithful :=
  play_induction (motive := Faithful) (fun _ _ _ hrun => hrun.move) h

theorem not_failed_of_collected (h : run.Faithful) (hpending : run.pending = [])
    {task : WriteTask} (htask : task ∈ run.tasks) :
    task.stage = .written ∨ task.stage = .skipped := by
  obtain ⟨i, hi⟩ := List.mem_iff_getElem?.mp htask
  refine h.collected hi ?_
  rw [hpending]
  exact List.not_mem_nil

/-- The answer is an error exactly if some task failed. -/
theorem isError_iff (h : run.Faithful) {r : Except Error (List Path)}
    (hr : run.answer? = some r) :
    (∃ e, r = .error e) ↔ ∃ task ∈ run.tasks, ∃ e, task.stage = .failed e := by
  rcases answer?_cases hr with ⟨e, hfailure, rfl⟩ | ⟨-, hpending, rfl⟩
  · obtain ⟨i, task, hi, he⟩ := h.failure hfailure
    exact ⟨fun _ => ⟨task, List.mem_of_getElem? hi, e, he⟩, fun _ => ⟨e, rfl⟩⟩
  · constructor
    · rintro ⟨e, he⟩
      cases he
    · rintro ⟨task, htask, e, he⟩
      have hend := h.not_failed_of_collected hpending htask
      rw [he] at hend
      rcases hend with hend | hend
      · cases hend
      · cases hend

/-- Where the answer is no error, every task has written its file: a skip would go back to
a failure. -/
theorem written_of_ok (h : run.Faithful) {paths : List Path}
    (hr : run.answer? = some (.ok paths)) {task : WriteTask} (htask : task ∈ run.tasks) :
    task.stage = .written := by
  rcases answer?_cases hr with ⟨e, -, he⟩ | ⟨-, hpending, -⟩
  · cases he
  rcases h.not_failed_of_collected hpending htask with hwritten | hskipped
  · exact hwritten
  · obtain ⟨i, hi⟩ := List.mem_iff_getElem?.mp htask
    obtain ⟨j, other, e, hj, he⟩ := h.raised (h.skipped hi hskipped)
    obtain ⟨e', he'⟩ := (h.isError_iff hr).mpr ⟨other, List.mem_of_getElem? hj, e, he⟩
    cases he'

/-- A task that has come to its end is collected, unless a failure was collected before. -/
theorem collect_of_isFinal (h : run.Faithful) (htask : run.tasks[i]? = some task)
    (hfinal : task.stage.isFinal = true) :
    (run.collect i).failure.isSome = true ∨ i ∉ (run.collect i).pending := by
  cases hfailure : run.failure with
  | some e =>
      simp only [collect, hfailure]
      exact .inl rfl
  | none =>
      simp only [collect, hfailure, htask]
      split
      next hpending =>
        cases hstage : task.stage with
        | written | skipped => exact .inr fun hmem => of_decide_eq_true (List.mem_filter.mp hmem).2 rfl
        | failed e => exact .inl rfl
        | dropped =>
            have hsome := h.dropped htask hstage
            rw [hfailure] at hsome
            cases hsome
        | waiting | begun | placed | opened | filled | discarding | refused =>
            rw [hstage] at hfinal
            cases hfinal
      next hpending => exact .inr hpending

end Faithful

/-! ## There is an answer

A run answers when the end of every task has been collected. Ends can be collected in any
order once they are there, and a task that was collected stays so. -/

/-- A task has ended, and its end is no longer waited for. -/
def Settled (run : WriteRun) (i : Nat) : Prop :=
  (∀ task, run.tasks[i]? = some task → task.stage.isFinal = true) ∧
    (run.failure.isSome = true ∨ i ∉ run.pending)

namespace Settled

theorem move (h : run.Settled i) : (run.move workingDirectory m).Settled i := by
  constructor
  · intro task htask
    obtain ⟨before, hbefore, hsame⟩ := exists_of_tasks_move htask
    rw [← hsame (h.1 before hbefore)]
    exact h.1 before hbefore
  · have hnext := next_move workingDirectory run m
    generalize run.move workingDirectory m = run' at hnext ⊢
    cases hnext with
    | nothing | moves => exact h.2
    | notes => exact h.2.imp_right fun hi hmem => hi (List.mem_of_mem_filter hmem)
    | breaks => exact .inl rfl

theorem play (h : run.Settled i) (moves : List Move) :
    (run.play workingDirectory moves).Settled i :=
  play_induction (motive := (Settled · i)) (fun _ _ _ hrun => hrun.move) h

end Settled

theorem Faithful.settled_collect (h : run.Faithful) (htask : run.tasks[i]? = some task)
    (hfinal : task.stage.isFinal = true) :
    (run.move workingDirectory (.collect i)).Settled i := by
  refine ⟨fun other hother => ?_, h.collect_of_isFinal htask hfinal⟩
  rw [tasks_move_of_isFinal htask hfinal] at hother
  rwa [← Option.some.inj hother]

theorem length_tasks_play (workingDirectory : Location) (run : WriteRun) (moves : List Move) :
    (run.play workingDirectory moves).tasks.length = run.tasks.length := by
  refine play_induction (motive := fun run' => run'.tasks.length = run.tasks.length)
    (fun run' m _ hrun => ?_) rfl
  rw [length_tasks_move, hrun]

theorem Faithful.over_of_settled (h : run.Faithful)
    (hsettled : ∀ i < run.tasks.length, run.Settled i) :
    (∀ task ∈ run.tasks, task.stage.isFinal = true) ∧ run.hasAnswered = true := by
  constructor
  · intro task htask
    obtain ⟨i, hi⟩ := List.mem_iff_getElem?.mp htask
    exact (hsettled i (List.getElem?_eq_some_iff.mp hi).1).1 task hi
  · rw [hasAnswered, Bool.or_eq_true, List.isEmpty_iff]
    by_cases hfailure : run.failure.isSome = true
    · exact .inl hfailure
    · refine .inr (List.eq_nil_iff_forall_not_mem.mpr fun i hi => ?_)
      exact ((hsettled i (h.pending hi)).2.resolve_left hfailure) hi

/-- Once all tasks have come to their ends, the ends can be collected in any order. -/
theorem Faithful.hasAnswered_of_collects (h : run.Faithful)
    (hfinal : ∀ task ∈ run.tasks, task.stage.isFinal = true) {order : List Nat}
    (horder : ∀ i < run.tasks.length, i ∈ order) :
    (run.play workingDirectory (order.map .collect)).hasAnswered = true := by
  have hsettled : ∀ i ∈ order, i < run.tasks.length →
      (run.play workingDirectory (order.map .collect)).Settled i := by
    clear horder
    induction order generalizing run with
    | nil =>
        intro i hi
        cases hi
    | cons first order ih =>
        intro i hi hlt
        have hnext : (run.move workingDirectory (.collect first)).Faithful := h.move
        have htask := List.getElem?_eq_getElem hlt
        rcases List.mem_cons.mp hi with rfl | hi
        · exact (h.settled_collect htask (hfinal _ (List.getElem_mem hlt))).play _
        · refine ih hnext (fun task htask => ?_) i hi ?_
          · obtain ⟨j, hj⟩ := List.mem_iff_getElem?.mp htask
            obtain ⟨before, hbefore, hsame⟩ := exists_of_tasks_move hj
            have hend := hfinal before (List.mem_of_getElem? hbefore)
            rw [← hsame hend]
            exact hend
          · rw [length_tasks_move]
            exact hlt
  refine ((h.play _).over_of_settled fun i hi => ?_).2
  rw [length_tasks_play] at hi
  exact hsettled i (horder i hi) hi

end WriteRun

end Scaffold
