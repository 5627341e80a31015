import Scaffold.Proofs.Locations

/-!
# What a task can do

A task meets a tree that other tasks have been at and surroundings that may refuse every
step, so a step has many outcomes. For what is to be shown of a write they fall into few
kinds, and one inversion lemma for each sort of move says which: a move rests, makes
directories on the way to the destination, opens, fills, moves or discards the temporary
file. `Effect` lists what comes of it for the tree, and `Turn` what comes of it for the
flag.

The lemmas behind it read off what a move leaves as it was. A task touches three kinds of
locations only: the way to its destination, where it adds directories, its temporary file
and, at the end, its destination.
-/

namespace Scaffold

namespace Stage

def isActive : Stage → Bool
  | begun | placed | opened _ | filled _ | discarding _ _ | refused _ => true
  | waiting | written | skipped | failed _ | dropped => false

theorem isFinal_of_isActive {stage : Stage} (h : stage.isActive = true) :
    stage.isFinal = false := by
  cases stage <;> first | rfl | cases h

end Stage

namespace WriteTask

def place (workingDirectory : Location) (task : WriteTask) : Location :=
  task.destination.place workingDirectory

theorem place_withStage (workingDirectory : Location) (task : WriteTask) (stage : Stage) :
    (task.withStage stage).place workingDirectory = task.place workingDirectory :=
  rfl

/-- What a move of a task makes of a tree, and the stage that the task comes to. -/
inductive Effect (workingDirectory : Location) (drawn : Option String) (task : WriteTask)
    (tree : FileTree) : FileTree → Stage → Prop
  | rests {stage : Stage} (htemporary : stage.temporary? = task.stage.temporary?)
      (hfilled : ∀ l, stage = .filled l → task.stage = .filled l)
      (hwritten : stage = .written ↔ task.stage = .written) :
      Effect workingDirectory drawn task tree tree stage
  /-- Directories are made on the way to the destination. -/
  | makes {made : FileTree} {stage : Stage} (hstage : task.stage = .begun)
      (hmade : tree.Adds (task.destination.LeadsThrough workingDirectory) made)
      (htemporary : stage.temporary? = none) (hwritten : stage ≠ .written) :
      Effect workingDirectory drawn task tree made stage
  | opens {directory : Location} {letters : String} (hstage : task.stage = .placed)
      (hdrawn : drawn = some letters)
      (hfree : tree.find? (directory ++ [temporaryName letters]) = none) :
      Effect workingDirectory drawn task tree
        (tree.set (directory ++ [temporaryName letters]) (.file ""))
        (.opened (directory ++ [temporaryName letters]))
  /-- Text is written to the temporary file, and perhaps all of it. -/
  | fills {l : Location} {text : String} {stage : Stage} (hstage : task.stage = .opened l)
      (hnext : stage = .opened l ∨ stage = .filled l ∧ text = task.content) :
      Effect workingDirectory drawn task tree (tree.set l (.file text)) stage
  | persists {l place : Location} {node : Node} (hstage : task.stage = .filled l)
      (hnode : tree.find? l = some node)
      (htarget : tree.target workingDirectory task.destination = .ok place) :
      Effect workingDirectory drawn task tree ((tree.remove l).set place node) .written
  | discards {l : Location} {stage : Stage} (hheld : task.stage.temporary? = some l)
      (htemporary : stage.temporary? = none) (hwritten : stage ≠ .written) :
      Effect workingDirectory drawn task tree (tree.remove l) stage

variable {workingDirectory : Location} {drawn : Option String} {task : WriteTask}
  {tree : FileTree}

theorem Effect.idle : Effect workingDirectory drawn task tree tree task.stage :=
  .rests rfl (fun _ h => h) Iff.rfl

theorem Effect.stage {stage : Stage} (hbefore : task.stage ≠ .written)
    (htemporary : stage.temporary? = task.stage.temporary?) (hfilled : ∀ l, stage ≠ .filled l)
    (hwritten : stage ≠ .written) :
    Effect workingDirectory drawn task tree tree stage :=
  .rests htemporary (fun l h => absurd h (hfilled l)) (iff_of_false hwritten hbefore)

/-- What a move of a task makes of the flag, and the stage that the task comes to. Whether
a failure has been collected matters to a task that is dropped. -/
inductive Turn (raised failed : Bool) (before : Stage) : Bool → Stage → Prop
  | idle : Turn raised failed before raised before
  | skips (hbefore : before = .waiting) (hraised : raised = true) :
      Turn raised failed before raised .skipped
  | begins (hbefore : before = .waiting) (hraised : raised = false) :
      Turn raised failed before raised .begun
  | works {stage : Stage} (hbefore : before.isActive = true)
      (hstage : stage.isActive = true ∨ stage = .written) :
      Turn raised failed before raised stage
  | fails {e : Error} (hbefore : before = .refused e) : Turn raised failed before true (.failed e)
  | breaks {e : Error} (hbefore : before.isFinal = false) :
      Turn raised failed before raised (.failed e)
  | drops (hbefore : before = .waiting) (hfailed : failed = true) :
      Turn raised failed before raised .dropped

/-- Everything that a move of one task can do. -/
structure MovesTo (workingDirectory : Location) (drawn : Option String) (failed : Bool)
    (tree : FileTree) (raised : Bool) (task : WriteTask) (moved : Moved) (stage : Stage) :
    Prop where
  result : moved.task = task.withStage stage
  effect : Effect workingDirectory drawn task tree moved.tree stage
  turn : Turn raised failed task.stage moved.raised stage

theorem MovesTo.idle {raised failed : Bool} :
    MovesTo workingDirectory drawn failed tree raised task ⟨tree, raised, task⟩ task.stage :=
  ⟨rfl, .idle, .idle⟩

theorem adds_directories (workingDirectory : Location) (task : WriteTask) (tree : FileTree)
    (rest : Nat) :
    tree.Adds (task.destination.LeadsThrough workingDirectory)
      (tree.ensureAll workingDirectory (task.directories.drop rest)).1 := by
  refine (FileTree.adds_ensureAll tree workingDirectory _).mono ?_
  rintro l ⟨p, hp, htext, hdot, rfl⟩
  exact leadsThrough_of_mem_directories (List.mem_of_mem_drop hp) htext hdot

/-- One case for each stage, and in it one for each way in which the surroundings and the
tree can meet the step. -/
theorem exists_movesTo_step (workingDirectory : Location) (s : Surroundings) (tree : FileTree)
    (raised failed : Bool) (task : WriteTask) :
    ∃ stage, MovesTo workingDirectory (some s.letters) failed tree raised task
      (step workingDirectory s tree raised task) stage := by
  obtain ⟨destination, content, stage⟩ := task
  cases stage with
  | waiting =>
      simp only [step]
      cases raised with
      | true => exact ⟨_, rfl, .stage nofun rfl nofun nofun, .skips rfl rfl⟩
      | false => exact ⟨_, rfl, .stage nofun rfl nofun nofun, .begins rfl rfl⟩
  | begun =>
      have hmade := adds_directories workingDirectory ⟨destination, content, .begun⟩ tree s.rest
      simp only [step]
      split
      next made fault hensure =>
        rw [hensure] at hmade
        exact ⟨_, rfl, .makes rfl hmade rfl nofun, .works rfl (.inl rfl)⟩
      next made hensure =>
        rw [hensure] at hmade
        split
        · exact ⟨_, rfl, .makes rfl hmade rfl nofun, .works rfl (.inl rfl)⟩
        · by_cases hrest : s.rest = 0
          · rw [if_pos hrest]
            exact ⟨_, rfl, .makes rfl hmade rfl nofun, .works rfl (.inl rfl)⟩
          · rw [if_neg hrest]
            exact ⟨_, rfl, .makes rfl hmade rfl nofun, .works rfl (.inl rfl)⟩
  | placed =>
      simp only [step]
      split
      · exact ⟨_, rfl, .stage nofun rfl nofun nofun, .works rfl (.inl rfl)⟩
      · split
        · exact ⟨_, rfl, .stage nofun rfl nofun nofun, .works rfl (.inl rfl)⟩
        next temporary htemporary =>
          split
          · exact ⟨_, .idle⟩
          next hfree =>
            obtain ⟨directory, -, hbeside⟩ := bind_eq_ok.mp htemporary
            split at hbeside
            · obtain rfl := pure_eq_ok.mp hbeside
              exact ⟨_, rfl, .opens rfl rfl hfree, .works rfl (.inl rfl)⟩
            · cases hbeside
            · cases hbeside
  | opened temporary =>
      simp only [step]
      split
      · exact ⟨_, rfl, .stage nofun rfl nofun nofun, .works rfl (.inl rfl)⟩
      · by_cases hrest : s.rest = 0
        · have hwhole : contentWithout ⟨destination, content, .opened temporary⟩ s.rest =
              content := by
            rw [hrest, contentWithout, Nat.sub_zero, List.take_length, String.ofList_toList]
          rw [if_pos hrest]
          exact ⟨_, rfl, .fills rfl (.inr ⟨rfl, hwhole⟩), .works rfl (.inl rfl)⟩
        · rw [if_neg hrest]
          exact ⟨_, rfl, .fills rfl (.inl rfl), .works rfl (.inl rfl)⟩
  | filled temporary =>
      simp only [step]
      split
      · exact ⟨_, rfl, .stage nofun rfl nofun nofun, .works rfl (.inl rfl)⟩
      · split
        · exact ⟨_, rfl, .stage nofun rfl nofun nofun, .works rfl (.inl rfl)⟩
        next renamed hrename =>
          obtain ⟨place, htarget, hmoved⟩ := bind_eq_ok.mp hrename
          split at hmoved
          next node hnode =>
            obtain rfl := pure_eq_ok.mp hmoved
            exact ⟨_, rfl, .persists rfl hnode htarget, .works rfl (.inr rfl)⟩
          next => cases hmoved
  | discarding temporary e =>
      exact ⟨_, rfl, .discards rfl rfl nofun, .works rfl (.inl rfl)⟩
  | refused e => exact ⟨_, rfl, .stage nofun rfl nofun nofun, .fails rfl⟩
  | written | skipped | failed | dropped => exact ⟨_, .idle⟩

theorem exists_movesTo_breakOff (workingDirectory : Location) (reason : String)
    (tree : FileTree) (raised failed : Bool) (task : WriteTask) :
    ∃ stage, MovesTo workingDirectory none failed tree raised task
      (breakOff reason tree raised task) stage := by
  obtain ⟨destination, content, stage⟩ := task
  cases stage with
  | opened | filled | discarding => exact ⟨_, rfl, .discards rfl rfl nofun, .breaks rfl⟩
  | waiting | begun | placed | refused =>
      exact ⟨_, rfl, .stage nofun rfl nofun nofun, .breaks rfl⟩
  | written | skipped | failed | dropped => exact ⟨_, .idle⟩

theorem exists_movesTo_drop (workingDirectory : Location) (tree : FileTree) (raised : Bool)
    (task : WriteTask) :
    ∃ stage, MovesTo workingDirectory none true tree raised task (drop tree raised task)
      stage := by
  rw [drop]
  split
  next hwaiting =>
    refine ⟨_, rfl, .stage ?_ (by rw [hwaiting]; rfl) nofun nofun, .drops hwaiting rfl⟩
    rw [hwaiting]
    nofun
  · exact ⟨_, .idle⟩

/-- The locations at which a task has put text: its temporary file while there is one, and
in the end its destination. -/
def Touches (workingDirectory : Location) (task : WriteTask) (l : Location) : Prop :=
  task.stage.temporary? = some l ∨ task.stage = .written ∧ task.place workingDirectory = l

/-- A tree in which a task finds its temporary file, and the way to what it has written. -/
structure Finds (workingDirectory : Location) (tree : FileTree) (task : WriteTask) : Prop where
  temporary : ∀ l, task.stage.temporary? = some l → ∃ text, tree.find? l = some (.file text)
  resolved : task.stage = .written →
    tree.resolve workingDirectory task.destination = .ok (task.place workingDirectory)

/-- A tree in which no part is missing from what a task has finished. -/
structure Whole (workingDirectory : Location) (tree : FileTree) (task : WriteTask) : Prop where
  filled : ∀ l, task.stage = .filled l → tree.find? l = some (.file task.content)
  written : task.stage = .written →
    tree.find? (task.place workingDirectory) = some (.file task.content)

theorem Finds.of_untouched (htemporary : task.stage.temporary? = none)
    (hwritten : task.stage ≠ .written) : task.Finds workingDirectory tree := by
  refine ⟨fun l hl => ?_, fun h => absurd h hwritten⟩
  rw [htemporary] at hl
  cases hl

theorem Whole.of_untouched (htemporary : task.stage.temporary? = none)
    (hwritten : task.stage ≠ .written) : task.Whole workingDirectory tree := by
  refine ⟨fun l hl => ?_, fun h => absurd h hwritten⟩
  rw [hl] at htemporary
  cases htemporary

theorem Finds.ne_nil (h : task.Finds workingDirectory tree) {l : Location}
    (hl : task.stage.temporary? = some l) : l ≠ [] := by
  rintro rfl
  obtain ⟨text, htext⟩ := h.temporary [] hl
  cases htext

theorem target_eq_ok {l : Location}
    (h : tree.target workingDirectory task.destination = .ok l) :
    l = task.place workingDirectory ∧
      tree.resolve workingDirectory task.destination = .ok (task.place workingDirectory) ∧
      tree.find? (task.place workingDirectory) ≠ some .directory ∧
      task.place workingDirectory ≠ [] := by
  obtain ⟨hresolve, hdirectory, hne⟩ := FileTree.target_eq_ok h
  obtain ⟨rfl, -⟩ := FileTree.resolve_eq_ok hresolve
  exact ⟨rfl, hresolve, hdirectory, hne⟩

namespace Effect

variable {tree' : FileTree} {stage : Stage} {l : Location}

/-- Something that stands outside the temporary file and the destination stays, and a
directory stays wherever it is. -/
theorem find?_eq_some (h : Effect workingDirectory drawn task tree tree' stage)
    (hfinds : task.Finds workingDirectory tree) {node : Node} (hl : tree.find? l = some node)
    (htemporary : task.stage.temporary? ≠ some l)
    (hplace : task.place workingDirectory = l → node = .directory) :
    tree'.find? l = some node := by
  cases h with
  | rests => exact hl
  | makes _ hmade => exact hmade.eq_of_some hl
  | opens _ _ hfree =>
      rw [FileTree.find?_set tree (by simp), if_neg, hl]
      rintro rfl
      rw [hl] at hfree
      cases hfree
  | @fills m text stage hstage hnext =>
      have hm : task.stage.temporary? = some m := congrArg Stage.temporary? hstage
      rw [FileTree.find?_set tree (hfinds.ne_nil hm), if_neg, hl]
      rintro rfl
      exact htemporary hm
  | @persists m place node' hstage hnode htarget =>
      have hm : task.stage.temporary? = some m := congrArg Stage.temporary? hstage
      obtain ⟨rfl, -, hdirectory, hne⟩ := target_eq_ok htarget
      rw [FileTree.find?_set _ hne, if_neg, FileTree.find?_remove tree (hfinds.ne_nil hm), if_neg,
        hl]
      · rintro rfl
        exact htemporary hm
      · rintro rfl
        rw [hplace rfl] at hl
        exact hdirectory hl
  | discards hm =>
      rw [FileTree.find?_remove tree (hfinds.ne_nil hm), if_neg, hl]
      rintro rfl
      exact htemporary hm

theorem keepsDirectories (h : Effect workingDirectory drawn task tree tree' stage)
    (hfinds : task.Finds workingDirectory tree) : tree.KeepsDirectories tree' := by
  intro l hl
  refine h.find?_eq_some hfinds hl (fun htemporary => ?_) (fun _ => rfl)
  obtain ⟨text, htext⟩ := hfinds.temporary l htemporary
  rw [hl] at htext
  cases htext

theorem finds (h : Effect workingDirectory drawn task tree tree' stage)
    (hfinds : task.Finds workingDirectory tree) :
    (task.withStage stage).Finds workingDirectory tree' := by
  have hkeeps := h.keepsDirectories hfinds
  cases h with
  | rests htemporary _ hwritten =>
      refine ⟨fun l hl => ?_, fun hw => ?_⟩
      · exact hfinds.temporary l (htemporary ▸ hl)
      · exact hfinds.resolved (hwritten.mp hw)
  | makes _ _ htemporary hwritten => exact .of_untouched htemporary hwritten
  | opens _ _ hfree =>
      refine ⟨fun l hl => ?_, nofun⟩
      obtain rfl := Option.some.inj hl
      exact ⟨"", by rw [FileTree.find?_set tree (by simp), if_pos rfl]⟩
  | @fills m text stage hstage hnext =>
      have hm : task.stage.temporary? = some m := congrArg Stage.temporary? hstage
      have htext : (tree.set m (.file text)).find? m = some (.file text) := by
        rw [FileTree.find?_set tree (hfinds.ne_nil hm), if_pos rfl]
      rcases hnext with rfl | ⟨rfl, -⟩
      · refine ⟨fun l hl => ?_, nofun⟩
        obtain rfl := Option.some.inj hl
        exact ⟨text, htext⟩
      · refine ⟨fun l hl => ?_, nofun⟩
        obtain rfl := Option.some.inj hl
        exact ⟨text, htext⟩
  | persists _ _ htarget =>
      obtain ⟨rfl, hresolve, -, -⟩ := target_eq_ok htarget
      exact ⟨nofun, fun _ => FileTree.resolve_of_keeps hkeeps hresolve⟩
  | discards _ htemporary hwritten => exact .of_untouched htemporary hwritten

theorem whole (h : Effect workingDirectory drawn task tree tree' stage)
    (hfinds : task.Finds workingDirectory tree) (hwhole : task.Whole workingDirectory tree) :
    (task.withStage stage).Whole workingDirectory tree' := by
  cases h with
  | rests _ hfilled hwritten =>
      refine ⟨fun l hl => ?_, fun hw => ?_⟩
      · exact hwhole.filled l (hfilled l hl)
      · exact hwhole.written (hwritten.mp hw)
  | makes _ _ htemporary hwritten => exact .of_untouched htemporary hwritten
  | opens => exact ⟨nofun, nofun⟩
  | @fills m text stage hstage hnext =>
      have hm : task.stage.temporary? = some m := congrArg Stage.temporary? hstage
      rcases hnext with rfl | ⟨rfl, rfl⟩
      · exact ⟨nofun, nofun⟩
      · refine ⟨fun l hl => ?_, nofun⟩
        obtain rfl := Stage.filled.inj hl
        exact (FileTree.find?_set tree (hfinds.ne_nil hm) _ _).trans (if_pos rfl)
  | @persists m place node hstage hnode htarget =>
      obtain ⟨rfl, -, -, hne⟩ := target_eq_ok htarget
      refine ⟨nofun, fun _ => ?_⟩
      have hcontent := hwhole.filled m hstage
      rw [hnode] at hcontent
      obtain rfl := Option.some.inj hcontent
      exact (FileTree.find?_set _ hne _ _).trans (if_pos rfl)
  | discards _ htemporary hwritten => exact .of_untouched htemporary hwritten

/-- Outside the temporary file every location is as it was, or the task that moves is the
reason why not. -/
theorem find?_cases (h : Effect workingDirectory drawn task tree tree' stage)
    (hfinds : task.Finds workingDirectory tree) (hl : task.stage.temporary? ≠ some l) :
    tree'.find? l = tree.find? l ∨
      (tree.find? l = none ∧ tree'.find? l = some .directory ∧
        task.destination.LeadsThrough workingDirectory l) ∨
      ((∃ text, tree'.find? l = some (.file text)) ∧
        (task.withStage stage).Touches workingDirectory l) := by
  cases h with
  | rests => exact .inl rfl
  | makes _ hmade =>
      rcases hmade l with hsame | hmade
      · exact .inl hsame
      · exact .inr (.inl hmade)
  | @opens directory letters _ _ hfree =>
      rw [FileTree.find?_set tree (by simp)]
      split
      next heq => exact .inr (.inr ⟨⟨"", rfl⟩, .inl (congrArg some heq.symm)⟩)
      next => exact .inl rfl
  | @fills m text stage hstage hnext =>
      have hm : task.stage.temporary? = some m := congrArg Stage.temporary? hstage
      rw [FileTree.find?_set tree (hfinds.ne_nil hm), if_neg]
      · exact .inl rfl
      · rintro rfl
        exact hl hm
  | @persists m place node hstage hnode htarget =>
      have hm : task.stage.temporary? = some m := congrArg Stage.temporary? hstage
      obtain ⟨rfl, -, -, hne⟩ := target_eq_ok htarget
      obtain ⟨text, htext⟩ := hfinds.temporary m hm
      obtain rfl := Option.some.inj (hnode.symm.trans htext)
      rw [FileTree.find?_set _ hne]
      split
      next heq => exact .inr (.inr ⟨⟨text, rfl⟩, .inr ⟨rfl, heq.symm⟩⟩)
      next =>
        rw [FileTree.find?_remove tree (hfinds.ne_nil hm), if_neg]
        · exact .inl rfl
        · rintro rfl
          exact hl hm
  | @discards m stage hm =>
      rw [FileTree.find?_remove tree (hfinds.ne_nil hm), if_neg]
      · exact .inl rfl
      · rintro rfl
        exact hl hm

/-- Nothing is left of a temporary file, or there is a file that the task has put there. -/
theorem temporary_cases (h : Effect workingDirectory drawn task tree tree' stage)
    (hfinds : task.Finds workingDirectory tree) (hl : task.stage.temporary? = some l) :
    tree'.find? l = none ∨
      ((∃ text, tree'.find? l = some (.file text)) ∧
        (task.withStage stage).Touches workingDirectory l) := by
  have hne_nil := hfinds.ne_nil hl
  have hkept : stage.temporary? = some l → (∃ text, tree'.find? l = some (.file text)) ∧
      (task.withStage stage).Touches workingDirectory l :=
    fun hstage => ⟨(h.finds hfinds).temporary l hstage, .inl hstage⟩
  cases h with
  | rests htemporary => exact .inr (hkept (htemporary.trans hl))
  | makes hstage | opens hstage =>
      rw [hstage] at hl
      cases hl
  | fills hstage hnext =>
      rw [hstage] at hl
      rcases hnext with rfl | ⟨rfl, -⟩
      · exact .inr (hkept hl)
      · exact .inr (hkept hl)
  | @persists m place node hstage hnode htarget =>
      obtain ⟨rfl, -, -, hne⟩ := target_eq_ok htarget
      obtain ⟨text, htext⟩ := hfinds.temporary l hl
      rw [hstage] at hl
      obtain rfl := Option.some.inj hl
      obtain rfl := Option.some.inj (hnode.symm.trans htext)
      rw [FileTree.find?_set _ hne]
      split
      next heq => exact .inr ⟨⟨text, rfl⟩, .inr ⟨rfl, heq.symm⟩⟩
      next => exact .inl (by rw [FileTree.find?_remove tree hne_nil, if_pos rfl])
  | discards hm =>
      obtain rfl := Option.some.inj (hm.symm.trans hl)
      exact .inl (by rw [FileTree.find?_remove tree hne_nil, if_pos rfl])

/-- A file outside the temporary file stays a file, though its text may be another. -/
theorem exists_file (h : Effect workingDirectory drawn task tree tree' stage)
    (hfinds : task.Finds workingDirectory tree) (hl : task.stage.temporary? ≠ some l)
    (hfile : ∃ text, tree.find? l = some (.file text)) :
    ∃ text, tree'.find? l = some (.file text) := by
  obtain ⟨text, htext⟩ := hfile
  rcases h.find?_cases hfinds hl with hsame | ⟨hnone, -, -⟩ | ⟨hfile, -⟩
  · exact ⟨text, hsame.trans htext⟩
  · rw [htext] at hnone
    cases hnone
  · exact hfile

/-- A temporary file was there before, or nothing was. -/
theorem exists_of_temporary (h : Effect workingDirectory drawn task tree tree' stage)
    (hl : stage.temporary? = some l) :
    task.stage.temporary? = some l ∨
      (tree.find? l = none ∧
        ∃ letters, drawn = some letters ∧ l.getLast? = some (temporaryName letters)) := by
  cases h with
  | rests htemporary => exact .inl (htemporary.symm.trans hl)
  | makes _ _ htemporary =>
      rw [htemporary] at hl
      cases hl
  | opens _ hdrawn hfree =>
      obtain rfl := Option.some.inj hl
      exact .inr ⟨hfree, _, hdrawn, List.getLast?_concat⟩
  | fills hstage hnext =>
      rw [hstage]
      rcases hnext with rfl | ⟨rfl, -⟩
      · exact .inl hl
      · exact .inl hl
  | persists => cases hl
  | discards _ htemporary =>
      rw [htemporary] at hl
      cases hl

/-- A task that has not begun or has ended leaves the tree alone. -/
theorem tree_eq (h : Effect workingDirectory drawn task tree tree' stage)
    (hstage : task.stage = .waiting ∨ task.stage.isFinal = true) : tree' = tree := by
  have hactive : ∀ {before : Stage}, task.stage = before → before ≠ .waiting →
      before.isFinal = false → tree' = tree := by
    intro before hbefore hwaiting hfinal
    rw [hbefore, hfinal] at hstage
    rcases hstage with hstage | hstage
    · exact absurd hstage hwaiting
    · cases hstage
  cases h with
  | rests => rfl
  | makes hbefore | opens hbefore | fills hbefore | persists hbefore =>
      exact hactive hbefore nofun rfl
  | @discards l _ hheld =>
      cases hbefore : task.stage with
      | opened | filled | discarding => exact hactive hbefore nofun rfl
      | waiting | begun | placed | refused | written | skipped | failed | dropped =>
          rw [hbefore] at hheld
          cases hheld

theorem of_written (h : Effect workingDirectory drawn task tree tree' stage)
    (hwritten : task.stage = .written) : stage = .written := by
  cases h with
  | rests _ _ hsame => exact hsame.mpr hwritten
  | persists => rfl
  | makes hstage | opens hstage | fills hstage | discards hstage =>
      rw [hwritten] at hstage
      cases hstage

end Effect

end WriteTask

end Scaffold
