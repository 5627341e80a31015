import Scaffold.Files.Write
import Scaffold.Proofs.Components

/-!
# Where paths lead

Whether a path can be followed depends on the tree, but where it leads does not: each
component has one meaning as a step from a location, so the components alone say at
which place a path ends and which locations it passes on the way. The tree only says
yes or no. That is why the destinations of a write can be told apart before it begins,
and why a path that was followed once can be followed as long as the directories on
its way stay.

Making the directories of a path adds directories at such locations and does nothing
else, whether it succeeds or breaks off half way.
-/

namespace Scaffold

/-- Where a component leads from a location. -/
def Component.lead (here : Location) : Component → Location
  | .root => []
  | .current => here
  | .parent => here.dropLast
  | .name s => here ++ [s]

namespace Path

def descend (here : Location) (steps : List Component) : Location :=
  steps.foldl Component.lead here

/-- Where a path leads, if it can be followed. -/
def place (workingDirectory : Location) (p : Path) : Location :=
  descend workingDirectory p.components

/-- A path leads through the locations of the shorter paths that it begins with. -/
def LeadsThrough (workingDirectory : Location) (p : Path) (l : Location) : Prop :=
  ∃ steps, steps ≠ [] ∧ steps <+: p.components ∧ steps ≠ p.components ∧
    descend workingDirectory steps = l

theorem descend_cons (here : Location) (step : Component) (steps : List Component) :
    descend here (step :: steps) = descend (step.lead here) steps :=
  rfl

theorem descend_append (here : Location) (first second : List Component) :
    descend here (first ++ second) = descend (descend here first) second :=
  List.foldl_append

theorem descend_names (here : Location) (names : List String) :
    descend here (names.map .name) = here ++ names := by
  induction names generalizing here with
  | nil => exact (List.append_nil here).symm
  | cons s names ih =>
      rw [List.map_cons, descend_cons, ih, Component.lead, List.append_assoc]
      rfl

end Path

namespace FileTree

variable {t : FileTree} {workingDirectory here l : Location} {p : Path}

theorem step_eq_ok {segment : String} (h : t.step here segment = .ok l) :
    t.find? here = some .directory ∧
      l = ((Path.component? segment).map fun step => step.lead here).getD here := by
  rw [step] at h
  split at h
  · cases h
  · cases h
  next hfind =>
    refine ⟨hfind, ?_⟩
    split at h
    next hidle =>
      rw [Path.component?_of_idle hidle]
      exact (Except.ok.inj h).symm
    next hidle =>
      rw [Path.component?, if_neg hidle]
      split at h
      next hparent =>
        rw [if_pos hparent]
        exact (Except.ok.inj h).symm
      next hparent =>
        rw [if_neg hparent]
        split at h
        · cases h
        · exact (Except.ok.inj h).symm

/-- Stretches that were followed lead where their components lead, and every step was
taken from a directory. -/
theorem foldlM_step_eq_ok {segments : List String} (h : segments.foldlM t.step here = .ok l) :
    l = Path.descend here (segments.filterMap Path.component?) ∧
      ∀ steps, steps <+: segments.filterMap Path.component? →
        steps ≠ segments.filterMap Path.component? →
        t.find? (Path.descend here steps) = some .directory := by
  induction segments generalizing here with
  | nil =>
      refine ⟨(Except.ok.inj h).symm, ?_⟩
      intro steps hsteps hne
      exact absurd (List.prefix_nil.mp hsteps) hne
  | cons segment segments ih =>
      rw [List.foldlM_cons] at h
      obtain ⟨next, hstep, hrest⟩ := bind_eq_ok.mp h
      obtain ⟨hdirectory, hnext⟩ := step_eq_ok hstep
      obtain ⟨hl, hways⟩ := ih hrest
      rw [List.filterMap_cons]
      cases hc : Path.component? segment with
      | none =>
          rw [hc] at hnext
          rw [hnext] at hl hways
          exact ⟨hl, hways⟩
      | some step =>
          rw [hc] at hnext
          rw [hnext] at hl hways
          refine ⟨hl, ?_⟩
          intro steps hsteps hne
          cases steps with
          | nil => exact hdirectory
          | cons first steps =>
              obtain ⟨rfl, hbegins⟩ := List.cons_prefix_cons.mp hsteps
              exact hways steps hbegins fun heq => hne (by rw [heq])

theorem follow_eq_ok (hp : p.text ≠ "") (h : t.follow workingDirectory p.segments = .ok l) :
    l = p.place workingDirectory ∧
      ∀ m, p.LeadsThrough workingDirectory m → t.find? m = some .directory := by
  rw [Path.place]
  cases Path.begins hp with
  | @root body hsegments hne hsplit =>
      have hcomponents : p.components = .root :: body.filterMap Path.component? :=
        Path.components_of_split hsplit
      rw [hsegments] at h
      obtain ⟨hl, hways⟩ := foldlM_step_eq_ok (show body.foldlM t.step [] = .ok l from h)
      rw [hcomponents]
      refine ⟨hl, ?_⟩
      rintro m ⟨steps, hsome, hsteps, hshort, rfl⟩
      obtain ⟨first, steps, rfl⟩ := List.exists_cons_of_ne_nil hsome
      rw [hcomponents] at hsteps hshort
      obtain ⟨rfl, hbegins⟩ := List.cons_prefix_cons.mp hsteps
      exact hways steps hbegins fun heq => hshort (by rw [heq])
  | @current body hsegments hsplit =>
      have hcomponents : p.components = .current :: body.filterMap Path.component? :=
        Path.components_of_split hsplit
      rw [hsegments] at h
      have hfollow : ("." :: body).foldlM t.step workingDirectory = .ok l := h
      obtain ⟨hl, hways⟩ := foldlM_step_eq_ok hfollow
      rw [hcomponents]
      refine ⟨hl, ?_⟩
      rintro m ⟨steps, hsome, hsteps, hshort, rfl⟩
      obtain ⟨first, steps, rfl⟩ := List.exists_cons_of_ne_nil hsome
      rw [hcomponents] at hsteps hshort
      obtain ⟨rfl, hbegins⟩ := List.cons_prefix_cons.mp hsteps
      exact hways steps hbegins fun heq => hshort (by rw [heq]; rfl)
  | @name first body hsegments hidle hsplit =>
      have hcomponents : p.components = (first :: body).filterMap Path.component? :=
        Path.components_of_split hsplit
      have hfirst : first ≠ "" := by
        rintro rfl
        cases hidle
      rw [hsegments, follow] at h
      · obtain ⟨hl, hways⟩ := foldlM_step_eq_ok h
        rw [hcomponents]
        refine ⟨hl, ?_⟩
        rintro m ⟨steps, -, hsteps, hshort, rfl⟩
        rw [hcomponents] at hsteps hshort
        exact hways steps hsteps hshort
      · intro rest heq
        exact hfirst (List.cons.inj heq).1

theorem text_ne_empty_of_pathFault? (h : pathFault? p = none) : p.text ≠ "" := by
  intro hempty
  rw [pathFault?, hempty] at h
  split at h
  · cases h
  · cases h

theorem resolve_eq_ok (h : t.resolve workingDirectory p = .ok l) :
    l = p.place workingDirectory ∧
      ∀ m, p.LeadsThrough workingDirectory m → t.find? m = some .directory := by
  rw [resolve] at h
  split at h
  · cases h
  next hfault => exact follow_eq_ok (text_ne_empty_of_pathFault? hfault) h

/-- What is a directory stays one. -/
def KeepsDirectories (t t' : FileTree) : Prop :=
  ∀ l, t.find? l = some .directory → t'.find? l = some .directory

theorem KeepsDirectories.refl (t : FileTree) : t.KeepsDirectories t :=
  fun _ h => h

variable {t' : FileTree}

theorem foldlM_step_of_keeps (hkeeps : t.KeepsDirectories t') {segments : List String}
    (h : segments.foldlM t.step here = .ok l) : segments.foldlM t'.step here = .ok l := by
  induction segments generalizing here with
  | nil => exact h
  | cons segment segments ih =>
      rw [List.foldlM_cons] at h ⊢
      obtain ⟨next, hstep, hrest⟩ := bind_eq_ok.mp h
      have hfind := (step_eq_ok hstep).1
      refine bind_eq_ok.mpr ⟨next, ?_, ih hrest⟩
      -- A step looks at nothing but the directory it is taken from.
      rw [step, hfind] at hstep
      rw [step, hkeeps here hfind]
      exact hstep

theorem resolve_of_keeps (hkeeps : t.KeepsDirectories t')
    (h : t.resolve workingDirectory p = .ok l) : t'.resolve workingDirectory p = .ok l := by
  rw [resolve] at h ⊢
  split at h
  · cases h
  · rw [follow.eq_def] at h ⊢
    split at h
    · exact foldlM_step_of_keeps hkeeps h
    · exact foldlM_step_of_keeps hkeeps h

theorem follow_concat {segments : List String} {last : String}
    (hsome : segments ≠ [] ∨ last ≠ "") :
    t.follow workingDirectory (segments ++ [last]) =
      t.follow workingDirectory segments >>= fun here => t.step here last := by
  cases segments with
  | nil =>
      have hlast : last ≠ "" := hsome.resolve_left fun hne => hne rfl
      rw [List.nil_append, follow, follow]
      · simp
      · intro rest heq
        cases heq
      · intro rest heq
        exact hlast (List.cons.inj heq).1
  | cons first segments =>
      by_cases hfirst : first = ""
      · subst hfirst
        rw [List.cons_append, follow, follow, List.foldlM_append]
        simp
      · rw [List.cons_append, follow, follow, ← List.cons_append, List.foldlM_append]
        · simp
        · intro rest heq
          exact hfirst (List.cons.inj heq).1
        · intro rest heq
          exact hfirst (List.cons.inj heq).1

/-- A path that ends in a slash keeps its last stretch only if the empty ones behind it
are left out. -/
theorem named_eq_segments {segments : List String}
    (h : ¬ (segments.reverse.dropWhile (· = "")).reverse.length < segments.length) :
    (segments.reverse.dropWhile (· = "")).reverse = segments := by
  have hshorter := List.rdropWhile_prefix (fun s : String => decide (s = "")) segments
  exact hshorter.eq_of_length_le (Nat.le_of_not_lt h)

theorem target_eq_ok (h : t.target workingDirectory p = .ok l) :
    t.resolve workingDirectory p = .ok l ∧ t.find? l ≠ some .directory ∧ l ≠ [] := by
  rw [target] at h
  split at h
  · cases h
  · cases h
  next hfault =>
    set named := (p.segments.reverse.dropWhile (· = "")).reverse with hnamed
    dsimp only at h
    split at h
    · cases h
    next last hlast =>
      obtain ⟨above, habove, h⟩ := bind_eq_ok.mp h
      obtain ⟨place, hplace, h⟩ := bind_eq_ok.mp h
      split at h
      · cases h
      next hdots =>
        split at h
        · cases h
        next hslash =>
          split at h
          · cases h
          next hdirectory =>
            obtain rfl := pure_eq_ok.mp h
            have hsegments : named = p.segments := named_eq_segments hslash
            have hlast_ne : last ≠ "" := by
              have hhead := List.head?_dropWhile_not (fun s : String => decide (s = ""))
                p.segments.reverse
              rw [hnamed, List.getLast?_reverse] at hlast
              rw [hlast] at hhead
              simpa using hhead
            have hends : named.dropLast ++ [last] = p.segments := by
              rw [← hsegments]
              exact List.dropLast_append_getLast? last hlast
            refine ⟨?_, hdirectory, ?_⟩
            · rw [resolve, hfault, ← hends]
              change t.follow workingDirectory (named.dropLast ++ [last]) = .ok place
              rw [follow_concat (.inr hlast_ne)]
              exact bind_eq_ok.mpr ⟨above, habove, hplace⟩
            · obtain ⟨-, hplace⟩ := step_eq_ok hplace
              push Not at hdots
              rw [hplace, Path.component?, if_neg (by simp [Path.isIdle, hlast_ne, hdots.1]),
                if_neg hdots.2]
              simp [Component.lead]

/-! ## Making directories

Directories are made one after another, and a failure leaves those made before. `Adds`
bounds what has changed either way: it says where something may have been added and passes
from one directory to the next. -/

/-- Directories are added at some of the locations, where nothing stood, and everything
else stays as it was. -/
def Adds (made : Location → Prop) (t t' : FileTree) : Prop :=
  ∀ l, t'.find? l = t.find? l ∨
    (t.find? l = none ∧ t'.find? l = some .directory ∧ made l)

theorem Adds.refl (made : Location → Prop) (t : FileTree) : Adds made t t :=
  fun _ => .inl rfl

theorem Adds.mono {made made' : Location → Prop} (hmade : ∀ l, made l → made' l)
    (h : Adds made t t') : Adds made' t t' := by
  intro l
  rcases h l with hsame | ⟨hnone, hdirectory, hl⟩
  · exact .inl hsame
  · exact .inr ⟨hnone, hdirectory, hmade l hl⟩

theorem Adds.trans {made : Location → Prop} {t'' : FileTree} (h : Adds made t t')
    (h' : Adds made t' t'') : Adds made t t'' := by
  intro l
  rcases h l with hsame | ⟨hnone, hdirectory, hl⟩
  · rw [← hsame]
    exact h' l
  · rcases h' l with hsame' | ⟨hnone', -, -⟩
    · exact .inr ⟨hnone, hsame'.trans hdirectory, hl⟩
    · rw [hdirectory] at hnone'
      cases hnone'

theorem Adds.eq_of_some {made : Location → Prop} (h : Adds made t t') {node : Node}
    (hl : t.find? l = some node) : t'.find? l = some node := by
  rcases h l with hsame | ⟨hnone, -, -⟩
  · exact hsame.trans hl
  · rw [hl] at hnone
    cases hnone

theorem Adds.keepsDirectories {made : Location → Prop} (h : Adds made t t') :
    t.KeepsDirectories t' :=
  fun _ hl => h.eq_of_some hl

theorem makeDirectory_eq_ok (h : t.makeDirectory workingDirectory p = .ok t') :
    t.resolve workingDirectory p = .ok (p.place workingDirectory) ∧
      t.find? (p.place workingDirectory) = none ∧
      t' = t.set (p.place workingDirectory) .directory := by
  obtain ⟨l, hl, h⟩ := bind_eq_ok.mp h
  obtain ⟨rfl, -⟩ := resolve_eq_ok hl
  split at h
  · cases h
  next hnone => exact ⟨hl, hnone, (pure_eq_ok.mp h).symm⟩

/-- A single dot is a directory as soon as it can be followed. -/
theorem makeDirectory_dot_ne_ok : t.makeDirectory workingDirectory ⟨"."⟩ ≠ .ok t' := by
  intro h
  obtain ⟨hresolve, hnone, -⟩ := makeDirectory_eq_ok h
  have hfollow : ["."].foldlM t.step workingDirectory =
      .ok (Path.place workingDirectory ⟨"."⟩) := hresolve
  rw [List.foldlM_cons] at hfollow
  obtain ⟨next, hstep, -⟩ := bind_eq_ok.mp hfollow
  have hdirectory : t.find? (Path.place workingDirectory ⟨"."⟩) = some .directory :=
    (step_eq_ok hstep).1
  rw [hdirectory] at hnone
  cases hnone

theorem adds_makeDirectory (h : t.makeDirectory workingDirectory p = .ok t') :
    Adds (fun l => p ≠ ⟨"."⟩ ∧ p.place workingDirectory = l) t t' := by
  have hdot : p ≠ ⟨"."⟩ := by
    rintro rfl
    exact makeDirectory_dot_ne_ok h
  obtain ⟨-, hnone, rfl⟩ := makeDirectory_eq_ok h
  have hne : p.place workingDirectory ≠ [] := by
    intro hroot
    rw [hroot] at hnone
    cases hnone
  intro l
  rw [find?_set t hne]
  split
  next hl => exact .inr ⟨hl ▸ hnone, rfl, hdot, hl.symm⟩
  next => exact .inl rfl

/-- Directories are made at the places of the paths and nowhere else, also when not all
of them can be made. -/
theorem adds_ensureAll (t : FileTree) (workingDirectory : Location) (paths : List Path) :
    Adds (fun l => ∃ p ∈ paths, p.text ≠ "" ∧ p ≠ ⟨"."⟩ ∧ p.place workingDirectory = l) t
      (t.ensureAll workingDirectory paths).1 := by
  induction paths generalizing t with
  | nil => exact .refl _ t
  | cons p above ih =>
      have hmake : ∀ {t t' : FileTree}, p.text ≠ "" → t.makeDirectory workingDirectory p = .ok t' →
          Adds (fun l => ∃ q ∈ p :: above,
            q.text ≠ "" ∧ q ≠ ⟨"."⟩ ∧ q.place workingDirectory = l) t t' := by
        intro t t' htext h
        refine (adds_makeDirectory h).mono fun l hl => ?_
        exact ⟨p, List.mem_cons_self, htext, hl.1, hl.2⟩
      have habove : Adds (fun l => ∃ q ∈ p :: above,
          q.text ≠ "" ∧ q ≠ ⟨"."⟩ ∧ q.place workingDirectory = l) t
          (t.ensureAll workingDirectory above).1 := by
        refine (ih t).mono fun l hl => ?_
        obtain ⟨q, hq, hrest⟩ := hl
        exact ⟨q, List.mem_cons_of_mem p hq, hrest⟩
      rw [ensureAll]
      split
      · exact .refl _ t
      next htext =>
        have htext : p.text ≠ "" := by simpa using htext
        split
        next made hmade => exact hmake htext hmade
        next =>
          split
          next below fault hbelow =>
            rw [hbelow] at habove
            exact habove
          next below hbelow =>
            rw [hbelow] at habove
            split
            next made hmade => exact habove.trans (hmake htext hmade)
            next => exact habove
        next => exact .refl _ t

end FileTree

namespace Path

theorem components_of_mem_upwards {p q : Path} {more : Nat} (h : q ∈ FileTree.upwards p more) :
    q.components <+: p.components := by
  induction more generalizing p with
  | zero => cases h
  | succ more ih =>
      rw [FileTree.upwards] at h
      rcases List.mem_cons.mp h with rfl | h
      · exact List.prefix_refl _
      · split at h
        next above habove =>
          refine (ih h).trans ?_
          rw [components_parent? habove]
          exact List.dropLast_prefix _
        next => cases h

end Path

namespace WriteTask

variable {task : WriteTask} {workingDirectory : Location} {p : Path}

theorem directory_cases (task : WriteTask) :
    task.directory = ⟨"."⟩ ∨ task.destination.parent? = some task.directory := by
  rw [directory]
  split
  next above habove =>
    by_cases hempty : above.text.isEmpty
    · exact .inl (if_pos hempty)
    · rw [if_neg hempty]
      exact .inr habove
  next => exact .inl rfl

/-- The directories that a task makes are on the way to its destination. -/
theorem leadsThrough_of_mem_directories (hp : p ∈ task.directories) (htext : p.text ≠ "")
    (hdot : p ≠ ⟨"."⟩) :
    task.destination.LeadsThrough workingDirectory (p.place workingDirectory) := by
  rw [directories] at hp
  rcases task.directory_cases with hdirectory | hdirectory
  · -- Nothing but the dot itself and the empty path is above a dot.
    have hupwards : FileTree.upwards ⟨"."⟩ 2 = [⟨"."⟩, ⟨""⟩] := by decide
    have hmem : p ∈ FileTree.upwards ⟨"."⟩ 2 := by
      rw [hdirectory] at hp
      exact hp
    rw [hupwards] at hmem
    rcases List.mem_cons.mp hmem with rfl | hmem
    · exact absurd rfl hdot
    · rw [List.mem_singleton.mp hmem] at htext
      exact absurd rfl htext
  · have hbegins := Path.components_of_mem_upwards hp
    rw [Path.components_parent? hdirectory] at hbegins
    refine ⟨p.components, Path.components_ne_nil htext,
      hbegins.trans (List.dropLast_prefix _), ?_, rfl⟩
    intro heq
    have hlength := hbegins.length_le
    have hpos := List.length_pos_of_ne_nil (Path.components_ne_nil htext)
    rw [heq] at hpos
    rw [heq, List.length_dropLast] at hlength
    omega

end WriteTask

end Scaffold
