import Scaffold.Proofs.Locations

/-!
# The way from one path to another

A way is computed from two normal forms: climb out of what only the first has, descend into
what only the second has. Whether it leads anywhere is a question about locations, and at the
root of a file system two dots stay there.

A normal form is made without that exception. Two dots take the root back like any other
component, so a path that climbs above the root has a normal form without it. Still a normal
form leads, from the root, to the place of its path, and this is what carries the argument: a
way climbs out of a normal form component by component, each step up undoes one step of that
form, and then the rest of the other form is walked.

What a way says as a text is the one thing that a lost root spoils. If nothing is left of the
first normal form and the second begins with the root, the way begins with a slash, and then
it is no way but a path of its own. In every other case it arrives. The number of its pairs of
dots is the number of components that only the first path has, as long as neither path lost
the root.

Below a base all of this is simple: the way from a base to a path of names below it is that
path, whatever the base is made of.
-/

namespace Scaffold.Path

/-- An absolute path of which no pair of dots takes back the root, or any relative path. -/
def KeepsRoot (p : Path) : Prop :=
  p.isAbsolute = true → .root ∈ normal p.components

/-- A relative path that does not climb above where it starts, or any absolute path. -/
def StaysBelow (p : Path) : Prop :=
  p.isAbsolute = false → .parent ∉ normal p.components

instance (p : Path) : Decidable p.KeepsRoot :=
  inferInstanceAs (Decidable (_ → _))

instance (p : Path) : Decidable p.StaysBelow :=
  inferInstanceAs (Decidable (_ → _))

theorem isStep_of_component? {s : String} {step : Component} (hslash : '/' ∉ s.toList)
    (h : component? s = some step) : IsStep step := by
  rw [component?] at h
  split at h
  · cases h
  · next hidle =>
      split at h
      · rw [← Option.some.inj h]
        trivial
      · next hparent =>
          rw [← Option.some.inj h]
          simp only [isIdle, Bool.or_eq_true, beq_iff_eq, not_or] at hidle
          exact ⟨hidle.1, hidle.2, hparent, hslash⟩

theorem root_not_mem {steps : List Component} (h : ∀ s ∈ steps, IsStep s) : .root ∉ steps :=
  fun hroot => h .root hroot

/-- Behind its beginning a path has only names and pairs of dots. -/
theorem exists_components (p : Path) :
    ∃ start steps, p.components = start ++ steps ∧ (∀ s ∈ steps, IsStep s) ∧
      (start = [.root] ∧ p.isAbsolute = true ∨
        (start = [] ∨ start = [.current]) ∧ p.isAbsolute = false) := by
  have hsteps : ∀ {body : List String}, (∀ s ∈ body, s ∈ p.segments) →
      ∀ step ∈ body.filterMap component?, IsStep step := by
    intro body hbody step hstep
    obtain ⟨s, hs, hread⟩ := List.mem_filterMap.mp hstep
    exact isStep_of_component? (not_mem_of_mem_segments (hbody s hs)) hread
  by_cases hempty : p.text = ""
  · obtain ⟨text⟩ := p
    subst hempty
    exact ⟨[], [], by decide, by simp, .inr ⟨.inl rfl, by decide⟩⟩
  cases begins hempty with
  | root hsegments _ hsplit =>
      have hcomponents := components_of_split hsplit
      have hbody := hsteps fun s hs => by rw [hsegments]; exact List.mem_cons_of_mem _ hs
      refine ⟨[.root], _, hcomponents, hbody, .inl ⟨rfl, ?_⟩⟩
      rw [isAbsolute, hcomponents]
      rfl
  | current hsegments hsplit =>
      have hcomponents := components_of_split hsplit
      have hbody := hsteps fun s hs => by rw [hsegments]; exact List.mem_cons_of_mem _ hs
      refine ⟨[.current], _, hcomponents, hbody, .inr ⟨.inr rfl, ?_⟩⟩
      rw [isAbsolute, hcomponents]
      rfl
  | name hsegments _ hsplit =>
      have hcomponents := components_of_split hsplit
      have hbody := hsteps fun s hs => hsegments ▸ hs
      refine ⟨[], _, hcomponents, hbody, .inr ⟨.inl rfl, ?_⟩⟩
      rw [isAbsolute, hcomponents, decide_eq_false_iff_not]
      intro hhead
      exact root_not_mem hbody (List.mem_of_head? hhead)

theorem isAbsolute_of_root_mem {p : Path} (h : .root ∈ p.components) : p.isAbsolute = true := by
  obtain ⟨start, steps, hcomponents, hsteps, hstart⟩ := exists_components p
  rw [hcomponents, List.mem_append] at h
  rcases hstart with ⟨-, habsolute⟩ | ⟨rfl | rfl, -⟩
  · exact habsolute
  · simp [root_not_mem hsteps] at h
  · simp [root_not_mem hsteps] at h

/-- Components in normal form: names, and in front of them either the root or any number of
pairs of dots. -/
inductive IsNormal : List Component → Prop
  | root : IsNormal [.root]
  | above (n : Nat) : IsNormal (List.replicate n .parent)
  | name {components : List Component} {s : String} (h : IsNormal components)
      (hs : IsPlainName s) : IsNormal (components ++ [.name s])

theorem IsNormal.isStep_of_mem {components : List Component} (h : IsNormal components) :
    ∀ s ∈ components, s = .root ∨ IsStep s := by
  induction h with
  | root => simp
  | above n =>
      intro s hs
      rw [List.eq_of_mem_replicate hs]
      exact .inr trivial
  | name _ hplain ih =>
      intro s hs
      rcases List.mem_append.mp hs with hs | hs
      · exact ih s hs
      · rw [List.mem_singleton.mp hs]
        exact .inr hplain

/-- The root stands in front of everything, and then no pair of dots is left. -/
theorem IsNormal.of_root_mem {components : List Component} (h : IsNormal components)
    (hroot : .root ∈ components) :
    ∃ names, components = .root :: names ∧ .root ∉ names ∧ .parent ∉ names := by
  induction h with
  | root => exact ⟨[], rfl, by simp, by simp⟩
  | above n => cases List.eq_of_mem_replicate hroot
  | @name components s _ _ ih =>
      have hbefore : .root ∈ components := by simpa using hroot
      obtain ⟨names, rfl, hnames⟩ := ih hbefore
      exact ⟨names ++ [.name s], rfl, by simpa using hnames⟩

theorem IsNormal.of_root_mem_append {shared below : List Component}
    (h : IsNormal (shared ++ below)) (hroot : .root ∈ below) :
    shared = [] ∧ ∃ names, below = .root :: names ∧ .root ∉ names := by
  obtain ⟨names, hnames, hlate, -⟩ := h.of_root_mem (List.mem_append_right shared hroot)
  cases shared with
  | nil => exact ⟨rfl, names, hnames, hlate⟩
  | cons s shared =>
      have hmem : .root ∈ names := by
        rw [← (List.cons.inj hnames).2]
        exact List.mem_append_right shared hroot
      exact absurd hmem hlate

theorem normal_concat (components : List Component) (step : Component) :
    normal (components ++ [step]) = (walk (normal components).reverse step).reverse := by
  rw [normal, normal, List.foldl_append, List.reverse_reverse]
  rfl

theorem mem_of_mem_walk {place : List Component} {step s : Component}
    (h : s ∈ walk place step) : s ∈ place ∨ s = step := by
  cases step with
  | root => simpa [walk, or_comm] using h
  | current => exact .inl h
  | parent =>
      cases place with
      | nil => exact .inr (List.mem_singleton.mp h)
      | cons last above =>
          cases last with
          | parent =>
              rcases List.mem_cons.mp h with h | h
              · exact .inr h
              · exact .inl h
          | root => exact .inl (List.mem_cons_of_mem _ h)
          | current => exact .inl (List.mem_cons_of_mem _ h)
          | name _ => exact .inl (List.mem_cons_of_mem _ h)
  | name _ => simpa [walk, or_comm] using h

/-- A normal form has no component that the path does not have. -/
theorem normal_subset (components : List Component) : normal components ⊆ components := by
  induction components using List.reverseRecOn with
  | nil => simp [normal]
  | append_singleton components step ih =>
      intro s hs
      rw [normal_concat, List.mem_reverse] at hs
      rcases mem_of_mem_walk hs with hs | rfl
      · exact List.mem_append_left _ (ih (List.mem_reverse.mp hs))
      · simp

/-- How a step changes a normal form. -/
inductive Walks : List Component → Component → List Component → Prop
  | name (components : List Component) (s : String) :
      Walks components (.name s) (components ++ [.name s])
  | back (components : List Component) (s : String) :
      Walks (components ++ [.name s]) .parent components
  | lose : Walks [.root] .parent []
  | above (n : Nat) : Walks (List.replicate n .parent) .parent (List.replicate (n + 1) .parent)

theorem IsNormal.walk {components : List Component} (h : IsNormal components)
    {step : Component} (hstep : IsStep step) :
    Walks components step (Path.walk components.reverse step).reverse ∧
      IsNormal (Path.walk components.reverse step).reverse := by
  cases step with
  | root => cases hstep
  | current => cases hstep
  | name s =>
      have hwalk : (Path.walk components.reverse (.name s)).reverse =
          components ++ [.name s] := by simp [Path.walk]
      rw [hwalk]
      exact ⟨.name _ s, .name h hstep⟩
  | parent =>
      cases h with
      | root => exact ⟨.lose, .above 0⟩
      | above n =>
          have hwalk : (Path.walk (List.replicate n Component.parent).reverse .parent).reverse =
              List.replicate (n + 1) .parent := by
            cases n with
            | zero => rfl
            | succ n =>
                rw [List.reverse_replicate, List.replicate_succ, Path.walk,
                  ← List.replicate_succ, ← List.replicate_succ, List.reverse_replicate]
          rw [hwalk]
          exact ⟨.above n, .above (n + 1)⟩
      | @name components s h _ =>
          have hwalk : (Path.walk (components ++ [Component.name s]).reverse .parent).reverse =
              components := by simp [Path.walk]
          rw [hwalk]
          exact ⟨.back _ s, h⟩

theorem descend_concat (here : Location) (steps : List Component) (step : Component) :
    descend here (steps ++ [step]) = step.lead (descend here steps) :=
  descend_append here steps [step]

theorem descend_replicate_root (n : Nat) : descend [] (List.replicate n .parent) = [] := by
  induction n with
  | zero => rfl
  | succ n ih => exact ih

/-- A normal form leads where the steps lead that it was made from, even after a step that
takes the root back. -/
theorem Walks.descend {components after : List Component} {step : Component} {base : Location}
    (h : Walks components step after) (hbase : .root ∈ components → base = []) :
    Path.descend base after = step.lead (Path.descend base components) := by
  cases h with
  | name _ s => exact descend_concat base components (.name s)
  | back _ s => rw [descend_concat, Component.lead, Component.lead, List.dropLast_concat]
  | lose =>
      rw [hbase (List.mem_singleton_self _)]
      rfl
  | above n => rw [List.replicate_succ', descend_concat]

/-- The location that a path is followed from. -/
def origin (here : Location) (p : Path) : Location :=
  if p.isAbsolute then [] else here

/-- What holds after a path's beginning holds after every further step: the components stay
normal, and they lead to the place that the steps themselves lead to. -/
theorem isNormal_and_descend {start steps : List Component} {here base : Location}
    (hsteps : ∀ s ∈ steps, IsStep s) (hbase : .root ∈ start → base = [])
    (hstart : IsNormal (normal start) ∧ descend here start = descend base (normal start)) :
    IsNormal (normal (start ++ steps)) ∧
      descend here (start ++ steps) = descend base (normal (start ++ steps)) := by
  induction steps using List.reverseRecOn with
  | nil => rwa [List.append_nil]
  | append_singleton steps step ih =>
      have hbefore : ∀ s ∈ steps, IsStep s := fun s hs => hsteps s (by simp [hs])
      obtain ⟨hnormal, hplace⟩ := ih hbefore
      obtain ⟨hwalks, hafter⟩ := hnormal.walk (hsteps step (by simp))
      have hroot : .root ∈ normal (start ++ steps) → base = [] := by
        intro hmem
        rcases List.mem_append.mp (normal_subset _ hmem) with hmem | hmem
        · exact hbase hmem
        · exact absurd hmem (root_not_mem hbefore)
      rw [← List.append_assoc, normal_concat, hwalks.descend hroot, ← hplace, descend_concat]
      exact ⟨hafter, rfl⟩

theorem isNormal_and_place (here : Location) (p : Path) :
    IsNormal (normal p.components) ∧
      place here p = descend (origin here p) (normal p.components) := by
  obtain ⟨start, steps, hcomponents, hsteps, hstart⟩ := exists_components p
  have hbase : .root ∈ start → origin here p = [] := by
    intro hroot
    rw [origin, isAbsolute_of_root_mem (hcomponents ▸ List.mem_append_left steps hroot), if_pos rfl]
  rw [place, hcomponents]
  refine isNormal_and_descend hsteps hbase ?_
  rcases hstart with ⟨rfl, habsolute⟩ | ⟨rfl | rfl, hrelative⟩
  · refine ⟨.root, ?_⟩
    rw [origin, habsolute]
    rfl
  · refine ⟨.above 0, ?_⟩
    rw [origin, hrelative]
    rfl
  · refine ⟨.above 0, ?_⟩
    rw [origin, hrelative]
    rfl

/-! ## Climbing out of a normal form

As many steps up as a normal form has steps lead back to where it starts. A form with the
root or with steps up in it does not go down from there, so it is left out, unless it starts
at the root, where such steps stay. -/

/-- The last component of a normal form, and what stands before it. -/
theorem IsNormal.concat {before : List Component} {step : Component}
    (h : IsNormal (before ++ [step])) :
    IsNormal before ∧ (step = .root ∧ before = [] ∨
      (step = .parent ∧ ∃ n, before = List.replicate n .parent) ∨ ∃ s, step = .name s) := by
  -- The forms are told apart by their last component, which is no index of the predicate.
  generalize hcomponents : before ++ [step] = components at h
  cases h with
  | root =>
      have hsingle : before ++ [step] = [] ++ [.root] := hcomponents
      obtain ⟨rfl, hstep⟩ := List.append_inj' hsingle rfl
      exact ⟨.above 0, .inl ⟨List.head_eq_of_cons_eq hstep, rfl⟩⟩
  | above n =>
      obtain ⟨-, hbefore, hstep⟩ := List.append_eq_replicate_iff.mp hcomponents
      have hparent : step = .parent :=
        List.eq_of_mem_replicate (hstep ▸ List.mem_singleton_self step)
      rw [hbefore]
      exact ⟨.above _, .inr (.inl ⟨hparent, _, rfl⟩)⟩
  | @name before' s h _ =>
      obtain ⟨rfl, hstep⟩ := List.append_inj' hcomponents rfl
      exact ⟨h, .inr (.inr ⟨s, List.head_eq_of_cons_eq hstep⟩)⟩

/-- A step that ends a normal form is undone by a step up, if no step of that form climbs
from anywhere but the root. -/
theorem lead_parent_descend {before : List Component} {step : Component} {base : Location}
    (h : IsNormal (before ++ [step]))
    (hbase : ∀ s ∈ before ++ [step], s = .root ∨ s = .parent → base = []) :
    Component.lead (descend base (before ++ [step])) .parent = descend base before := by
  obtain ⟨-, ⟨rfl, rfl⟩ | ⟨rfl, n, rfl⟩ | ⟨s, rfl⟩⟩ := h.concat
  · rw [hbase .root (by simp) (.inl rfl)]
    rfl
  · rw [hbase .parent (by simp) (.inr rfl), descend_concat, descend_replicate_root]
    rfl
  · rw [descend_concat, Component.lead, Component.lead, List.dropLast_concat]

/-- Climbing out of the end of a normal form leads to where its beginning leads. -/
theorem descend_back {shared above : List Component} {base : Location}
    (h : IsNormal (shared ++ above))
    (hbase : ∀ s ∈ shared ++ above, s = .root ∨ s = .parent → base = []) :
    descend (descend base (shared ++ above)) (List.replicate above.length .parent) =
      descend base shared := by
  induction above using List.reverseRecOn with
  | nil => rw [List.append_nil, List.length_nil, List.replicate_zero, descend, List.foldl_nil]
  | append_singleton above step ih =>
      rw [← List.append_assoc] at h hbase ⊢
      have hback := lead_parent_descend h hbase
      have hbefore := ih h.concat.1 fun s hs => hbase s (List.mem_append_left _ hs)
      rw [List.length_append, List.length_singleton, List.replicate_succ, descend_cons, hback,
        hbefore]

/-- Two lists part where the longest beginning that both have ends. -/
theorem exists_shared (source target : List Component) :
    ∃ shared above below, source = shared ++ above ∧ target = shared ++ below ∧
      (∀ common, common <+: source → common <+: target → common <+: shared) ∧
      shared.length = commonLength source target := by
  induction source generalizing target with
  | nil =>
      exact ⟨[], [], target, rfl, rfl, fun common hsource _ => hsource, by simp [commonLength]⟩
  | cons s source ih =>
      cases target with
      | nil => exact ⟨[], s :: source, [], rfl, rfl, fun common _ htarget => htarget, rfl⟩
      | cons t target =>
          by_cases heq : s = t
          · subst heq
            obtain ⟨shared, above, below, rfl, rfl, hlongest, hlength⟩ := ih target
            refine ⟨s :: shared, above, below, rfl, rfl, ?_, by simp [commonLength, hlength]⟩
            intro common hsource htarget
            cases common with
            | nil => exact List.nil_prefix
            | cons c common =>
                rw [List.cons_prefix_cons] at hsource htarget ⊢
                exact ⟨hsource.1, hlongest common hsource.2 htarget.2⟩
          · refine ⟨[], s :: source, t :: target, rfl, rfl, ?_, by simp [commonLength, heq]⟩
            intro common hsource htarget
            cases common with
            | nil => exact List.nil_prefix
            | cons c common =>
                rw [List.cons_prefix_cons] at hsource htarget
                exact absurd (hsource.1.symm.trans htarget.1) heq

theorem stepsBetween_append {shared above below : List Component}
    (h : shared.length = commonLength (shared ++ above) (shared ++ below)) :
    stepsBetween (shared ++ above) (shared ++ below) =
      List.replicate above.length .parent ++ below := by
  rw [stepsBetween, ← h]
  simp

/-! ## Reading a way

A way is written as a text with slashes between its steps, and is taken for a path again by
whoever follows it. A root among the steps becomes an empty stretch between slashes and is
lost in the reading. Only in front does it count, and makes the path absolute. -/

/-- The stretches that the text of a step leaves behind when it is split at slashes. -/
def stretches : Component → List String
  | .root => ["", ""]
  | step => [step.text]

theorem stretches_of_isStep {step : Component} (h : IsStep step) :
    stretches step = [step.text] := by
  cases step with
  | root => cases h
  | current => rfl
  | parent => rfl
  | name _ => rfl

theorem segments_text {step : Component} (h : step = .root ∨ IsStep step) :
    (⟨step.text⟩ : Path).segments = stretches step := by
  rcases h with rfl | h
  · decide
  · have hslash : ∀ s ∈ [step.text], '/' ∉ s.toList :=
      List.forall_mem_singleton.mpr (text_of_isStep h).2
    have hsegments := segments_ofNames (List.cons_ne_nil _ _) hslash
    rw [stretches_of_isStep h, ← hsegments, ofNames]
    simp

theorem stepsText_cons_cons (step next : Component) (rest : List Component) :
    stepsText (step :: next :: rest) = step.text ++ "/" ++ stepsText (next :: rest) := by
  simp [stepsText, String.intercalate_cons_cons]

theorem stepsText_singleton (step : Component) : stepsText [step] = step.text := by
  simp [stepsText]

theorem segments_stepsText {first : Component} {rest : List Component}
    (h : ∀ s ∈ first :: rest, s = .root ∨ IsStep s) :
    (⟨stepsText (first :: rest)⟩ : Path).segments = (first :: rest).flatMap stretches := by
  induction rest generalizing first with
  | nil =>
      have hfirst := segments_text (h first (by simp))
      simpa [stepsText] using hfirst
  | cons next rest ih =>
      have hfirst := segments_text (h first (by simp))
      have hrest := ih fun s hs => h s (List.mem_cons_of_mem first hs)
      rw [List.flatMap_cons, ← hfirst, ← hrest]
      exact segments_append_slash (stepsText_cons_cons first next rest)

theorem filterMap_stretches {steps : List Component} (h : ∀ s ∈ steps, s = .root ∨ IsStep s) :
    (steps.flatMap stretches).filterMap component? = steps.filter (· ≠ .root) := by
  induction steps with
  | nil => rfl
  | cons step steps ih =>
      have hrest := ih fun s hs => h s (List.mem_cons_of_mem step hs)
      rw [List.flatMap_cons, List.filterMap_append, hrest]
      rcases h step List.mem_cons_self with rfl | hstep
      · rfl
      · have hne : step ≠ .root := by
          rintro rfl
          cases hstep
        rw [stretches_of_isStep hstep, List.filterMap_cons_some (component?_text hstep),
          List.filterMap_nil, List.filter_cons_of_pos (by simp [hne])]
        rfl

/-- A way that does not begin with the root is read as its steps, as if a root among them
were not there. -/
theorem components_stepsText {first : Component} {rest : List Component} (hfirst : IsStep first)
    (hrest : ∀ s ∈ rest, s = .root ∨ IsStep s) :
    (⟨stepsText (first :: rest)⟩ : Path).components = (first :: rest).filter (· ≠ .root) := by
  have hsteps : ∀ s ∈ first :: rest, s = .root ∨ IsStep s :=
    List.forall_mem_cons.mpr ⟨.inr hfirst, hrest⟩
  have hsegments := segments_stepsText hsteps
  have hread := filterMap_stretches hsteps
  rw [List.flatMap_cons, stretches_of_isStep hfirst, List.singleton_append] at hsegments hread
  rw [components_of_split (split_of_segments hsegments (text_of_isStep hfirst).1), hread]
  rfl

/-- A path whose text begins with a slash is absolute. -/
theorem isAbsolute_of_head? {p : Path} (h : p.text.toList.head? = some '/') :
    p.isAbsolute = true := by
  obtain ⟨chars, hchars⟩ := List.head?_eq_some_iff.mp h
  obtain ⟨next, more, hmore⟩ := List.exists_cons_of_ne_nil (List.splitOn_ne_nil '/' chars)
  have hsegments : p.segments = "" :: String.ofList next :: more.map String.ofList := by
    rw [segments, hchars, List.splitOn_cons_eq_if_modifyHead, if_pos (by decide), hmore]
    rfl
  rw [isAbsolute, components, split, hsegments]
  rfl

theorem isAbsolute_stepsText_root (rest : List Component) :
    (⟨stepsText (.root :: rest)⟩ : Path).isAbsolute = true := by
  refine isAbsolute_of_head? ?_
  cases rest with
  | nil => decide
  | cons next rest => simp [stepsText, Component.text, String.intercalate_cons_cons]

theorem isAbsolute_stepsText {steps : List Component} (h : ∀ s ∈ steps, s = .root ∨ IsStep s) :
    (⟨stepsText steps⟩ : Path).isAbsolute = true ↔ steps.head? = some .root := by
  cases steps with
  | nil => decide
  | cons first rest =>
      obtain ⟨hfirst, hrest⟩ := List.forall_mem_cons.mp h
      rcases hfirst with rfl | hfirst
      · simp [isAbsolute_stepsText_root rest]
      · have hne : first ≠ .root := by
          rintro rfl
          cases hfirst
        simp [isAbsolute, components_stepsText hfirst hrest, hne]

/-- A way that is no path of its own has the components of its steps without the root, or only
the dot that stands for no step. -/
theorem components_way {steps : List Component} (h : ∀ s ∈ steps, s = .root ∨ IsStep s)
    (hhead : steps.head? ≠ some .root) :
    (⟨stepsText steps⟩ : Path).components =
      (if steps = [] then [.current] else []) ++ steps.filter (· ≠ .root) := by
  cases steps with
  | nil => decide
  | cons first rest =>
      obtain ⟨hfirst, hrest⟩ := List.forall_mem_cons.mp h
      have hne : first ≠ .root := by simpa using hhead
      exact components_stepsText (hfirst.resolve_left hne) hrest

/-- A way that is no path of its own leads where its steps lead, and climbs as often. -/
theorem descend_way {steps : List Component} (h : ∀ s ∈ steps, s = .root ∨ IsStep s)
    (hhead : steps.head? ≠ some .root) (here : Location) :
    descend here (⟨stepsText steps⟩ : Path).components = descend here (steps.filter (· ≠ .root)) ∧
      (⟨stepsText steps⟩ : Path).components.count .parent = steps.count .parent := by
  rw [components_way h hhead, descend_append, List.count_append, List.count_filter (by simp)]
  split
  · exact ⟨rfl, Nat.zero_add _⟩
  · exact ⟨rfl, Nat.zero_add _⟩

theorem filter_ne_root {steps : List Component} (h : .root ∉ steps) :
    steps.filter (· ≠ .root) = steps := by
  rw [List.filter_eq_self]
  intro s hs
  have hne : s ≠ .root := fun heq => h (heq ▸ hs)
  simpa using hne

/-- Climbing out of what only the first normal form has and walking what only the second has
leads from the one to the other. A root on the way is where the climbing ends anyhow. -/
theorem descend_between {shared above below : List Component} {base : Location}
    (hsource : IsNormal (shared ++ above)) (htarget : IsNormal (shared ++ below))
    (hbase : ∀ s ∈ shared ++ above, s = .root ∨ s = .parent → base = [])
    (hroot : .root ∈ below → base = []) :
    descend (descend base (shared ++ above))
        ((List.replicate above.length Component.parent ++ below).filter (· ≠ .root)) =
      descend base (shared ++ below) := by
  have hup : .root ∉ List.replicate above.length Component.parent := by simp
  rw [List.filter_append, filter_ne_root hup, descend_append, descend_back hsource hbase,
    descend_append]
  by_cases hmem : .root ∈ below
  · -- Nothing is shared then, and the climb has ended at the root already.
    obtain ⟨rfl, names, rfl, hlate⟩ := htarget.of_root_mem_append hmem
    rw [List.filter_cons_of_neg (by simp), filter_ne_root hlate, hroot hmem]
    rfl
  · rw [filter_ne_root hmem]

theorem head?_way {shared above below : List Component} (htarget : IsNormal (shared ++ below)) :
    (List.replicate above.length Component.parent ++ below).head? = some .root ↔
      shared ++ above = [] ∧ .root ∈ shared ++ below := by
  constructor
  · intro hhead
    cases above with
    | nil =>
        have hmem : .root ∈ below := List.mem_of_head? hhead
        obtain ⟨rfl, -⟩ := htarget.of_root_mem_append hmem
        exact ⟨rfl, hmem⟩
    | cons s above => simp [List.replicate_succ] at hhead
  · rintro ⟨hnothing, hmem⟩
    obtain ⟨rfl, rfl⟩ := List.append_eq_nil_iff.mp hnothing
    obtain ⟨-, names, rfl, -⟩ := htarget.of_root_mem_append hmem
    rfl

/-- The text for the way between two normal forms: when it is a path of its own, and where it
leads when it is none. -/
theorem way_leads {shared above below : List Component} {way : Path}
    (hsource : IsNormal (shared ++ above)) (htarget : IsNormal (shared ++ below))
    (hway : way.text = stepsText (List.replicate above.length .parent ++ below)) :
    (way.isAbsolute = true ↔ shared ++ above = [] ∧ .root ∈ shared ++ below) ∧
      (way.isAbsolute = false →
        (∀ base, (∀ s ∈ shared ++ above, s = .root ∨ s = .parent → base = []) →
          (.root ∈ below → base = []) →
          descend (descend base (shared ++ above)) way.components =
            descend base (shared ++ below)) ∧
        way.components.count .parent = above.length + below.count .parent) := by
  obtain ⟨text⟩ := way
  subst hway
  have hsteps : ∀ s ∈ List.replicate above.length Component.parent ++ below,
      s = .root ∨ IsStep s := by
    intro s hs
    rcases List.mem_append.mp hs with hs | hs
    · rw [List.eq_of_mem_replicate hs]
      exact .inr trivial
    · exact htarget.isStep_of_mem s (List.mem_append_right shared hs)
  have habsolute := isAbsolute_stepsText hsteps
  refine ⟨habsolute.trans (head?_way htarget), ?_⟩
  intro hrelative
  have hhead : (List.replicate above.length Component.parent ++ below).head? ≠ some .root := by
    rw [ne_eq, ← habsolute, hrelative]
    decide
  constructor
  · intro base hbase hroot
    rw [(descend_way hsteps hhead _).1]
    exact descend_between hsource htarget hbase hroot
  · rw [(descend_way hsteps hhead []).2, List.count_append, List.count_replicate_self]

theorem root_not_mem_normal {p : Path} (h : p.isAbsolute = false) :
    .root ∉ normal p.components := by
  intro hroot
  rw [isAbsolute_of_root_mem (normal_subset _ hroot)] at h
  cases h

theorem StaysBelow.origin_eq_nil {p : Path} (h : p.StaysBelow) (here : Location) :
    ∀ s ∈ normal p.components, s = .root ∨ s = .parent → origin here p = [] := by
  intro s hs hup
  cases habsolute : p.isAbsolute with
  | true => rw [origin, habsolute, if_pos rfl]
  | false =>
      rcases hup with rfl | rfl
      · exact absurd hs (root_not_mem_normal habsolute)
      · exact absurd hs (h habsolute)

theorem StaysBelow.parent_not_mem {p : Path} (h : p.StaysBelow) (hroot : p.KeepsRoot) :
    .parent ∉ normal p.components := by
  cases habsolute : p.isAbsolute with
  | true =>
      obtain ⟨names, hnames, -, hparent⟩ :=
        (isNormal_and_place [] p).1.of_root_mem (hroot habsolute)
      simpa [hnames] using hparent
  | false => exact h habsolute

theorem relative_of_isAbsolute_eq (workingDirectory : Path) {source target : Path}
    (h : source.isAbsolute = target.isAbsolute) :
    relative workingDirectory source target =
      .ok (stepsText (stepsBetween (normal source.components) (normal target.components))) := by
  rw [relative, if_pos h]
  rfl

/-- Between two absolute paths, or two relative ones that do not climb above where they start,
there is a way, and following it from the first path arrives at the second. It climbs once for
each component that only the first normal form has, and then as often as the rest of the second
one says. The way is a relative path except in one case: nothing is left of the first normal
form, not even the root, and the second has kept it. Where both paths keep the root this does
not happen, and the rest of the second does not climb. -/
theorem relative_leads (workingDirectory : Path) {source target : Path}
    (hsame : source.isAbsolute = target.isAbsolute) (hsource : source.StaysBelow)
    (htarget : target.StaysBelow) :
    ∃ (way : Path) (shared above below : List Component),
      relative workingDirectory source target = .ok way.text ∧
      normal source.components = shared ++ above ∧
      normal target.components = shared ++ below ∧
      (∀ common, common <+: normal source.components → common <+: normal target.components →
        common <+: shared) ∧
      (way.isAbsolute = true ↔
        normal source.components = [] ∧ .root ∈ normal target.components) ∧
      (way.isAbsolute = false →
        way.text.toList.head? ≠ some '/' ∧
        (∀ here, descend (place here source) way.components = place here target) ∧
        way.components.count .parent = above.length + below.count .parent) ∧
      (source.KeepsRoot → target.KeepsRoot →
        way.isAbsolute = false ∧ way.components.count .parent = above.length) := by
  have hsourceNormal := (isNormal_and_place [] source).1
  have htargetNormal := (isNormal_and_place [] target).1
  obtain ⟨shared, above, below, hfirst, hsecond, hlongest, hlength⟩ :=
    exists_shared (normal source.components) (normal target.components)
  have hrelative := relative_of_isAbsolute_eq workingDirectory hsame
  rw [hfirst, hsecond] at hlength
  rw [hfirst] at hsourceNormal
  rw [hsecond] at htargetNormal
  rw [hfirst, hsecond, stepsBetween_append hlength] at hrelative
  obtain ⟨way, hway⟩ : ∃ way : Path,
      way.text = stepsText (List.replicate above.length .parent ++ below) := ⟨⟨_⟩, rfl⟩
  obtain ⟨habsolute, hleads⟩ := way_leads hsourceNormal htargetNormal hway
  rw [← hfirst, ← hsecond] at habsolute hleads
  rw [← hway] at hrelative
  refine ⟨way, shared, above, below, hrelative, hfirst, hsecond, hlongest, habsolute, ?_, ?_⟩
  · intro hnoPath
    obtain ⟨harrives, hcount⟩ := hleads hnoPath
    refine ⟨fun htext => ?_, fun here => ?_, hcount⟩
    · rw [isAbsolute_of_head? htext] at hnoPath
      cases hnoPath
    · have hsameOrigin : origin here target = origin here source := by rw [origin, origin, hsame]
      have hroot : .root ∈ below → origin here source = [] := by
        intro hmem
        rw [← hsameOrigin]
        refine htarget.origin_eq_nil here .root ?_ (.inl rfl)
        rw [hsecond]
        exact List.mem_append_right shared hmem
      rw [(isNormal_and_place here source).2, (isNormal_and_place here target).2, hsameOrigin]
      exact harrives _ (hsource.origin_eq_nil here) hroot
  · intro hsourceRoot htargetRoot
    have hnoPath : way.isAbsolute = false := by
      rw [← Bool.not_eq_true, habsolute]
      rintro ⟨hnothing, hmem⟩
      cases hrooted : source.isAbsolute with
      | true =>
          have hkept := hsourceRoot hrooted
          rw [hnothing] at hkept
          cases hkept
      | false => exact root_not_mem_normal (hsame.symm.trans hrooted) hmem
    have hbelow : .parent ∉ below := by
      intro hmem
      refine htarget.parent_not_mem htargetRoot ?_
      rw [hsecond]
      exact List.mem_append_right shared hmem
    have hcount := (hleads hnoPath).2
    rw [List.count_eq_zero_of_not_mem hbelow] at hcount
    exact ⟨hnoPath, hcount⟩

theorem relative_leads_dottedPath :
    ∃ way : Path, relative ⟨"/work"⟩ ⟨"/a/./b//x/.."⟩ ⟨"/a/d/../c/"⟩ = .ok way.text ∧
      way.isAbsolute = false ∧ way.text.toList.head? ≠ some '/' ∧
      descend ["a", "b"] way.components = ["a", "c"] ∧
      way.components.count .parent = 1 := by
  obtain ⟨way, shared, above, below, hrelative, hsource, htarget, hlongest, -, hleads, hkeeps⟩ :=
    @relative_leads ⟨"/work"⟩ ⟨"/a/./b//x/.."⟩ ⟨"/a/d/../c/"⟩ (by decide) (by decide) (by decide)
  obtain ⟨hnoPath, hcount⟩ := hkeeps (by decide) (by decide)
  obtain ⟨htext, harrives, -⟩ := hleads hnoPath
  have habove : above.length = 1 := by
    obtain ⟨further, rfl⟩ := hlongest [.root, .name "a"] (by decide) (by decide)
    have hb : [.name "b"] = further ++ above :=
      @List.append_cancel_left _ [.root, .name "a"] _ _ (Eq.trans (by decide) hsource)
    have hc : [.name "c"] = further ++ below :=
      @List.append_cancel_left _ [.root, .name "a"] _ _ (Eq.trans (by decide) htarget)
    cases further with
    | nil => rw [← List.nil_append above, ← hb, List.length_singleton]
    | cons s further =>
        have hclash := (List.cons.inj hb).1.trans (List.cons.inj hc).1.symm
        simp at hclash
  have hplaces := harrives []
  have hsourcePlace : place [] ⟨"/a/./b//x/.."⟩ = ["a", "b"] := by decide
  have htargetPlace : place [] ⟨"/a/d/../c/"⟩ = ["a", "c"] := by decide
  rw [hsourcePlace, htargetPlace] at hplaces
  exact ⟨way, hrelative, hnoPath, htext, hplaces, hcount.trans habove⟩

/-- From the root, written with a pair of dots that takes it back, the way is no way. -/
theorem relative_from_lost_root :
    (⟨"/.."⟩ : Path).isAbsolute = true ∧ (⟨"/a"⟩ : Path).isAbsolute = true ∧
      relative ⟨"/work"⟩ ⟨"/.."⟩ ⟨"/a"⟩ = .ok "//a" ∧ (⟨"//a"⟩ : Path).isAbsolute = true := by
  decide

theorem commonLength_append (place further : List Component) :
    commonLength place (place ++ further) = place.length := by
  induction place with
  | nil => simp [commonLength]
  | cons s place ih => simp [commonLength, ih]

theorem isAbsolute_join {base : Path} {names : List String} (hbase : base.text ≠ "")
    (hne : names ≠ []) (hplain : ∀ s ∈ names, IsPlainName s) :
    (base.join (ofNames names)).isAbsolute = base.isAbsolute := by
  rw [isAbsolute, isAbsolute, components_join hne hplain,
    List.head?_append_of_ne_nil _ (components_ne_nil hbase)]

/-- Whatever the base is made of, the way from it to a path of names below it is that path. -/
theorem relative_join (workingDirectory : Path) {base : Path} {names : List String}
    (hbase : base.text ≠ "") (hne : names ≠ []) (hplain : ∀ s ∈ names, IsPlainName s) :
    relative workingDirectory base (base.join (ofNames names)) = .ok (ofNames names).text := by
  have hsteps : stepsBetween (normal base.components)
      (normal base.components ++ names.map .name) = names.map .name := by
    rw [stepsBetween, commonLength_append]
    simp
  rw [relative_of_isAbsolute_eq workingDirectory (isAbsolute_join hbase hne hplain).symm,
    components_join hne hplain, normal_append_names, hsteps, stepsText,
    if_neg (by simpa using hne), List.map_map]
  simp [ofNames, Function.comp_def, Component.text]

end Scaffold.Path
