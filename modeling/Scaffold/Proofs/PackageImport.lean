import Scaffold.Client
import Scaffold.Proofs.Ways

/-!
# The module that the client is imported from

A client below the directory of packages is to be imported as a package, under the steps behind
that directory; any other client is to be imported under the steps of the way to it. What happens
to the way is said on its text: the first mention of `node_modules/` is left out.

Every such mention ends in a slash, so it is the end of the name of a step that is not the last.
The text can therefore be read step by step. The first step that ends in `node_modules` and has a
step behind it loses that ending together with the slash, and everything else stays.

This is what was meant if no step ends so, and if the way begins with the directory of packages.
It is so in no other case. A directory with a longer name loses a part of it, and where packages
lie above the root or deeper below it, what leads to them stays in front of the package. That
there is no further case where the two agree is a matter of lengths: leaving out a mention takes
away thirteen characters, and dropping all steps up to the directory of packages takes away as
many only if there are no others.
-/

namespace Scaffold

namespace Path

/-- The way from one path to another, as steps. -/
def way (workingDirectory source target : Path) : Except Error (List Component) :=
  if source.isAbsolute = target.isAbsolute then
    .ok (stepsBetween (normal source.components) (normal target.components))
  else do
    let source ← absoluteComponents workingDirectory source
    let target ← absoluteComponents workingDirectory target
    return stepsBetween (normal source) (normal target)

theorem relative_eq_map_way (workingDirectory source target : Path) :
    relative workingDirectory source target =
      (way workingDirectory source target).map stepsText := by
  by_cases h : source.isAbsolute = target.isAbsolute
  · rw [relative_of_isAbsolute_eq workingDirectory h, way, if_pos h]
    rfl
  · rw [relative, way, if_neg h, if_neg h]
    cases absoluteComponents workingDirectory source with
    | error e => rfl
    | ok source =>
        cases absoluteComponents workingDirectory target with
        | error e => rfl
        | ok target => rfl

theorem mem_components_cases (p : Path) :
    ∀ s ∈ p.components, s = .root ∨ s = .current ∨ IsStep s := by
  intro s hs
  obtain ⟨start, steps, hcomponents, hsteps, hstart⟩ := exists_components p
  rw [hcomponents, List.mem_append] at hs
  rcases hs with hs | hs
  · rcases hstart with ⟨rfl, -⟩ | ⟨rfl | rfl, -⟩
    · exact .inl (List.mem_singleton.mp hs)
    · cases hs
    · exact .inr (.inl (List.mem_singleton.mp hs))
  · exact .inr (.inr (hsteps s hs))

theorem current_not_mem_normal (components : List Component) : .current ∉ normal components := by
  induction components using List.reverseRecOn with
  | nil => simp [normal]
  | append_singleton components step ih =>
      rw [normal_concat, List.mem_reverse]
      intro hmem
      cases step with
      | current => exact ih (List.mem_reverse.mp hmem)
      | root | parent | name =>
          rcases mem_of_mem_walk hmem with hmem | hmem
          · exact ih (List.mem_reverse.mp hmem)
          · cases hmem

theorem isStep_of_mem_normal {components : List Component}
    (h : ∀ s ∈ components, s = .root ∨ s = .current ∨ IsStep s) :
    ∀ s ∈ normal components, s = .root ∨ IsStep s := by
  intro s hs
  rcases h s (normal_subset components hs) with hroot | rfl | hstep
  · exact .inl hroot
  · exact absurd hs (current_not_mem_normal components)
  · exact .inr hstep

theorem isStep_of_mem_stepsBetween {source target : List Component}
    (h : ∀ s ∈ target, s = .root ∨ IsStep s) :
    ∀ s ∈ stepsBetween source target, s = .root ∨ IsStep s := by
  intro s hs
  rw [stepsBetween, List.mem_append] at hs
  rcases hs with hs | hs
  · rw [List.eq_of_mem_replicate hs]
    exact .inr trivial
  · exact h s (List.mem_of_mem_drop hs)

theorem mem_absoluteComponents_cases {workingDirectory p : Path} {components : List Component}
    (h : absoluteComponents workingDirectory p = .ok components) :
    ∀ s ∈ components, s = .root ∨ s = .current ∨ IsStep s := by
  rw [absoluteComponents] at h
  split at h
  · cases h
  · split at h
    · cases h
      exact mem_components_cases p
    · cases h
      exact List.forall_mem_append.mpr
        ⟨mem_components_cases workingDirectory, mem_components_cases p⟩

/-- A way is made of names, pairs of dots and at most the root. -/
theorem isStep_of_mem_way {workingDirectory source target : Path} {steps : List Component}
    (h : way workingDirectory source target = .ok steps) :
    ∀ s ∈ steps, s = .root ∨ IsStep s := by
  rw [way] at h
  split at h
  · cases h
    exact isStep_of_mem_stepsBetween (isStep_of_mem_normal (mem_components_cases target))
  · obtain ⟨sources, -, h⟩ := bind_eq_ok.mp h
    obtain ⟨targets, htargets, h⟩ := bind_eq_ok.mp h
    cases pure_eq_ok.mp h
    exact isStep_of_mem_stepsBetween
      (isStep_of_mem_normal (mem_absoluteComponents_cases htargets))

theorem stepsText_append {first second : List Component} (hfirst : first ≠ [])
    (hsecond : second ≠ []) :
    stepsText (first ++ second) = stepsText first ++ "/" ++ stepsText second := by
  obtain ⟨next, rest, rfl⟩ := List.exists_cons_of_ne_nil hsecond
  induction first with
  | nil => exact absurd rfl hfirst
  | cons step first ih =>
      cases first with
      | nil => rw [List.singleton_append, stepsText_cons_cons, stepsText_singleton]
      | cons step' first =>
          have hrest := ih (List.cons_ne_nil _ _)
          rw [List.cons_append] at hrest
          rw [List.cons_append, List.cons_append, stepsText_cons_cons, hrest, stepsText_cons_cons]
          simp only [String.append_assoc]

/-- Text in front of the first step is text in front of the way. -/
theorem stepsText_name_append (part : String) (next : Component) (rest : List Component) :
    stepsText (.name (part ++ next.text) :: rest) = part ++ stepsText (next :: rest) := by
  cases rest with
  | nil => rw [stepsText_singleton, stepsText_singleton, Component.text]
  | cons step rest =>
      rw [stepsText_cons_cons, stepsText_cons_cons, Component.text]
      simp only [String.append_assoc]

end Path

namespace ClientPaths

open Scaffold.Path

/-! ## Leaving out a mention

The mention of the packages is taken out of a text, and the search for it knows nothing of
steps: it may find the end of a longer name. Neither the word nor a step has a slash in it,
so the search can be followed from one slash to the next. -/

theorem takeWhile_append_slash {first : List Char} (rest : List Char) (hfirst : '/' ∉ first) :
    (first ++ '/' :: rest).takeWhile (· ≠ '/') = first := by
  have hall : ∀ c ∈ first, decide (c ≠ '/') = true := by
    intro c hc
    have hne : c ≠ '/' := fun heq => hfirst (heq ▸ hc)
    simpa using hne
  rw [List.takeWhile_append_of_pos hall, List.takeWhile_cons_of_neg (by simp), List.append_nil]

theorem eq_of_append_slash {first second rest rest' : List Char} (hfirst : '/' ∉ first)
    (hsecond : '/' ∉ second) (h : first ++ '/' :: rest = second ++ '/' :: rest') :
    first = second := by
  rw [← takeWhile_append_slash rest hfirst, h, takeWhile_append_slash rest' hsecond]

section Mention

variable {word : List Char}

/-- A word with a slash behind it begins a text exactly if it is what stands in front of the first
slash. -/
theorem isPrefixOf_append_slash (hword : '/' ∉ word) {text rest : List Char} (htext : '/' ∉ text) :
    (word ++ ['/']).isPrefixOf (text ++ '/' :: rest) = true ↔ word = text := by
  rw [List.isPrefixOf_iff_prefix]
  constructor
  · rintro ⟨more, hmore⟩
    rw [List.append_assoc, List.singleton_append] at hmore
    exact eq_of_append_slash hword htext hmore
  · rintro rfl
    exact ⟨rest, by simp⟩

theorem removeFirst_skip (hword : '/' ∉ word) {text : List Char} (rest : List Char)
    (htext : '/' ∉ text) (hends : ¬ word <:+ text) :
    removeFirst (word ++ ['/']) (text ++ '/' :: rest) =
      text ++ '/' :: removeFirst (word ++ ['/']) rest := by
  have hstart : ¬ (word ++ ['/']).isPrefixOf (text ++ '/' :: rest) = true := by
    rw [isPrefixOf_append_slash hword htext]
    rintro rfl
    exact hends (List.suffix_refl _)
  induction text with
  | nil =>
      rw [List.nil_append] at hstart
      rw [List.nil_append, removeFirst, if_neg hstart, List.nil_append]
  | cons c text ih =>
      have htail : '/' ∉ text := fun hmem => htext (List.mem_cons_of_mem c hmem)
      have htailEnds : ¬ word <:+ text := fun hsuffix =>
        hends (hsuffix.trans (List.suffix_cons c text))
      rw [List.cons_append] at hstart
      rw [List.cons_append, removeFirst, if_neg hstart, ih htail htailEnds]
      · rfl
      · rw [isPrefixOf_append_slash hword htail]
        rintro rfl
        exact htailEnds (List.suffix_refl _)

theorem removeFirst_mention (hword : '/' ∉ word) {part : List Char} (rest : List Char)
    (hpart : '/' ∉ part) :
    removeFirst (word ++ ['/']) (part ++ word ++ '/' :: rest) = part ++ rest := by
  induction part with
  | nil =>
      have hstart : (word ++ ['/']).isPrefixOf (word ++ '/' :: rest) = true :=
        (isPrefixOf_append_slash hword hword).mpr rfl
      have hdrop : (word ++ '/' :: rest).drop (word ++ ['/']).length = rest := by
        have hparts : word ++ '/' :: rest = word ++ ['/'] ++ rest := List.append_cons word '/' rest
        rw [hparts, List.drop_left]
      rw [List.nil_append, List.nil_append]
      cases hcs : word ++ '/' :: rest with
      | nil => simp at hcs
      | cons c cs => rw [removeFirst, ← hcs, if_pos hstart, hdrop]
  | cons c part ih =>
      have hwhole : '/' ∉ c :: part ++ word := by
        rw [List.mem_append]
        exact fun hmem => hmem.elim hpart hword
      have hstart : ¬ (word ++ ['/']).isPrefixOf (c :: part ++ word ++ '/' :: rest) = true := by
        rw [isPrefixOf_append_slash hword hwhole]
        intro heq
        have hlength := congrArg List.length heq
        simp at hlength
        omega
      have hrest := ih fun hmem => hpart (List.mem_cons_of_mem c hmem)
      rw [List.cons_append, List.cons_append] at hstart ⊢
      rw [removeFirst, if_neg hstart, hrest]
      rfl

theorem removeFirst_last {text : List Char} (htext : '/' ∉ text) :
    removeFirst (word ++ ['/']) text = text := by
  induction text with
  | nil => rfl
  | cons c text ih =>
      have hstart : ¬ (word ++ ['/']).isPrefixOf (c :: text) = true := by
        rw [List.isPrefixOf_iff_prefix]
        intro hstarts
        exact htext (hstarts.subset (List.mem_append_right word (List.mem_singleton_self _)))
      rw [removeFirst, if_neg hstart, ih fun hmem => htext (List.mem_cons_of_mem c hmem)]

end Mention

/-- What the directory of packages is called. -/
def packagesName : String := "node_modules"

/-- The directory of packages. -/
def packages : Component :=
  .name packagesName

/-- A step whose text ends as the directory of packages is called. -/
def EndsInPackages (step : Component) : Prop :=
  packagesName.toList <:+ step.text.toList

instance (step : Component) : Decidable (EndsInPackages step) :=
  inferInstanceAs (Decidable (_ <:+ _))

theorem slash_not_mem_packagesName : '/' ∉ packagesName.toList := by
  decide

theorem toList_importPathOf (way : String) :
    (importPathOf way).toList = removeFirst (packagesName.toList ++ ['/']) way.toList := by
  have hmention : "node_modules/".toList = packagesName.toList ++ ['/'] := by decide
  rw [importPathOf, String.toList_ofList, hmention]

theorem toList_stepsText (step next : Component) (rest : List Component) :
    (stepsText (step :: next :: rest)).toList =
      step.text.toList ++ '/' :: (stepsText (next :: rest)).toList := by
  rw [stepsText_cons_cons, String.toList_append, String.toList_append, List.append_assoc]
  rfl

theorem importPathOf_skip {step : Component} (next : Component) (rest : List Component)
    (hstep : step = .root ∨ IsStep step) (h : ¬ EndsInPackages step) :
    importPathOf (stepsText (step :: next :: rest)) =
      step.text ++ "/" ++ importPathOf (stepsText (next :: rest)) := by
  have hskip : ∀ rest : List Char,
      removeFirst (packagesName.toList ++ ['/']) (step.text.toList ++ '/' :: rest) =
        step.text.toList ++ '/' :: removeFirst (packagesName.toList ++ ['/']) rest := by
    intro rest
    rcases hstep with rfl | hstep
    · -- The text of the root is a slash, so there are two slashes in a row.
      have hslash : ∀ rest : List Char, removeFirst (packagesName.toList ++ ['/']) ('/' :: rest) =
          '/' :: removeFirst (packagesName.toList ++ ['/']) rest :=
        fun rest => removeFirst_skip slash_not_mem_packagesName rest List.not_mem_nil (by decide)
      exact (hslash _).trans (congrArg _ (hslash rest))
    · exact removeFirst_skip slash_not_mem_packagesName rest (text_of_isStep hstep).2 h
  rw [← String.toList_inj, toList_importPathOf, toList_stepsText, hskip, String.toList_append,
    String.toList_append, toList_importPathOf, List.append_assoc]
  rfl

theorem importPathOf_mention {part : String} (next : Component) (rest : List Component)
    (hpart : IsStep (.name (part ++ packagesName))) :
    importPathOf (stepsText (.name (part ++ packagesName) :: next :: rest)) =
      stepsText (.name (part ++ next.text) :: rest) := by
  have hslash : '/' ∉ part.toList := by
    intro hmem
    refine (text_of_isStep hpart).2 ?_
    rw [Component.text, String.toList_append]
    exact List.mem_append_left _ hmem
  rw [← String.toList_inj, toList_importPathOf, toList_stepsText, Component.text,
    String.toList_append, stepsText_name_append, String.toList_append]
  exact removeFirst_mention slash_not_mem_packagesName _ hslash

theorem importPathOf_last {step : Component} (hstep : step = .root ∨ IsStep step) :
    importPathOf (stepsText [step]) = stepsText [step] := by
  rcases hstep with rfl | hstep
  · decide
  · rw [← String.toList_inj, toList_importPathOf, stepsText_singleton,
      removeFirst_last (text_of_isStep hstep).2]

/-- A way on which no step but the last ends as the directory of packages does stays. -/
theorem importPathOf_of_forall {steps : List Component} (hsteps : ∀ s ∈ steps, s = .root ∨ IsStep s)
    (h : ∀ s ∈ steps.dropLast, ¬ EndsInPackages s) :
    importPathOf (stepsText steps) = stepsText steps := by
  induction steps with
  | nil => decide
  | cons step rest ih =>
      obtain ⟨hstep, hrest⟩ := List.forall_mem_cons.mp hsteps
      cases rest with
      | nil => exact importPathOf_last hstep
      | cons next rest =>
          rw [List.dropLast_cons_cons, List.forall_mem_cons] at h
          rw [importPathOf_skip next rest hstep h.1, ih hrest h.2, stepsText_cons_cons]

/-- The first step that ends as the directory of packages does loses that ending and is joined
with the step behind it. -/
theorem importPathOf_append {before after : List Component} {part : String} {next : Component}
    (hsteps : ∀ s ∈ before ++ .name (part ++ packagesName) :: next :: after,
      s = .root ∨ IsStep s)
    (hfirst : ∀ s ∈ before, ¬ EndsInPackages s) :
    importPathOf (stepsText (before ++ .name (part ++ packagesName) :: next :: after)) =
      stepsText (before ++ .name (part ++ next.text) :: after) := by
  induction before with
  | nil =>
      refine importPathOf_mention next after ((hsteps _ (by simp)).resolve_left ?_)
      exact nofun
  | cons step before ih =>
      obtain ⟨hstep, hrest⟩ := List.forall_mem_cons.mp hsteps
      rw [List.forall_mem_cons] at hfirst
      obtain ⟨s, more, hmore⟩ : ∃ s more,
          before ++ .name (part ++ packagesName) :: next :: after = s :: more :=
        List.exists_cons_of_ne_nil (by simp)
      obtain ⟨t, less, hless⟩ : ∃ t less,
          before ++ .name (part ++ next.text) :: after = t :: less :=
        List.exists_cons_of_ne_nil (by simp)
      have hafter := ih hrest hfirst.2
      rw [List.cons_append, List.cons_append]
      rw [hmore, hless] at hafter ⊢
      rw [importPathOf_skip s more hstep hfirst.1, hafter, stepsText_cons_cons]

theorem exists_name_of_endsInPackages {step : Component} (h : EndsInPackages step) :
    ∃ part, step = .name (part ++ packagesName) := by
  cases step with
  | root => exact absurd h (by decide)
  | current => exact absurd h (by decide)
  | parent => exact absurd h (by decide)
  | name text =>
      obtain ⟨part, hpart⟩ := h
      refine ⟨String.ofList part, ?_⟩
      rw [Component.name.injEq, ← String.toList_inj, String.toList_append, String.toList_ofList]
      exact hpart.symm

/-- Either no step but the last ends as the directory of packages does, or there is a first one. -/
theorem forall_or_exists_first (steps : List Component) :
    (∀ s ∈ steps.dropLast, ¬ EndsInPackages s) ∨ ∃ before part next after,
      steps = before ++ .name (part ++ packagesName) :: next :: after ∧
        ∀ s ∈ before, ¬ EndsInPackages s := by
  induction steps with
  | nil => simp
  | cons step rest ih =>
      cases rest with
      | nil => simp
      | cons next rest =>
          by_cases hends : EndsInPackages step
          · obtain ⟨part, rfl⟩ := exists_name_of_endsInPackages hends
            exact .inr ⟨[], part, next, rest, rfl, by simp⟩
          · rcases ih with hnone | ⟨before, part, next', after, hsteps, hfirst⟩
            · exact .inl (List.forall_mem_cons.mpr ⟨hends, hnone⟩)
            · exact .inr ⟨step :: before, part, next', after, congrArg _ hsteps,
                List.forall_mem_cons.mpr ⟨hends, hfirst⟩⟩

/-- What a client is to be imported under, by the steps of the way to it: behind the first
directory of packages what stands behind it, and without one the whole way. -/
def specifier (steps : List Component) : String :=
  match steps.dropWhile (· ≠ packages) with
  | _ :: next :: rest => stepsText (next :: rest)
  | _ => stepsText steps

theorem specifier_cases (steps : List Component) :
    packages ∉ steps.dropLast ∧ specifier steps = stepsText steps ∨
      ∃ before next rest, steps = before ++ packages :: next :: rest ∧
        specifier steps = stepsText (next :: rest) := by
  have hbefore : packages ∉ steps.takeWhile (· ≠ packages) := by
    intro hmem
    have hne := List.mem_takeWhile_imp hmem
    simp at hne
  have hsplit : steps.takeWhile (· ≠ packages) ++ steps.dropWhile (· ≠ packages) = steps :=
    List.takeWhile_append_dropWhile
  rw [specifier]
  cases hdrop : steps.dropWhile (· ≠ packages) with
  | nil =>
      rw [hdrop, List.append_nil] at hsplit
      rw [hsplit] at hbefore
      exact .inl ⟨fun hmem => hbefore (List.dropLast_subset steps hmem), rfl⟩
  | cons first rest =>
      have hfirst : first = packages := by
        have hhead := List.head?_dropWhile_not (· ≠ packages) steps
        rw [hdrop] at hhead
        simpa using hhead
      rw [hdrop, hfirst] at hsplit
      cases rest with
      | nil =>
          refine .inl ⟨?_, rfl⟩
          rwa [← hsplit, List.dropLast_concat]
      | cons next rest => exact .inr ⟨_, next, rest, hsplit.symm, rfl⟩

theorem endsInPackages_packages : EndsInPackages packages :=
  List.suffix_refl _

theorem packages_eq : packages = .name ("" ++ packagesName) := by
  rw [String.empty_append]
  rfl

theorem length_stepsText_append {before rest : List Component} (hbefore : before ≠ [])
    (hrest : rest ≠ []) : (stepsText (before ++ rest)).length =
      (stepsText before).length + 1 + (stepsText rest).length := by
  rw [stepsText_append hbefore hrest, String.length_append, String.length_append]
  rfl

theorem length_stepsText_mention (before : List Component) (part : String) (next : Component)
    (after : List Component) :
    (stepsText (before ++ .name (part ++ packagesName) :: next :: after)).length =
      (stepsText (before ++ .name (part ++ next.text) :: after)).length + 13 := by
  have hend : (stepsText (.name (part ++ packagesName) :: next :: after)).length =
      (stepsText (.name (part ++ next.text) :: after)).length + 13 := by
    have hname : packagesName.length = 12 := by decide
    have hslash : "/".length = 1 := by decide
    rw [stepsText_cons_cons, stepsText_name_append, Component.text]
    simp only [String.length_append, hname, hslash]
    omega
  by_cases hbefore : before = []
  · rw [hbefore]
    exact hend
  · rw [length_stepsText_append hbefore (List.cons_ne_nil _ _),
      length_stepsText_append hbefore (List.cons_ne_nil _ _), hend]
    omega

/-- Leaving out a mention gives what is to be imported only where the way begins with it. -/
theorem eq_specifier_of_mention {steps before after : List Component} {part : String}
    {next : Component} (hsteps : steps = before ++ .name (part ++ packagesName) :: next :: after)
    (h : stepsText (before ++ .name (part ++ next.text) :: after) = specifier steps) :
    ∃ next after, steps = packages :: next :: after := by
  have hlength := length_stepsText_mention before part next after
  rw [h, ← hsteps] at hlength
  rcases specifier_cases steps with ⟨-, hwhole⟩ | ⟨front, next', rest, rfl, hbehind⟩
  · rw [hwhole] at hlength
    omega
  · by_cases hfront : front = []
    · exact ⟨next', rest, by rw [hfront, List.nil_append]⟩
    · have hname : packages.text.length = 12 := by decide
      have hslash : "/".length = 1 := by decide
      rw [hbehind, length_stepsText_append hfront (List.cons_ne_nil _ _), stepsText_cons_cons,
        String.length_append, String.length_append, hname, hslash] at hlength
      omega

/-- What a client is imported under, by the steps of the way from its root to it. The way stays as
it is if no step but the last ends as the directory of packages does; otherwise the first such
step loses this ending and is joined with the step behind it. A client is imported under what it
is to be imported under exactly if no step but the last ends so, or the first step of several is the
directory of packages. -/
theorem ofPaths_importPath {workingDirectory root client : Path} {paths : ClientPaths}
    (h : ofPaths workingDirectory root client = .ok paths) :
    ∃ steps, way workingDirectory root client = .ok steps ∧
      paths.root = root ∧ paths.client = client ∧
      ((∀ s ∈ steps.dropLast, ¬ EndsInPackages s) → paths.importPath = stepsText steps) ∧
      (∀ before part next after,
        steps = before ++ .name (part ++ packagesName) :: next :: after →
        (∀ s ∈ before, ¬ EndsInPackages s) →
        paths.importPath = stepsText (before ++ .name (part ++ next.text) :: after)) ∧
      (paths.importPath = specifier steps ↔
        (∀ s ∈ steps.dropLast, ¬ EndsInPackages s) ∨
          ∃ next after, steps = packages :: next :: after) := by
  rw [ofPaths, relative_eq_map_way, map_eq_ok] at h
  obtain ⟨text, htext, rfl⟩ := h
  obtain ⟨steps, hway, rfl⟩ := map_eq_ok.mp htext
  have hsteps := isStep_of_mem_way hway
  have hstays := importPathOf_of_forall hsteps
  have hjoins : ∀ before part next after,
      steps = before ++ .name (part ++ packagesName) :: next :: after →
      (∀ s ∈ before, ¬ EndsInPackages s) →
      importPathOf (stepsText steps) = stepsText (before ++ .name (part ++ next.text) :: after) := by
    rintro before part next after rfl hfirst
    exact importPathOf_append hsteps hfirst
  refine ⟨steps, hway, rfl, rfl, hstays, hjoins, ?_⟩
  constructor
  · intro heq
    rcases forall_or_exists_first steps with hnone | ⟨before, part, next, after, hmention, hfirst⟩
    · exact .inl hnone
    · refine .inr (eq_specifier_of_mention hmention ?_)
      rw [← hjoins before part next after hmention hfirst]
      exact heq
  · rintro (hnone | ⟨next, after, rfl⟩)
    · rcases specifier_cases steps with ⟨-, hwhole⟩ | ⟨front, next, rest, rfl, -⟩
      · exact (hstays hnone).trans hwhole.symm
      · refine absurd endsInPackages_packages (hnone packages ?_)
        rw [List.dropLast_append_of_ne_nil (List.cons_ne_nil _ _)]
        simp
    · have hbehind := hjoins [] "" next after (by rw [← packages_eq]; rfl) (by simp)
      rw [List.nil_append, stepsText_name_append, String.empty_append] at hbehind
      refine hbehind.trans ?_
      simp [specifier]

theorem ofPaths_importPath_siblingPackages :
    ∃ paths, ofPaths ⟨"/"⟩ ⟨"/w/app"⟩ ⟨"/w/x/../old_node_modules/node_modules/db"⟩ = .ok paths ∧
      paths.importPath = "../old_node_modules/db" ∧
      paths.importPath ≠
        specifier [.parent, .name "old_node_modules", .name "node_modules", .name "db"] := by
  obtain ⟨paths, hpaths⟩ : ∃ paths, ofPaths ⟨"/"⟩ ⟨"/w/app"⟩
      ⟨"/w/x/../old_node_modules/node_modules/db"⟩ = .ok paths :=
    exists_ok_of_isOk (by decide)
  obtain ⟨steps, hway, -, -, -, hjoins, hlaw⟩ := ofPaths_importPath hpaths
  have hsteps : steps = [.parent, .name "old_node_modules", packages, .name "db"] :=
    Except.ok.inj (hway.symm.trans (by decide))
  refine ⟨paths, hpaths, ?_, fun heq => ?_⟩
  · have hname : Component.name "old_node_modules" = .name ("old_" ++ packagesName) := by decide
    rw [hjoins [.parent] "old_" packages [.name "db"] (by rw [hsteps, hname]; rfl) (by decide)]
    decide
  · rw [hsteps] at hlaw
    rcases hlaw.mp heq with hnone | ⟨next, after, hfirst⟩
    · exact hnone (.name "old_node_modules") (by decide) (by decide)
    · simp [packages] at hfirst

/-- A directory with a longer name loses a part of it, and a package above the root is imported
under no name of a package. -/
theorem importPath_of_longer_name :
    way ⟨"/"⟩ ⟨"/w"⟩ ⟨"/w/my_node_modules/x"⟩ = .ok [.name "my_node_modules", .name "x"] ∧
      packages ∉ [.name "my_node_modules", .name "x"] ∧
      ofPaths ⟨"/"⟩ ⟨"/w"⟩ ⟨"/w/my_node_modules/x"⟩ =
        .ok ⟨⟨"/w"⟩, ⟨"/w/my_node_modules/x"⟩, "my_x"⟩ ∧
      stepsText [.name "my_node_modules", .name "x"] = "my_node_modules/x" ∧
    way ⟨"/"⟩ ⟨"/w/app"⟩ ⟨"/w/node_modules/db"⟩ = .ok [.parent, packages, .name "db"] ∧
      ofPaths ⟨"/"⟩ ⟨"/w/app"⟩ ⟨"/w/node_modules/db"⟩ =
        .ok ⟨⟨"/w/app"⟩, ⟨"/w/node_modules/db"⟩, "../db"⟩ ∧
      specifier [.parent, packages, .name "db"] = "db" := by
  decide

end ClientPaths

end Scaffold
