import Mathlib.Data.List.DropRight
import Scaffold.Proofs.Fallible
import Scaffold.Proofs.Paths
import Scaffold.Proofs.Spelling

/-!
# Shorter and longer paths

The parent of a path and the join of two are made from their texts, because what is kept
of a path reads as it was written. What they mean is said by components: the parent has
one component less, and a path of names behind a base adds its names to the components
of the base, whether or not the base ends in a slash.

A path can begin in three ways, with a slash, with a dot or with neither, and both
arguments go by this case split.
-/

namespace Scaffold.Path

theorem segments_ne_nil (p : Path) : p.segments ≠ [] := by
  rw [segments, ne_eq, List.map_eq_nil_iff]
  exact List.splitOn_ne_nil _ _

theorem segments_eq_singleton_empty {p : Path} (h : p.segments = [""]) : p.text = "" := by
  obtain ⟨chars, hchars, hempty⟩ := List.map_eq_singleton_iff.mp h
  have htext : ['/'].intercalate (p.text.toList.splitOn '/') = p.text.toList :=
    List.intercalate_splitOn '/'
  have hnil : chars = [] := by simpa using congrArg String.toList hempty
  rw [hchars, hnil] at htext
  exact String.toList_eq_nil_iff.mp htext.symm

theorem component?_of_not_idle {s : String} (h : isIdle s = false) :
    ∃ step, component? s = some step := by
  rw [component?, if_neg (by simp [h])]
  split
  · exact ⟨_, rfl⟩
  · exact ⟨_, rfl⟩

theorem component?_of_idle {s : String} (h : isIdle s = true) : component? s = none := by
  rw [component?, if_pos h]

/-- The three ways in which a path can begin. -/
inductive Begins (p : Path) : Prop
  | root {body : List String} (hsegments : p.segments = "" :: body) (hne : body ≠ [])
      (hsplit : p.split = (some .root, body))
  | current {body : List String} (hsegments : p.segments = "." :: body)
      (hsplit : p.split = (some .current, body))
  | name {first : String} {body : List String} (hsegments : p.segments = first :: body)
      (hidle : isIdle first = false) (hsplit : p.split = (none, first :: body))

theorem begins {p : Path} (h : p.text ≠ "") : p.Begins := by
  obtain ⟨first, body, hsegments⟩ := List.exists_cons_of_ne_nil p.segments_ne_nil
  by_cases hempty : first = ""
  · subst hempty
    cases body with
    | nil => exact absurd (segments_eq_singleton_empty hsegments) h
    | cons next body =>
        refine .root hsegments (List.cons_ne_nil _ _) ?_
        rw [split, hsegments]
        rfl
  by_cases hdot : first = "."
  · subst hdot
    refine .current hsegments ?_
    rw [split, hsegments]
    rfl
  · have hidle : isIdle first = false := by simp [isIdle, hempty, hdot]
    exact .name hsegments hidle (split_of_segments hsegments hidle)

theorem components_of_split {p : Path} {start : Option Component} {body : List String}
    (h : p.split = (start, body)) :
    p.components = start.toList ++ body.filterMap component? := by
  rw [components, h]

theorem components_ne_nil {p : Path} (h : p.text ≠ "") : p.components ≠ [] := by
  cases begins h with
  | root _ _ hsplit => simp [components_of_split hsplit]
  | current _ hsplit => simp [components_of_split hsplit]
  | name _ hidle hsplit =>
      obtain ⟨step, hstep⟩ := component?_of_not_idle hidle
      simp [components_of_split hsplit, hstep]

theorem not_mem_of_mem_segments {p : Path} {s : String} (hs : s ∈ p.segments) :
    '/' ∉ s.toList := by
  obtain ⟨chars, hchars, rfl⟩ := List.mem_map.mp hs
  rw [String.toList_ofList]
  intro hslash
  have hother := Naming.of_mem_splitOnP hchars hslash
  simp at hother

theorem trimEnd_isPrefix (body : List String) : trimEnd body <+: body :=
  List.rdropWhile_prefix isIdle body

theorem filterMap_trimEnd (body : List String) :
    (trimEnd body).filterMap component? = body.filterMap component? := by
  have hidle : (body.rtakeWhile isIdle).filterMap component? = [] := by
    refine List.filterMap_eq_nil_iff.mpr fun s hs => ?_
    exact component?_of_idle (List.mem_rtakeWhile_imp hs)
  have hparts : trimEnd body ++ body.rtakeWhile isIdle = body :=
    List.rdropWhile_append_rtakeWhile
  conv_rhs => rw [← hparts, List.filterMap_append, hidle, List.append_nil]

/-- The stretch that is left at the end stands for the last component. -/
theorem exists_filterMap_eq_concat {body : List String} (h : trimEnd body ≠ []) :
    ∃ step, body.filterMap component? =
      (trimEnd body).dropLast.filterMap component? ++ [step] := by
  have hlast : isIdle ((trimEnd body).getLast h) = false :=
    eq_false_of_ne_true (List.rdropWhile_last_not isIdle body h)
  obtain ⟨step, hstep⟩ := component?_of_not_idle hlast
  refine ⟨step, ?_⟩
  rw [← filterMap_trimEnd]
  conv_lhs => rw [← List.dropLast_append_getLast h, List.filterMap_append]
  simp [hstep]

/-- A path is read back from its beginning and the stretches behind it. -/
theorem components_unsplit {start : Option Component} {body : List String}
    (hstart : start = none ∨ start = some .root ∨ start = some .current)
    (hslash : ∀ s ∈ body, '/' ∉ s.toList)
    (hfirst : start = none → ∀ s, body.head? = some s → isIdle s = false) :
    (unsplit start body).components = start.toList ++ body.filterMap component? := by
  have hsegments : ∀ first : String, '/' ∉ first.toList →
      (ofNames (first :: body)).segments = first :: body := by
    intro first hclean
    refine segments_ofNames (List.cons_ne_nil _ _) fun s hs => ?_
    rcases List.mem_cons.mp hs with rfl | hs
    · exact hclean
    · exact hslash s hs
  cases body with
  | nil => rcases hstart with rfl | rfl | rfl <;> decide
  | cons first body =>
      rcases hstart with rfl | rfl | rfl
      · have hidle : isIdle first = false := hfirst rfl first rfl
        have hnames : (ofNames (first :: body)).segments = first :: body :=
          segments_ofNames (List.cons_ne_nil _ _) hslash
        exact components_of_split (split_of_segments hnames hidle)
      · refine components_of_split ?_
        have htext : unsplit (some .root) (first :: body) = ofNames ("" :: first :: body) := by
          simp [unsplit, ofNames, String.intercalate_cons_cons]
        rw [htext, split, hsegments "" (by decide)]
        rfl
      · refine components_of_split ?_
        change (ofNames ("." :: first :: body)).split = _
        rw [split, hsegments "." (by decide)]
        rfl

/-- What is left of a path without its last stretch that carries meaning. -/
theorem components_unsplit_dropLast {p : Path} {start : Option Component} {body : List String}
    (hsplit : p.split = (start, body))
    (hstart : start = none ∨ start = some .root ∨ start = some .current)
    (hmem : ∀ s ∈ body, s ∈ p.segments)
    (hfirst : start = none → ∀ s, body.head? = some s → isIdle s = false)
    (hne : trimEnd body ≠ []) :
    (unsplit start (trimEnd (trimEnd body).dropLast)).components = p.components.dropLast := by
  have hbegins : trimEnd (trimEnd body).dropLast <+: body :=
    (trimEnd_isPrefix _).trans ((List.dropLast_prefix _).trans (trimEnd_isPrefix body))
  have hslash : ∀ s ∈ trimEnd (trimEnd body).dropLast, '/' ∉ s.toList := by
    intro s hs
    exact not_mem_of_mem_segments (hmem s (hbegins.subset hs))
  have hhead : start = none →
      ∀ s, (trimEnd (trimEnd body).dropLast).head? = some s → isIdle s = false := by
    intro hnone s hs
    refine hfirst hnone s ?_
    obtain ⟨rest, hrest⟩ := hbegins
    rw [← hrest, List.head?_append, hs]
    rfl
  obtain ⟨step, hstep⟩ := exists_filterMap_eq_concat hne
  rw [components_unsplit hstart hslash hhead, filterMap_trimEnd, components_of_split hsplit,
    hstep, ← List.append_assoc, List.dropLast_concat]

theorem components_parent? {p q : Path} (h : p.parent? = some q) :
    q.components = p.components.dropLast := by
  by_cases htext : p.text = ""
  · obtain ⟨text⟩ := p
    subst htext
    have hnone : parent? ⟨""⟩ = none := by decide
    rw [hnone] at h
    cases h
  rw [parent?] at h
  cases begins htext with
  | @root body hsegments _ hsplit =>
      rw [hsplit] at h
      dsimp only at h
      split at h
      · cases h
      next hkept =>
        rw [← Option.some.inj h]
        refine components_unsplit_dropLast hsplit (.inr (.inl rfl)) ?_ (fun hnone => ?_) hkept
        · intro s hs
          rw [hsegments]
          exact List.mem_cons_of_mem _ hs
        · cases hnone
  | @current body hsegments hsplit =>
      rw [hsplit] at h
      dsimp only at h
      split at h
      next hnothing =>
        have hempty : body.filterMap component? = [] := by
          rw [← filterMap_trimEnd, hnothing]
          rfl
        rw [if_pos rfl] at h
        rw [← Option.some.inj h, components_of_split hsplit, hempty]
        decide
      next hkept =>
        rw [← Option.some.inj h]
        refine components_unsplit_dropLast hsplit (.inr (.inr rfl)) ?_ (fun hnone => ?_) hkept
        · intro s hs
          rw [hsegments]
          exact List.mem_cons_of_mem _ hs
        · cases hnone
  | @name first body hsegments hidle hsplit =>
      rw [hsplit] at h
      dsimp only at h
      split at h
      · cases h
      next hkept =>
        rw [← Option.some.inj h]
        refine components_unsplit_dropLast hsplit (.inl rfl) ?_ (fun _ s hs => ?_) hkept
        · intro s hs
          rw [hsegments]
          exact hs
        · rw [← Option.some.inj hs]
          exact hidle

/-- A path that ends in a name has a parent. -/
theorem exists_parent? {p : Path} {before : List Component} {s : String}
    (h : p.components = before ++ [.name s]) : ∃ q, p.parent? = some q := by
  have htext : p.text ≠ "" := by
    obtain ⟨text⟩ := p
    rintro rfl
    have hnil : before ++ [.name s] = [] := h.symm.trans (by decide)
    simp at hnil
  obtain ⟨start, body, hsplit, hstart⟩ : ∃ start body, p.split = (start, body) ∧
      (start = none ∨ start = some .root ∨ start = some .current) := by
    cases begins htext with
    | root _ _ hsplit => exact ⟨_, _, hsplit, .inr (.inl rfl)⟩
    | current _ hsplit => exact ⟨_, _, hsplit, .inr (.inr rfl)⟩
    | name _ _ hsplit => exact ⟨_, _, hsplit, .inl rfl⟩
  have hkept : trimEnd body ≠ [] := by
    intro hnothing
    rw [components_of_split hsplit, ← filterMap_trimEnd, hnothing] at h
    rcases hstart with rfl | rfl | rfl <;> simp [List.singleton_eq_append_iff] at h
  rw [parent?, hsplit]
  dsimp only
  split
  · next hnothing => exact absurd hnothing hkept
  · exact ⟨_, rfl⟩

theorem components_of_segments {p q : Path} {segments tail names : List String}
    (hp : p.segments = segments ++ tail) (hq : q.segments = segments ++ names)
    (htext : p.text ≠ "") (hsome : segments ≠ []) (hnames : names ≠ [])
    (htail : tail.filterMap component? = []) :
    q.components = p.components ++ names.filterMap component? := by
  obtain ⟨first, rest, rfl⟩ := List.exists_cons_of_ne_nil hsome
  have hjoined : ∀ {start : Option Component} {body : List String}, body = rest ++ tail →
      p.split = (start, body) → q.split = (start, rest ++ names) →
      q.components = p.components ++ names.filterMap component? := by
    intro start body hbody hpsplit hqsplit
    rw [components_of_split hpsplit, components_of_split hqsplit, hbody, List.filterMap_append,
      List.filterMap_append, htail, List.append_nil, List.append_assoc]
  rw [List.cons_append] at hp hq
  cases begins htext with
  | root hsegments _ hsplit =>
      obtain ⟨rfl, hbody⟩ := List.cons.inj (hp.symm.trans hsegments)
      refine hjoined hbody.symm hsplit ?_
      obtain ⟨next, more, hmore⟩ : ∃ next more, rest ++ names = next :: more :=
        List.exists_cons_of_ne_nil (List.append_ne_nil_of_right_ne_nil rest hnames)
      rw [split, hq, hmore]
      rfl
  | current hsegments hsplit =>
      obtain ⟨rfl, hbody⟩ := List.cons.inj (hp.symm.trans hsegments)
      refine hjoined hbody.symm hsplit ?_
      rw [split, hq]
      rfl
  | @name first' body hsegments hidle hsplit =>
      obtain ⟨rfl, hbody⟩ := List.cons.inj (hp.symm.trans hsegments)
      have hnone := split_of_segments hq hidle
      rw [components_of_split hsplit, components_of_split hnone, ← hbody]
      rw [← List.cons_append, ← List.cons_append, List.filterMap_append, List.filterMap_append,
        htail, List.append_nil]
      rfl

theorem segments_append_slash {p q r : Path} (h : r.text = p.text ++ "/" ++ q.text) :
    r.segments = p.segments ++ q.segments := by
  have hchars : r.text.toList = p.text.toList ++ '/' :: q.text.toList := by
    rw [h, String.toList_append, String.toList_append, List.append_assoc]
    rfl
  rw [segments, segments, segments, hchars, List.splitOn_append_cons_self, List.map_append]

/-- Below a base, names are components behind those of the base. -/
theorem components_join {base : Path} {names : List String} (hne : names ≠ [])
    (hplain : ∀ s ∈ names, IsPlainName s) :
    (base.join (ofNames names)).components = base.components ++ names.map .name := by
  have hsegments := segments_ofNames hne fun s hs => (hplain s hs).no_slash
  have hcomponents := components_ofNames hne hplain
  have hmap : names.filterMap component? = names.map .name := by
    have hsteps : ∀ step ∈ names.map Component.name, IsStep step := by
      intro step hstep
      obtain ⟨s, hs, rfl⟩ := List.mem_map.mp hstep
      exact hplain s hs
    have htexts : (names.map Component.name).map Component.text = names := by
      rw [List.map_map]
      exact List.map_id names
    have hread := filterMap_component? hsteps
    rwa [htexts] at hread
  have hhead : (ofNames names).text.toList.head? ≠ some '/' := by
    intro hhead
    obtain ⟨rest, hrest⟩ := List.head?_eq_some_iff.mp hhead
    have hempty : "" ∈ names := by
      rw [← hsegments, segments, hrest, List.splitOn_cons_eq_if_modifyHead, if_pos (by decide)]
      exact List.mem_cons_self
    exact (hplain "" hempty).ne_empty rfl
  rw [join, if_neg hhead]
  by_cases hempty : base.text = ""
  · have hbase : base.components = [] := by
      obtain ⟨text⟩ := base
      subst hempty
      decide
    rw [if_pos (by simp [hempty]), hempty, String.empty_append, hbase]
    exact hcomponents
  by_cases hslash : base.text.toList.getLast? = some '/'
  · -- The slash between the two is the one that the base ends in.
    obtain ⟨chars, hchars⟩ := List.getLast?_eq_some_iff.mp hslash
    have htext : base.text = (⟨String.ofList chars⟩ : Path).text ++ "/" := by
      rw [← String.toList_inj, hchars]
      simp
    have hbase := @segments_append_slash ⟨String.ofList chars⟩ ⟨""⟩ base (by simpa using htext)
    rw [if_pos (by simp [hslash])]
    rw [← hmap]
    refine components_of_segments hbase ?_ hempty (segments_ne_nil _) hne (by decide)
    refine (segments_append_slash ?_).trans (congrArg _ hsegments)
    rw [htext]
  · rw [if_neg (by simp [hempty, hslash]), ← hmap]
    refine components_of_segments (List.append_nil _).symm ?_ hempty (segments_ne_nil _) hne rfl
    exact (segments_append_slash rfl).trans (congrArg _ hsegments)

end Scaffold.Path
