import Scaffold.Path.Lexical

/-!
# Paths made of names

A path that only descends is a list of names with slashes between them. As long as
no name holds a slash, is empty or is made of dots alone, splitting the text gives
the names back, so such a path can be reasoned about as the list and never as a
text.

Two of these lists lie side by side when neither is the beginning of the other.
That is what files of one tree need: it says at once that they are different files
and that neither stands where the other needs a directory.
-/

namespace Scaffold

namespace Path

/-- A name that stands for itself in a path. -/
structure IsPlainName (s : String) : Prop where
  ne_empty : s ≠ ""
  ne_current : s ≠ "."
  ne_parent : s ≠ ".."
  no_slash : '/' ∉ s.toList

/-- The path through some names. -/
def ofNames (names : List String) : Path :=
  ⟨"/".intercalate names⟩

/-- A letter or a digit is all that a name without slashes needs. -/
theorem isPlainName_of_mem {s : String} {c : Char} (hc : c ∈ s.toList)
    (halnum : c.isAlphanum = true) (hslash : '/' ∉ s.toList) : IsPlainName s := by
  refine ⟨?_, ?_, ?_, hslash⟩
  · rintro rfl
    simp at hc
  · rintro rfl
    have hdot : c = '.' := by simpa using hc
    rw [hdot] at halnum
    cases halnum
  · rintro rfl
    have hdot : c = '.' := by simpa using hc
    rw [hdot] at halnum
    cases halnum

theorem isPlainName_of_spelling {before spelling after : String} (hne : spelling.toList ≠ [])
    (halnum : ∀ c ∈ spelling.toList, c.isAlphanum = true) (hbefore : '/' ∉ before.toList)
    (hafter : '/' ∉ after.toList) : IsPlainName (before ++ spelling ++ after) := by
  obtain ⟨c, hc⟩ := List.exists_mem_of_ne_nil _ hne
  have hslash : '/' ∉ spelling.toList := by
    intro hmem
    have hfalse := halnum '/' hmem
    revert hfalse
    decide
  refine isPlainName_of_mem (c := c) ?_ (halnum c hc) ?_
  · simp [hc]
  · simp [hbefore, hslash, hafter]

theorem segments_ofNames {names : List String} (hne : names ≠ [])
    (hslash : ∀ s ∈ names, '/' ∉ s.toList) : (ofNames names).segments = names := by
  have hsplit : ((ofNames names).text.toList.splitOn '/') = names.map String.toList := by
    rw [ofNames, String.toList_intercalate]
    refine List.splitOn_intercalate '/' ?_ (by simpa using hne)
    intro l hl
    obtain ⟨s, hs, rfl⟩ := List.mem_map.mp hl
    exact hslash s hs
  rw [segments, hsplit, List.map_map]
  simp

/-- A path begins with its first stretch, if that is neither empty nor a single dot. -/
theorem split_of_segments {p : Path} {first : String} {rest : List String}
    (h : p.segments = first :: rest) (hidle : isIdle first = false) :
    p.split = (none, first :: rest) := by
  rw [split, h]
  split
  · next heq =>
      rw [(List.cons.inj heq).1] at hidle
      cases hidle
  · next heq =>
      rw [(List.cons.inj heq).1] at hidle
      cases hidle
  · rfl

/-! ## Paths with steps upwards

A step is read back from its text if it is a pair of dots or a name; in front of the
others a single dot is one as well. -/

/-- A step that its text stands for, wherever in a path it is. -/
def IsStep : Component → Prop
  | .parent => True
  | .name s => IsPlainName s
  | .root | .current => False

theorem component?_text {s : Component} (h : IsStep s) : component? s.text = some s := by
  cases s with
  | root => cases h
  | current => cases h
  | parent => rfl
  | name s =>
      have hplain : IsPlainName s := h
      simp [component?, isIdle, Component.text, hplain.ne_empty, hplain.ne_current,
        hplain.ne_parent]

theorem filterMap_component? {steps : List Component} (h : ∀ s ∈ steps, IsStep s) :
    (steps.map Component.text).filterMap component? = steps := by
  induction steps with
  | nil => rfl
  | cons s steps ih =>
      rw [List.map_cons, List.filterMap_cons, component?_text (h s (by simp)),
        ih fun t ht => h t (by simp [ht])]

theorem text_of_isStep {s : Component} (h : IsStep s) :
    isIdle s.text = false ∧ '/' ∉ s.text.toList := by
  cases s with
  | root => cases h
  | current => cases h
  | parent => exact ⟨by decide, by decide⟩
  | name s =>
      have hplain : IsPlainName s := h
      exact ⟨by simp [isIdle, Component.text, hplain.ne_empty, hplain.ne_current], hplain.no_slash⟩

/-- A path written as steps has these steps as its components. -/
theorem components_ofNames_text {first : Component} {rest : List Component}
    (hfirst : first = .current ∨ IsStep first) (hrest : ∀ s ∈ rest, IsStep s) :
    (ofNames ((first :: rest).map Component.text)).components = first :: rest := by
  have hslash : ∀ s ∈ (first :: rest).map Component.text, '/' ∉ s.toList := by
    intro text htext
    obtain ⟨s, hs, rfl⟩ := List.mem_map.mp htext
    rcases List.mem_cons.mp hs with rfl | hs
    · rcases hfirst with rfl | hfirst
      · decide
      · exact (text_of_isStep hfirst).2
    · exact (text_of_isStep (hrest s hs)).2
  have hsegments := segments_ofNames (by simp) hslash
  rw [List.map_cons] at hsegments ⊢
  rcases hfirst with rfl | hfirst
  · have hsplit : (ofNames (Component.text .current :: rest.map Component.text)).split =
        (some .current, rest.map Component.text) := by
      rw [split, hsegments]
      rfl
    rw [components, hsplit, filterMap_component? hrest]
    rfl
  · have hsplit := split_of_segments hsegments (text_of_isStep hfirst).1
    rw [components, hsplit, ← List.map_cons, filterMap_component? (by simpa using ⟨hfirst, hrest⟩)]
    rfl

theorem components_ofNames {names : List String} (hne : names ≠ [])
    (hplain : ∀ s ∈ names, IsPlainName s) :
    (ofNames names).components = names.map .name := by
  obtain ⟨first, rest, rfl⟩ := List.exists_cons_of_ne_nil hne
  have htexts : ∀ names : List String, (names.map Component.name).map Component.text = names := by
    intro names
    rw [List.map_map]
    exact List.map_id names
  have hstep : ∀ s ∈ rest.map Component.name, IsStep s := by
    intro step hstep
    obtain ⟨s, hs, rfl⟩ := List.mem_map.mp hstep
    exact hplain s (by simp [hs])
  have hfirst : IsStep (.name first) := hplain first (by simp)
  have hcomponents := components_ofNames_text (.inr hfirst) hstep
  rwa [← List.map_cons, htexts] at hcomponents

theorem foldl_walk_names (place : List Component) (names : List String) :
    (names.map Component.name).foldl walk place = (names.map Component.name).reverse ++ place := by
  induction names generalizing place with
  | nil => rfl
  | cons name names ih =>
      rw [List.map_cons, List.foldl_cons, ih, List.reverse_cons, List.append_assoc]
      rfl

theorem normal_append_names (components : List Component) (names : List String) :
    normal (components ++ names.map .name) = normal components ++ names.map .name := by
  rw [normal, normal, List.foldl_append, foldl_walk_names, List.reverse_append,
    List.reverse_reverse]

/-- A relative path all of whose stretches are names. -/
structure IsPlain (p : Path) : Prop where
  relative : p.isAbsolute = false
  segments : ∀ s ∈ p.segments, s ≠ "" ∧ s ≠ "." ∧ s ≠ ".."
  components : p.components = p.segments.map .name

theorem isPlain_ofNames {names : List String} (hne : names ≠ [])
    (hplain : ∀ s ∈ names, IsPlainName s) : (ofNames names).IsPlain := by
  have hsegments := segments_ofNames hne fun s hs => (hplain s hs).no_slash
  have hcomponents := components_ofNames hne hplain
  refine ⟨?_, ?_, ?_⟩
  · obtain ⟨first, rest, rfl⟩ := List.exists_cons_of_ne_nil hne
    rw [isAbsolute, hcomponents]
    simp
  · rw [hsegments]
    exact fun s hs => ⟨(hplain s hs).ne_empty, (hplain s hs).ne_current, (hplain s hs).ne_parent⟩
  · rw [hcomponents, hsegments]

/-- A path to a directory in which, at some depth, the other path lies. -/
def IsAncestorOf (p q : Path) : Prop :=
  p.components <+: q.components ∧ p.components ≠ q.components

end Path

/-- Two lists neither of which is the beginning of the other. -/
def SideBySide {α : Type} (p q : List α) : Prop :=
  ¬ p <+: q ∧ ¬ q <+: p

theorem SideBySide.symm {α : Type} {p q : List α} (h : SideBySide p q) : SideBySide q p :=
  ⟨h.2, h.1⟩

instance {α : Type} : Std.Symm (SideBySide (α := α)) :=
  ⟨fun _ _ h => h.symm⟩

theorem sideBySide_cons {α : Type} {a b : α} {p q : List α} :
    SideBySide (a :: p) (b :: q) ↔ a ≠ b ∨ SideBySide p q := by
  simp only [SideBySide, List.cons_prefix_cons]
  by_cases h : a = b
  · simp [h]
  · simp [h, Ne.symm h]

theorem SideBySide.map {α β : Type} {f : α → β} (hf : Function.Injective f) {p q : List α}
    (h : SideBySide p q) : SideBySide (p.map f) (q.map f) :=
  ⟨fun hbegins => h.1 ((List.prefix_map_iff_of_injective hf).mp hbegins),
    fun hbegins => h.2 ((List.prefix_map_iff_of_injective hf).mp hbegins)⟩

theorem SideBySide.ne {α : Type} {p q : List α} (h : SideBySide p q) : p ≠ q := by
  rintro rfl
  exact h.1 (List.prefix_refl p)

end Scaffold
