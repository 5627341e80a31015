import Mathlib.Data.List.Forall2

/-!
# Steps that may fail

A run is a chain of steps, each of which gives a value or ends the run. What a
chain as a whole gave is read off its steps, and these equivalences are how:
a chain succeeds exactly if every step did. Later proofs take a run apart with
them and never open the monad.

A step repeated along a list succeeds exactly if it succeeds at every entry.
Where the values matter, `Forall₂` keeps each of them beside its entry.
-/

namespace Scaffold

variable {ε δ α β γ : Type}

theorem bind_eq_ok {x : Except ε α} {f : α → Except ε β} {b : β} :
    (x >>= f) = .ok b ↔ ∃ a, x = .ok a ∧ f a = .ok b := by
  cases x with
  | error e => simp [bind, Except.bind]
  | ok a => simp [bind, Except.bind]

theorem bind_eq_error {x : Except ε α} {f : α → Except ε β} {e : ε} :
    (x >>= f) = .error e ↔ x = .error e ∨ ∃ a, x = .ok a ∧ f a = .error e := by
  cases x with
  | error e => simp [bind, Except.bind]
  | ok a => simp [bind, Except.bind]

theorem map_eq_ok {x : Except ε α} {f : α → β} {b : β} :
    x.map f = .ok b ↔ ∃ a, x = .ok a ∧ f a = b := by
  cases x with
  | error e => simp [Except.map]
  | ok a => simp [Except.map]

theorem map_eq_error {x : Except ε α} {f : α → β} {e : ε} :
    x.map f = .error e ↔ x = .error e := by
  cases x with
  | error e => simp [Except.map]
  | ok a => simp [Except.map]

theorem mapError_eq_ok {x : Except ε α} {f : ε → δ} {a : α} :
    x.mapError f = .ok a ↔ x = .ok a := by
  cases x with
  | error e => simp [Except.mapError]
  | ok a => simp [Except.mapError]

theorem pure_eq_ok {a b : α} : (pure a : Except ε α) = .ok b ↔ a = b := by
  simp [pure, Except.pure]

/-- A result that is not known to be an error has a value. -/
theorem exists_ok_of_isOk {x : Except ε α} (h : x.isOk = true) : ∃ a, x = .ok a := by
  cases x with
  | error e => cases h
  | ok a => exact ⟨a, rfl⟩

theorem mapM_eq_ok_iff {f : α → Except ε β} {xs : List α} {ys : List β} :
    xs.mapM f = .ok ys ↔ List.Forall₂ (fun x y => f x = .ok y) xs ys := by
  induction xs generalizing ys with
  | nil =>
      rw [List.mapM_nil, pure_eq_ok, List.forall₂_nil_left_iff]
      exact eq_comm
  | cons x xs ih =>
      rw [List.mapM_cons, List.forall₂_cons_left_iff, bind_eq_ok]
      constructor
      · rintro ⟨y, hy, hrest⟩
        obtain ⟨rest, hr, hpure⟩ := bind_eq_ok.mp hrest
        exact ⟨y, rest, hy, ih.mp hr, (pure_eq_ok.mp hpure).symm⟩
      · rintro ⟨y, rest, hy, hr, rfl⟩
        exact ⟨y, hy, bind_eq_ok.mpr ⟨rest, ih.mpr hr, rfl⟩⟩

/-- A repeated step ends with the error of the first entry at which it fails. -/
theorem mapM_eq_error_iff {f : α → Except ε β} {fault? : α → Option ε} {xs : List α} {e : ε}
    (h : ∀ x ∈ xs, ∀ e, f x = .error e ↔ fault? x = some e) :
    xs.mapM f = .error e ↔ xs.findSome? fault? = some e := by
  induction xs with
  | nil => exact iff_of_false nofun nofun
  | cons x xs ih =>
      rw [List.mapM_cons, List.findSome?_cons, bind_eq_error, h x (by simp)]
      cases hx : f x with
      | error e' => simp [(h x (by simp) e').mp hx]
      | ok y =>
          have hnone : fault? x = none :=
            Option.eq_none_iff_forall_ne_some.mpr fun e' he' => by
              rw [(h x (by simp) e').mpr he'] at hx
              cases hx
          rw [hnone, ← ih fun x hx => h x (by simp [hx])]
          simp [bind_eq_error, pure, Except.pure]

theorem mapM_congr {f g : α → Except ε β} {xs : List α} (h : ∀ x ∈ xs, f x = g x) :
    xs.mapM f = xs.mapM g := by
  induction xs with
  | nil => rfl
  | cons x xs ih =>
      rw [List.mapM_cons, List.mapM_cons, h x (by simp), ih fun y hy => h y (by simp [hy])]

/-- A step whose value is put together from the entry and something beside it. -/
theorem mapM_eq_ok_zip {f : α → Except ε γ} {g : α → β → γ} {xs : List α} {ys : List β}
    (h : List.Forall₂ (fun x y => f x = .ok (g x y)) xs ys) :
    xs.mapM f = .ok ((xs.zip ys).map fun entry => g entry.1 entry.2) := by
  rw [mapM_eq_ok_iff]
  induction h with
  | nil => exact .nil
  | cons hfirst _ ih => exact .cons hfirst ih

theorem exists_mapM_eq_ok {f : α → Except ε β} {xs : List α}
    (h : ∀ x ∈ xs, ∃ y, f x = .ok y) : ∃ ys, xs.mapM f = .ok ys := by
  induction xs with
  | nil => exact ⟨[], rfl⟩
  | cons x xs ih =>
      obtain ⟨y, hy⟩ := h x (by simp)
      obtain ⟨ys, hys⟩ := ih fun x hx => h x (by simp [hx])
      exact ⟨y :: ys, mapM_eq_ok_iff.mpr (.cons hy (mapM_eq_ok_iff.mp hys))⟩

/-- The values of a repeated step are exactly what it gives at the entries. -/
theorem mem_of_mapM_eq_ok {f : α → Except ε β} {xs : List α} {ys : List β}
    (h : xs.mapM f = .ok ys) {y : β} : y ∈ ys ↔ ∃ x ∈ xs, f x = .ok y := by
  induction xs generalizing ys with
  | nil =>
      cases mapM_eq_ok_iff.mp h
      simp
  | cons x xs ih =>
      obtain ⟨first, rest, hx, hrest, rfl⟩ :=
        List.forall₂_cons_left_iff.mp (mapM_eq_ok_iff.mp h)
      rw [List.mem_cons, ih (mapM_eq_ok_iff.mpr hrest), List.exists_mem_cons_iff, hx,
        Except.ok.injEq]
      exact or_congr eq_comm Iff.rfl

theorem exists_ok_of_mapM_eq_ok {f : α → Except ε β} {xs : List α} {ys : List β}
    (h : xs.mapM f = .ok ys) : ∀ x ∈ xs, ∃ y, f x = .ok y := by
  intro x hx
  obtain ⟨i, hi, rfl⟩ := List.getElem_of_mem hx
  have hf := mapM_eq_ok_iff.mp h
  exact ⟨ys.get ⟨i, hf.length_eq ▸ hi⟩, hf.get hi (hf.length_eq ▸ hi)⟩

/-- Two steps repeated along one list give related values if they do so at each entry. -/
theorem forall₂_of_mapM_eq_ok {f : α → Except ε β} {g : α → Except ε γ} {r : β → γ → Prop}
    {xs : List α} {ys : List β} {zs : List γ} (hf : xs.mapM f = .ok ys) (hg : xs.mapM g = .ok zs)
    (h : ∀ x ∈ xs, ∀ y z, f x = .ok y → g x = .ok z → r y z) : List.Forall₂ r ys zs := by
  induction xs generalizing ys zs with
  | nil =>
      cases mapM_eq_ok_iff.mp hf
      cases mapM_eq_ok_iff.mp hg
      exact .nil
  | cons x xs ih =>
      obtain ⟨y, ys, hy, hys, rfl⟩ := List.forall₂_cons_left_iff.mp (mapM_eq_ok_iff.mp hf)
      obtain ⟨z, zs, hz, hzs, rfl⟩ := List.forall₂_cons_left_iff.mp (mapM_eq_ok_iff.mp hg)
      exact .cons (h x (by simp) y z hy hz) (ih (mapM_eq_ok_iff.mpr hys) (mapM_eq_ok_iff.mpr hzs)
        fun x hx => h x (by simp [hx]))

end Scaffold
