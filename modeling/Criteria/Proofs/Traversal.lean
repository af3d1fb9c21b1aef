import Mathlib.Data.List.Forall2

/-!
# Traversals that may fail

Compiling and the passes go through lists of operands from left to right and stop at the first
failure. Main statement: such a traversal succeeds exactly with the results of the items.
-/

namespace Criteria

variable {ε α β γ δ : Type} {f : α → Except ε β}

/-- Where two lists are related item by item, each item of the first has one in the second. -/
theorem exists_of_mem_left {R : α → β → Prop} {as : List α} {bs : List β}
    (h : List.Forall₂ R as bs) {a : α} (ha : a ∈ as) : ∃ b ∈ bs, R a b := by
  induction h with
  | nil => cases ha
  | cons hfirst _ ih =>
    rcases List.mem_cons.mp ha with rfl | ha
    · exact ⟨_, List.mem_cons_self, hfirst⟩
    · obtain ⟨b, hb, hab⟩ := ih ha
      exact ⟨b, List.mem_cons_of_mem _ hb, hab⟩

/-- Where two lists are related item by item, each item of the second has one in the first. -/
theorem exists_of_mem_right {R : α → β → Prop} {as : List α} {bs : List β}
    (h : List.Forall₂ R as bs) {b : β} (hb : b ∈ bs) : ∃ a ∈ as, R a b :=
  exists_of_mem_left (R := flip R) h.flip hb

/-- A computation has a value exactly if it succeeds with it. -/
theorem toOption_eq_some_iff {result : Except ε α} {a : α} :
    result.toOption = some a ↔ result = .ok a := by
  cases result with
  | error e => exact iff_of_false nofun nofun
  | ok b => simp [Except.toOption]

/-- Computations in turn succeed exactly if the first does and the second does with its result. -/
theorem bind_eq_ok_iff {result : Except ε α} {next : α → Except ε β} {b : β} :
    result >>= next = .ok b ↔ ∃ a, result = .ok a ∧ next a = .ok b := by
  cases result with
  | error e => exact iff_of_false nofun nofun
  | ok a =>
    constructor
    · exact fun h ↦ ⟨a, rfl, h⟩
    · rintro ⟨_, ⟨⟩, h⟩
      exact h

/-- Computations in turn fail if the first one does, or if the second does with its result. -/
theorem bind_eq_error_iff {result : Except ε α} {next : α → Except ε β} {e : ε} :
    result >>= next = .error e ↔
      result = .error e ∨ ∃ a, result = .ok a ∧ next a = .error e := by
  cases result with
  | error other => simp [bind, Except.bind]
  | ok a => simp [bind, Except.bind]

/-- A computation succeeds exactly if it does not fail. -/
theorem exists_eq_ok_iff {result : Except ε α} :
    (∃ a, result = .ok a) ↔ ∀ e, result ≠ .error e := by
  cases result with
  | error e => exact iff_of_false nofun fun h ↦ h e rfl
  | ok a => exact iff_of_true ⟨a, rfl⟩ nofun

/-- A function of the result succeeds exactly if there is a result. -/
theorem map_eq_ok_iff {g : α → β} {result : Except ε α} {b : β} :
    g <$> result = .ok b ↔ ∃ a, result = .ok a ∧ g a = b := by
  cases result with
  | error e => exact iff_of_false nofun nofun
  | ok a =>
    constructor
    · rintro ⟨⟩
      exact ⟨a, rfl, rfl⟩
    · rintro ⟨_, ⟨⟩, rfl⟩
      rfl

/-- A function of the result fails exactly where there is no result. -/
theorem map_eq_error_iff {g : α → β} {result : Except ε α} {e : ε} :
    g <$> result = .error e ↔ result = .error e := by
  cases result with
  | error other => exact ⟨fun h ↦ by cases h; rfl, fun h ↦ by cases h; rfl⟩
  | ok a => exact iff_of_false nofun nofun

/-- A traversal succeeds with exactly the results of the items. -/
theorem mapM_eq_ok_iff {items : List α} {results : List β} :
    items.mapM f = .ok results ↔
      List.Forall₂ (fun item result ↦ f item = .ok result) items results := by
  induction items generalizing results with
  | nil =>
    rw [List.mapM_nil, List.forall₂_nil_left_iff]
    constructor
    · rintro ⟨⟩
      rfl
    · rintro rfl
      rfl
  | cons item rest ih =>
    rw [List.mapM_cons, List.forall₂_cons_left_iff]
    constructor
    · intro h
      cases hfirst : f item with
      | error e => rw [hfirst] at h; cases h
      | ok first =>
        cases hrest : rest.mapM f with
        | error e => rw [hfirst, hrest] at h; cases h
        | ok others =>
          rw [hfirst, hrest] at h
          cases h
          exact ⟨first, others, rfl, ih.mp hrest, rfl⟩
    · rintro ⟨first, others, hfirst, hrest, rfl⟩
      rw [hfirst, ih.mpr hrest]
      rfl

/-- If the items with a result are the images of their results under a function, then so are the
items of a traversal that succeeds. -/
theorem mapM_eq_ok_iff_eq_map {g : β → α}
    (h : ∀ {item result}, f item = .ok result ↔ item = g result) {items : List α}
    {results : List β} :
    items.mapM f = .ok results ↔ items = results.map g := by
  simp only [mapM_eq_ok_iff, h]
  rw [← List.forall₂_map_right_iff, List.forall₂_eq_eq_eq]

/-- A traversal in which no item fails makes of each item what the function does. -/
theorem mapM_eq_ok_map {g : α → β} {items : List α} (h : ∀ item ∈ items, f item = .ok (g item)) :
    items.mapM f = .ok (items.map g) :=
  mapM_eq_ok_iff.mpr (List.forall₂_map_right_iff.mpr (List.forall₂_same.mpr h))

/-- A traversal with a function of the results makes the function of its results. -/
theorem mapM_eq_map_mapM {g : α → Except ε γ} {h : β → γ} {items : List α}
    (hg : ∀ item ∈ items, g item = h <$> f item) :
    items.mapM g = List.map h <$> items.mapM f := by
  induction items with
  | nil => rfl
  | cons item rest ih =>
    rw [List.forall_mem_cons] at hg
    rw [List.mapM_cons, List.mapM_cons, hg.1, ih hg.2]
    cases f item with
    | error e => rfl
    | ok first => cases rest.mapM f <;> rfl

/-- Each result of a traversal is the result of an item. -/
theorem exists_mem_of_mapM_eq_ok {items : List α} {results : List β}
    (h : items.mapM f = .ok results) {b : β} (hb : b ∈ results) : ∃ a ∈ items, f a = .ok b :=
  exists_of_mem_right (mapM_eq_ok_iff.mp h) hb

/-- Each item of a traversal that succeeds has a result. -/
theorem exists_result_of_mapM_eq_ok {items : List α} {results : List β}
    (h : items.mapM f = .ok results) {a : α} (ha : a ∈ items) : ∃ b ∈ results, f a = .ok b :=
  exists_of_mem_left (mapM_eq_ok_iff.mp h) ha

/-- Functions that agree on all items find the same first result. -/
theorem findSome?_congr {f g : α → Option β} {items : List α}
    (h : ∀ item ∈ items, f item = g item) : items.findSome? f = items.findSome? g := by
  rw [← Function.id_comp f, ← List.findSome?_map, List.map_congr_left h, List.findSome?_map,
    Function.id_comp]

/-- The first item with a result gives the first result. -/
theorem findSome?_eq_bind_find? (f : α → Option β) (items : List α) :
    items.findSome? f = (items.find? fun item ↦ (f item).isSome).bind f := by
  induction items with
  | nil => rfl
  | cons item rest ih =>
    cases h : f item with
    | none => simp [h, ih]
    | some b => simp [h]

/-- The failure of a computation, if it fails. -/
def failure? : Except ε α → Option ε
  | .ok _ => none
  | .error e => some e

/-- A computation has a failure exactly if it fails with it. -/
theorem failure?_eq_some_iff {result : Except ε α} {e : ε} :
    failure? result = some e ↔ result = .error e := by
  cases result with
  | error other => simp [failure?]
  | ok a => exact iff_of_false nofun nofun

/-- A traversal fails exactly with the failure of the first item that fails. -/
theorem mapM_eq_error_iff {items : List α} {e : ε} :
    items.mapM f = .error e ↔ items.findSome? (fun item ↦ failure? (f item)) = some e := by
  induction items with
  | nil => exact iff_of_false nofun nofun
  | cons item rest ih =>
    rw [List.mapM_cons, List.findSome?_cons]
    cases f item with
    | error other => exact ⟨fun h ↦ by cases h; rfl, fun h ↦ by cases h; rfl⟩
    | ok first =>
      rw [failure?, ← ih, bind_eq_error_iff]
      simp [bind_eq_error_iff, pure, Except.pure]

/-- A function of the result has the failure of the computation. -/
theorem failure?_map {g : α → β} {result : Except ε α} :
    failure? (g <$> result) = failure? result := by
  cases result with
  | error e => rfl
  | ok a => rfl

/-- The failure of a traversal is that of the first item that fails. -/
theorem failure?_mapM {items : List α} :
    failure? (items.mapM f) = items.findSome? fun item ↦ failure? (f item) := by
  apply Option.ext
  intro e
  rw [failure?_eq_some_iff, mapM_eq_error_iff]

/-- A traversal that fails does so with the failure of an item. -/
theorem exists_mem_of_mapM_eq_error {items : List α} {e : ε} (h : items.mapM f = .error e) :
    ∃ item ∈ items, f item = .error e := by
  obtain ⟨item, hmem, hfails⟩ := List.exists_of_findSome?_eq_some (mapM_eq_error_iff.mp h)
  exact ⟨item, hmem, failure?_eq_some_iff.mp hfails⟩

/-- Going through a single item fails as the item does. -/
theorem mapM_singleton_eq_error_iff {item : α} {e : ε} :
    [item].mapM f = .error e ↔ f item = .error e := by
  rw [List.mapM_cons, List.mapM_nil]
  cases f item with
  | error other => exact ⟨fun h ↦ by cases h; rfl, fun h ↦ by cases h; rfl⟩
  | ok b => exact iff_of_false nofun nofun

/-- If each item fails as going through its parts does, then going through the items fails as going
through all the parts does. -/
theorem mapM_flatMap_eq_error_iff {items : List α} {parts : α → List γ} {g : γ → Except ε δ}
    (h : ∀ item ∈ items, ∀ e, f item = .error e ↔ (parts item).mapM g = .error e) {e : ε} :
    items.mapM f = .error e ↔ (items.flatMap parts).mapM g = .error e := by
  induction items with
  | nil => exact iff_of_false nofun nofun
  | cons item rest ih =>
    rw [List.forall_mem_cons] at h
    have hsucceeds : (∃ b, f item = .ok b) ↔ ∃ ds, (parts item).mapM g = .ok ds := by
      simp only [exists_eq_ok_iff, ne_eq, h.1]
    have hpure {η : Type} {x : η} : (pure x : Except ε η) ≠ .error e := nofun
    simp only [List.mapM_cons, List.flatMap_cons, List.mapM_append, bind_eq_error_iff, ih h.2, h.1,
      hpure, and_false, exists_false, or_false, exists_and_right, hsucceeds]

/-- A traversal succeeds if every item does. -/
theorem exists_mapM_eq_ok {items : List α} (h : ∀ item ∈ items, ∃ result, f item = .ok result) :
    ∃ results, items.mapM f = .ok results := by
  induction items with
  | nil => exact ⟨[], rfl⟩
  | cons item rest ih =>
    rw [List.forall_mem_cons] at h
    obtain ⟨first, hfirst⟩ := h.1
    obtain ⟨others, hothers⟩ := ih h.2
    exact ⟨first :: others, by rw [List.mapM_cons, hfirst, hothers]; rfl⟩

/-- If a traversal with two computations in turn succeeds, so does the one with the first of them.
-/
theorem exists_mapM_eq_ok_of_bind {next : β → Except ε γ} {items : List α} {results : List γ}
    (h : items.mapM (fun item ↦ f item >>= next) = .ok results) :
    ∃ firsts, items.mapM f = .ok firsts := by
  apply exists_mapM_eq_ok
  intro item hmem
  obtain ⟨_, -, hitem⟩ := exists_result_of_mapM_eq_ok h hmem
  exact (bind_eq_ok_iff.mp hitem).imp fun _ ↦ And.left

end Criteria
