import Mathlib.Tactic.Common

/-!
# Outcomes of chains of steps

A chain of fallible steps has a result exactly when every step has one. These lemmas
take such a chain apart at its first step, so that no later proof opens the chain.
-/

namespace EntityQuery

variable {ε α β γ δ : Type}

/-- A chain goes on from the result of its first step. -/
theorem ok_bind {a : α} {rest : α → Except ε β} : (Except.ok a >>= rest) = rest a := rfl

/-- A chain has a result exactly when its first step has one from which the rest goes on. -/
theorem bind_eq_ok_iff {first : Except ε α} {rest : α → Except ε β} {result : β} :
    (first >>= rest) = .ok result ↔ ∃ a, first = .ok a ∧ rest a = .ok result := by
  constructor
  · intro h
    cases first with
    | error fault => exact absurd h (by simp [bind, Except.bind])
    | ok a => exact ⟨a, rfl, h⟩
  · rintro ⟨a, rfl, h⟩
    exact h

/-- A changed outcome is a result exactly when the outcome itself is one. -/
theorem map_eq_ok_iff {f : α → β} {outcome : Except ε α} {result : β} :
    outcome.map f = .ok result ↔ ∃ a, outcome = .ok a ∧ f a = result := by
  cases outcome with
  | error fault => simp [Except.map]
  | ok a => simp [Except.map]

/-- A chain ends with a fault exactly when its first step does or the rest does. -/
theorem bind_eq_error_iff {first : Except ε α} {rest : α → Except ε β} {fault : ε} :
    (first >>= rest) = .error fault ↔
      first = .error fault ∨ ∃ a, first = .ok a ∧ rest a = .error fault := by
  cases first with
  | error other => simp [bind, Except.bind]
  | ok a => simp [bind, Except.bind]

/-- A changed outcome is a fault exactly when the outcome itself is that fault. -/
theorem map_eq_error_iff {f : α → β} {outcome : Except ε α} {fault : ε} :
    outcome.map f = .error fault ↔ outcome = .error fault := by
  cases outcome with
  | error other => simp [Except.map]
  | ok a => simp [Except.map]

/-- The last step of a chain often only returns what the steps before it found. -/
@[simp] theorem pure_eq_ok_iff {a result : α} :
    (pure a : Except ε α) = .ok result ↔ a = result := by
  constructor
  · intro h
    exact Except.ok.inj h
  · rintro rfl
    rfl

/-- A step that only returns something never ends with a fault. -/
@[simp] theorem pure_ne_error {a : α} {fault : ε} : (pure a : Except ε α) ≠ .error fault := by
  intro h
  cases h

/-- A refused step has no result. -/
@[simp] theorem throw_ne_ok {fault : ε} {result : α} :
    (throw fault : Except ε α) ≠ .ok result := by
  intro h
  cases h

/-- A chain that begins with a refused step has no result. -/
@[simp] theorem throw_bind_ne_ok {fault : ε} {rest : α → Except ε β} {result : β} :
    ((throw fault : Except ε α) >>= rest) ≠ .ok result := by
  intro h
  cases h

/-- What every step of a fold keeps holds of its result. -/
theorem foldlM_induction {motive : β → Prop} {step : β → α → Except ε β} {items : List α}
    {start result : β} (h : items.foldlM step start = .ok result) (hstart : motive start)
    (hstep : ∀ item ∈ items, ∀ before after, step before item = .ok after → motive before →
      motive after) : motive result := by
  induction items generalizing start with
  | nil =>
    obtain rfl := pure_eq_ok_iff.mp h
    exact hstart
  | cons item items ih =>
    rw [List.foldlM_cons] at h
    obtain ⟨next, hnext, h⟩ := bind_eq_ok_iff.mp h
    exact ih h (hstep item List.mem_cons_self start next hnext hstart)
      fun other hother => hstep other (List.mem_cons_of_mem item hother)

/-- A list of steps has results if its first step has one and the others have. -/
theorem mapM_cons_eq_ok_iff {f : α → Except ε β} {item : α} {items : List α}
    {results : List β} :
    (item :: items).mapM f = .ok results ↔
      ∃ first others, f item = .ok first ∧ items.mapM f = .ok others ∧
        results = first :: others := by
  rw [List.mapM_cons]
  constructor
  · intro h
    obtain ⟨first, hfirst, h⟩ := bind_eq_ok_iff.mp h
    obtain ⟨others, hothers, h⟩ := bind_eq_ok_iff.mp h
    exact ⟨first, others, hfirst, hothers, (pure_eq_ok_iff.mp h).symm⟩
  · rintro ⟨first, others, hfirst, hothers, rfl⟩
    rw [hfirst, hothers]
    rfl

/-- Every result of a list of steps is that of one of them. -/
theorem exists_of_mem_mapM {f : α → Except ε β} {items : List α} {results : List β}
    (h : items.mapM f = .ok results) {result : β} (hresult : result ∈ results) :
    ∃ item ∈ items, f item = .ok result := by
  induction items generalizing results with
  | nil =>
    obtain rfl := pure_eq_ok_iff.mp h
    cases hresult
  | cons item items ih =>
    obtain ⟨first, others, hfirst, hothers, rfl⟩ := mapM_cons_eq_ok_iff.mp h
    rcases List.mem_cons.mp hresult with rfl | hmem
    · exact ⟨item, List.mem_cons_self, hfirst⟩
    · obtain ⟨other, hother, heq⟩ := ih hothers hmem
      exact ⟨other, List.mem_cons_of_mem item hother, heq⟩

/-- Every item of a list of steps has one of their results. -/
theorem exists_result_of_mapM {f : α → Except ε β} {items : List α} {results : List β}
    (h : items.mapM f = .ok results) {item : α} (hitem : item ∈ items) :
    ∃ result ∈ results, f item = .ok result := by
  induction items generalizing results with
  | nil => cases hitem
  | cons head items ih =>
    obtain ⟨first, others, hfirst, hothers, rfl⟩ := mapM_cons_eq_ok_iff.mp h
    rcases List.mem_cons.mp hitem with rfl | hmem
    · exact ⟨first, List.mem_cons_self, hfirst⟩
    · obtain ⟨result, hresult, heq⟩ := ih hothers hmem
      exact ⟨result, List.mem_cons_of_mem first hresult, heq⟩

/-- A list of steps that each have a result has the list of their results. -/
theorem exists_mapM_eq_ok {f : α → Except ε β} {items : List α}
    (h : ∀ item ∈ items, ∃ result, f item = .ok result) :
    ∃ results, items.mapM f = .ok results := by
  induction items with
  | nil => exact ⟨[], rfl⟩
  | cons item items ih =>
    obtain ⟨result, hresult⟩ := h item List.mem_cons_self
    obtain ⟨results, hresults⟩ := ih fun other hother => h other (List.mem_cons_of_mem item hother)
    exact ⟨result :: results, mapM_cons_eq_ok_iff.mpr ⟨result, results, hresult, hresults, rfl⟩⟩

/-- Steps taken in another order have the same results in another order. -/
theorem exists_mapM_of_perm {f : α → Except ε β} {items others : List α} {results : List β}
    (hperm : items.Perm others) (h : items.mapM f = .ok results) :
    ∃ otherResults, others.mapM f = .ok otherResults ∧ results.Perm otherResults := by
  induction hperm generalizing results with
  | nil => exact ⟨results, h, .rfl⟩
  | cons item _ ih =>
    obtain ⟨first, rest, hfirst, hrest, rfl⟩ := mapM_cons_eq_ok_iff.mp h
    obtain ⟨otherRest, hother, hsame⟩ := ih hrest
    exact ⟨first :: otherRest, mapM_cons_eq_ok_iff.mpr ⟨first, otherRest, hfirst, hother, rfl⟩,
      hsame.cons first⟩
  | swap item item' items =>
    obtain ⟨first, afterFirst, hfirst, hafter, rfl⟩ := mapM_cons_eq_ok_iff.mp h
    obtain ⟨second, rest, hsecond, hrest, rfl⟩ := mapM_cons_eq_ok_iff.mp hafter
    refine ⟨second :: first :: rest, mapM_cons_eq_ok_iff.mpr ⟨second, first :: rest, hsecond,
      mapM_cons_eq_ok_iff.mpr ⟨first, rest, hfirst, hrest, rfl⟩, rfl⟩, .swap _ _ _⟩
  | trans _ _ ih ih' =>
    obtain ⟨middle, hmiddle, hsame⟩ := ih h
    obtain ⟨last, hlast, hsame'⟩ := ih' hmiddle
    exact ⟨last, hlast, hsame.trans hsame'⟩

/-- A fold all of whose steps have results has one. -/
theorem exists_foldlM_eq_ok {step : β → α → Except ε β} {items : List α}
    (h : ∀ item ∈ items, ∀ before, ∃ after, step before item = .ok after) (start : β) :
    ∃ result, items.foldlM step start = .ok result := by
  induction items generalizing start with
  | nil => exact ⟨start, rfl⟩
  | cons item items ih =>
    obtain ⟨next, hnext⟩ := h item List.mem_cons_self start
    rw [List.foldlM_cons, hnext]
    exact ih (fun other hother => h other (List.mem_cons_of_mem item hother)) next

/-- Two outcomes are alike: both are results, or both are the same fault. -/
inductive EndAlike : Except ε α → Except ε β → Prop where
  /-- Both are results, whichever. -/
  | results (a : α) (b : β) : EndAlike (.ok a) (.ok b)
  /-- Both are the same fault. -/
  | faults (fault : ε) : EndAlike (.error fault) (.error fault)

namespace EndAlike

variable {first : Except ε α} {second : Except ε β}

/-- One is a result exactly when the other is. -/
theorem exists_ok_iff (h : EndAlike first second) :
    (∃ a, first = .ok a) ↔ ∃ b, second = .ok b := by
  cases h <;> simp

/-- Going on with steps that end alike keeps outcomes alike. -/
theorem bind (h : EndAlike first second) {f : α → Except ε γ} {g : β → Except ε δ}
    (hrest : ∀ a b, EndAlike (f a) (g b)) : EndAlike (first >>= f) (second >>= g) := by
  cases h with
  | results a b => exact hrest a b
  | faults fault => exact .faults fault

/-- Changing results keeps outcomes alike. -/
theorem map (h : EndAlike first second) (f : α → γ) (g : β → δ) :
    EndAlike (first.map f) (second.map g) := by
  cases h with
  | results a b => exact .results (f a) (g b)
  | faults fault => exact .faults fault

/-- Steps that end alike at every item of a list end alike on the list. -/
theorem mapM {f : γ → Except ε α} {g : γ → Except ε β} (h : ∀ item, EndAlike (f item) (g item))
    (items : List γ) : EndAlike (items.mapM f) (items.mapM g) := by
  induction items with
  | nil => exact .results [] []
  | cons item items ih =>
    rw [List.mapM_cons, List.mapM_cons]
    exact (h item).bind fun a b => ih.bind fun as bs => .results (a :: as) (b :: bs)

end EndAlike

/-- If the first outcome is a result, so is the second, and the results are related. -/
def Carries (R : α → β → Prop) (first : Except ε α) (second : Except ε β) : Prop :=
  ∀ a, first = .ok a → ∃ b, second = .ok b ∧ R a b

namespace Carries

variable {R : α → β → Prop} {S : γ → δ → Prop} {first : Except ε α} {second : Except ε β}

/-- Results that are related. -/
theorem results {a : α} {b : β} (h : R a b) : Carries R (Except.ok a : Except ε α) (.ok b) := by
  intro _ ha
  obtain rfl := Except.ok.inj ha
  exact ⟨b, rfl, h⟩

/-- Nothing is asked where the first outcome is a fault. -/
theorem fault {fault : ε} : Carries R (Except.error fault : Except ε α) second := by
  intro _ ha
  cases ha

/-- The same outcome twice. -/
theorem refl (outcome : Except ε α) : Carries Eq outcome outcome := fun a ha => ⟨a, ha, rfl⟩

/-- Equal results. -/
theorem eq_ok {second : Except ε α} {first : Except ε α} (h : Carries Eq first second) {a : α}
    (ha : first = .ok a) : second = .ok a := by
  obtain ⟨_, hb, rfl⟩ := h a ha
  exact hb

/-- Going on from related results. -/
theorem bind (h : Carries R first second) {f : α → Except ε γ} {g : β → Except ε δ}
    (hrest : ∀ a b, R a b → Carries S (f a) (g b)) : Carries S (first >>= f) (second >>= g) := by
  intro c hc
  obtain ⟨a, ha, hfa⟩ := bind_eq_ok_iff.mp hc
  obtain ⟨b, hb, hab⟩ := h a ha
  obtain ⟨d, hd, hcd⟩ := hrest a b hab c hfa
  exact ⟨d, bind_eq_ok_iff.mpr ⟨b, hb, hd⟩, hcd⟩

/-- Changing related results. -/
theorem map (h : Carries R first second) {f : α → γ} {g : β → δ}
    (hresults : ∀ a b, R a b → S (f a) (g b)) : Carries S (first.map f) (second.map g) := by
  intro c hc
  obtain ⟨a, ha, rfl⟩ := map_eq_ok_iff.mp hc
  obtain ⟨b, hb, hab⟩ := h a ha
  exact ⟨g b, map_eq_ok_iff.mpr ⟨b, hb, rfl⟩, hresults a b hab⟩

/-- Steps that carry the results of one list of items over give the same results. -/
theorem mapM {f g : γ → Except ε α} (h : ∀ item, Carries Eq (f item) (g item)) (items : List γ) :
    Carries Eq (items.mapM f) (items.mapM g) := by
  induction items with
  | nil => exact .refl _
  | cons item items ih =>
    rw [List.mapM_cons, List.mapM_cons]
    refine (h item).bind ?_
    rintro a _ rfl
    refine ih.bind ?_
    rintro as _ rfl
    exact .refl _

end Carries

/-- If an outcome is a fault, the fault is of some kind. -/
def FailsOnly (P : ε → Prop) (outcome : Except ε α) : Prop :=
  ∀ fault, outcome = .error fault → P fault

namespace FailsOnly

variable {P Q : ε → Prop} {first : Except ε α}

/-- A result is no fault. -/
theorem result {a : α} : FailsOnly P (Except.ok a : Except ε α) := by
  intro _ h
  cases h

/-- A fault of the kind. -/
theorem fault {fault : ε} (h : P fault) : FailsOnly P (Except.error fault : Except ε α) := by
  intro _ hfault
  obtain rfl := Except.error.inj hfault
  exact h

/-- A wider kind will do. -/
theorem imp (h : FailsOnly P first) (hPQ : ∀ fault, P fault → Q fault) : FailsOnly Q first :=
  fun fault hfault => hPQ fault (h fault hfault)

/-- A chain fails where its first step does or the rest does. -/
theorem bind (h : FailsOnly P first) {rest : α → Except ε β}
    (hrest : ∀ a, first = .ok a → FailsOnly P (rest a)) : FailsOnly P (first >>= rest) := by
  intro fault hfault
  rcases bind_eq_error_iff.mp hfault with hfirst | ⟨a, ha, hafter⟩
  · exact h fault hfirst
  · exact hrest a ha fault hafter

/-- Changing a result does not matter. -/
theorem map (h : FailsOnly P first) (f : α → β) : FailsOnly P (first.map f) :=
  fun fault hfault => h fault (map_eq_error_iff.mp hfault)

end FailsOnly

/-- An outcome that is no fault has a result. -/
theorem exists_eq_ok_of_isOk {outcome : Except ε α} (h : outcome.isOk = true) :
    ∃ result, outcome = .ok result := by
  cases outcome with
  | error fault => cases h
  | ok result => exact ⟨result, rfl⟩

end EntityQuery
