import Mathlib.Data.List.Forall2
import Quarry.Invalid

namespace Quarry

section

variable {α β ε : Type} {r : Except ε α} {b : β}

theorem of_bind {f : α → Except ε β} (h : r >>= f = .ok b) : ∃ a, r = .ok a ∧ f a = .ok b := by
  cases r with
  | error e => cases h
  | ok a => exact ⟨a, rfl, h⟩

theorem of_map {f : α → β} (h : r.map f = .ok b) : ∃ a, r = .ok a ∧ f a = b := by
  cases r with
  | error e => cases h
  | ok a =>
    cases h
    exact ⟨a, rfl, rfl⟩

theorem of_toOption {a : α} (h : r.toOption = some a) : r = .ok a := by
  cases r with
  | error e => cases h
  | ok b =>
    cases h
    rfl

theorem of_naming {r : Except Name.Fault α} {a : α} (h : naming r = .ok a) : r = .ok a := by
  cases r with
  | error e => cases h
  | ok a =>
    cases h
    rfl

/-- Each result of a list of checks is that of the check in its place. -/
theorem mapM_eq_ok_iff {f : α → Except ε β} {xs : List α} {ys : List β} :
    xs.mapM f = .ok ys ↔ List.Forall₂ (fun x y => f x = .ok y) xs ys := by
  constructor
  · intro h
    induction xs generalizing ys with
    | nil =>
      cases h
      exact .nil
    | cons x xs ih =>
      rw [List.mapM_cons] at h
      obtain ⟨y, hy, h⟩ := of_bind h
      obtain ⟨zs, hzs, h⟩ := of_bind h
      cases h
      exact .cons hy (ih hzs)
  · intro h
    induction h with
    | nil => rfl
    | cons hy h ih =>
      rw [List.mapM_cons, hy, ih]
      rfl

theorem exists_mem_of_forall₂ {R : α → β → Prop} {xs : List α} {ys : List β}
    (h : List.Forall₂ R xs ys) {y : β} (hy : y ∈ ys) : ∃ x ∈ xs, R x y := by
  induction h with
  | nil => cases hy
  | cons hxy h ih =>
    cases hy with
    | head => exact ⟨_, .head _, hxy⟩
    | tail _ hy =>
      obtain ⟨x, hx, hxy⟩ := ih hy
      exact ⟨x, .tail _ hx, hxy⟩

theorem exists_forall₂ {R : α → β → Prop} {xs : List α} (h : ∀ x ∈ xs, ∃ y, R x y) :
    ∃ ys, List.Forall₂ R xs ys := by
  induction xs with
  | nil => exact ⟨[], .nil⟩
  | cons x xs ih =>
    obtain ⟨y, hy⟩ := h x List.mem_cons_self
    obtain ⟨ys, hys⟩ := ih fun x' hx' => h x' (List.mem_cons_of_mem x hx')
    exact ⟨y :: ys, .cons hy hys⟩

/-- All results of a list of checks come from one of the checks. -/
theorem exists_of_mapM {f : α → Except ε β} {xs : List α} {ys : List β} (h : xs.mapM f = .ok ys)
    {y : β} (hy : y ∈ ys) : ∃ x ∈ xs, f x = .ok y :=
  exists_mem_of_forall₂ (mapM_eq_ok_iff.1 h) hy

/-- What each check tells of its result is told of all results in their order. -/
theorem map_of_mapM {γ : Type} {f : α → Except ε β} {p : β → γ} {q : α → γ} {xs : List α}
    {ys : List β} (hpq : ∀ x y, f x = .ok y → p y = q x) (h : xs.mapM f = .ok ys) :
    ys.map p = xs.map q := by
  induction xs generalizing ys with
  | nil =>
    cases h
    rfl
  | cons x xs ih =>
    rw [List.mapM_cons] at h
    obtain ⟨y, hy, h⟩ := of_bind h
    obtain ⟨zs, hzs, h⟩ := of_bind h
    cases h
    rw [List.map_cons, List.map_cons, hpq x y hy, ih hzs]

/-- Lists that are made one after another are made from the list of all that they are made of. -/
theorem mapM_flatMap {γ : Type} {f : α → Except ε (List β)} {g : γ → Except ε β} {h : α → List γ}
    {xs : List α} {yss : List (List β)} (hf : ∀ x ys, f x = .ok ys → (h x).mapM g = .ok ys)
    (hxs : xs.mapM f = .ok yss) : (xs.flatMap h).mapM g = .ok yss.flatten := by
  induction xs generalizing yss with
  | nil =>
    cases hxs
    rfl
  | cons x xs ih =>
    rw [List.mapM_cons] at hxs
    obtain ⟨ys, hys, hxs⟩ := of_bind hxs
    obtain ⟨rest, hrest, hxs⟩ := of_bind hxs
    cases hxs
    rw [List.flatMap_cons, List.mapM_append, hf x ys hys, ih hrest]
    rfl

end

end Quarry
