import Mathlib.Data.List.Forall2
import Quarry.Proofs.Checked

/-!
Checks that report the first of their faults. Such a check is told by the list of all faults that
are there, in the order in which it comes to them, and by what holds of its result if there are
none.
-/
namespace Quarry

section

variable {α β ε ε' : Type}

/-- The error is the first fault, and without faults there is a result, of which `P` holds. -/
def Reports (r : Except ε α) (faults : List ε) (P : α → Prop) : Prop :=
  match faults with
  | [] => ∃ a, r = .ok a ∧ P a
  | e :: _ => r = .error e

def faultIf (p : Prop) [Decidable p] (e : ε) : List ε :=
  if p then [e] else []

theorem faultIf_eq_nil {p : Prop} [Decidable p] {e : ε} : faultIf p e = [] ↔ ¬p := by
  by_cases h : p <;> simp [faultIf, h]

/-- A check by itself has one fault, if it fails. -/
def faultsOf : Except ε α → List ε
  | .ok _ => []
  | .error e => [e]

theorem faultsOf_eq_nil {r : Except ε Unit} : faultsOf r = [] ↔ r = .ok () := by
  cases r with
  | error e => exact ⟨nofun, nofun⟩
  | ok => exact ⟨fun _ => rfl, fun _ => rfl⟩

namespace Reports

variable {r : Except ε α} {es fs : List ε} {P P' : α → Prop} {Q : β → Prop}

theorem ok {a : α} (h : P a) : Reports (.ok a : Except ε α) [] P :=
  ⟨a, rfl, h⟩

theorem of_result (r : Except ε α) : Reports r (faultsOf r) fun _ => True := by
  cases r with
  | error e => rfl
  | ok a => exact ok trivial

theorem mono (h : Reports r es P) (hP : ∀ a, P a → P' a) : Reports r es P' := by
  cases es with
  | nil =>
    obtain ⟨a, ha, hPa⟩ := h
    exact ⟨a, ha, hP a hPa⟩
  | cons e es => exact h

theorem bind {f : α → Except ε β} (h : Reports r es P) (hf : ∀ a, P a → Reports (f a) fs Q) :
    Reports (r >>= f) (es ++ fs) Q := by
  cases es with
  | nil =>
    obtain ⟨a, rfl, hPa⟩ := h
    exact hf a hPa
  | cons e es =>
    cases h
    rfl

theorem bind_ok {f : α → β} (h : Reports r es P) (hf : ∀ a, P a → Q (f a)) :
    Reports (r >>= fun a => .ok (f a)) es Q := by
  have hbind := h.bind (f := fun a => .ok (f a)) fun a ha => .ok (hf a ha)
  rwa [List.append_nil] at hbind

theorem map {f : α → β} (h : Reports r es P) (hf : ∀ a, P a → Q (f a)) :
    Reports (r.map f) es Q := by
  cases es with
  | nil =>
    obtain ⟨a, rfl, hPa⟩ := h
    exact ⟨f a, rfl, hf a hPa⟩
  | cons e es =>
    cases h
    rfl

theorem mapError {f : ε → ε'} (h : Reports r es P) : Reports (r.mapError f) (es.map f) P := by
  cases es with
  | nil =>
    obtain ⟨a, rfl, hPa⟩ := h
    exact ⟨a, rfl, hPa⟩
  | cons e es =>
    cases h
    rfl

/-- A check in front of another one. -/
theorem checked {p : Prop} [Decidable p] {e : ε} (h : ¬p → Reports r es P) :
    Reports (if p then .error e else r) (faultIf p e ++ es) P := by
  by_cases hp : p
  · rw [if_pos hp, faultIf, if_pos hp]
    rfl
  · rw [if_neg hp, faultIf, if_neg hp]
    exact h hp

/-- A list of checks has the faults of its members, one after another. -/
theorem mapM {f : α → Except ε β} {faults : α → List ε} {R : α → β → Prop} {xs : List α}
    (h : ∀ x ∈ xs, Reports (f x) (faults x) (R x)) :
    Reports (xs.mapM f) (xs.flatMap faults) (List.Forall₂ R xs) := by
  induction xs with
  | nil => exact .ok .nil
  | cons x xs ih =>
    rw [List.mapM_cons, List.flatMap_cons]
    apply (h x (.head _)).bind
    intro y hy
    have hrest := ih fun z hz => h z (.tail _ hz)
    exact hrest.map (f := (y :: ·)) fun ys hys => List.Forall₂.cons hy hys

theorem mapM_eq {f : α → Except ε β} {faults : α → List ε} {g : α → β} {xs : List α}
    (h : ∀ x, Reports (f x) (faults x) (· = g x)) :
    Reports (xs.mapM f) (xs.flatMap faults) (· = xs.map g) := by
  apply (mapM fun x _ => h x).mono
  intro ys hys
  induction hys with
  | nil => rfl
  | cons hy _ ih => rw [hy, ih, List.map_cons]

theorem exists_ok_iff (h : Reports r es P) : (∃ a, r = .ok a) ↔ es = [] := by
  cases es with
  | nil =>
    obtain ⟨a, ha, -⟩ := h
    exact ⟨fun _ => rfl, fun _ => ⟨a, ha⟩⟩
  | cons e es =>
    cases h
    constructor
    · rintro ⟨a, ha⟩
      cases ha
    · exact nofun

theorem of_ok (h : Reports r es P) {a : α} (ha : r = .ok a) : P a := by
  cases es with
  | nil =>
    obtain ⟨b, hb, hPb⟩ := h
    cases ha.symm.trans hb
    exact hPb
  | cons e es => cases ha.symm.trans h

theorem error_iff (h : Reports r es P) {e : ε} : r = .error e ↔ es.head? = some e := by
  cases es with
  | nil =>
    obtain ⟨a, rfl, -⟩ := h
    exact ⟨nofun, nofun⟩
  | cons e' es =>
    cases h
    simp

end Reports

/-- The first fault of a list is the first fault of the first member that has one. -/
theorem head?_flatMap_eq_some {f : α → List ε} {xs : List α} {e : ε} :
    (xs.flatMap f).head? = some e ↔
      ∃ before x after, xs = before ++ x :: after ∧ (∀ y ∈ before, f y = []) ∧
        (f x).head? = some e := by
  induction xs with
  | nil => simp
  | cons x xs ih =>
    rw [List.flatMap_cons, List.head?_append]
    constructor
    · intro h
      cases hx : f x with
      | nil =>
        rw [hx] at h
        obtain ⟨before, y, after, rfl, hbefore, hy⟩ := ih.1 h
        exact ⟨x :: before, y, after, rfl, List.forall_mem_cons.2 ⟨hx, hbefore⟩, hy⟩
      | cons e' es =>
        rw [hx] at h
        exact ⟨[], x, xs, rfl, nofun, hx ▸ h⟩
    · rintro ⟨before, y, after, hxs, hbefore, hy⟩
      cases before with
      | nil =>
        cases hxs
        rw [hy]
        rfl
      | cons z before =>
        cases hxs
        obtain ⟨hz, hbefore⟩ := List.forall_mem_cons.1 hbefore
        rw [hz]
        exact ih.2 ⟨before, y, after, rfl, hbefore, hy⟩

end

end Quarry
