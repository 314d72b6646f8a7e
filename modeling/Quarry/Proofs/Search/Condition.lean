import Quarry.Proofs.Faults
import Quarry.Proofs.Operator.Parts
import Quarry.Search.Compiled

namespace Quarry

theorem Value.isNull_of_ne {v : Value} (h : v ≠ .null) : v.isNull = false := by
  cases v with
  | null => exact absurd rfl h
  | _ => rfl

/-- A single operand, which is null. -/
def Operands.isNull : Operands → Bool
  | one v => v.isNull
  | _ => false

def Operands.hasNullBound : Operands → Bool
  | two v w => v.isNull || w.isNull
  | _ => false

theorem Operator.reports_checkSign (key sign : String) :
    Reports (checkSign key sign) (faultIf (¬(sign.toList ≠ [] ∧ IsSign sign)) (.badSign key sign))
      fun _ => True := by
  have hsign : (sign.toList ≠ [] ∧ sign.toList.all (Invalid.signChars.toList.contains ·)) ↔
      (sign.toList ≠ [] ∧ IsSign sign) := by
    simp [IsSign]
  rw [checkSign]
  by_cases h : sign.toList ≠ [] ∧ IsSign sign
  · rw [if_pos (hsign.2 h), faultIf, if_neg (not_not_intro h)]
    exact .ok trivial
  · rw [if_neg fun h' => h (hsign.1 h'), faultIf, if_pos h]
    rfl

namespace Condition

structure Sound (c : Condition) : Prop where
  null : c.operands.isNull → c.operator = .eq ∨ c.operator = .ne
  bounds : c.operands.hasNullBound = false
  custom : c.operator = .custom →
    c.operands.isNull = false ∧ ∃ s, c.sign = some s ∧ s.toList ≠ [] ∧ Operator.IsSign s

def signFaults (key : String) (c : Condition) : List Invalid :=
  if c.operator = .custom then
    match c.sign with
    | none => [.inField key .signRequired]
    | some s => faultIf (¬(s.toList ≠ [] ∧ Operator.IsSign s)) (.badSign key s)
  else []

def faults (key : String) (c : Condition) : List Invalid :=
  faultIf (c.operands.isNull ∧ c.operator ≠ .eq ∧ c.operator ≠ .ne)
      (.inField key (.nullOperand c.operator)) ++
    faultIf c.operands.hasNullBound (.inField key (.nullBound c.operator)) ++ c.signFaults key

/-- (In)equality with null is a null check, which binds nothing. All other conditions keep their
operator and operands, and only custom operators have a sign. -/
def term (key : String) (c : Condition) : Term :=
  if c.operands.isNull then ⟨⟨key, if c.operator = .eq then .isNull else .isNotNull, none⟩, []⟩
  else ⟨⟨key, c.operator, if c.operator = .custom then c.sign else none⟩, c.operands.toList⟩

theorem signFaults_eq_nil {key : String} {c : Condition} :
    c.signFaults key = [] ↔
      (c.operator = .custom → ∃ s, c.sign = some s ∧ s.toList ≠ [] ∧ Operator.IsSign s) := by
  unfold signFaults
  split
  · rename_i hop
    split
    · rename_i hsign
      simp [hop, hsign]
    · rename_i s hsign
      simp [faultIf_eq_nil, hop, hsign]
  · rename_i hop
    simp [hop]

theorem faults_eq_nil {key : String} {c : Condition} : c.faults key = [] ↔ c.Sound := by
  rw [faults, List.append_eq_nil_iff, List.append_eq_nil_iff, faultIf_eq_nil, faultIf_eq_nil,
    signFaults_eq_nil]
  constructor
  · rintro ⟨⟨hnull, hbounds⟩, hsign⟩
    have hnull : c.operands.isNull → c.operator = .eq ∨ c.operator = .ne := by
      intro h
      by_contra hne
      exact hnull ⟨h, not_or.1 hne⟩
    refine ⟨hnull, Bool.eq_false_iff.2 hbounds, fun hop => ⟨?_, hsign hop⟩⟩
    rw [hop] at hnull
    exact Bool.eq_false_iff.2 fun h => by simpa using hnull h
  · rintro ⟨hnull, hbounds, hcustom⟩
    refine ⟨⟨?_, Bool.eq_false_iff.1 hbounds⟩, fun hop => (hcustom hop).2⟩
    rintro ⟨h, heq, hne⟩
    exact (hnull h).elim heq hne

/-- The term of a condition with one operand that is not null. -/
def single (key : String) (v : Value) : Operator → Option String → Except Invalid Term
  | .custom, none => .error (.inField key .signRequired)
  | .custom, some sign => do
    Operator.checkSign key sign
    .ok ⟨⟨key, .custom, some sign⟩, [v]⟩
  | op, _ => .ok ⟨⟨key, op, none⟩, [v]⟩

theorem compile_single {v : Value} (hv : v ≠ .null) {op : Operator}
    {sign : Option String} (h : (Operands.one v).count = op.arity) (key : String) :
    compile key ⟨op, sign, .one v, h⟩ = single key v op sign := by
  cases v with
  | null => exact absurd rfl hv
  | _ => rfl

section

variable {key : String} {op : Operator} {sign : Option String} {v w : Value}

theorem signFaults_of_ne {c : Condition} (h : c.operator ≠ .custom) : c.signFaults key = [] :=
  if_neg h

theorem reports_single {hcount : (Operands.one v).count = op.arity} :
    Reports (single key v op sign) (signFaults key ⟨op, sign, .one v, hcount⟩)
      (· = ⟨⟨key, op, if op = .custom then sign else none⟩, [v]⟩) := by
  cases op with
  | custom =>
    cases sign with
    | none => rfl
    | some s => exact (Operator.reports_checkSign key s).bind_ok fun _ _ => rfl
  | _ => exact .ok rfl

theorem reports_compile (key : String) (c : Condition) :
    Reports (c.compile key) (c.faults key) (· = c.term key) := by
  obtain ⟨op, sign, operands, hcount⟩ := c
  cases operands with
  | none =>
    have hop : op ≠ .custom := by
      rintro rfl
      cases hcount
    rw [faults, term, signFaults_of_ne hop, if_neg hop]
    exact .ok rfl
  | one v =>
    by_cases hv : v = .null
    · subst hv
      cases op with
      | eq => exact .ok rfl
      | ne => exact .ok rfl
      | _ => rfl
    · have hnull : (Operands.one v).isNull = false := v.isNull_of_ne hv
      have hbounds : (Operands.one v).hasNullBound = false := rfl
      rw [compile_single hv, faults, term]
      simp only [hnull, hbounds, faultIf]
      exact reports_single
  | two v w =>
    have hop : op ≠ .custom := by
      rintro rfl
      cases hcount
    rw [faults, term, signFaults_of_ne hop, if_neg hop]
    by_cases hnull : v.isNull ∨ w.isNull
    · have hbounds : (Operands.two v w).hasNullBound := by simpa [Operands.hasNullBound] using hnull
      simp only [compile, faultIf, if_pos hnull, if_pos hbounds]
      rfl
    · have hbounds : ¬(Operands.two v w).hasNullBound := by
        simpa [Operands.hasNullBound] using hnull
      simp only [compile, faultIf, if_neg hnull, if_neg hbounds]
      exact .ok rfl

end

end Condition

end Quarry
