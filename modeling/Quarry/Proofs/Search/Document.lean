import Quarry.Proofs.Search.Compiled
import Quarry.Search.Document

namespace Quarry

theorem Value.ofJson_arr (items : List Json) : ofJson (.arr items) = .array (items.map ofJson) := by
  rw [ofJson, ofJsonList_eq_map]

namespace Operator

/-- The shape of an operand in a document. Operators that are not listed take any document. -/
def takes : Operator → Json → Bool
  | between, .arr [_, _] | notBetween, .arr [_, _] => true
  | inList, .arr _ | notInList, .arr _ => true
  | custom, .obj fields =>
    ((fields.lookup "sign").bind Json.str?).isSome && (fields.lookup "value").isSome
  | custom, .arr [sign, _] => sign.str?.isSome
  | isNull, .bool _ | isNotNull, .bool _ => true
  | between, _ | notBetween, _ | inList, _ | notInList, _ | custom, _ | isNull, _
  | isNotNull, _ => false
  | _, _ => true

/-- What is said of an operand that has another shape. -/
def shapeFault : Operator → Invalid
  | inList => .listExpected inList
  | notInList => .listExpected notInList
  | custom => .signAndValueExpected
  | isNull => .flagExpected isNull
  | isNotNull => .flagExpected isNotNull
  | op => .pairExpected op

end Operator

namespace Condition

/-- The condition that an operator says with an operand. -/
inductive Reads : Operator → Json → Condition → Prop where
  | between (low high : Json) :
      Reads .between (.arr [low, high]) (.between (Value.ofJson low) (Value.ofJson high))
  | notBetween (low high : Json) :
      Reads .notBetween (.arr [low, high]) (.notBetween (Value.ofJson low) (Value.ofJson high))
  | inList (items : List Json) : Reads .inList (.arr items) (.inList (items.map Value.ofJson))
  | notInList (items : List Json) :
      Reads .notInList (.arr items) (.notInList (items.map Value.ofJson))
  | signed {fields : List (String × Json)} {sign : String} {value : Json}
      (hsign : fields.lookup "sign" = some (.str sign))
      (hvalue : fields.lookup "value" = some value) :
      Reads .custom (.obj fields) (.custom sign (Value.ofJson value))
  | pair (sign : String) (value : Json) :
      Reads .custom (.arr [.str sign, value]) (.custom sign (Value.ofJson value))
  | isNull (b : Bool) : Reads .isNull (.bool b) (if b then .isNull else .isNotNull)
  | isNotNull (b : Bool) : Reads .isNotNull (.bool b) (if b then .isNotNull else .isNull)
  | compare {op : Operator} (operand : Json) (harity : op.arity = 1)
      (hop : op ∉ [.inList, .notInList, .custom]) :
      Reads op operand (.compare op (Value.ofJson operand) harity)

def operandFaults (op : Operator) (operand : Json) : List Invalid :=
  faultIf (¬op.takes operand) op.shapeFault

theorem operandFaults_eq_nil {op : Operator} {operand : Json} :
    operandFaults op operand = [] ↔ op.takes operand := by
  rw [operandFaults, faultIf_eq_nil, not_not]

theorem reports_custom (operand : Json) :
    Reports (ofOperand .custom operand) (operandFaults .custom operand)
      (Reads .custom operand) := by
  cases operand with
  | arr items =>
    match items with
    | [j, value] =>
      cases j with
      | str sign => exact .ok (.pair sign value)
      | _ => rfl
    | [] | [_] | _ :: _ :: _ :: _ => rfl
  | obj fields =>
    rw [ofOperand, signAndValue?, Json.field?, Json.field?, operandFaults, Operator.takes]
    cases hsign : fields.lookup "sign" with
    | none => rfl
    | some j =>
      cases hvalue : fields.lookup "value" with
      | none => cases j <;> rfl
      | some value =>
        cases j with
        | str sign => exact .ok (.signed hsign hvalue)
        | _ => rfl
  | _ => rfl

theorem reports_ofOperand (op : Operator) (operand : Json) :
    Reports (ofOperand op operand) (operandFaults op operand) (Reads op operand) := by
  cases op with
  | between =>
    cases operand with
    | arr items =>
      match items with
      | [low, high] => exact .ok (.between low high)
      | [] | [_] | _ :: _ :: _ :: _ => rfl
    | _ => rfl
  | notBetween =>
    cases operand with
    | arr items =>
      match items with
      | [low, high] => exact .ok (.notBetween low high)
      | [] | [_] | _ :: _ :: _ :: _ => rfl
    | _ => rfl
  | inList =>
    cases operand with
    | arr items =>
      rw [ofOperand, Value.ofJson_arr]
      exact .ok (.inList items)
    | _ => rfl
  | notInList =>
    cases operand with
    | arr items =>
      rw [ofOperand, Value.ofJson_arr]
      exact .ok (.notInList items)
    | _ => rfl
  | custom => exact reports_custom operand
  | isNull =>
    cases operand with
    | bool b => exact .ok (.isNull b)
    | _ => rfl
  | isNotNull =>
    cases operand with
    | bool b => exact .ok (.isNotNull b)
    | _ => rfl
  | _ => exact .ok (.compare operand rfl (by decide))

/-- The condition that a field of an operator object says: its name is the tag of the operator. -/
def Said (field : String × Json) (c : Condition) : Prop :=
  ∃ op : Operator, op.tag = field.1 ∧ Reads op field.2 c

def documentFaults (field : String × Json) : List Invalid :=
  match Operator.ofTag? field.1 with
  | none => [.unknownOperator field.1]
  | some op => operandFaults op field.2

theorem reports_ofJson (field : String × Json) :
    Reports (ofJson field.1 field.2) (documentFaults field) (Said field) := by
  obtain ⟨tag, operand⟩ := field
  rw [ofJson, Operator.ofTag, documentFaults]
  cases htag : Operator.ofTag? tag with
  | none => rfl
  | some op =>
    apply (reports_ofOperand op operand).mono
    intro c hc
    exact ⟨op, Operator.tag_of_ofTag? htag, hc⟩

theorem documentFaults_eq_nil {field : String × Json} :
    documentFaults field = [] ↔ ∃ op : Operator, op.tag = field.1 ∧ op.takes field.2 := by
  obtain ⟨tag, operand⟩ := field
  rw [documentFaults]
  constructor
  · intro h
    split at h
    · cases h
    · rename_i op htag
      exact ⟨op, Operator.tag_of_ofTag? htag, operandFaults_eq_nil.1 h⟩
  · rintro ⟨op, rfl, h⟩
    rw [Operator.ofTag?_tag]
    exact operandFaults_eq_nil.2 h

end Condition

namespace Json

def isScalar : Json → Bool
  | arr _ | obj _ => false
  | _ => true

def IsOperatorObject (j : Json) : Prop :=
  ∃ ops, j = obj ops ∧ ∀ o ∈ ops, ∃ op : Operator, op.tag = o.1 ∧ op.takes o.2

def IsFilter (j : Json) : Prop :=
  j.isScalar ∨ j.IsOperatorObject ∨ ∃ items, j = arr items ∧ ∀ item ∈ items, item.IsOperatorObject

def IsSearch (j : Json) : Prop :=
  ∃ fields, j = obj fields ∧ ∀ f ∈ fields, f.2.IsFilter

def memberFaults : Json → List Invalid
  | obj ops => ops.flatMap Condition.documentFaults
  | _ => [.operatorObjectExpected]

def filterFaults : Json → List Invalid
  | obj ops => ops.flatMap Condition.documentFaults
  | arr items => items.flatMap memberFaults
  | _ => []

theorem memberFaults_eq_nil {j : Json} : j.memberFaults = [] ↔ j.IsOperatorObject := by
  cases j with
  | obj ops => simp [memberFaults, IsOperatorObject, Condition.documentFaults_eq_nil]
  | _ => simp [memberFaults, IsOperatorObject]

theorem filterFaults_eq_nil {j : Json} : j.filterFaults = [] ↔ j.IsFilter := by
  cases j with
  | obj ops =>
    simp [filterFaults, IsFilter, isScalar, IsOperatorObject, Condition.documentFaults_eq_nil]
  | arr items => simp [filterFaults, IsFilter, isScalar, IsOperatorObject, memberFaults_eq_nil]
  | _ => simp [filterFaults, IsFilter, isScalar]

end Json

/-- The conditions that an operator object says, one for each of its fields. -/
def Json.Says (j : Json) (cs : List Condition) : Prop :=
  ∃ ops, j = .obj ops ∧ List.Forall₂ Condition.Said ops cs

namespace Filter

/-- The filter that a document says. -/
inductive Reads : Json → Filter → Prop where
  | value {j : Json} (h : j.isScalar) : Reads j (.value (Value.ofJson j))
  | object {j : Json} {cs : List Condition} (h : j.Says cs) : Reads j (.object cs)
  | objects {items : List Json} {css : List (List Condition)}
      (h : List.Forall₂ Json.Says items css) : Reads (.arr items) (.objects css)

theorem reports_conditionsOfJson (field : String) (ops : List (String × Json)) :
    Reports (conditionsOfJson field ops)
      ((ops.flatMap Condition.documentFaults).map (.inField field))
      (List.Forall₂ Condition.Said ops) := by
  rw [List.map_flatMap]
  exact .mapM fun o _ => (Condition.reports_ofJson o).mapError

theorem reports_memberOfJson (field : String) (j : Json) :
    Reports (memberOfJson field j) (j.memberFaults.map (.inField field)) j.Says := by
  cases j with
  | obj ops => exact (reports_conditionsOfJson field ops).mono fun cs hcs => ⟨ops, rfl, hcs⟩
  | _ => rfl

theorem reports_ofJson (field : String) (j : Json) :
    Reports (ofJson field j) (j.filterFaults.map (.inField field)) (Reads j) := by
  cases j with
  | obj ops => exact (reports_conditionsOfJson field ops).map fun cs hcs => .object ⟨ops, rfl, hcs⟩
  | arr items =>
    rw [Json.filterFaults, List.map_flatMap]
    exact (Reports.mapM fun j _ => reports_memberOfJson field j).map fun css hcss => .objects hcss
  | _ => exact .ok (.value rfl)

end Filter

namespace Search

/-- The entry that a field says. -/
def Said (field : String × Json) (e : String × Filter) : Prop :=
  e.1 = field.1 ∧ Filter.Reads field.2 e.2

def insertAll (s : Search) (es : List (String × Filter)) : Search :=
  es.foldl (fun s e => s.insert e.1 e.2) s

def documentFaults (fields : List (String × Json)) : List Invalid :=
  fields.flatMap fun f => f.2.filterFaults.map (.inField f.1)

theorem reports_addFields (s : Search) (fields : List (String × Json)) :
    Reports (s.addFields fields) (documentFaults fields)
      fun s' => ∃ es, List.Forall₂ Said fields es ∧ s' = s.insertAll es := by
  induction fields generalizing s with
  | nil => exact .ok ⟨[], .nil, rfl⟩
  | cons f fields ih =>
    obtain ⟨field, raw⟩ := f
    rw [addFields]
    apply (Filter.reports_ofJson field raw).bind
    intro f hf
    apply (ih (s.insert field f)).mono
    rintro _ ⟨es, hes, rfl⟩
    exact ⟨(field, f) :: es, .cons ⟨rfl, hf⟩ hes, rfl⟩

theorem replace_of_not_mem {key : String} {f : Filter} {es : List (String × Filter)}
    (h : key ∉ es.map Prod.fst) : replace key f es = es ++ [(key, f)] := by
  induction es with
  | nil => rfl
  | cons e es ih =>
    obtain ⟨k, g⟩ := e
    rw [List.map_cons, List.mem_cons, not_or] at h
    rw [replace, if_neg (Ne.symm h.1), ih h.2]
    rfl

/-- Fields with names of their own come after those that are there. -/
theorem entries_insertAll {s : Search} {es : List (String × Filter)}
    (h : ((s.entries ++ es).map Prod.fst).Nodup) : (s.insertAll es).entries = s.entries ++ es := by
  induction es generalizing s with
  | nil => exact (List.append_nil _).symm
  | cons e es ih =>
    have hnew : e.1 ∉ s.entries.map Prod.fst := by
      rw [List.map_append, List.nodup_append] at h
      intro hmem
      exact h.2.2 e.1 hmem e.1 (.head _) rfl
    have hinsert : (s.insert e.1 e.2).entries = s.entries ++ [e] := replace_of_not_mem hnew
    have hassoc : s.entries ++ [e] ++ es = s.entries ++ e :: es := by simp
    have htail := ih (s := s.insert e.1 e.2) (by rwa [hinsert, hassoc])
    rwa [hinsert, hassoc] at htail

theorem keys_of_said {fields : List (String × Json)} {es : List (String × Filter)}
    (h : List.Forall₂ Said fields es) : es.map Prod.fst = fields.map Prod.fst := by
  induction h with
  | nil => rfl
  | cons he _ ih => rw [List.map_cons, List.map_cons, he.1, ih]

theorem documentFaults_eq_nil {fields : List (String × Json)} :
    documentFaults fields = [] ↔ ∀ f ∈ fields, f.2.IsFilter := by
  simp only [documentFaults, List.flatMap_eq_nil_iff, List.map_eq_nil_iff, Json.filterFaults_eq_nil]

theorem reports_ofJson (fields : List (String × Json)) :
    Reports (ofJson (.obj fields)) (documentFaults fields)
      fun s => ∃ es, List.Forall₂ Said fields es ∧ s = empty.insertAll es :=
  reports_addFields empty fields

theorem exists_ofJson_iff (J : Json) : (∃ s, ofJson J = .ok s) ↔ J.IsSearch := by
  cases J with
  | obj fields =>
    rw [(reports_ofJson fields).exists_ok_iff, documentFaults_eq_nil]
    simp [Json.IsSearch]
  | _ => simp [ofJson, Json.IsSearch]

theorem head?_documentFaults_eq_some {fields : List (String × Json)} {why : Invalid} :
    (documentFaults fields).head? = some why ↔
      ∃ before field raw after cause, fields = before ++ (field, raw) :: after ∧
        (∀ f ∈ before, f.2.IsFilter) ∧ raw.filterFaults.head? = some cause ∧
        why = .inField field cause := by
  simp only [documentFaults, head?_flatMap_eq_some, List.map_eq_nil_iff, Json.filterFaults_eq_nil,
    List.head?_map, Option.map_eq_some_iff]
  constructor
  · rintro ⟨before, ⟨field, raw⟩, after, hfields, hbefore, cause, hcause, rfl⟩
    exact ⟨before, field, raw, after, cause, hfields, hbefore, hcause, rfl⟩
  · rintro ⟨before, field, raw, after, cause, hfields, hbefore, hcause, rfl⟩
    exact ⟨before, (field, raw), after, hfields, hbefore, cause, hcause, rfl⟩

/-- A document is read exactly if it has the shape of a search, which then has an entry for each
field, in document order; the names of the fields of a document are distinct. If an object cannot
be read, then the error names the first field that is no filter, and the first fault in it. -/
theorem ofJson_decides (J : Json) :
    ((∃ s, ofJson J = .ok s) ↔ J.IsSearch) ∧
    (∀ fields s, J = .obj fields → (fields.map Prod.fst).Nodup → ofJson J = .ok s →
      List.Forall₂ Said fields s.entries ∧
        ∀ e ∈ s.conditions, e.2.operands.toList.length = e.2.operator.arity) ∧
    ∀ fields why, J = .obj fields → (ofJson J = .error why ↔
      ∃ before field raw after cause, fields = before ++ (field, raw) :: after ∧
        (∀ f ∈ before, f.2.IsFilter) ∧ raw.filterFaults.head? = some cause ∧
        why = .inField field cause ∧
        why.message = "field `" ++ field ++ "`: " ++ cause.message) := by
  refine ⟨exists_ofJson_iff J, ?_, ?_⟩
  · rintro fields s rfl hnodup hs
    obtain ⟨es, hes, rfl⟩ := (reports_ofJson fields).of_ok hs
    have hentries : (empty.insertAll es).entries = es := by
      apply entries_insertAll
      rwa [entries_empty, List.nil_append, keys_of_said hes]
    rw [hentries]
    exact ⟨hes, fun e _ => e.2.operands.length_toList.trans e.2.count_operands⟩
  · rintro fields why rfl
    rw [(reports_ofJson fields).error_iff, head?_documentFaults_eq_some]
    constructor
    · rintro ⟨before, field, raw, after, cause, hfields, hbefore, hcause, rfl⟩
      exact ⟨before, field, raw, after, cause, hfields, hbefore, hcause, rfl, rfl⟩
    · rintro ⟨before, field, raw, after, cause, hfields, hbefore, hcause, hwhy, -⟩
      exact ⟨before, field, raw, after, cause, hfields, hbefore, hcause, hwhy⟩

def visits : List (String × Json) :=
  [("state", .str "new"), ("ended", .obj [("$isNull", .bool false)]),
    ("ip", .obj [("$custom", .arr [.str "<<", .str "10.0.0.0/8"]), ("$ne", .null)])]

/-- The second field and the third one are no filters. -/
def tornVisits : List (String × Json) :=
  [("state", .str "new"),
    ("ended", .arr [.obj [("$gt", .int 1), ("$between", .arr [.int 1])], .null]),
    ("ip", .obj [("$near", .int 1)])]

theorem ofJson_decides_visits :
    (∃ s, ofJson (.obj visits) = .ok s ∧ List.Forall₂ Said visits s.entries) ∧
      ofJson (.obj tornVisits) = .error (.inField "ended" (.pairExpected .between)) := by
  obtain ⟨-, hok, -⟩ := ofJson_decides (.obj visits)
  obtain ⟨-, -, herror⟩ := ofJson_decides (.obj tornVisits)
  have hread : (ofJson (.obj visits)).toOption.isSome := by decide +kernel
  obtain ⟨s, hs⟩ := Option.isSome_iff_exists.1 hread
  have hs := of_toOption hs
  refine ⟨⟨s, hs, (hok visits s rfl (by decide) hs).1⟩, (herror tornVisits _ rfl).2 ?_⟩
  refine ⟨[("state", .str "new")], "ended", _, _, .pairExpected .between, rfl, ?_, rfl, rfl, rfl⟩
  exact List.forall_mem_singleton.2 (.inl rfl)

end Search

end Quarry
