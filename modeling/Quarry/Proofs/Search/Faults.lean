import Quarry.Proofs.Search.Compiled

namespace Quarry

namespace Filter

/-- There is an operator in each operator object, and an object in each list of them. -/
def Filled : Filter → Prop
  | value _ => True
  | object cs => cs ≠ []
  | objects css => css ≠ [] ∧ ∀ cs ∈ css, cs ≠ []

def objectFaults (key : String) (cs : List Condition) : List Invalid :=
  faultIf (cs = []) (.inField key .noOperators) ++ cs.flatMap (·.faults key)

def faults (key : String) : Filter → List Invalid
  | value _ => []
  | object cs => objectFaults key cs
  | objects css =>
    faultIf (css = []) (.inField key .noOperatorObjects) ++ css.flatMap (objectFaults key)

theorem objectFaults_eq_nil {key : String} {cs : List Condition} :
    objectFaults key cs = [] ↔ cs ≠ [] ∧ ∀ c ∈ cs, c.Sound := by
  simp only [objectFaults, List.append_eq_nil_iff, faultIf_eq_nil, List.flatMap_eq_nil_iff,
    Condition.faults_eq_nil, ne_eq]

theorem sound_compare_eq (v : Value) : (Condition.compare .eq v rfl).Sound :=
  ⟨fun _ => .inl rfl, rfl, nofun⟩

theorem faults_eq_nil {key : String} {f : Filter} :
    f.faults key = [] ↔ f.Filled ∧ ∀ c ∈ f.conditions, c.Sound := by
  cases f with
  | value v => simp [faults, Filled, conditions, sound_compare_eq]
  | object cs => exact objectFaults_eq_nil
  | objects css =>
    simp only [faults, List.append_eq_nil_iff, faultIf_eq_nil, List.flatMap_eq_nil_iff,
      objectFaults_eq_nil, Filled, conditions, List.forall_mem_flatten]
    constructor
    · rintro ⟨hne, h⟩
      exact ⟨⟨hne, fun cs hcs => (h cs hcs).1⟩, fun cs hcs => (h cs hcs).2⟩
    · rintro ⟨⟨hne, hfilled⟩, hsound⟩
      exact ⟨hne, fun cs hcs => ⟨hfilled cs hcs, hsound cs hcs⟩⟩

theorem reports_compileObject (key : String) (cs : List Condition) :
    Reports (compileObject key cs) (objectFaults key cs) (· = cs.map (·.term key)) :=
  .checked fun _ => .mapM_eq (Condition.reports_compile key)

theorem reports_compile (key : String) (f : Filter) :
    Reports (f.compile key) (f.faults key) (· = f.conditions.map (·.term key)) := by
  cases f with
  | value v => cases v <;> exact .ok rfl
  | object cs => exact reports_compileObject key cs
  | objects css =>
    apply Reports.checked
    intro _
    apply (Reports.mapM_eq (reports_compileObject key)).bind_ok
    rintro _ rfl
    exact List.map_flatten.symm

end Filter

namespace Search

structure Sound (s : Search) : Prop where
  names : ∀ e ∈ s.entries, Name.checkField e.1 = .ok ()
  filled : ∀ e ∈ s.entries, e.2.Filled
  conditions : ∀ e ∈ s.entries, ∀ c ∈ e.2.conditions, c.Sound

def nameFaults (key : String) : List Invalid :=
  faultsOf (naming (Name.checkField key))

def faults (s : Search) : List Invalid :=
  s.entries.flatMap fun e => nameFaults e.1 ++ e.2.faults e.1

def terms (s : Search) : List Term :=
  s.conditions.map fun e => e.2.term e.1

theorem nameFaults_eq_nil {key : String} : nameFaults key = [] ↔ Name.checkField key = .ok () := by
  rw [nameFaults, faultsOf_eq_nil]
  cases Name.checkField key with
  | error why => exact ⟨nofun, nofun⟩
  | ok => exact ⟨fun _ => rfl, fun _ => rfl⟩

theorem faults_eq_nil {s : Search} : s.faults = [] ↔ s.Sound := by
  simp only [faults, List.flatMap_eq_nil_iff, List.append_eq_nil_iff, nameFaults_eq_nil,
    Filter.faults_eq_nil]
  constructor
  · intro h
    exact ⟨fun e he => (h e he).1, fun e he => (h e he).2.1, fun e he => (h e he).2.2⟩
  · rintro ⟨hnames, hfilled, hconditions⟩ e he
    exact ⟨hnames e he, hfilled e he, hconditions e he⟩

theorem reports_compile (s : Search) : Reports s.compile s.faults (· = s.terms) := by
  have hentry : ∀ e, Reports (compileEntry e) (nameFaults e.1 ++ e.2.faults e.1)
      (· = e.2.conditions.map (·.term e.1)) :=
    fun e => (Reports.of_result _).bind fun _ _ => e.2.reports_compile e.1
  apply (Reports.mapM_eq hentry).bind_ok
  rintro _ rfl
  rw [terms, conditions, List.map_flatMap, List.flatMap_def]
  simp only [List.map_map, Function.comp_def]

end Search

namespace Group

def searches (g : Group) : List Search :=
  g.search :: g.alternatives.getD []

structure Sound (g : Group) : Prop where
  searches : ∀ s ∈ g.searches, s.Sound
  count : ∀ list, g.alternatives = some list → 2 ≤ list.length
  alternatives : ∀ list, g.alternatives = some list → ∀ s ∈ list, s.terms ≠ []

def alternativesFaults : Nat → List Search → List Invalid
  | _, [] => []
  | index, s :: rest =>
    s.faults ++
      (faultIf (s.terms = []) (.emptyAlternative index) ++ alternativesFaults (index + 1) rest)

def faults (g : Group) : List Invalid :=
  g.search.faults ++
    match g.alternatives with
    | none => []
    | some list =>
      faultIf (list.length < 2) (.fewAlternatives list.length) ++ alternativesFaults 0 list

theorem reports_compileAlternatives (index : Nat) (ss : List Search) :
    Reports (compileAlternatives index ss) (alternativesFaults index ss)
      (· = ss.map Search.terms) := by
  induction ss generalizing index with
  | nil => exact .ok rfl
  | cons s ss ih =>
    rw [compileAlternatives, alternativesFaults]
    apply s.reports_compile.bind
    rintro _ rfl
    apply Reports.checked
    intro _
    apply (ih (index + 1)).bind_ok
    rintro _ rfl
    rfl

theorem reports_compile (g : Group) :
    Reports g.compile g.faults
      (· = .ofTerms g.search.terms ((g.alternatives.getD []).map Search.terms)) := by
  obtain ⟨search, alternatives⟩ := g
  rw [compile, faults]
  apply search.reports_compile.bind
  rintro _ rfl
  cases alternatives with
  | none => exact .ok rfl
  | some list =>
    apply Reports.checked
    intro _
    apply (reports_compileAlternatives 0 list).bind_ok
    rintro _ rfl
    rfl

theorem alternativesFaults_eq_nil {index : Nat} {ss : List Search} :
    alternativesFaults index ss = [] ↔ (∀ s ∈ ss, s.Sound) ∧ ∀ s ∈ ss, s.terms ≠ [] := by
  induction ss generalizing index with
  | nil => simp [alternativesFaults]
  | cons s ss ih =>
    rw [alternativesFaults, List.append_eq_nil_iff, List.append_eq_nil_iff, faultIf_eq_nil, ih,
      Search.faults_eq_nil, List.forall_mem_cons, List.forall_mem_cons]
    constructor
    · rintro ⟨hs, hne, hss, hnes⟩
      exact ⟨⟨hs, hss⟩, hne, hnes⟩
    · rintro ⟨⟨hs, hss⟩, hne, hnes⟩
      exact ⟨hs, hne, hss, hnes⟩

theorem faults_eq_nil {g : Group} : g.faults = [] ↔ g.Sound := by
  obtain ⟨search, alternatives⟩ := g
  rw [faults, List.append_eq_nil_iff, Search.faults_eq_nil]
  cases alternatives with
  | none =>
    constructor
    · rintro ⟨hsearch, -⟩
      exact ⟨List.forall_mem_singleton.2 hsearch, nofun, nofun⟩
    · intro h
      exact ⟨List.forall_mem_singleton.1 h.searches, rfl⟩
  | some list =>
    rw [List.append_eq_nil_iff, faultIf_eq_nil, alternativesFaults_eq_nil, Nat.not_lt]
    constructor
    · rintro ⟨hsearch, hcount, hlist, hterms⟩
      refine ⟨List.forall_mem_cons.2 ⟨hsearch, hlist⟩, fun _ h => ?_, fun _ h => ?_⟩
      · cases h
        exact hcount
      · cases h
        exact hterms
    · rintro ⟨hsearches, hcount, hterms⟩
      obtain ⟨hsearch, hlist⟩ := List.forall_mem_cons.1 hsearches
      exact ⟨hsearch, hcount list rfl, hlist, hterms list rfl⟩

/-- Compiling a group succeeds exactly if it is sound. There is then one term for each plain value
and each condition, in their order, and else the first fault is the error. -/
theorem compile_decides (g : Group) :
    ((∃ c, g.compile = .ok c) ↔ g.Sound) ∧
    (∀ c, g.compile = .ok c →
      c.main = g.search.terms.map Term.fragment ∧
      c.alternatives = (g.alternatives.getD []).map (fun s => s.terms.map Term.fragment) ∧
      c.values = g.searches.flatMap fun s => s.terms.flatMap Term.values) ∧
    ∀ why, g.compile = .error why ↔ g.faults.head? = some why := by
  have hreports := g.reports_compile
  refine ⟨hreports.exists_ok_iff.trans faults_eq_nil, fun c hc => ?_, fun why => hreports.error_iff⟩
  rw [hreports.of_ok hc]
  refine ⟨rfl, ?_, ?_⟩
  · exact List.map_map
  · rw [searches, List.flatMap_cons, ← List.flatMap_assoc, ← List.flatMap_append]
    rfl

def datedOrders : Group where
  search := ⟨[("state", .value (.text "new")), ("note", .object [.compare .ne .null rfl]),
    ("total", .objects [[.between (.int 1) (.int 5)], [.custom "<>" (.int 3)]])]⟩
  alternatives := some [⟨[("due", .value .null)]⟩, ⟨[("due", .value (.int 7))]⟩]

/-- Both the condition and the name after it are at fault. -/
def undatedOrders : Group :=
  ⟨⟨[("total", .object [.compare .lt .null rfl]), ("1st", .value .null)]⟩, some []⟩

theorem compile_decides_datedOrders :
    (∃ c, datedOrders.compile = .ok c ∧
      c.main = [⟨"state", .eq, none⟩, ⟨"note", .isNotNull, none⟩, ⟨"total", .between, none⟩,
        ⟨"total", .custom, some "<>"⟩] ∧
      c.alternatives = [[⟨"due", .isNull, none⟩], [⟨"due", .eq, none⟩]] ∧
      c.values = [.text "new", .int 1, .int 5, .int 3, .int 7]) ∧
    undatedOrders.compile = .error (.inField "total" (.nullOperand .lt)) := by
  obtain ⟨-, hok, -⟩ := compile_decides datedOrders
  obtain ⟨-, -, herror⟩ := compile_decides undatedOrders
  have hcompiled : datedOrders.compile.toOption.isSome := by decide +kernel
  obtain ⟨c, hc⟩ := Option.isSome_iff_exists.1 hcompiled
  have hc := of_toOption hc
  exact ⟨⟨c, hc, hok c hc⟩, (herror _).2 (by decide +kernel)⟩

end Group

end Quarry
