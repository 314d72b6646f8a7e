import Quarry.Text.Join

namespace Quarry.Text

/-- Where a reader is: whether a quoted name is open, and how many parentheses are. -/
structure Place where
  quoted : Bool
  depth : Nat
deriving DecidableEq

namespace Place

def top : Place := ⟨false, 0⟩

/-- The place after a character, unless a word ends at it. No blank inside quotes or parentheses
ends one. -/
def step (p : Place) (c : Char) : Option Place :=
  if p.quoted then some ⟨c ≠ '"', p.depth⟩
  else if c = '"' then some ⟨true, p.depth⟩
  else if c = '(' then some ⟨false, p.depth + 1⟩
  else if p.depth = 0 then if c = ' ' ∨ c = ')' then none else some p
  else if c = ')' then some ⟨false, p.depth - 1⟩
  else some p

def run (p : Place) (cs : List Char) : Option Place :=
  cs.foldlM step p

theorem run_cons {p q : Place} {c : Char} {cs : List Char} :
    p.run (c :: cs) = some q ↔ ∃ r, p.step c = some r ∧ r.run cs = some q := by
  simp [run, List.foldlM_cons, Option.bind_eq_some_iff]

theorem run_append {p q r : Place} {cs ds : List Char} (hc : p.run cs = some q)
    (hd : q.run ds = some r) : p.run (cs ++ ds) = some r := by
  simp only [run] at hc hd
  simp [run, List.foldlM_append, hc, hd]

/-- What is read in one place is read with more parentheses open as well. -/
theorem step_deeper {p q : Place} {c : Char} (h : p.step c = some q) :
    step ⟨p.quoted, p.depth + 1⟩ c = some ⟨q.quoted, q.depth + 1⟩ := by
  obtain ⟨quoted, depth⟩ := p
  cases quoted with
  | true =>
    cases h
    rfl
  | false =>
    simp only [step, Bool.false_eq_true, if_false] at h ⊢
    grind

theorem run_deeper {p q : Place} {cs : List Char} (h : p.run cs = some q) :
    run ⟨p.quoted, p.depth + 1⟩ cs = some ⟨q.quoted, q.depth + 1⟩ := by
  induction cs generalizing p with
  | nil =>
    cases h
    rfl
  | cons c cs ih =>
    obtain ⟨r, hr, h⟩ := run_cons.1 h
    exact run_cons.2 ⟨_, step_deeper hr, ih h⟩

end Place

/-- A text that is read from a place with so many parentheses open to the same place. -/
def Balanced (n : Nat) (cs : List Char) : Prop :=
  Place.run ⟨false, n⟩ cs = some ⟨false, n⟩

instance (n : Nat) (cs : List Char) : Decidable (Balanced n cs) :=
  inferInstanceAs (Decidable (_ = _))

/-- A text that is a single word. -/
abbrev Solid (cs : List Char) : Prop :=
  Balanced 0 cs

/-- A character that a reader passes over inside parentheses. -/
def isSmooth (c : Char) : Bool :=
  c ≠ '"' && c ≠ '(' && c ≠ ')'

theorem isSmooth_of_ne {c : Char} (hquote : c ≠ '"') (hopen : c ≠ '(') (hclose : c ≠ ')') :
    isSmooth c := by
  simp [isSmooth, hquote, hopen, hclose]

/-- A character that a reader passes over everywhere. -/
def isTight (c : Char) : Bool :=
  isSmooth c && c ≠ ' '

section

variable {n : Nat} {cs ds : List Char}

theorem Balanced.nil : Balanced n [] :=
  rfl

theorem Balanced.append (hc : Balanced n cs) (hd : Balanced n ds) : Balanced n (cs ++ ds) :=
  Place.run_append hc hd

theorem Balanced.deeper (h : Balanced n cs) : Balanced (n + 1) cs :=
  Place.run_deeper h

theorem Balanced.enclosed (h : Balanced (n + 1) cs) : Balanced n ('(' :: (cs ++ [')'])) := by
  have hclose : Place.run ⟨false, n + 1⟩ [')'] = some ⟨false, n⟩ := rfl
  have hinner : Place.run ⟨false, n + 1⟩ (cs ++ [')']) = some ⟨false, n⟩ :=
    Place.run_append h hclose
  exact Place.run_cons.2 ⟨_, rfl, hinner⟩

theorem balanced_of_smooth (h : cs.all isSmooth) : Balanced (n + 1) cs := by
  induction cs with
  | nil => exact .nil
  | cons c cs ih =>
    simp only [List.all_cons, isSmooth, Bool.and_eq_true, decide_eq_true_eq] at h
    refine Place.run_cons.2 ⟨⟨false, n + 1⟩, ?_, ih h.2⟩
    simp [Place.step, h.1]

theorem solid_of_tight (h : cs.all isTight) : Solid cs := by
  induction cs with
  | nil => exact .nil
  | cons c cs ih =>
    simp only [List.all_cons, isTight, isSmooth, Bool.and_eq_true, decide_eq_true_eq] at h
    refine Place.run_cons.2 ⟨⟨false, 0⟩, ?_, ih h.2⟩
    simp [Place.step, h.1]

end

def push (c : Char) : List (List Char) → List (List Char)
  | [] => [[c]]
  | w :: ws => (c :: w) :: ws

/-- The words of a text, the first of which may go on a word that was begun before. -/
def wordsFrom (p : Place) : List Char → List (List Char)
  | [] => [[]]
  | c :: cs =>
    match p.step c with
    | some q => push c (wordsFrom q cs)
    | none => [] :: wordsFrom .top cs

def words (text : String) : List String :=
  (wordsFrom .top text.toList).map String.ofList

def line (ws : List String) : String :=
  join " " ws

theorem wordsFrom_ne_nil (p : Place) (cs : List Char) : wordsFrom p cs ≠ [] := by
  cases cs with
  | nil => exact List.cons_ne_nil _ _
  | cons c cs =>
    rw [wordsFrom]
    split
    · rename_i q _
      cases wordsFrom q cs with
      | nil => exact List.cons_ne_nil _ _
      | cons w ws => exact List.cons_ne_nil _ _
    · exact List.cons_ne_nil _ _

theorem words_ne_nil (text : String) : words text ≠ [] := by
  simpa [words] using wordsFrom_ne_nil .top text.toList

theorem push_append (cs w : List Char) (ws : List (List Char)) :
    cs.foldr push (w :: ws) = (cs ++ w) :: ws := by
  induction cs with
  | nil => rfl
  | cons c cs ih => rw [List.foldr_cons, ih, push, List.cons_append]

theorem wordsFrom_append {p q : Place} {cs : List Char} (h : p.run cs = some q) (rest : List Char) :
    wordsFrom p (cs ++ rest) = cs.foldr push (wordsFrom q rest) := by
  induction cs generalizing p with
  | nil =>
    cases h
    rfl
  | cons c cs ih =>
    obtain ⟨r, hr, h⟩ := Place.run_cons.1 h
    rw [List.cons_append, wordsFrom, hr, List.foldr_cons, ← ih h]

theorem words_append {w : String} (h : Solid w.toList) (rest : String) :
    words (w ++ (" " ++ rest)) = w :: words rest := by
  have hblank : wordsFrom .top (' ' :: rest.toList) = [] :: wordsFrom .top rest.toList := rfl
  have hrest : (w ++ (" " ++ rest)).toList = w.toList ++ ' ' :: rest.toList := by simp
  rw [words, hrest, wordsFrom_append (p := .top) (q := .top) h, hblank, push_append]
  simp [words]

theorem words_of_solid {w : String} (h : Solid w.toList) : words w = [w] := by
  have hwords := wordsFrom_append (p := .top) (q := .top) h []
  rw [List.append_nil, wordsFrom, push_append] at hwords
  simp [words, hwords]

/-- Each of the texts is a single word. -/
def AllSolid (ws : List String) : Prop :=
  ∀ w ∈ ws, Solid w.toList

namespace AllSolid

variable {w : String} {vs ws : List String}

theorem nil : AllSolid [] :=
  nofun

theorem cons (hw : Solid w.toList) (hws : AllSolid ws) : AllSolid (w :: ws) :=
  List.forall_mem_cons.2 ⟨hw, hws⟩

theorem head (h : AllSolid (w :: ws)) : Solid w.toList :=
  h w (.head _)

theorem tail (h : AllSolid (w :: ws)) : AllSolid ws :=
  fun v hv => h v (.tail _ hv)

theorem append (hv : AllSolid vs) (hw : AllSolid ws) : AllSolid (vs ++ ws) :=
  List.forall_mem_append.2 ⟨hv, hw⟩

end AllSolid

/-- Cutting gives back the words of a line. -/
theorem words_line {ws : List String} (hne : ws ≠ []) (h : AllSolid ws) :
    words (line ws) = ws := by
  induction ws with
  | nil => exact absurd rfl hne
  | cons w ws ih =>
    cases ws with
    | nil => exact words_of_solid h.head
    | cons v ws =>
      have hrest := ih nofun h.tail
      rw [line, join, String.append_assoc, words_append h.head, ← line, hrest]

theorem balanced_line {ws : List String} (h : AllSolid ws) : Balanced 1 (line ws).toList := by
  induction ws with
  | nil => exact .nil
  | cons w ws ih =>
    have hw : Balanced 1 w.toList := h.head.deeper
    have hrest := ih h.tail
    cases ws with
    | nil => exact hw
    | cons v ws =>
      have hblank : Balanced 1 " ".toList := rfl
      rw [line, join, String.toList_append, String.toList_append]
      exact (hw.append hblank).append hrest

/-- Lines one after another are one line. -/
theorem line_append {vs ws : List String} (hv : vs ≠ []) (hw : ws ≠ []) :
    line (vs ++ ws) = line vs ++ " " ++ line ws := by
  induction vs with
  | nil => exact absurd rfl hv
  | cons v vs ih =>
    cases vs with
    | nil => exact join_cons " " v hw
    | cons u vs =>
      have hrest : line (u :: vs ++ ws) = line (u :: vs) ++ " " ++ line ws := ih nofun
      have hfirst : line (v :: u :: vs) = v ++ " " ++ line (u :: vs) := rfl
      have hall : line (v :: u :: vs ++ ws) = v ++ " " ++ line (u :: vs ++ ws) := rfl
      rw [hall, hrest, hfirst]
      simp only [String.append_assoc]

/-- Lines with a word between them are one line. -/
theorem join_eq_line (sep t : String) {ts : List String} (ht : line (words t) = t)
    (hts : ∀ u ∈ ts, line (words u) = u) :
    join (" " ++ sep ++ " ") (t :: ts) = line (words t ++ ts.flatMap fun u => sep :: words u) := by
  induction ts generalizing t with
  | nil => simpa [join] using ht.symm
  | cons u ts ih =>
    have hrest := ih u (hts u (.head _)) fun v hv => hts v (.tail _ hv)
    have hne : (words u ++ ts.flatMap fun v => sep :: words v) ≠ [] := by simp [words_ne_nil]
    have hsep : line (sep :: (words u ++ ts.flatMap fun v => sep :: words v)) =
        sep ++ " " ++ join (" " ++ sep ++ " ") (u :: ts) := by
      rw [hrest, line, join_cons " " sep hne, line]
    rw [List.flatMap_cons, List.cons_append, line_append (words_ne_nil t) (List.cons_ne_nil _ _),
      hsep, ht, join]
    simp only [String.append_assoc]

theorem line_injective {vs ws : List String} (hv : vs ≠ []) (hw : ws ≠ [])
    (hvs : AllSolid vs) (hws : AllSolid ws) (h : line vs = line ws) : vs = ws := by
  rw [← words_line hv hvs, h, words_line hw hws]

theorem flatMap_pair_injective {sep : String} {ts us : List String}
    (h : (ts.flatMap fun t => [sep, t]) = us.flatMap fun u => [sep, u]) : ts = us := by
  induction ts generalizing us with
  | nil =>
    cases us with
    | nil => rfl
    | cons u us => cases h
  | cons t ts ih =>
    cases us with
    | nil => cases h
    | cons u us =>
      simp only [List.flatMap_cons, List.cons_append, List.nil_append, List.cons.injEq,
        true_and] at h
      rw [h.1, ih h.2]

theorem join_eq_line_of_solid (sep t : String) {ts : List String} (h : AllSolid (t :: ts)) :
    join (" " ++ sep ++ " ") (t :: ts) = line (t :: ts.flatMap fun u => [sep, u]) := by
  have hline {u : String} (hu : Solid u.toList) : line (words u) = u := by
    rw [words_of_solid hu]
    rfl
  have hwords : (ts.flatMap fun u => sep :: words u) = ts.flatMap fun u => [sep, u] := by
    rw [List.flatMap, List.flatMap]
    congr 1
    apply List.map_congr_left
    intro u hu
    rw [words_of_solid (h.tail u hu)]
  rw [join_eq_line sep t (hline h.head) fun u hu => hline (h.tail u hu), words_of_solid h.head,
    hwords]
  rfl

theorem AllSolid.flatMap_pair {sep : String} {ts : List String} (hsep : Solid sep.toList)
    (h : AllSolid ts) : AllSolid (ts.flatMap fun t => [sep, t]) := by
  intro w hw
  obtain ⟨t, ht, hw⟩ := List.mem_flatMap.1 hw
  simp only [List.mem_cons, List.not_mem_nil, or_false] at hw
  rcases hw with rfl | rfl
  · exact hsep
  · exact h w ht

/-- Words with a word between them are told by their line. -/
theorem join_injective {sep t u : String} {ts us : List String} (hsep : Solid sep.toList)
    (ht : AllSolid (t :: ts)) (hu : AllSolid (u :: us))
    (h : join (" " ++ sep ++ " ") (t :: ts) = join (" " ++ sep ++ " ") (u :: us)) :
    t :: ts = u :: us := by
  rw [join_eq_line_of_solid sep t ht, join_eq_line_of_solid sep u hu] at h
  have hlines := line_injective (List.cons_ne_nil _ _) (List.cons_ne_nil _ _)
    (.cons ht.head (ht.tail.flatMap_pair hsep)) (.cons hu.head (hu.tail.flatMap_pair hsep)) h
  obtain ⟨hfirst, hrest⟩ := List.cons.inj hlines
  rw [hfirst, flatMap_pair_injective hrest]

theorem enclosed_injective {s t : String} (h : "(" ++ s ++ ")" = "(" ++ t ++ ")") : s = t := by
  have hchars := congrArg String.toList h
  rw [← String.toList_inj]
  simpa using hchars

theorem solid_enclosed {s : String} (h : Balanced 1 s.toList) : Solid ("(" ++ s ++ ")").toList := by
  simpa using h.enclosed

end Quarry.Text
