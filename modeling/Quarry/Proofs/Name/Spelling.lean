import Quarry.Proofs.Name.Grammar

namespace Quarry.Name

section

variable {name : String} {cs rest next : List Char}

/-- The scan inside quotes goes on with `next` after one character, or after a doubled quote. -/
inductive InsideTurn : List Char → List Char → Prop where
  | char {c : Char} {next : List Char} (hc : c ≠ '"') : InsideTurn next (c :: next)
  | pair {next : List Char} : InsideTurn next ('"' :: '"' :: next)

/-- The scan of a path goes on with `next` after a part and a dot. -/
structure PathTurn (name : String) (next cs : List Char) : Prop where
  part : part name cs = .ok ('.' :: next)
  nonempty : next ≠ []

theorem quoted_of_turn (h : InsideTurn next cs) (filled : Bool) :
    quoted name filled cs = quoted name true next := by
  cases h with
  | char hc =>
    rw [quoted]
    · intro _ h _
      exact hc h
    · exact hc
  | pair => rw [quoted]

theorem path_of_turn (h : PathTurn name next cs) : path name cs = path name next := by
  obtain ⟨hpart, hne⟩ := h
  cases next with
  | nil => exact absurd rfl hne
  | cons c rest =>
    rw [path]
    split <;> simp_all

theorem path_of_last (h : part name cs = .ok []) : path name cs = .ok () := by
  rw [path]
  split <;> simp_all

theorem InsideTurn.shorter (h : InsideTurn next cs) : next.length < cs.length := by
  cases h with
  | char => exact Nat.lt_succ_self _
  | pair => exact Nat.lt_succ_of_lt (Nat.lt_succ_self _)

theorem PathTurn.shorter (h : PathTurn name next cs) : next.length < cs.length :=
  Nat.lt_trans (Nat.lt_succ_self _) (length_part h.part)

/-- A scan that goes on with less text at each turn cannot go on for ever. -/
theorem wellFounded_of_shorter {turn : List Char → List Char → Prop}
    (h : ∀ next cs, turn next cs → next.length < cs.length) : WellFounded turn :=
  Subrelation.wf (h _ _) (measure List.length).wf

theorem dropWhile_stops {p : Char → Bool} (hcs : cs.all p) (hrest : ∀ c ∈ rest.head?, p c = false) :
    (cs ++ rest).dropWhile p = rest := by
  rw [List.dropWhile_append_of_pos (List.all_eq_true.1 hcs)]
  cases rest with
  | nil => rfl
  | cons c rest => rw [List.dropWhile_cons_of_neg (by simp [hrest c rfl])]

theorem Bare.scanned (h : Bare cs) (hrest : ∀ c ∈ rest.head?, isBody c = false) :
    bare name (cs ++ rest) = .ok rest := by
  cases h with
  | word hc hcs => rw [List.cons_append, bare, if_pos hc, dropWhile_stops hcs hrest]

theorem Inside.scanned (h : Inside cs) {filled : Bool} (hfilled : filled = false → cs ≠ [])
    (hrest : rest.head? ≠ some '"') : quoted name filled (cs ++ '"' :: rest) = .ok rest := by
  induction h generalizing filled with
  | nil =>
    cases filled with
    | false => exact absurd rfl (hfilled rfl)
    | true =>
      rw [List.nil_append, quoted]
      · rfl
      · rintro _ rfl
        exact hrest rfl
  | char hc _ ih =>
    rw [List.cons_append, quoted_of_turn (.char hc)]
    exact ih nofun
  | pair _ ih =>
    rw [List.cons_append, List.cons_append, quoted_of_turn .pair]
    exact ih nofun

/-- A text that no part before it goes on with. -/
def EndsPart (rest : List Char) : Prop :=
  ∀ c ∈ rest.head?, isBody c = false ∧ c ≠ '"'

theorem Part.scanned (h : Part cs) (hrest : EndsPart rest) : part name (cs ++ rest) = .ok rest := by
  cases h with
  | bare h =>
    have hscan : Name.bare name (cs ++ rest) = .ok rest := h.scanned fun c hc => (hrest c hc).1
    cases h with
    | @word c cs hc hcs =>
      have hquote : c ≠ '"' := by
        rintro rfl
        exact absurd hc (by decide)
      rw [List.cons_append] at hscan ⊢
      rw [part]
      · exact hscan
      · intro _ h
        exact hquote (List.cons.inj h).1
  | @quoted cs h hne =>
    have hquote : rest.head? ≠ some '"' := fun h => (hrest _ h).2 rfl
    have hscan : Name.quoted name false (cs ++ '"' :: rest) = .ok rest :=
      h.scanned (fun _ => hne) hquote
    simpa [part] using hscan

theorem Part.ne_nil (h : Part cs) : cs ≠ [] := by
  cases h with
  | bare h =>
    cases h with
    | word => exact List.cons_ne_nil _ _
  | quoted => exact List.cons_ne_nil _ _

theorem Path.ne_nil (h : Path cs) : cs ≠ [] := by
  cases h with
  | part h => exact h.ne_nil
  | dot hc _ => exact List.append_ne_nil_of_left_ne_nil hc.ne_nil _

theorem Path.scanned (h : Path cs) : path name cs = .ok () := by
  induction h with
  | @part cs h =>
    have hscan : Name.part name (cs ++ []) = .ok [] := h.scanned nofun
    rw [List.append_nil] at hscan
    exact path_of_last hscan
  | @dot cs ds hc hd ih =>
    have hends : EndsPart ('.' :: ds) := by
      intro c hdot
      cases hdot
      decide
    rw [path_of_turn ⟨hc.scanned hends, hd.ne_nil⟩]
    exact ih

/-- A part of a name. NUL could stand only inside its quotes, and must not. -/
structure IsPart (cs : List Char) : Prop where
  spelled : Part cs
  nul : '\x00' ∉ cs

theorem checkIdent_eq_ok_iff :
    checkIdent name = .ok () ↔ Path name.toList ∧ '\x00' ∉ name.toList := by
  constructor
  · intro h
    refine ⟨spelled_of_checkIdent h, fun hnul => ?_⟩
    rw [checkIdent, if_pos hnul] at h
    split at h
    · cases h
    · cases h
  · rintro ⟨hpath, hnul⟩
    rw [checkIdent, if_neg hpath.ne_nil, if_neg hnul]
    exact hpath.scanned

theorem checkAlias_eq_ok_iff : checkAlias name = .ok () ↔ IsPart name.toList := by
  constructor
  · intro h
    obtain ⟨_, hident, h⟩ := of_bind h
    obtain ⟨rest, hpart, h⟩ := of_bind h
    split at h
    · rename_i hrest
      obtain ⟨pre, hpre, hspelled⟩ := spelled_of_part hpart
      rw [hrest, List.append_nil] at hpre
      exact ⟨hpre ▸ hspelled, (checkIdent_eq_ok_iff.1 hident).2⟩
    · cases h
  · rintro ⟨hspelled, hnul⟩
    have hident := checkIdent_eq_ok_iff.2 ⟨.part hspelled, hnul⟩
    have hpart : part name (name.toList ++ []) = .ok [] := hspelled.scanned nofun
    rw [List.append_nil] at hpart
    rw [checkAlias, hident, hpart]
    rfl

theorem exists_parts (h : Path cs) (hnul : '\x00' ∉ cs) :
    ∃ ps, ps ≠ [] ∧ (∀ p ∈ ps, IsPart p) ∧ cs = ['.'].intercalate ps := by
  induction h with
  | @part cs h =>
    refine ⟨[cs], List.cons_ne_nil _ _, ?_, (List.intercalate_singleton ..).symm⟩
    intro p hp
    cases List.mem_singleton.1 hp
    exact ⟨h, hnul⟩
  | @dot cs ds hc hd ih =>
    rw [List.mem_append, List.mem_cons, not_or, not_or] at hnul
    obtain ⟨hcs, -, hds⟩ := hnul
    obtain ⟨ps, hne, hps, rfl⟩ := ih hds
    refine ⟨cs :: ps, List.cons_ne_nil _ _, ?_, ?_⟩
    · intro p hp
      cases hp with
      | head => exact ⟨hc, hcs⟩
      | tail _ hp => exact hps p hp
    · rw [List.intercalate_cons_of_ne_nil hne]
      simp

theorem path_of_parts {ps : List (List Char)} (hne : ps ≠ []) (h : ∀ p ∈ ps, IsPart p) :
    Path (['.'].intercalate ps) ∧ '\x00' ∉ ['.'].intercalate ps := by
  induction ps with
  | nil => exact absurd rfl hne
  | cons p ps ih =>
    obtain ⟨hp, hnul⟩ := h p (.head _)
    cases ps with
    | nil =>
      rw [List.intercalate_singleton]
      exact ⟨.part hp, hnul⟩
    | cons q qs =>
      obtain ⟨hpath, hrest⟩ := ih (List.cons_ne_nil _ _) fun r hr => h r (.tail _ hr)
      rw [List.intercalate_cons_cons, List.append_assoc, List.singleton_append]
      refine ⟨.dot hp hpath, ?_⟩
      rw [List.mem_append, List.mem_cons, not_or, not_or]
      exact ⟨hnul, by decide, hrest⟩

/-- Identifiers are one or more parts with dots between them, and aliases are single parts. No scan
goes on for ever, neither over parts nor inside quotes. -/
theorem accepts_parts :
    (∀ name : String, checkIdent name = .ok () ↔
      ∃ ps, ps ≠ [] ∧ (∀ p ∈ ps, IsPart p) ∧ name.toList = ['.'].intercalate ps) ∧
    (∀ name : String, checkAlias name = .ok () ↔ IsPart name.toList) ∧
    (∀ name : String, WellFounded (PathTurn name)) ∧ WellFounded InsideTurn := by
  refine ⟨fun name => ?_, fun name => checkAlias_eq_ok_iff, fun name => ?_, ?_⟩
  · rw [checkIdent_eq_ok_iff]
    constructor
    · rintro ⟨hpath, hnul⟩
      exact exists_parts hpath hnul
    · rintro ⟨ps, hne, hps, heq⟩
      rw [heq]
      exact path_of_parts hne hps
  · exact wellFounded_of_shorter fun _ _ => PathTurn.shorter
  · exact wellFounded_of_shorter fun _ _ => InsideTurn.shorter

end

end Quarry.Name
