import Quarry.Text.Join

namespace Quarry.Text

/-- The characters outside quoted names; `inside` tells that a name is open. -/
def maskFrom (inside : Bool) : List Char → List (Option Char)
  | [] => []
  | c :: cs =>
    if inside then none :: maskFrom (c ≠ '"') cs
    else if c = '"' then none :: maskFrom true cs
    else some c :: maskFrom false cs

def mask (text : String) : List (Option Char) :=
  maskFrom false text.toList

/-- A text that closes the quoted names it opens. -/
def Closed (cs : List Char) : Prop :=
  ∀ rest, maskFrom false (cs ++ rest) = maskFrom false cs ++ maskFrom false rest

/-- A closed text with nothing but such characters outside quoted names. -/
structure Shows (p : Char → Bool) (cs : List Char) : Prop where
  closed : Closed cs
  chars : ∀ c, some c ∈ maskFrom false cs → p c

section

variable {cs ds : List Char} {s t sep : String} {ts : List String} {p q : Char → Bool}

theorem Closed.nil : Closed [] :=
  fun _ => rfl

theorem Closed.append (hc : Closed cs) (hd : Closed ds) : Closed (cs ++ ds) := by
  intro rest
  rw [List.append_assoc, hc, hd, hc, List.append_assoc]

/-- A text whose mask is the same whatever follows it closes its names. -/
theorem closed_of_mask {ms : List (Option Char)}
    (h : ∀ rest, maskFrom false (cs ++ rest) = ms ++ maskFrom false rest) :
    Closed cs ∧ maskFrom false cs = ms := by
  have hself := h []
  rw [List.append_nil, maskFrom, List.append_nil] at hself
  exact ⟨fun rest => by rw [h, hself], hself⟩

theorem maskFrom_of_forall (h : '"' ∉ cs) :
    Closed cs ∧ maskFrom false cs = cs.map some := by
  refine closed_of_mask fun rest => ?_
  induction cs with
  | nil => rfl
  | cons c cs ih =>
    obtain ⟨hc, hcs⟩ := not_or.1 (mt List.mem_cons.2 h)
    rw [List.cons_append, maskFrom, if_neg Bool.false_ne_true, if_neg (Ne.symm hc), ih hcs]
    rfl

theorem Shows.nil : Shows p [] :=
  ⟨.nil, nofun⟩

theorem Shows.append (hc : Shows p cs) (hd : Shows p ds) : Shows p (cs ++ ds) := by
  refine ⟨hc.closed.append hd.closed, fun c h => ?_⟩
  rw [hc.closed] at h
  rcases List.mem_append.1 h with h | h
  · exact hc.chars c h
  · exact hd.chars c h

theorem Shows.mono (h : Shows p cs) (hpq : ∀ c, p c → q c) : Shows q cs :=
  ⟨h.closed, fun c hc => hpq c (h.chars c hc)⟩

theorem shows_of_all (hp : p '"' = false) (h : cs.all p) : Shows p cs := by
  have hall := List.all_eq_true.1 h
  have hquote : '"' ∉ cs := fun hmem => Bool.eq_false_iff.1 hp (hall _ hmem)
  obtain ⟨hclosed, hmask⟩ := maskFrom_of_forall hquote
  refine ⟨hclosed, fun c hc => hall c ?_⟩
  simpa [hmask] using hc

theorem mask_append (h : Closed s.toList) (t : String) : mask (s ++ t) = mask s ++ mask t := by
  rw [mask, String.toList_append]
  exact h t.toList

theorem shows_append (hs : Shows p s.toList) (ht : Shows p t.toList) : Shows p (s ++ t).toList := by
  rw [String.toList_append]
  exact hs.append ht

theorem shows_join (hsep : Shows p sep.toList) (h : ∀ t ∈ ts, Shows p t.toList) :
    Shows p (join sep ts).toList := by
  induction ts with
  | nil => exact .nil
  | cons t ts ih =>
    have ht := h t (.head _)
    have ih := ih fun u hu => h u (.tail _ hu)
    cases ts with
    | nil => exact ht
    | cons u us => exact shows_append (shows_append ht hsep) ih

end

end Quarry.Text
