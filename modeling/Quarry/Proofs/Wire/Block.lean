import Quarry.Proofs.Checked
import Quarry.Proofs.Wire.Decode

namespace Quarry

namespace Wire

/-- What the bytes of an array tell. -/
structure Block where
  hasNulls : Bool
  member : Nat
  lowest : Int
  cells : List Cell

def take? (width : Nat) (bs : List UInt8) : Option (List UInt8 × List UInt8) :=
  if width ≤ bs.length then some (bs.take width, bs.drop width) else none

def readNat? (bs : List UInt8) : Option (Nat × List UInt8) := do
  let (front, rest) ← take? 4 bs
  some (natOfBytes front, rest)

def readInt? (bs : List UInt8) : Option (Int × List UInt8) := do
  let (front, rest) ← take? 4 bs
  some (intOfBytes front, rest)

/-- A member behind its length, which is minus one for NULL. -/
def readCell? (bs : List UInt8) : Option (Cell × List UInt8) := do
  let (length, rest) ← readInt? bs
  if length = -1 then some (none, rest)
  else if length < 0 then none
  else do
    let (member, rest) ← take? length.toNat rest
    some (some member, rest)

def readCells? : Nat → List UInt8 → Option (List Cell × List UInt8)
  | 0, bs => some ([], bs)
  | count + 1, bs => do
    let (cell, rest) ← readCell? bs
    let (cells, rest) ← readCells? count rest
    some (cell :: cells, rest)

/-- One dimension, and nothing that is left over. -/
def readArray? (bs : List UInt8) : Option Block := do
  let (dimensions, bs) ← readInt? bs
  let (flag, bs) ← readInt? bs
  let (member, bs) ← readNat? bs
  let (count, bs) ← readInt? bs
  let (lowest, bs) ← readInt? bs
  let (cells, rest) ← readCells? count.toNat bs
  if dimensions = 1 ∧ (flag = 0 ∨ flag = 1) ∧ 0 ≤ count ∧ rest = [] then
    some ⟨flag = 1, member, lowest, cells⟩
  else none

/-- The number of cells and each of their lengths fit the four bytes that they are written in. -/
structure Sized (cells : List Cell) : Prop where
  count : cells.length < 2147483648
  lengths : ∀ bs, some bs ∈ cells → bs.length < 2147483648

section

variable {n : Nat} {front rest bs : List UInt8} {cell : Cell} {cells : List Cell}

theorem take?_append (h : front.length = n) (rest : List UInt8) :
    take? n (front ++ rest) = some (front, rest) := by
  subst h
  rw [take?, if_pos (by rw [List.length_append]; omega), List.take_left, List.drop_left]

theorem readNat?_append (h : n < capacity 4) (rest : List UInt8) :
    readNat? (bytesOfNat 4 n ++ rest) = some (n, rest) := by
  rw [readNat?, take?_append (length_bytesOfNat 4 n)]
  simp only [bind, Option.bind_some, natOfBytes_of_lt h]

theorem readInt?_append {n : Int} (low : -2147483648 ≤ n) (high : n < 2147483648)
    (rest : List UInt8) : readInt? (bytesOfInt 4 n ++ rest) = some (n, rest) := by
  have hn : intOfBytes (bytesOfInt 4 n) = n := intOfBytes_of_bounds low high
  rw [readInt?, take?_append (length_bytesOfInt 4 n)]
  simp only [bind, Option.bind_some, hn]

theorem bytesOfInt_natCast (h : n < 2147483648) : bytesOfInt 4 n = bytesOfNat 4 n := by
  have hlt : n < capacity 4 := Nat.lt_trans h (by decide)
  rw [bytesOfInt, ← Int.natCast_emod, Int.toNat_natCast, Nat.mod_eq_of_lt hlt]

theorem readInt?_natCast (h : n < 2147483648) (rest : List UInt8) :
    readInt? (bytesOfNat 4 n ++ rest) = some ((n : Int), rest) := by
  rw [← bytesOfInt_natCast h]
  exact readInt?_append (by omega) (by omega) rest

theorem readCell?_append (h : ∀ bs ∈ cell, bs.length < 2147483648) (rest : List UInt8) :
    readCell? (memberBytes cell ++ rest) = some (cell, rest) := by
  cases cell with
  | none =>
    rw [readCell?, memberBytes, readInt?_append (by decide) (by decide)]
    rfl
  | some bs =>
    have hlength := h bs rfl
    rw [readCell?, memberBytes, List.append_assoc, readInt?_natCast hlength]
    simp only [bind, Option.bind_some]
    rw [if_neg (by omega), if_neg (by omega), Int.toNat_natCast, take?_append rfl]
    rfl

theorem readCells?_append (h : ∀ bs, some bs ∈ cells → bs.length < 2147483648)
    (rest : List UInt8) :
    readCells? cells.length (cells.flatMap memberBytes ++ rest) = some (cells, rest) := by
  induction cells with
  | nil => rfl
  | cons cell cells ih =>
    have hcell : ∀ bs ∈ cell, bs.length < 2147483648 := by
      rintro bs rfl
      exact h bs List.mem_cons_self
    have hcells := ih fun bs hbs => h bs (List.mem_cons_of_mem cell hbs)
    rw [List.flatMap_cons, List.append_assoc, List.length_cons, readCells?, readCell?_append hcell]
    simp only [bind, Option.bind_some, hcells]

/-- Each part is read from what the part before it has left. -/
theorem readArray?_of_parts {a b c d e : List UInt8} {flag lowest : Int} {member count : Nat}
    (hdimensions : readInt? bs = some (1, a)) (hflag : readInt? a = some (flag, b))
    (hmember : readNat? b = some (member, c)) (hcount : readInt? c = some ((count : Int), d))
    (hlowest : readInt? d = some (lowest, e)) (hcells : readCells? count e = some (cells, []))
    (hbit : flag = 0 ∨ flag = 1) : readArray? bs = some ⟨flag = 1, member, lowest, cells⟩ := by
  rw [readArray?, hdimensions]
  simp only [bind, Option.bind_some, hflag, hmember, hcount, hlowest, Int.toNat_natCast, hcells]
  exact if_pos ⟨trivial, hbit, Int.natCast_nonneg count, trivial⟩

theorem readArray?_arrayBytes (member : Scalar) {lowest : Nat} (hlowest : lowest < 2147483648)
    (h : Sized cells) :
    readArray? (arrayBytes member lowest cells) =
      some ⟨cells.contains none, member.oidNumber, lowest, cells⟩ := by
  have hmember : member.oidNumber < capacity 4 := by
    cases member <;> decide
  have hcells : readCells? cells.length (cells.flatMap memberBytes) = some (cells, []) := by
    have hread := readCells?_append h.lengths []
    rwa [List.append_nil] at hread
  have hread {bit : Nat} (hbit : bit = 0 ∨ bit = 1) :
      readArray? (bytesOfNat 4 1 ++ (bytesOfNat 4 bit ++ (bytesOfNat 4 member.oidNumber ++
          (bytesOfNat 4 cells.length ++ (bytesOfNat 4 lowest ++ cells.flatMap memberBytes))))) =
        some ⟨(bit : Int) = 1, member.oidNumber, lowest, cells⟩ :=
    readArray?_of_parts (readInt?_natCast (by decide) _) (readInt?_natCast (by omega) _)
      (readNat?_append hmember _) (readInt?_natCast h.count _) (readInt?_natCast hlowest _) hcells
      (by omega)
  simp only [arrayBytes, List.append_assoc]
  cases cells.contains none with
  | true => exact hread (.inr rfl)
  | false => exact hread (.inl rfl)

end

end Wire

open Wire

namespace Value

/-- There are few enough items for the four bytes of a count, and each that has an encoding is short
enough for those of a length. -/
structure Short (items : List Value) (member : Scalar) : Prop where
  count : items.length < 2147483648
  lengths : ∀ x ∈ items, ∀ bs, x.encode (.scalar member) = .ok (some bs) → bs.length < 2147483648

/-- Each cell is what the item in its place is encoded as when it stands alone. -/
def Encodes (member : Scalar) (items : List Value) (cells : List Cell) : Prop :=
  List.Forall₂ (fun x cell => x.encode (.scalar member) = .ok cell) items cells

/-- The bytes tell of these items and of no others. -/
structure Tells (bs : List UInt8) (items : List Value) (m : Scalar) (first : Nat) (block : Block) :
    Prop where
  read : readArray? bs = some block
  member : block.member = m.oidNumber
  lowest : block.lowest = first
  cells : Encodes m items block.cells
  nulls : List.Forall₂ (fun x cell => x = null ↔ cell = none) items block.cells
  hasNulls : block.hasNulls = true ↔ null ∈ items
  unique : ∀ cells, Sized cells → arrayBytes m first cells = bs → cells = block.cells

section

variable {v : Value} {s member : Scalar} {t : SqlType} {items : List Value} {lowest : Nat}
  {cells : List Cell} {cell : Cell} {bs : List UInt8}

theorem encode_scalar (v : Value) (s : Scalar) : v.encode (.scalar s) = v.encodeScalar s := by
  cases v <;> rfl

/-- An array type takes nothing but arrays and NULL. -/
theorem array_of_encode (ht : t.member? = some (member, lowest)) (h : v.encode t = .ok cell) :
    v = null ∨ ∃ items, v = array items := by
  cases v with
  | null => exact .inl rfl
  | array items => exact .inr ⟨items, rfl⟩
  | _ =>
    cases t with
    | scalar s => cases ht
    | _ => cases h

theorem encode_array (ht : t.member? = some (member, lowest)) (items : List Value) :
    (array items).encode t = (items.mapM fun x : Value => x.encodeScalar member).map fun cells =>
      some (arrayBytes member lowest cells) := by
  simp only [encode, ht]
  cases items.mapM fun x : Value => x.encodeScalar member with
  | error e => rfl
  | ok cells => rfl

theorem encode_array_eq_ok_iff (ht : t.member? = some (member, lowest)) :
    (array items).encode t = .ok cell ↔
      ∃ cells, Encodes member items cells ∧ cell = some (arrayBytes member lowest cells) := by
  simp only [Encodes, encode_scalar, ← mapM_eq_ok_iff, encode_array ht]
  constructor
  · intro h
    obtain ⟨cells, hcells, rfl⟩ := of_map h
    exact ⟨cells, hcells, rfl⟩
  · rintro ⟨cells, hcells, rfl⟩
    rw [hcells]
    rfl

theorem member?_of_encode_array (h : (array items).encode t = .ok cell) :
    ∃ member lowest, t.member? = some (member, lowest) := by
  cases t with
  | scalar s => cases h
  | array member => exact ⟨member, 1, rfl⟩
  | int2vector => exact ⟨.int2, 0, rfl⟩

theorem encode_eq_none_iff : v.encode t = .ok none ↔ v = null := by
  constructor
  · intro h
    cases t with
    | scalar s => exact encodeScalar_eq_none_iff.1 ((encode_scalar v s).symm.trans h)
    | _ =>
      obtain rfl | ⟨items, rfl⟩ := array_of_encode rfl h
      · rfl
      · obtain ⟨cells, -, hcell⟩ := (encode_array_eq_ok_iff rfl).1 h
        cases hcell
  · rintro rfl
    rfl

theorem Short.sized (h : Short items member) (hcells : Encodes member items cells) :
    Sized cells where
  count := List.Forall₂.length_eq hcells ▸ h.count
  lengths := by
    intro bs hbs
    obtain ⟨x, hx, hencode⟩ := exists_mem_of_forall₂ hcells hbs
    exact h.lengths x hx bs hencode

theorem Encodes.nulls (h : Encodes member items cells) :
    List.Forall₂ (fun x cell => x = null ↔ cell = none) items cells := by
  apply List.Forall₂.imp _ h
  intro x cell hx
  rw [← encode_eq_none_iff (t := .scalar member), hx, Except.ok.injEq]

theorem exists_mem_of_encodes (h : Encodes member items cells) {x : Value} (hx : x ∈ items) :
    ∃ cell ∈ cells, x.encode (.scalar member) = .ok cell :=
  exists_mem_of_forall₂ (List.Forall₂.flip h) hx

theorem Encodes.none_mem_iff (h : Encodes member items cells) : none ∈ cells ↔ null ∈ items := by
  constructor
  · intro hnone
    obtain ⟨x, hx, hencode⟩ := exists_mem_of_forall₂ h hnone
    exact encode_eq_none_iff.1 hencode ▸ hx
  · intro hnull
    obtain ⟨cell, hcell, hencode⟩ := exists_mem_of_encodes h hnull
    cases hencode
    exact hcell

theorem not_encodes_nested {ys : List Value} (hys : array ys ∈ items) :
    (array items).encode t ≠ .ok cell := by
  intro h
  obtain ⟨member, lowest, ht⟩ := member?_of_encode_array h
  obtain ⟨cells, hcells, -⟩ := (encode_array_eq_ok_iff ht).1 h
  obtain ⟨cell, -, hencode⟩ := exists_mem_of_encodes hcells hys
  cases (encode_scalar (array ys) member).symm.trans hencode

theorem tells_of_encodes (hlowest : lowest < 2147483648) (hitems : Short items member)
    (hcells : Encodes member items cells) :
    Tells (arrayBytes member lowest cells) items member lowest
      ⟨cells.contains none, member.oidNumber, lowest, cells⟩ where
  read := readArray?_arrayBytes member hlowest (hitems.sized hcells)
  member := rfl
  lowest := rfl
  cells := hcells
  nulls := hcells.nulls
  hasNulls := List.contains_iff_mem.trans hcells.none_mem_iff
  unique := by
    intro others hothers heq
    have hread := readArray?_arrayBytes member hlowest hothers
    rw [heq, readArray?_arrayBytes member hlowest (hitems.sized hcells)] at hread
    exact (congrArg Block.cells (Option.some.inj hread)).symm

theorem lowest_lt (ht : t.member? = some (member, lowest)) : lowest < 2147483648 := by
  cases t with
  | scalar s => cases ht
  | _ =>
    cases ht
    decide

theorem ne_null_of_encode (h : v.encode t = .ok (some bs)) : v ≠ null := by
  rintro rfl
  cases h

theorem encode_scalar_iff_fits : (∃ bs, v.encode (.scalar s) = .ok (some bs)) ↔ v.Fits s := by
  constructor
  · rintro ⟨bs, h⟩
    have hencode := (encode_scalar v s).symm.trans h
    exact fits_of_encodeScalar hencode (ne_null_of_encode h)
  · intro h
    obtain ⟨bs, -, hbs, -⟩ := h.encodeScalar
    exact ⟨bs, (encode_scalar v s).trans hbs⟩

theorem readScalar?_of_encode (h : v.encode (.scalar s) = .ok (some bs)) :
    ∃ kept, readScalar? s bs = some kept ∧ v.Kept s kept := by
  obtain ⟨bs', kept, hbs, hread, hkept⟩ := (encode_scalar_iff_fits.1 ⟨bs, h⟩).encodeScalar
  cases h.symm.trans ((encode_scalar v s).trans hbs)
  exact ⟨kept, hread, hkept⟩

theorem encode_outOfRange {n : Int64} (hs : s = .int2 ∨ s = .int4) (h : ¬(int n).Fits s) :
    (int n).encode (.scalar s) = .error .outOfRange := by
  have hno (cell : Cell) : (int n).encodeScalar s ≠ .ok cell := fun hcell =>
    h (fits_of_encodeScalar hcell nofun)
  rcases hs with rfl | rfl
  · exact narrow_eq_error hno
  · exact narrow_eq_error hno

theorem encode_array_iff (ht : t.member? = some (member, lowest)) :
    (∃ bs, (array items).encode t = .ok (some bs)) ↔
      ∀ x ∈ items, ∃ cell, x.encode (.scalar member) = .ok cell := by
  constructor
  · rintro ⟨bs, h⟩ x hx
    obtain ⟨cells, hcells, -⟩ := (encode_array_eq_ok_iff ht).1 h
    obtain ⟨cell, -, hcell⟩ := exists_mem_of_encodes hcells hx
    exact ⟨cell, hcell⟩
  · intro h
    obtain ⟨cells, hcells⟩ := exists_forall₂ h
    exact ⟨_, (encode_array_eq_ok_iff ht).2 ⟨cells, hcells, rfl⟩⟩

theorem tells_of_encode (ht : t.member? = some (member, lowest)) (hitems : Short items member)
    (h : (array items).encode t = .ok (some bs)) : ∃ block, Tells bs items member lowest block := by
  obtain ⟨cells, hcells, heq⟩ := (encode_array_eq_ok_iff ht).1 h
  cases heq
  exact ⟨_, tells_of_encodes (lowest_lt ht) hitems hcells⟩

/-- A value has bytes for a column type if it fits the type, and only then, and they are read as
what a column of the type holds of it. An integer is never cut short. An array has bytes if each of
its items has an encoding alone, and they tell of those encodings. -/
theorem encode_read_back :
    (∀ (v : Value) (s : Scalar), (∃ bs, v.encode (.scalar s) = .ok (some bs)) ↔ v.Fits s) ∧
      (∀ (v : Value) (s : Scalar) (bs : List UInt8), v.encode (.scalar s) = .ok (some bs) →
        ∃ kept, readScalar? s bs = some kept ∧ v.Kept s kept) ∧
      (∀ (n : Int64) (s : Scalar), s = .int2 ∨ s = .int4 → ¬(int n).Fits s →
        (int n).encode (.scalar s) = .error .outOfRange) ∧
      (∀ (v : Value) (t : SqlType), v.encode t = .ok none ↔ v = null) ∧
      (∀ (items ys : List Value) (t : SqlType) (cell : Cell), array ys ∈ items →
        (array items).encode t ≠ .ok cell) ∧
      ∀ (t : SqlType) (member : Scalar) (lowest : Nat), t.member? = some (member, lowest) →
        (∀ (v : Value) (cell : Cell), v.encode t = .ok cell → v = null ∨ ∃ items, v = array items) ∧
        ∀ items : List Value, Short items member →
          ((∃ bs, (array items).encode t = .ok (some bs)) ↔
              ∀ x ∈ items, ∃ cell, x.encode (.scalar member) = .ok cell) ∧
            ∀ bs, (array items).encode t = .ok (some bs) →
              ∃ block, Tells bs items member lowest block := by
  refine ⟨fun v s => encode_scalar_iff_fits, fun v s bs => readScalar?_of_encode,
    fun n s => encode_outOfRange, fun v t => encode_eq_none_iff,
    fun items ys t cell => not_encodes_nested, ?_⟩
  intro t member lowest ht
  refine ⟨fun v cell => array_of_encode ht, ?_⟩
  intro items hitems
  exact ⟨encode_array_iff ht, fun bs => tells_of_encode ht hitems⟩

def sevenAndNull : List Value :=
  [int 7, null]

def sevenAndNullBytes : List UInt8 :=
  [0, 0, 0, 1, 0, 0, 0, 1, 0, 0, 0, 23, 0, 0, 0, 2, 0, 0, 0, 1, 0, 0, 0, 4, 0, 0, 0, 7,
    255, 255, 255, 255]

theorem short_sevenAndNull : Short sevenAndNull .int4 where
  count := by decide
  lengths := by
    have hseven : (int 7).encode (.scalar .int4) = .ok (some [0, 0, 0, 7]) := rfl
    intro x hx bs h
    cases hx with
    | head =>
      cases hseven.symm.trans h
      decide
    | tail _ hx =>
      cases hx with
      | head => cases h
      | tail _ hx => cases hx

theorem encode_read_back_sevenAndNull :
    (SqlType.member? (.array .int4) = some (.int4, 1) ∧ Short sevenAndNull .int4 ∧
        (array sevenAndNull).encode (.array .int4) = .ok (some sevenAndNullBytes) ∧
        ∃ block, Tells sevenAndNullBytes sevenAndNull .int4 1 block) ∧
      ((int 7).encode (.scalar .int2) = .ok (some [0, 7]) ∧
        ∃ kept, readScalar? .int2 [0, 7] = some kept ∧ (int 7).Kept .int2 kept) ∧
      (¬(int 70000).Fits .int2 ∧ (int 70000).encode (.scalar .int2) = .error .outOfRange) ∧
      (array [] ∈ [null, array []] ∧
        (array [null, array []]).encode (.array .int4) ≠ .ok none) := by
  obtain ⟨-, hread, hrange, -, hnested, harray⟩ := encode_read_back
  have hbytes : (array sevenAndNull).encode (.array .int4) = .ok (some sevenAndNullBytes) := rfl
  have hseven : (int 7).encode (.scalar .int2) = .ok (some [0, 7]) := rfl
  have hwide : ¬(int 70000).Fits .int2 := by
    intro h
    cases h with
    | int2 low high => exact absurd high (by decide)
  have hmem : array [] ∈ [null, array []] := .tail _ (.head _)
  have htells := ((harray (.array .int4) _ _ rfl).2 _ short_sevenAndNull).2 _ hbytes
  exact ⟨⟨rfl, short_sevenAndNull, hbytes, htells⟩, ⟨hseven, hread _ _ _ hseven⟩,
    ⟨hwide, hrange _ _ (.inl rfl) hwide⟩, hmem, hnested _ _ _ _ hmem⟩

end

end Value

end Quarry
