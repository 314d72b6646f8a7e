import Quarry.Wire.Encode

namespace Quarry

open Number

namespace Instant

/-- Nanoseconds from the server's epoch. -/
def sinceEpoch (t : Instant) : Int :=
  (t.seconds - Wire.epoch) * 1000000000 + t.nanos.val

/-- The time so many microseconds after the server's epoch. -/
def ofMicroseconds (n : Int) : Instant where
  seconds := Wire.epoch + n / 1000000
  nanos := Fin.ofNat 1000000000 ((n % 1000000).toNat * 1000)

/-- What is left of a time whose distance from the server's epoch is cut down to full
microseconds. -/
structure Truncates (t kept : Instant) : Prop where
  whole : 1000 ∣ kept.sinceEpoch
  after : 0 ≤ t.sinceEpoch → kept.sinceEpoch ≤ t.sinceEpoch ∧ t.sinceEpoch < kept.sinceEpoch + 1000
  before : t.sinceEpoch ≤ 0 → t.sinceEpoch ≤ kept.sinceEpoch ∧ kept.sinceEpoch < t.sinceEpoch + 1000

/-- A word counts the full microseconds between the time and the server's epoch. -/
structure Countable (t : Instant) : Prop where
  low : -9223372036854775809000 < t.sinceEpoch
  high : t.sinceEpoch < 9223372036854775808000

end Instant

namespace Value

/-- The column type `s` has a place for the value, which is not NULL. -/
inductive Fits : Value → Wire.Scalar → Prop where
  | bool (b : Bool) : Fits (.bool b) .bool
  | int2 {n : Int64} (low : -32768 ≤ n.toInt) (high : n.toInt < 32768) : Fits (.int n) .int2
  | int4 {n : Int64} (low : -2147483648 ≤ n.toInt) (high : n.toInt < 2147483648) :
      Fits (.int n) .int4
  | int8 (n : Int64) : Fits (.int n) .int8
  | intFloat4 (n : Int64) : Fits (.int n) .float4
  | intFloat8 (n : Int64) : Fits (.int n) .float8
  | float4 (x : Double) : Fits (.float x) .float4
  | float8 (x : Double) : Fits (.float x) .float8
  | text {s : Wire.Scalar} (text : String) (h : s.isTextual) : Fits (.text text) s
  | bytes (bs : List UInt8) : Fits (.bytes bs) .bytea
  | uuid (id : BitVec 128) : Fits (.uuid id) .uuid
  | timestamp {t : Instant} (h : t.Countable) : Fits (.timestamp t) .timestamptz
  | json (doc : Json) : Fits (.json doc) .json
  | jsonb (doc : Json) : Fits (.json doc) .jsonb

/-- What a column of type `s` holds of a value: all of it, but a floating point column rounds, a
time is kept to the microsecond, and a document as its text. -/
inductive Kept : Value → Wire.Scalar → Value → Prop where
  | bool (b : Bool) : Kept (.bool b) .bool (.bool b)
  | int2 (n : Int64) : Kept (.int n) .int2 (.int n)
  | int4 (n : Int64) : Kept (.int n) .int4 (.int n)
  | int8 (n : Int64) : Kept (.int n) .int8 (.int n)
  | intFloat4 (n : Int64) : Kept (.int n) .float4 (.float (Single.ofInt n.toInt).widen)
  | intFloat8 (n : Int64) : Kept (.int n) .float8 (.float (Double.ofInt n.toInt))
  | float4 (x : Double) : Kept (.float x) .float4 (.float x.narrow.widen)
  | float8 (x : Double) : Kept (.float x) .float8 (.float x)
  | text {s : Wire.Scalar} (text : String) (h : s.isTextual) : Kept (.text text) s (.text text)
  | bytes (bs : List UInt8) : Kept (.bytes bs) .bytea (.bytes bs)
  | uuid (id : BitVec 128) : Kept (.uuid id) .uuid (.uuid id)
  | timestamp {t kept : Instant} (h : t.Truncates kept) :
      Kept (.timestamp t) .timestamptz (.timestamp kept)
  | json (doc : Json) : Kept (.json doc) .json (.text doc.text)
  | jsonb (doc : Json) : Kept (.json doc) .jsonb (.text doc.text)

end Value

namespace Wire

def readText? (bs : List UInt8) : Option Value :=
  (String.fromUTF8? ⟨bs.toArray⟩).map .text

/-- A value that takes exactly `width` bytes. -/
def exactly (width : Nat) (bs : List UInt8) (v : Value) : Option Value :=
  if bs.length = width then some v else none

def readScalar? (s : Scalar) (bs : List UInt8) : Option Value :=
  match s with
  | .bool => exactly 1 bs (.bool (natOfBytes bs != 0))
  | .int2 => exactly 2 bs (.int (Int64.ofInt (intOfBytes bs)))
  | .int4 => exactly 4 bs (.int (Int64.ofInt (intOfBytes bs)))
  | .int8 => exactly 8 bs (.int (Int64.ofInt (intOfBytes bs)))
  | .float4 => exactly 4 bs (.float (Single.widen ⟨UInt32.ofNat (natOfBytes bs)⟩))
  | .float8 => exactly 8 bs (.float ⟨UInt64.ofNat (natOfBytes bs)⟩)
  | .uuid => exactly 16 bs (.uuid (BitVec.ofNat 128 (natOfBytes bs)))
  | .timestamptz => exactly 8 bs (.timestamp (.ofMicroseconds (intOfBytes bs)))
  | .bytea => some (.bytes bs)
  | .text | .varchar | .bpchar | .name | .unknown | .json => readText? bs
  | .jsonb =>
    match bs with
    | 1 :: bs => readText? bs
    | _ => none
  | .char | .oid | .numeric | .timestamp | .date => none

section

variable {v : Value} {s : Scalar} {bs : List UInt8} {t : Instant} {n : Int64} {width : Nat}

theorem capacity_pos (width : Nat) : 0 < capacity width :=
  Nat.pow_pos (by decide)

theorem intOfBytes_bytesOfNat (width n : Nat) :
    intOfBytes (bytesOfNat width n) = (n : Int).bmod (capacity width) := by
  rw [intOfBytes, natOfBytes_bytesOfNat, length_bytesOfNat, Int.natCast_emod, Int.emod_bmod]

theorem intOfBytes_bytesOfInt (width : Nat) (n : Int) :
    intOfBytes (bytesOfInt width n) = n.bmod (capacity width) := by
  have hpos : (capacity width : Int) ≠ 0 := Int.ofNat_ne_zero.2 (Nat.ne_of_gt (capacity_pos width))
  rw [bytesOfInt, intOfBytes_bytesOfNat, Int.toNat_of_nonneg (Int.emod_nonneg n hpos),
    Int.emod_bmod]

theorem length_bytesOfInt (width : Nat) (n : Int) : (bytesOfInt width n).length = width :=
  length_bytesOfNat width _

theorem exactly_of_length (h : bs.length = width) (v : Value) : exactly width bs v = some v :=
  if_pos h

theorem natOfBytes_of_lt {width n : Nat} (h : n < capacity width) :
    natOfBytes (bytesOfNat width n) = n := by
  rw [natOfBytes_bytesOfNat, Nat.mod_eq_of_lt h]

theorem readText?_utf8 (text : String) : readText? (utf8 text) = some (.text text) := by
  have hvalid : text.toUTF8.IsValidUTF8 := text.isValidUTF8
  have hbytes : (⟨(utf8 text).toArray⟩ : ByteArray) = text.toUTF8 := by
    rw [utf8, Array.toArray_toList]
  rw [readText?, hbytes, String.fromUTF8?, dif_pos hvalid]
  rfl

theorem readScalar?_isTextual (h : s.isTextual) (bs : List UInt8) :
    readScalar? s bs = readText? bs := by
  cases s with
  | text | varchar | bpchar | name | unknown => rfl
  | _ => cases h

theorem sinceEpoch_ofMicroseconds (n : Int) :
    (Instant.ofMicroseconds n).sinceEpoch = 1000 * n := by
  have hlt : (n % 1000000).toNat * 1000 < 1000000000 := by omega
  have hnanos : (Instant.ofMicroseconds n).nanos.val = (n % 1000000).toNat * 1000 :=
    Nat.mod_eq_of_lt hlt
  have hseconds : (Instant.ofMicroseconds n).seconds = epoch + n / 1000000 := rfl
  rw [Instant.sinceEpoch, hnanos, hseconds]
  omega

theorem microseconds_of_nonneg (h : 0 ≤ t.sinceEpoch) : microseconds t = t.sinceEpoch / 1000 :=
  Int.tdiv_eq_ediv_of_nonneg h

theorem microseconds_of_nonpos (h : t.sinceEpoch ≤ 0) :
    microseconds t = -(-t.sinceEpoch / 1000) := by
  have hneg : (-t.sinceEpoch).tdiv 1000 = -microseconds t := Int.neg_tdiv _ _
  have hdiv := Int.tdiv_eq_ediv_of_nonneg (b := 1000) (Int.neg_nonneg_of_nonpos h)
  omega

theorem truncates_microseconds (t : Instant) :
    t.Truncates (.ofMicroseconds (microseconds t)) where
  whole := ⟨_, sinceEpoch_ofMicroseconds _⟩
  after := by
    intro h
    rw [sinceEpoch_ofMicroseconds, microseconds_of_nonneg h]
    omega
  before := by
    intro h
    rw [sinceEpoch_ofMicroseconds, microseconds_of_nonpos h]
    omega

theorem countable_iff : t.Countable ↔ ∃ w, word? (microseconds t) = some w := by
  have hcount : t.Countable ↔ -9223372036854775809000 < t.sinceEpoch ∧
      t.sinceEpoch < 9223372036854775808000 := ⟨fun h => ⟨h.low, h.high⟩, fun h => ⟨h.1, h.2⟩⟩
  rw [exists_word?_iff, hcount]
  rcases Int.le_total 0 t.sinceEpoch with h | h
  · rw [microseconds_of_nonneg h]
    omega
  · rw [microseconds_of_nonpos h]
    omega

/-- An integer is read back if half of what its width holds is above it, up to the sign. -/
theorem intOfBytes_of_bounds {n : Int} (low : -((capacity width / 2 : Nat) : Int) ≤ n)
    (high : n < (capacity width / 2 : Nat)) : intOfBytes (bytesOfInt width n) = n := by
  rw [intOfBytes_bytesOfInt]
  apply Int.bmod_eq_of_le
  · omega
  · omega

theorem of_narrow {cell : Cell} (h : narrow width n = .ok cell) :
    -((capacity width / 2 : Nat) : Int) ≤ n.toInt ∧ n.toInt < (capacity width / 2 : Nat) := by
  rw [narrow] at h
  split at h
  · assumption
  · cases h

theorem narrow_eq_error (h : ∀ cell, narrow width n ≠ .ok cell) :
    narrow width n = .error .outOfRange :=
  if_neg fun hn => h _ (if_pos hn)

theorem exactly_int (low : -((capacity width / 2 : Nat) : Int) ≤ n.toInt)
    (high : n.toInt < (capacity width / 2 : Nat)) :
    exactly width (bytesOfInt width n.toInt)
      (.int (Int64.ofInt (intOfBytes (bytesOfInt width n.toInt)))) = some (.int n) := by
  rw [exactly_of_length (length_bytesOfInt _ _), intOfBytes_of_bounds low high, Int64.ofInt_toInt]

theorem readScalar?_float4 (x : Single) :
    readScalar? .float4 (bytesOfNat 4 x.bits.toNat) = some (.float x.widen) := by
  have hlt : x.bits.toNat < capacity 4 := x.bits.toNat_lt
  rw [readScalar?, exactly_of_length (length_bytesOfNat _ _), natOfBytes_of_lt hlt,
    UInt32.ofNat_toNat]

theorem readScalar?_float8 (x : Double) :
    readScalar? .float8 (bytesOfNat 8 x.bits.toNat) = some (.float x) := by
  have hlt : x.bits.toNat < capacity 8 := x.bits.toNat_lt
  rw [readScalar?, exactly_of_length (length_bytesOfNat _ _), natOfBytes_of_lt hlt,
    UInt64.ofNat_toNat]

theorem readScalar?_uuid (id : BitVec 128) :
    readScalar? .uuid (bytesOfNat 16 id.toNat) = some (.uuid id) := by
  have hlt : id.toNat < capacity 16 := id.isLt
  rw [readScalar?, exactly_of_length (length_bytesOfNat _ _), natOfBytes_of_lt hlt,
    BitVec.ofNat_toNat, BitVec.setWidth_eq]

theorem readScalar?_timestamptz {w : Int64} (h : word? (microseconds t) = some w) :
    readScalar? .timestamptz (bytesOfInt 8 w.toInt) =
      some (.timestamp (.ofMicroseconds (microseconds t))) := by
  rw [readScalar?, exactly_of_length (length_bytesOfInt _ _),
    intOfBytes_of_bounds w.le_toInt w.toInt_lt, toInt_of_word? h]

end

end Wire

namespace Value

open Wire

section

variable {v : Value} {s : Scalar} {cell : Cell}

/-- One case for each place in the table of values and types. -/
theorem Fits.encodeScalar (h : v.Fits s) :
    ∃ bs kept, v.encodeScalar s = .ok (some bs) ∧ readScalar? s bs = some kept ∧
      v.Kept s kept := by
  cases h with
  | bool b =>
    cases b with
    | false => exact ⟨_, _, rfl, rfl, .bool false⟩
    | true => exact ⟨_, _, rfl, rfl, .bool true⟩
  | int2 low high => exact ⟨_, _, if_pos ⟨low, high⟩, exactly_int low high, .int2 _⟩
  | int4 low high => exact ⟨_, _, if_pos ⟨low, high⟩, exactly_int low high, .int4 _⟩
  | int8 n => exact ⟨_, _, rfl, exactly_int n.le_toInt n.toInt_lt, .int8 n⟩
  | intFloat4 n => exact ⟨_, _, rfl, readScalar?_float4 _, .intFloat4 n⟩
  | intFloat8 n => exact ⟨_, _, rfl, readScalar?_float8 _, .intFloat8 n⟩
  | float4 x => exact ⟨_, _, rfl, readScalar?_float4 _, .float4 x⟩
  | float8 x => exact ⟨_, _, rfl, readScalar?_float8 x, .float8 x⟩
  | text text ht =>
    have hread := (readScalar?_isTextual ht _).trans (readText?_utf8 text)
    exact ⟨_, _, if_pos ht, hread, .text text ht⟩
  | bytes bs => exact ⟨_, _, rfl, rfl, .bytes bs⟩
  | uuid id => exact ⟨_, _, rfl, readScalar?_uuid id, .uuid id⟩
  | @timestamp t ht =>
    obtain ⟨w, hw⟩ := countable_iff.1 ht
    have hencode : encodeInstant t .timestamptz = .ok (some (bytesOfInt 8 w.toInt)) := by
      rw [encodeInstant, hw]
    exact ⟨_, _, hencode, readScalar?_timestamptz hw, .timestamp (truncates_microseconds _)⟩
  | json doc => exact ⟨_, _, rfl, readText?_utf8 _, .json doc⟩
  | jsonb doc => exact ⟨_, _, rfl, readText?_utf8 _, .jsonb doc⟩

theorem of_only {fits : Bool} {bs : List UInt8} (h : only fits bs = .ok cell) : fits := by
  cases fits with
  | false => cases h
  | true => rfl

theorem fits_of_encodeScalar (h : v.encodeScalar s = .ok cell) (hv : v ≠ null) : v.Fits s := by
  cases v with
  | null => exact absurd rfl hv
  | bool b =>
    cases of_decide_eq_true (of_only h)
    exact .bool b
  | int n =>
    cases s with
    | int2 =>
      obtain ⟨low, high⟩ := of_narrow h
      exact .int2 low high
    | int4 =>
      obtain ⟨low, high⟩ := of_narrow h
      exact .int4 low high
    | int8 => exact .int8 n
    | float4 => exact .intFloat4 n
    | float8 => exact .intFloat8 n
    | _ => cases h
  | float x =>
    cases s with
    | float4 => exact .float4 x
    | float8 => exact .float8 x
    | _ => cases h
  | text text => exact .text text (of_only h)
  | bytes bytes =>
    cases of_decide_eq_true (of_only h)
    exact .bytes bytes
  | uuid id =>
    cases of_decide_eq_true (of_only h)
    exact .uuid id
  | timestamp t =>
    cases s with
    | timestamptz =>
      apply Fits.timestamp
      apply countable_iff.2
      cases hw : word? (microseconds t) with
      | none =>
        have hnone : encodeInstant t .timestamptz = .error .outOfRange := by
          rw [encodeInstant, hw]
        cases hnone.symm.trans h
      | some w => exact ⟨w, rfl⟩
    | _ => cases h
  | json doc =>
    cases s with
    | json => exact .json doc
    | jsonb => exact .jsonb doc
    | _ => cases h
  | array items => cases h

theorem encodeScalar_eq_none_iff : v.encodeScalar s = .ok none ↔ v = null := by
  constructor
  · intro h
    apply Classical.byContradiction
    intro hv
    obtain ⟨bs, kept, hencode, -⟩ := (fits_of_encodeScalar h hv).encodeScalar
    cases h.symm.trans hencode
  · rintro rfl
    rfl

end

end Value

end Quarry
