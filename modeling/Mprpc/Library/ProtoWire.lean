import Mathlib.Data.List.Nodup
import Mathlib.Tactic.NormNum

namespace Mprpc.Library.ProtoWire

/-- Base-128 digits, least significant first, all but the last one marked. The fuel
bounds their number. -/
def varintWith : Nat → Nat → List UInt8
  | 0, _ => []
  | fuel + 1, n =>
    if n < 128 then [UInt8.ofNat n] else UInt8.ofNat (n % 128 + 128) :: varintWith fuel (n / 128)

theorem varintWith_last (fuel : Nat) {n : Nat} (h : n < 128) :
    varintWith (fuel + 1) n = [UInt8.ofNat n] := if_pos h

theorem varintWith_more (fuel : Nat) {n : Nat} (h : ¬n < 128) :
    varintWith (fuel + 1) n = UInt8.ofNat (n % 128 + 128) :: varintWith fuel (n / 128) := if_neg h

theorem div_lt_pow {fuel n : Nat} (h : n < 128 ^ (fuel + 1)) : n / 128 < 128 ^ fuel :=
  Nat.div_lt_of_lt_mul (h.trans_eq Nat.pow_succ')

def varint (n : Nat) : List UInt8 := varintWith (n + 1) n

def readVarint : List UInt8 → Option (Nat × List UInt8)
  | [] => none
  | byte :: bytes =>
    if byte.toNat < 128 then some (byte.toNat, bytes)
    else (readVarint bytes).map fun (n, rest) => (byte.toNat - 128 + 128 * n, rest)

theorem readVarint_last {n : Nat} (h : n < 128) (rest : List UInt8) :
    readVarint (UInt8.ofNat n :: rest) = some (n, rest) := by
  have hbyte : (UInt8.ofNat n).toNat = n := by
    rw [UInt8.toNat_ofNat', Nat.mod_eq_of_lt (by omega)]
  rw [readVarint, hbyte, if_pos h]

theorem readVarint_more {digit n : Nat} {bytes rest : List UInt8} (h : digit < 128)
    (hrest : readVarint bytes = some (n, rest)) :
    readVarint (UInt8.ofNat (digit + 128) :: bytes) = some (digit + 128 * n, rest) := by
  have hbyte : (UInt8.ofNat (digit + 128)).toNat = digit + 128 := by
    rw [UInt8.toNat_ofNat', Nat.mod_eq_of_lt (by omega)]
  rw [readVarint, hbyte, if_neg (by omega), hrest, Option.map_some, Nat.add_sub_cancel]

theorem readVarint_varintWith {fuel n : Nat} (h : n < 128 ^ (fuel + 1)) (rest : List UInt8) :
    readVarint (varintWith (fuel + 1) n ++ rest) = some (n, rest) := by
  induction fuel generalizing n with
  | zero =>
    have hlt : n < 128 := by simpa using h
    rw [varintWith_last 0 hlt]
    exact readVarint_last hlt rest
  | succ fuel ih =>
    by_cases hlt : n < 128
    · rw [varintWith_last _ hlt]
      exact readVarint_last hlt rest
    · rw [varintWith_more _ hlt, List.cons_append,
        readVarint_more (Nat.mod_lt n (by omega)) (ih (div_lt_pow h)), Nat.mod_add_div]

theorem readVarint_varint (n : Nat) (rest : List UInt8) :
    readVarint (varint n ++ rest) = some (n, rest) :=
  readVarint_varintWith (n.lt_succ_self.trans (Nat.lt_pow_self (by omega))) rest

theorem varint_ne_nil (n : Nat) : varint n ≠ [] := by
  rw [varint, varintWith]
  split
  · exact List.cons_ne_nil _ _
  · exact List.cons_ne_nil _ _

inductive Value
  | number (n : Nat)
  | data (bytes : List UInt8)
deriving DecidableEq, Repr

structure Field where
  key : Nat
  value : Value
deriving DecidableEq, Repr

def Field.encode : Field → List UInt8
  | ⟨key, .number n⟩ => varint (8 * key) ++ varint n
  | ⟨key, .data bytes⟩ => varint (8 * key + 2) ++ varint bytes.length ++ bytes

def encode (fields : List Field) : List UInt8 := fields.flatMap Field.encode

def readValue (wireType : Nat) (bytes : List UInt8) : Option (Value × List UInt8) :=
  if wireType = 0 then (readVarint bytes).map fun (n, rest) => (.number n, rest)
  else if wireType = 2 then
    (readVarint bytes).bind fun (len, rest) =>
      if rest.length < len then none else some (.data (rest.take len), rest.drop len)
  else none

def readField (bytes : List UInt8) : Option (Field × List UInt8) :=
  (readVarint bytes).bind fun (tag, rest) =>
    (readValue (tag % 8) rest).map fun (value, rest) => (⟨tag / 8, value⟩, rest)

/-- A field takes at least a byte, so the number of bytes is fuel enough. -/
def decodeWith : Nat → List UInt8 → Option (List Field)
  | _, [] => some []
  | 0, _ :: _ => none
  | fuel + 1, bytes =>
    (readField bytes).bind fun (field, rest) => (decodeWith fuel rest).map (field :: ·)

theorem decodeWith_succ {fuel : Nat} {bytes : List UInt8} (h : bytes ≠ []) :
    decodeWith (fuel + 1) bytes =
      (readField bytes).bind fun (field, rest) => (decodeWith fuel rest).map (field :: ·) := by
  cases bytes with
  | nil => exact absurd rfl h
  | cons byte bytes => rfl

def decode (bytes : List UInt8) : Option (List Field) := decodeWith bytes.length bytes

theorem readField_encode (field : Field) (rest : List UInt8) :
    readField (field.encode ++ rest) = some (field, rest) := by
  obtain ⟨key, value⟩ := field
  cases value with
  | number n =>
    have hkey : 8 * key / 8 = key := by omega
    have htype : 8 * key % 8 = 0 := by omega
    rw [Field.encode, List.append_assoc, readField, readVarint_varint, Option.bind_some]
    simp only [htype, hkey, readValue, readVarint_varint, if_true, Option.map_some]
  | data bytes =>
    have hkey : (8 * key + 2) / 8 = key := by omega
    have htype : (8 * key + 2) % 8 = 2 := by omega
    have hlen : ¬(bytes ++ rest).length < bytes.length := by
      rw [List.length_append]
      omega
    rw [Field.encode, List.append_assoc, List.append_assoc, readField, readVarint_varint,
      Option.bind_some]
    simp only [htype, hkey, readValue, readVarint_varint, OfNat.ofNat_ne_zero, if_false, if_true,
      Option.bind_some, hlen, List.take_left, List.drop_left, Option.map_some]

theorem Field.encode_ne_nil (field : Field) : field.encode ≠ [] := by
  obtain ⟨key, value⟩ := field
  cases value with
  | number n => exact List.append_ne_nil_of_left_ne_nil (varint_ne_nil _) _
  | data bytes =>
    exact List.append_ne_nil_of_left_ne_nil
      (List.append_ne_nil_of_left_ne_nil (varint_ne_nil _) _) _

theorem length_le_encode (fields : List Field) : fields.length ≤ (encode fields).length := by
  induction fields with
  | nil => exact Nat.le_refl 0
  | cons field fields ih =>
    have hpos := List.length_pos_iff.mpr field.encode_ne_nil
    rw [encode, List.flatMap_cons, List.length_append, List.length_cons]
    exact Nat.succ_le_of_lt (by unfold encode at ih; omega)

theorem decodeWith_encode {fields : List Field} {fuel : Nat} (h : fields.length ≤ fuel) :
    decodeWith fuel (encode fields) = some fields := by
  induction fields generalizing fuel with
  | nil => cases fuel <;> rfl
  | cons field fields ih =>
    obtain ⟨fuel, rfl⟩ := Nat.exists_eq_succ_of_ne_zero (Nat.ne_zero_of_lt h)
    have hne := List.append_ne_nil_of_left_ne_nil field.encode_ne_nil (encode fields)
    rw [encode, List.flatMap_cons, ← encode, decodeWith_succ hne, readField_encode,
      Option.bind_some]
    dsimp only
    rw [ih (Nat.le_of_succ_le_succ h), Option.map_some]

theorem decode_encode (fields : List Field) : decode (encode fields) = some fields :=
  decodeWith_encode (length_le_encode fields)

theorem encode_eq_nil {fields : List Field} : encode fields = [] ↔ fields = [] := by
  constructor
  · intro h
    have hlen := length_le_encode fields
    rw [h] at hlen
    exact List.length_eq_zero_iff.mp (Nat.le_zero.mp hlen)
  · rintro rfl
    rfl

def Value.isDefault : Value → Bool
  | .number n => n = 0
  | .data bytes => bytes.isEmpty

/-- Fields that hold their defaults are not written. -/
def omitDefaults (fields : List Field) : List Field := fields.filter (!·.value.isDefault)

/-- The last field with a key counts. -/
def lookup (fields : List Field) (key : Nat) : Option Value :=
  (fields.reverse.find? (·.key = key)).map (·.value)

def numberAt (fields : List Field) (key : Nat) : Nat :=
  match lookup fields key with
  | some (.number n) => n
  | _ => 0

def dataAt (fields : List Field) (key : Nat) : List UInt8 :=
  match lookup fields key with
  | some (.data bytes) => bytes
  | _ => []

section Lookup

variable {fields : List Field} (key : Nat)

theorem find?_omitDefaults (h : (fields.map (·.key)).Nodup) :
    (omitDefaults fields).find? (·.key = key) =
      (fields.find? (·.key = key)).filter (!·.value.isDefault) := by
  induction fields with
  | nil => rfl
  | cons field fields ih =>
    rw [List.map_cons, List.nodup_cons] at h
    obtain ⟨hnotMem, hnodup⟩ := h
    rw [omitDefaults, List.filter_cons, ← omitDefaults]
    by_cases hkey : field.key = key
    · have hnone : (omitDefaults fields).find? (·.key = key) = none := by
        rw [List.find?_eq_none]
        intro other hother hsame
        have hmem := List.mem_map_of_mem (f := (·.key)) (List.mem_of_mem_filter hother)
        rw [of_decide_eq_true hsame, ← hkey] at hmem
        exact hnotMem hmem
      cases hdefault : field.value.isDefault <;>
        simp [hkey, hdefault, hnone, Option.filter_some]
    · cases field.value.isDefault <;> simp [hkey, ih hnodup]

theorem lookup_omitDefaults (h : (fields.map (·.key)).Nodup) :
    lookup (omitDefaults fields) key = (lookup fields key).filter (!·.isDefault) := by
  have hreverse : (fields.reverse.map (·.key)).Nodup := by
    rw [List.map_reverse]
    exact List.nodup_reverse.mpr h
  have hfind := find?_omitDefaults key hreverse
  rw [omitDefaults, List.filter_reverse, ← omitDefaults] at hfind
  rw [lookup, hfind, lookup]
  cases fields.reverse.find? (·.key = key) with
  | none => rfl
  | some field => cases hdefault : field.value.isDefault <;> simp [Option.filter_some, hdefault]

/-- A field that was not written reads as its default. -/
theorem numberAt_omitDefaults (h : (fields.map (·.key)).Nodup) :
    numberAt (omitDefaults fields) key = numberAt fields key := by
  rw [numberAt, lookup_omitDefaults key h, numberAt]
  cases lookup fields key with
  | none => rfl
  | some value =>
    cases value with
    | number n => by_cases hn : n = 0 <;> simp [Option.filter_some, Value.isDefault, hn]
    | data bytes => cases hb : bytes.isEmpty <;> simp [Option.filter_some, Value.isDefault, hb]

theorem dataAt_omitDefaults (h : (fields.map (·.key)).Nodup) :
    dataAt (omitDefaults fields) key = dataAt fields key := by
  rw [dataAt, lookup_omitDefaults key h, dataAt]
  cases lookup fields key with
  | none => rfl
  | some value =>
    cases value with
    | number n => by_cases hn : n = 0 <;> simp [Option.filter_some, Value.isDefault, hn]
    | data bytes => by_cases hb : bytes = [] <;> simp [Option.filter_some, Value.isDefault, hb]

end Lookup

/-- A signed number is written as its two's complement in 64 bits. -/
def ofInt (i : Int) : Nat := (i % 2 ^ 64).toNat

/-- And read from its low 32 bits. -/
def toInt32 (n : Nat) : Int := (n : Int).bmod (2 ^ 32)

theorem ofInt_eq (i : Int) : (ofInt i : Int) = i % 2 ^ 64 :=
  Int.toNat_of_nonneg (Int.emod_nonneg i (by decide))

theorem toInt32_ofInt {i : Int} (hl : -2 ^ 31 ≤ i) (hu : i < 2 ^ 31) : toInt32 (ofInt i) = i := by
  have hsplit : i % 2 ^ 64 = i + ((2 ^ 32 : Nat) : Int) * (-2 ^ 32 * (i / 2 ^ 64)) := by
    have h := Int.emod_add_mul_ediv i (2 ^ 64)
    norm_num at h ⊢
    omega
  unfold toInt32
  rw [ofInt_eq, hsplit, Int.add_mul_bmod_self_left]
  apply Int.bmod_eq_of_le
  · norm_num at hl ⊢
    omega
  · norm_num at hu ⊢
    omega

end Mprpc.Library.ProtoWire
