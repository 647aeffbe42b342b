import QuakeJs.Data.Fallible
import Mathlib.Data.List.Basic
import Mathlib.Tactic.Ring

/-!
# Packed records

Byte strings that hold records of a fixed size, as the `struct` module of the
source language reads and writes them.

* `Layout`: how one record is packed, with its round trips, built from
  integers, raw bytes, padded text, pairs and repetitions.
* `records` and `packed`: all records of a byte string.
* `slice`: a part of a list, with the bounds as integers.
-/

namespace QuakeJs.Struct

abbrev Bytes := List UInt8

/-! ## Little-endian numbers -/

/-- The first `k` bytes of a number. -/
def encode : Nat → Nat → Bytes
  | 0, _ => []
  | k + 1, n => UInt8.ofNat (n % 256) :: encode k (n / 256)

def decode : Bytes → Nat
  | [] => 0
  | b :: rest => b.toNat + 256 * decode rest

@[simp] theorem length_encode (k n : Nat) : (encode k n).length = k := by
  induction k generalizing n with
  | zero => rfl
  | succ k ih => simp [encode, ih]

theorem decode_encode {k n : Nat} (h : n < 256 ^ k) : decode (encode k n) = n := by
  induction k generalizing n with
  | zero =>
    have hzero : n = 0 := by simpa using h
    rw [hzero]
    rfl
  | succ k ih =>
    have hrest : n / 256 < 256 ^ k := by
      rw [pow_succ] at h
      omega
    have hbyte : (UInt8.ofNat (n % 256)).toNat = n % 256 := by simp
    show (UInt8.ofNat (n % 256)).toNat + 256 * decode (encode k (n / 256)) = n
    rw [ih hrest, hbyte]
    omega

theorem decode_lt (b : Bytes) : decode b < 256 ^ b.length := by
  induction b with
  | nil => simp [decode]
  | cons b rest ih =>
    have hbyte : b.toNat < 256 := b.toNat_lt
    rw [List.length_cons, pow_succ]
    show b.toNat + 256 * decode rest < _
    omega

theorem encode_decode (b : Bytes) : encode b.length (decode b) = b := by
  induction b with
  | nil => rfl
  | cons b rest ih =>
    have hbyte : b.toNat < 256 := b.toNat_lt
    have hmod : (b.toNat + 256 * decode rest) % 256 = b.toNat := by omega
    have hdiv : (b.toNat + 256 * decode rest) / 256 = decode rest := by omega
    show UInt8.ofNat ((b.toNat + 256 * decode rest) % 256) ::
      encode rest.length ((b.toNat + 256 * decode rest) / 256) = b :: rest
    rw [hmod, hdiv, ih, UInt8.ofNat_toNat]

/-! ## Layouts -/

/-- How a record is packed.  A record that `Fits` is packed as it is, or raises;
another one may be packed as a record that does. -/
structure Layout (α : Type) where
  size : Nat
  pack : α → Option Bytes
  unpack : Bytes → α
  Fits : α → Prop
  length_pack : ∀ {a b}, pack a = some b → b.length = size
  unpack_pack : ∀ {a b}, Fits a → pack a = some b → unpack b = a
  pack_unpack : ∀ {b}, b.length = size → pack (unpack b) = some b
  fits_unpack : ∀ {b}, b.length = size → Fits (unpack b)

variable {α β : Type}

/-- `i`: a number of 32 bits with its sign. -/
def int : Layout Int where
  size := 4
  pack n :=
    if -2147483648 ≤ n ∧ n < 2147483648 then some (encode 4 (n % 4294967296).toNat) else none
  unpack b :=
    let n := decode b
    if n < 2147483648 then n else n - 4294967296
  Fits _ := True
  length_pack := by
    intro n b h
    split_ifs at h
    rw [← Option.some.inj h, length_encode]
  unpack_pack := by
    intro n b _ h
    split_ifs at h with hrange
    obtain rfl := Option.some.inj h
    have hlt : (n % 4294967296).toNat < 256 ^ 4 := by norm_num; omega
    dsimp only
    rw [decode_encode hlt]
    split_ifs <;> omega
  pack_unpack := by
    intro b hlength
    have hlt : decode b < 4294967296 := by
      have := decode_lt b
      rw [hlength] at this
      exact this
    have hagain : encode 4 (decode b) = b := by
      rw [← hlength, encode_decode]
    dsimp only
    by_cases hsign : decode b < 2147483648
    · rw [if_pos hsign, if_pos (by omega), show ((decode b : Int) % 4294967296).toNat =
        decode b by omega, hagain]
    · rw [if_neg hsign, if_pos (by omega),
        show (((decode b : Int) - 4294967296) % 4294967296).toNat = decode b by omega, hagain]
  fits_unpack _ := trivial

/-- Bytes as they are. -/
def raw (n : Nat) : Layout Bytes where
  size := n
  pack b := if b.length = n then some b else none
  unpack b := b
  Fits _ := True
  length_pack := by
    intro a b h
    split_ifs at h with hlength
    rw [← Option.some.inj h, hlength]
  unpack_pack := by
    intro a b _ h
    split_ifs at h
    exact (Option.some.inj h).symm
  pack_unpack := fun h => if_pos h
  fits_unpack _ := trivial

/-- `s`: a text, which is cut or filled with zeros. -/
def text (n : Nat) : Layout Bytes where
  size := n
  pack b := some ((b ++ List.replicate n 0).take n)
  unpack b := b
  Fits b := b.length = n
  length_pack := by
    intro a b h
    rw [← Option.some.inj h]
    simp
  unpack_pack := by
    intro a b hfits h
    rw [← Option.some.inj h, ← hfits, List.take_left]
  pack_unpack := by
    intro b hlength
    rw [← hlength, List.take_left]
  fits_unpack := fun h => h

/-- One record after another. -/
def pair (l : Layout α) (l' : Layout β) : Layout (α × β) where
  size := l.size + l'.size
  pack a := do
    let first ← l.pack a.1
    let second ← l'.pack a.2
    some (first ++ second)
  unpack b := (l.unpack (b.take l.size), l'.unpack (b.drop l.size))
  Fits a := l.Fits a.1 ∧ l'.Fits a.2
  length_pack := by
    intro a b h
    simp only [Option.bind_eq_bind, Option.bind_eq_some_iff] at h
    obtain ⟨first, hfirst, second, hsecond, heq⟩ := h
    obtain rfl := Option.some.inj heq
    rw [List.length_append, l.length_pack hfirst, l'.length_pack hsecond]
  unpack_pack := by
    intro a b hfits h
    simp only [Option.bind_eq_bind, Option.bind_eq_some_iff] at h
    obtain ⟨first, hfirst, second, hsecond, heq⟩ := h
    obtain rfl := Option.some.inj heq
    have hlength := l.length_pack hfirst
    rw [← hlength, List.take_left, List.drop_left, l.unpack_pack hfits.1 hfirst,
      l'.unpack_pack hfits.2 hsecond]
  pack_unpack := by
    intro b hlength
    have hfirst : (b.take l.size).length = l.size := by simp [hlength]
    have hsecond : (b.drop l.size).length = l'.size := by simp [hlength]
    simp only [l.pack_unpack hfirst, l'.pack_unpack hsecond,
      Option.bind_eq_bind, Option.bind_some,
      List.take_append_drop]
  fits_unpack := by
    intro b hlength
    exact ⟨l.fits_unpack (by simp [hlength]), l'.fits_unpack (by simp [hlength])⟩

/-- The same record under another type. -/
def Layout.via (l : Layout α) (make : α → β) (fields : β → α) (hfields : ∀ a, fields (make a) = a)
    (hmake : ∀ b, make (fields b) = b) : Layout β where
  size := l.size
  pack b := l.pack (fields b)
  unpack bytes := make (l.unpack bytes)
  Fits b := l.Fits (fields b)
  length_pack := fun h => l.length_pack h
  unpack_pack := by
    intro b bytes hfits h
    rw [l.unpack_pack hfits h, hmake]
  pack_unpack := by
    intro bytes h
    rw [hfields, l.pack_unpack h]
  fits_unpack := by
    intro bytes h
    rw [hfields]
    exact l.fits_unpack h

/-! ## All records of a byte string -/

/-- `b"".join(layout.pack(*row) for row in rows)`. -/
def packed (l : Layout α) : List α → Option Bytes
  | [] => some []
  | a :: rest => do
    let first ← l.pack a
    let others ← packed l rest
    some (first ++ others)

/-- The first `n` records. -/
def unpacked (l : Layout α) : Nat → Bytes → List α
  | 0, _ => []
  | n + 1, b => l.unpack (b.take l.size) :: unpacked l n (b.drop l.size)

/-- `layout.iter_unpack(data)`. -/
def records (l : Layout α) (data : Bytes) : Option (List α) :=
  if data.length % l.size = 0 then some (unpacked l (data.length / l.size) data) else none

variable {l : Layout α}

theorem packed_cons {a : α} {rows : List α} {b : Bytes} : packed l (a :: rows) = some b ↔
    ∃ first others, l.pack a = some first ∧ packed l rows = some others ∧
      first ++ others = b := by
  simp only [packed, Option.bind_eq_bind, Option.bind_eq_some_iff, Option.some.injEq]
  constructor
  · rintro ⟨first, hfirst, others, hothers, heq⟩
    exact ⟨first, others, hfirst, hothers, heq⟩
  · rintro ⟨first, others, hfirst, hothers, heq⟩
    exact ⟨first, hfirst, others, hothers, heq⟩

theorem length_packed {rows : List α} {b : Bytes} (h : packed l rows = some b) :
    b.length = rows.length * l.size := by
  induction rows generalizing b with
  | nil =>
    obtain rfl := Option.some.inj h
    simp
  | cons a rows ih =>
    obtain ⟨first, others, hfirst, hothers, rfl⟩ := packed_cons.mp h
    rw [List.length_append, l.length_pack hfirst, ih hothers, List.length_cons]
    ring

@[simp] theorem length_unpacked (l : Layout α) (n : Nat) (b : Bytes) :
    (unpacked l n b).length = n := by
  induction n generalizing b with
  | zero => rfl
  | succ n ih => simp [unpacked, ih]

theorem unpacked_packed {rows : List α} {b : Bytes} (hfits : ∀ a ∈ rows, l.Fits a)
    (h : packed l rows = some b) : unpacked l rows.length b = rows := by
  induction rows generalizing b with
  | nil => rfl
  | cons a rows ih =>
    obtain ⟨first, others, hfirst, hothers, rfl⟩ := packed_cons.mp h
    have hlength := l.length_pack hfirst
    show l.unpack ((first ++ others).take l.size) ::
      unpacked l rows.length ((first ++ others).drop l.size) = a :: rows
    rw [← hlength, List.take_left, List.drop_left,
      l.unpack_pack (hfits a List.mem_cons_self) hfirst,
      ih (fun a' ha' => hfits a' (List.mem_cons_of_mem a ha')) hothers]

theorem packed_unpacked {n : Nat} {b : Bytes} (h : b.length = n * l.size) :
    packed l (unpacked l n b) = some b := by
  induction n generalizing b with
  | zero =>
    rw [Nat.zero_mul, List.length_eq_zero_iff] at h
    rw [h]
    rfl
  | succ n ih =>
    rw [Nat.succ_mul] at h
    refine packed_cons.mpr ⟨b.take l.size, b.drop l.size, l.pack_unpack ?_, ih ?_,
      List.take_append_drop _ b⟩
    · rw [List.length_take]
      omega
    · rw [List.length_drop]
      omega

theorem fits_unpacked {n : Nat} {b : Bytes} (h : b.length = n * l.size) :
    ∀ a ∈ unpacked l n b, l.Fits a := by
  induction n generalizing b with
  | zero => exact fun a ha => absurd ha List.not_mem_nil
  | succ n ih =>
    rw [Nat.succ_mul] at h
    intro a ha
    rcases List.mem_cons.mp ha with rfl | ha
    · apply l.fits_unpack
      rw [List.length_take]
      omega
    · refine ih ?_ a ha
      rw [List.length_drop]
      omega

/-- `n` records in one. -/
def many (l : Layout α) (n : Nat) : Layout (List α) where
  size := n * l.size
  pack rows := if rows.length = n then packed l rows else none
  unpack b := unpacked l n b
  Fits rows := ∀ a ∈ rows, l.Fits a
  length_pack := by
    intro rows b h
    split_ifs at h with hlength
    rw [length_packed h, hlength]
  unpack_pack := by
    intro rows b hfits h
    split_ifs at h with hlength
    rw [← hlength, unpacked_packed hfits h]
  pack_unpack := by
    intro b h
    rw [if_pos (length_unpacked l n b), packed_unpacked h]
  fits_unpack := fits_unpacked

/-- The layout pads no record. -/
def Layout.Exact (l : Layout α) : Prop := ∀ a, l.Fits a

theorem exact_int : int.Exact := fun _ => trivial

theorem exact_raw (n : Nat) : (raw n).Exact := fun _ => trivial

theorem Layout.Exact.pair {l' : Layout β} (h : l.Exact) (h' : l'.Exact) :
    (Struct.pair l l').Exact :=
  fun a => ⟨h a.1, h' a.2⟩

theorem Layout.Exact.via (h : l.Exact) {make : α → β} {fields : β → α} (hfields hmake) :
    (l.via make fields hfields hmake).Exact :=
  fun b => h (fields b)

theorem Layout.Exact.many (h : l.Exact) (n : Nat) : (Struct.many l n).Exact := fun _ a _ => h a

theorem packed_append {rows rows' : List α} {b : Bytes} : packed l (rows ++ rows') = some b ↔
    ∃ first others, packed l rows = some first ∧ packed l rows' = some others ∧
      first ++ others = b := by
  induction rows generalizing b with
  | nil =>
    constructor
    · exact fun h => ⟨[], b, rfl, h, rfl⟩
    · rintro ⟨first, others, hfirst, hothers, rfl⟩
      obtain rfl := Option.some.inj hfirst
      exact hothers
  | cons a rows ih =>
    rw [List.cons_append, packed_cons]
    constructor
    · rintro ⟨first, others, hfirst, hothers, rfl⟩
      obtain ⟨second, rest, hsecond, hrest, rfl⟩ := ih.mp hothers
      exact ⟨first ++ second, rest, packed_cons.mpr ⟨first, second, hfirst, hsecond, rfl⟩, hrest,
        List.append_assoc _ _ _⟩
    · rintro ⟨first, others, hfirst, hothers, rfl⟩
      obtain ⟨head, second, hhead, hsecond, rfl⟩ := packed_cons.mp hfirst
      exact ⟨head, second ++ others, hhead, ih.mpr ⟨second, others, hsecond, hothers, rfl⟩,
        (List.append_assoc _ _ _).symm⟩

theorem unpacked_append {m n : Nat} {b b' : Bytes} (h : b.length = m * l.size) :
    unpacked l (m + n) (b ++ b') = unpacked l m b ++ unpacked l n b' := by
  induction m generalizing b with
  | zero =>
    rw [Nat.zero_mul, List.length_eq_zero_iff] at h
    rw [h, Nat.zero_add]
    rfl
  | succ m ih =>
    rw [Nat.succ_mul] at h
    rw [show m + 1 + n = m + n + 1 by omega]
    show l.unpack ((b ++ b').take l.size) :: unpacked l (m + n) ((b ++ b').drop l.size) = _
    have hhead : l.size ≤ b.length := by omega
    rw [List.take_append_of_le_length hhead, List.drop_append_of_le_length hhead, ih]
    · rfl
    · rw [List.length_drop]
      omega

/-- Records that fit are read back, whatever comes after them. -/
theorem records_packed_append {rows rows' : List α} {b : Bytes} (hsize : 0 < l.size)
    (hfits : ∀ a ∈ rows, l.Fits a) (h : packed l (rows ++ rows') = some b) :
    ∃ read, records l b = some (rows ++ read) ∧ read.length = rows'.length := by
  obtain ⟨first, others, hfirst, hothers, rfl⟩ := packed_append.mp h
  have hlength : (first ++ others).length = (rows.length + rows'.length) * l.size := by
    rw [List.length_append, length_packed hfirst, length_packed hothers, Nat.add_mul]
  refine ⟨unpacked l rows'.length others, ?_, length_unpacked l _ _⟩
  unfold records
  rw [hlength, Nat.mul_mod_left, if_pos rfl, Nat.mul_div_cancel _ hsize,
    unpacked_append (length_packed hfirst), unpacked_packed hfits hfirst]

/-- The records of a byte string that was packed are those that it was packed
from. -/
theorem records_packed {rows : List α} {b : Bytes} (hsize : 0 < l.size)
    (hfits : ∀ a ∈ rows, l.Fits a) (h : packed l rows = some b) : records l b = some rows := by
  have hlength := length_packed h
  unfold records
  rw [hlength, Nat.mul_mod_left, if_pos rfl, Nat.mul_div_cancel _ hsize, unpacked_packed hfits h]

theorem fits_records {data : Bytes} {rows : List α} (h : records l data = some rows) :
    ∀ a ∈ rows, l.Fits a := by
  unfold records at h
  split_ifs at h with hwhole
  obtain rfl := Option.some.inj h
  apply fits_unpacked
  rw [Nat.div_mul_cancel (Nat.dvd_of_mod_eq_zero hwhole)]

/-! ## Slices -/

/-- The place that an index stands for: counted from the end if it is
negative, and never beyond either end. -/
def bound (n : Nat) (i : Int) : Nat := if i < 0 then (i + n).toNat else min i.toNat n

/-- `l[first:last]`. -/
def slice (l : List α) (first last : Int) : List α :=
  (l.take (bound l.length last)).drop (bound l.length first)

/-- `l[place:place] = new`. -/
def splice (l : List α) (place : Int) (new : List α) : List α :=
  l.take (bound l.length place) ++ new ++ l.drop (bound l.length place)

/-- `l[i]`. -/
def item? (l : List α) (i : Int) : Option α :=
  if i < 0 then if 0 ≤ i + l.length then l[(i + l.length).toNat]? else none else l[i.toNat]?

theorem bound_of_le {n : Nat} {i : Int} (h : 0 ≤ i) (hle : i ≤ n) : bound n i = i.toNat := by
  unfold bound
  rw [if_neg (by omega)]
  omega

/-- `count` items from `first` on, if all of them are there. -/
def range? (l : List α) (first count : Int) : Option (List α) :=
  if 0 ≤ first ∧ 0 ≤ count ∧ first + count ≤ l.length then
    some ((l.drop first.toNat).take count.toNat)
  else none

theorem range?_eq_some {l r : List α} {first count : Int} : range? l first count = some r ↔
    (0 ≤ first ∧ 0 ≤ count ∧ first + count ≤ l.length) ∧
      (l.drop first.toNat).take count.toNat = r := by
  unfold range?
  split_ifs with h
  · simp [h]
  · simp [h]

/-- Where all items are there a slice is a range. -/
theorem slice_eq {l r : List α} {first count : Int} (h : range? l first count = some r) :
    slice l first (first + count) = r := by
  obtain ⟨⟨hfirst, hcount, hle⟩, rfl⟩ := range?_eq_some.mp h
  unfold slice
  rw [bound_of_le hfirst (by omega), bound_of_le (by omega) hle, List.drop_take]
  congr 1
  omega

/-- A range stays when the list grows at its end. -/
theorem range?_append {l r : List α} {first count : Int} (h : range? l first count = some r)
    (l' : List α) : range? (l ++ l') first count = some r := by
  obtain ⟨⟨hfirst, hcount, hle⟩, rfl⟩ := range?_eq_some.mp h
  refine range?_eq_some.mpr ⟨⟨hfirst, hcount, by rw [List.length_append]; omega⟩, ?_⟩
  rw [List.drop_append_of_le_length (by omega), List.take_append_of_le_length]
  rw [List.length_drop]
  omega

/-- What a list has grown by is a range of it. -/
theorem range?_append_end (l l' : List α) : range? (l ++ l') l.length l'.length = some l' := by
  refine range?_eq_some.mpr ⟨⟨by omega, by omega, by simp⟩, ?_⟩
  simp

section

variable {items new r : List α} {place first count : Int} (hplace : 0 ≤ place)
  (hle : place ≤ items.length)
include hplace hle

theorem splice_eq : splice items place new =
    items.take place.toNat ++ new ++ items.drop place.toNat := by
  unfold splice
  rw [bound_of_le hplace hle]

theorem length_splice : (splice items place new).length = items.length + new.length := by
  rw [splice_eq hplace hle]
  simp only [List.length_append, List.length_take, List.length_drop]
  omega

theorem getElem?_splice_before {i : Nat} (h : i < place.toNat) :
    (splice items place new)[i]? = items[i]? := by
  rw [splice_eq hplace hle, List.append_assoc, List.getElem?_append_left,
    List.getElem?_take_of_lt h]
  rw [List.length_take]
  omega

theorem getElem?_splice_new {i : Nat} (h : i < new.length) :
    (splice items place new)[place.toNat + i]? = new[i]? := by
  have hlength : (items.take place.toNat).length = place.toNat := by
    rw [List.length_take]
    omega
  rw [splice_eq hplace hle, List.append_assoc, List.getElem?_append_right (by omega), hlength,
    Nat.add_sub_cancel_left, List.getElem?_append_left h]

theorem getElem?_splice_after {i : Nat} (h : place.toNat ≤ i) :
    (splice items place new)[i + new.length]? = items[i]? := by
  have hlength : (items.take place.toNat ++ new).length = place.toNat + new.length := by
    rw [List.length_append, List.length_take]
    omega
  rw [splice_eq hplace hle, List.getElem?_append_right (by omega), hlength, List.getElem?_drop]
  congr 1
  omega

/-- A range that ends before the place stays. -/
theorem range?_splice_before (h : range? items first count = some r)
    (hbefore : first + count ≤ place) :
    range? (splice items place new) first count = some r := by
  obtain ⟨⟨hfirst, hcount, hend⟩, rfl⟩ := range?_eq_some.mp h
  refine range?_eq_some.mpr ⟨⟨hfirst, hcount, by rw [length_splice hplace hle]; omega⟩, ?_⟩
  refine List.ext_getElem? fun i => ?_
  by_cases hi : i < count.toNat
  · rw [List.getElem?_take_of_lt hi, List.getElem?_take_of_lt hi, List.getElem?_drop,
      List.getElem?_drop, getElem?_splice_before hplace hle (by omega)]
  · rw [List.getElem?_take_eq_none (by omega), List.getElem?_take_eq_none (by omega)]

/-- A range from the place on, or after it, moves. -/
theorem range?_splice_after (h : range? items first count = some r) (hafter : place ≤ first) :
    range? (splice items place new) (first + new.length) count = some r := by
  obtain ⟨⟨hfirst, hcount, hend⟩, rfl⟩ := range?_eq_some.mp h
  refine range?_eq_some.mpr
    ⟨⟨by omega, hcount, by rw [length_splice hplace hle]; push_cast; omega⟩, ?_⟩
  refine List.ext_getElem? fun i => ?_
  by_cases hi : i < count.toNat
  · rw [List.getElem?_take_of_lt hi, List.getElem?_take_of_lt hi, List.getElem?_drop,
      List.getElem?_drop, ← getElem?_splice_after hplace hle (by omega)]
    congr 1
    omega
  · rw [List.getElem?_take_eq_none (by omega), List.getElem?_take_eq_none (by omega)]

/-- A range that ends at the place takes in what is new. -/
theorem range?_splice_at (h : range? items first count = some r) (hat : first + count = place) :
    range? (splice items place new) first (count + new.length) = some (r ++ new) := by
  obtain ⟨⟨hfirst, hcount, hend⟩, rfl⟩ := range?_eq_some.mp h
  refine range?_eq_some.mpr
    ⟨⟨hfirst, by omega, by rw [length_splice hplace hle]; push_cast; omega⟩, ?_⟩
  have hlength : ((items.drop first.toNat).take count.toNat).length = count.toNat := by
    rw [List.length_take, List.length_drop]
    omega
  refine List.ext_getElem? fun i => ?_
  by_cases hi : i < (count + new.length).toNat
  · rw [List.getElem?_take_of_lt hi, List.getElem?_drop]
    by_cases hold : i < count.toNat
    · rw [List.getElem?_append_left (by omega), List.getElem?_take_of_lt hold, List.getElem?_drop,
        getElem?_splice_before hplace hle (by omega)]
    · have hnew := getElem?_splice_new hplace hle (show i - count.toNat < new.length by omega)
      rw [List.getElem?_append_right (by omega), hlength, ← hnew]
      congr 1
      omega
  · rw [List.getElem?_take_eq_none (by omega), List.getElem?_eq_none]
    rw [List.length_append, hlength]
    omega

end

end QuakeJs.Struct
