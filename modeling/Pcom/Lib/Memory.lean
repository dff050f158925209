import Mathlib.Data.List.Basic
import Mathlib.Data.Nat.Notation
import Mathlib.Logic.Basic

/-!
# Byte buffers and the fields laid out in them

A protocol header is a struct overlaid on a byte array: each field is a value stored in a byte range.  A
`ByteField` carries the range, the encoding and the proof that decoding undoes it, so that the laws of reading
and writing hold for every field of every layout:

* `ByteField.get_set`, `ByteField.get_set_of_apart` — a field reads back what was written to it, and writes to the
  ranges apart from it leave it alone;
* `ByteField.set_congr`, `ByteField.get_congr` — only the bytes of its range matter to a field.
-/

namespace Pcom.Lib.Memory

variable {α β : Type*}

/-- A byte array, indexed from its first byte. -/
abbrev Buf := ℕ → UInt8

/-- The `n` bytes from `off` on. -/
def bytes (b : Buf) (off n : ℕ) : List UInt8 := (List.range n).map fun i => b (off + i)

/-- A buffer that starts with the given bytes and is zero after them. -/
def ofBytes (bs : List UInt8) : Buf := fun i => bs.getD i 0

/-- The buffer after its first bytes have been replaced. -/
def overwrite (b : Buf) (bs : List UInt8) : Buf := fun i => bs.getD i (b i)

theorem bytes_congr {b b' : Buf} {off n : ℕ} (h : ∀ i, off ≤ i → i < off + n → b i = b' i) :
    bytes b off n = bytes b' off n := by
  rw [bytes, bytes, List.map_inj_left]
  intro i hi
  exact h _ (by omega) (by have := List.mem_range.mp hi; omega)

theorem length_bytes (b : Buf) (off n : ℕ) : (bytes b off n).length = n := by
  simp [bytes]

/-- A stretch of bytes in two parts. -/
theorem bytes_add (b : Buf) (off n m : ℕ) : bytes b off (n + m) = bytes b off n ++ bytes b (off + n) m := by
  rw [bytes, List.range_add, List.map_append, List.map_map, bytes, bytes]
  congr 2
  funext i
  exact congrArg b (Nat.add_assoc off n i).symm

/-- Inside the replaced bytes the old contents do not matter. -/
theorem overwrite_eq_ofBytes {b : Buf} {bs : List UInt8} {i : ℕ} (h : i < bs.length) :
    overwrite b bs i = ofBytes bs i := by
  simp [overwrite, ofBytes, h]

/-- Both buffers agree with the bytes written over them. -/
theorem overwrite_same (b b' : Buf) (bs : List UInt8) :
    ∀ i < bs.length, overwrite b bs i = overwrite b' bs i := fun _ hi =>
  (overwrite_eq_ofBytes hi).trans (overwrite_eq_ofBytes hi).symm

/-- Behind the replaced bytes the old contents stay. -/
theorem overwrite_of_le {b : Buf} {bs : List UInt8} {i : ℕ} (h : bs.length ≤ i) :
    overwrite b bs i = b i := by
  simp [overwrite, h]

theorem ofBytes_of_le {bs : List UInt8} {i : ℕ} (h : bs.length ≤ i) : ofBytes bs i = 0 := by
  simp [ofBytes, h]

/-- What has been written is read back. -/
theorem bytes_overwrite (b : Buf) (bs : List UInt8) : bytes (overwrite b bs) 0 bs.length = bs := by
  refine List.ext_getElem (by simp [bytes]) fun k _ hk => ?_
  simp [bytes, overwrite, hk]

theorem bytes_ofBytes (bs : List UInt8) : bytes (ofBytes bs) 0 bs.length = bs :=
  bytes_overwrite (fun _ => 0) bs

/-! ### Fields -/

/-- A value stored in a byte range. -/
structure ByteField (α : Type*) where
  off : ℕ
  size : ℕ
  decode : (Fin size → UInt8) → α
  encode : α → Fin size → UInt8
  decode_encode : ∀ a, decode (encode a) = a

namespace ByteField

/-- The range of the field contains the index. -/
def Covers (f : ByteField α) (i : ℕ) : Prop := f.off ≤ i ∧ i < f.off + f.size

instance (f : ByteField α) (i : ℕ) : Decidable (f.Covers i) := inferInstanceAs (Decidable (_ ∧ _))

/-- The ranges of the two fields do not meet. -/
def Apart (f : ByteField α) (g : ByteField β) : Prop := f.off + f.size ≤ g.off ∨ g.off + g.size ≤ f.off

instance (f : ByteField α) (g : ByteField β) : Decidable (f.Apart g) := inferInstanceAs (Decidable (_ ∨ _))

def get (f : ByteField α) (b : Buf) : α := f.decode fun i => b (f.off + i)

def set (f : ByteField α) (b : Buf) (a : α) : Buf := fun i =>
  if h : f.Covers i then f.encode a ⟨i - f.off, by have := h.1; have := h.2; omega⟩ else b i

variable {f : ByteField α} {g : ByteField β} {b b' : Buf}

theorem set_of_not_covers {a : α} {i : ℕ} (h : ¬ f.Covers i) : f.set b a i = b i := by
  rw [set, dif_neg h]

/-- Inside the range of a field, what was there before it was written does not matter. -/
theorem set_congr {a : α} {i : ℕ} (h : ¬ f.Covers i → b i = b' i) : f.set b a i = f.set b' a i := by
  by_cases hc : f.Covers i
  · rw [set, set, dif_pos hc, dif_pos hc]
  · rw [set_of_not_covers hc, set_of_not_covers hc, h hc]

theorem get_congr (h : ∀ i, f.Covers i → b i = b' i) : f.get b = f.get b' := by
  rw [get, get]
  congr 1
  funext i
  exact h _ ⟨by omega, by omega⟩

@[simp] theorem get_set (f : ByteField α) (b : Buf) (a : α) : f.get (f.set b a) = a := by
  rw [get]
  conv_rhs => rw [← f.decode_encode a]
  congr 1
  funext i
  have hc : f.Covers (f.off + i) := ⟨by omega, by omega⟩
  rw [set, dif_pos hc]
  congr 1
  ext
  show f.off + (i : ℕ) - f.off = i
  omega

/-- **Frame rule**: a write leaves the fields apart from it unchanged. -/
theorem get_set_of_apart (h : f.Apart g) {x : β} : f.get (g.set b x) = f.get b := by
  apply get_congr
  intro i ⟨hlo, hhi⟩
  apply set_of_not_covers
  intro ⟨hlo', hhi'⟩
  rcases h with h | h <;> omega

/-- A field inside the replaced bytes is read from them. -/
theorem get_overwrite {bs : List UInt8} (h : f.off + f.size ≤ bs.length) :
    f.get (overwrite b bs) = f.get (ofBytes bs) :=
  get_congr fun _ hi => overwrite_eq_ofBytes (Nat.lt_of_lt_of_le hi.2 h)

/-- The last write to a field wins. -/
@[simp] theorem set_set (f : ByteField α) (b : Buf) (a a' : α) : f.set (f.set b a) a' = f.set b a' := by
  funext i
  exact set_congr fun hc => set_of_not_covers hc

/-- Inside its range a write leaves the encoded value. -/
theorem set_of_covers {a : α} {i : ℕ} (hi : i < f.size) : f.set b a (f.off + i) = f.encode a ⟨i, hi⟩ := by
  have hc : f.Covers (f.off + i) := ⟨by omega, by omega⟩
  rw [set, dif_pos hc]
  congr 1
  ext
  show f.off + i - f.off = i
  omega

end ByteField

/-! ### Buffers that agree in places -/

/-- The two buffers hold the same bytes at the places `P`. -/
def AgreeOn (P : ℕ → Prop) (b b' : Buf) : Prop := ∀ i, P i → b i = b' i

theorem AgreeOn.mono {P Q : ℕ → Prop} {b b' : Buf} (h : AgreeOn P b b') (hQ : ∀ i, Q i → P i) :
    AgreeOn Q b b' := fun i hi => h i (hQ i hi)

/-- **A write covers its tracks**: once both buffers have been given the same field, they agree there too. -/
theorem AgreeOn.set {P : ℕ → Prop} {b b' : Buf} (h : AgreeOn P b b') (f : ByteField α) (a : α) :
    AgreeOn (fun i => f.Covers i ∨ P i) (f.set b a) (f.set b' a) := fun i hi =>
  ByteField.set_congr fun hc => h i (hi.resolve_left hc)

theorem AgreeOn.get {P : ℕ → Prop} {b b' : Buf} (h : AgreeOn P b b') (f : ByteField α)
    (hf : ∀ i, f.Covers i → P i) : f.get b = f.get b' :=
  ByteField.get_congr fun i hi => h i (hf i hi)

theorem AgreeOn.bytes {P : ℕ → Prop} {b b' : Buf} (h : AgreeOn P b b') {off n : ℕ}
    (hP : ∀ i, off ≤ i → i < off + n → P i) : bytes b off n = bytes b' off n :=
  bytes_congr fun i hlo hhi => h i (hP i hlo hhi)

/-- Two frames are equal where their buffers agree, and differ where these do. -/
theorem bytes_inj {b b' : Buf} {n : ℕ} (h : bytes b 0 n = bytes b' 0 n) {i : ℕ} (hi : i < n) : b i = b' i := by
  rw [Memory.bytes, Memory.bytes, List.map_inj_left] at h
  have heq := h i (List.mem_range.mpr hi)
  rwa [Nat.zero_add] at heq

/-! ### The layouts in use -/

/-- One byte. -/
def u8 (off : ℕ) : ByteField UInt8 where
  off := off
  size := 1
  decode v := v 0
  encode a _ := a
  decode_encode _ := rfl

/-- The byte of a word that is stored at distance `i` on a little-endian machine. -/
def byteOf {w : ℕ} (x : BitVec w) (i : ℕ) : UInt8 := ⟨x.extractLsb' (8 * i) 8⟩

/-- A 16-bit word, as a little-endian machine loads it. -/
def le16 (off : ℕ) : ByteField (BitVec 16) where
  off := off
  size := 2
  decode v := (v 1).toBitVec ++ (v 0).toBitVec
  encode a i := byteOf a i
  decode_encode a := by
    show a.extractLsb' 8 8 ++ a.extractLsb' 0 8 = a
    rw [BitVec.extractLsb'_append_extractLsb'_eq_extractLsb' (by rfl), BitVec.extractLsb'_eq_self]

/-- A 32-bit word, as a little-endian machine loads it. -/
def le32 (off : ℕ) : ByteField (BitVec 32) where
  off := off
  size := 4
  decode v := (v 3).toBitVec ++ (v 2).toBitVec ++ (v 1).toBitVec ++ (v 0).toBitVec
  encode a i := byteOf a i
  decode_encode a := by
    show a.extractLsb' 24 8 ++ a.extractLsb' 16 8 ++ a.extractLsb' 8 8 ++ a.extractLsb' 0 8 = a
    rw [BitVec.extractLsb'_append_extractLsb'_eq_extractLsb' (by rfl),
      BitVec.extractLsb'_append_extractLsb'_eq_extractLsb' (by rfl),
      BitVec.extractLsb'_append_extractLsb'_eq_extractLsb' (by rfl), BitVec.extractLsb'_eq_self]

/-- The bytes of a word that has been loaded. -/
theorem byteOf_le16 (off : ℕ) (b : Buf) {k : ℕ} (hk : k < 2) : byteOf ((le16 off).get b) k = b (off + k) := by
  apply UInt8.toBitVec_inj.mp
  show ((b (off + 1)).toBitVec ++ (b (off + 0)).toBitVec).extractLsb' (8 * k) 8 = (b (off + k)).toBitVec
  ext i hi
  obtain rfl | rfl : k = 0 ∨ k = 1 := by omega
  all_goals grind

theorem byteOf_le32 (off : ℕ) (b : Buf) {k : ℕ} (hk : k < 4) : byteOf ((le32 off).get b) k = b (off + k) := by
  apply UInt8.toBitVec_inj.mp
  show ((b (off + 3)).toBitVec ++ (b (off + 2)).toBitVec ++ (b (off + 1)).toBitVec ++
    (b (off + 0)).toBitVec).extractLsb' (8 * k) 8 = (b (off + k)).toBitVec
  ext i hi
  obtain rfl | rfl | rfl | rfl : k = 0 ∨ k = 1 ∨ k = 2 ∨ k = 3 := by omega
  all_goals grind

/-- A word that is loaded is a matter of its bytes. -/
theorem le16_get_eq {off : ℕ} {b : Buf} {w : BitVec 16} (hlow : b off = byteOf w 0)
    (hhigh : b (off + 1) = byteOf w 1) : (le16 off).get b = w := by
  show (b (off + 1)).toBitVec ++ (b off).toBitVec = w
  rw [hlow, hhigh]
  exact (le16 off).decode_encode w

theorem le32_get_eq {off : ℕ} {b : Buf} {w : BitVec 32} (h : ∀ k < 4, b (off + k) = byteOf w k) :
    (le32 off).get b = w := by
  show (b (off + 3)).toBitVec ++ (b (off + 2)).toBitVec ++ (b (off + 1)).toBitVec ++ (b (off + 0)).toBitVec = w
  rw [h 0 (by decide), h 1 (by decide), h 2 (by decide), h 3 (by decide)]
  exact (le32 off).decode_encode w

/-- Words with the same bytes are the same. -/
theorem le16_ext {w w' : BitVec 16} (h : ∀ k < 2, byteOf w k = byteOf w' k) : w = w' := by
  rw [← (le16 0).decode_encode w, ← (le16 0).decode_encode w']
  congr 1
  funext i
  exact h i i.isLt

/-- Behind the first of two pieces, the bytes are those of the second. -/
theorem ofBytes_append {xs ys : List UInt8} {off : ℕ} (h : xs.length = off) (k : ℕ) :
    ofBytes (xs ++ ys) (off + k) = ofBytes ys k := by
  subst h
  simp [ofBytes, List.getElem?_append_right]

/-- The bytes around a word that has been stored. -/
theorem bytes_set_le16 (b : Buf) (off n m : ℕ) (w : BitVec 16) :
    bytes ((le16 (off + n)).set b w) off (n + (2 + m)) =
      bytes b off n ++ byteOf w 0 :: byteOf w 1 :: bytes b (off + n + 2) m := by
  have hfirst : bytes ((le16 (off + n)).set b w) (off + n) 2 = [byteOf w 0, byteOf w 1] := by
    have hbyte {i : ℕ} (hi : i < 2) : (le16 (off + n)).set b w (off + n + i) = byteOf w i :=
      ByteField.set_of_covers (f := le16 (off + n)) hi
    exact congrArg₂ (fun x y => [x, y]) (hbyte (i := 0) (by decide)) (hbyte (i := 1) (by decide))
  have hbefore : bytes ((le16 (off + n)).set b w) off n = bytes b off n :=
    bytes_congr fun i _ hi => ByteField.set_of_not_covers fun hc => Nat.lt_irrefl _ (Nat.lt_of_lt_of_le hi hc.1)
  have hafter : bytes ((le16 (off + n)).set b w) (off + n + 2) m = bytes b (off + n + 2) m :=
    bytes_congr fun i hi _ => ByteField.set_of_not_covers fun hc => Nat.lt_irrefl _ (Nat.lt_of_lt_of_le hc.2 hi)
  rw [bytes_add, bytes_add, hbefore, hfirst, hafter]
  rfl

/-- An array of bytes. -/
def raw (off n : ℕ) : ByteField (Vector UInt8 n) where
  off := off
  size := n
  decode v := Vector.ofFn v
  encode a i := a[i]
  decode_encode a := by
    ext i hi
    simp

theorem raw_get_getElem {off n : ℕ} (b : Buf) {i : ℕ} (hi : i < n) : ((raw off n).get b)[i] = b (off + i) :=
  Vector.getElem_ofFn hi

/-! ### Copying a field -/

theorem le16_copy (off off' : ℕ) (b c : Buf) {i : ℕ} (hi : i < 2) :
    (le16 off).set b ((le16 off').get c) (off + i) = c (off' + i) :=
  (ByteField.set_of_covers hi).trans (byteOf_le16 off' c hi)

theorem le32_copy (off off' : ℕ) (b c : Buf) {i : ℕ} (hi : i < 4) :
    (le32 off).set b ((le32 off').get c) (off + i) = c (off' + i) :=
  (ByteField.set_of_covers hi).trans (byteOf_le32 off' c hi)

theorem raw_copy (off off' : ℕ) (b c : Buf) {n i : ℕ} (hi : i < n) :
    (raw off n).set b ((raw off' n).get c) (off + i) = c (off' + i) :=
  (ByteField.set_of_covers hi).trans (raw_get_getElem c hi)

/-- Storing what is there already changes nothing. -/
theorem raw_set_get (off n : ℕ) (b : Buf) : (raw off n).set b ((raw off n).get b) = b := by
  funext i
  by_cases hc : (raw off n).Covers i
  · obtain ⟨j, rfl⟩ := Nat.exists_eq_add_of_le hc.1
    exact raw_copy off off b b (Nat.lt_of_add_lt_add_left hc.2)
  · exact ByteField.set_of_not_covers hc

theorem le32_set_get (off : ℕ) (b : Buf) : (le32 off).set b ((le32 off).get b) = b := by
  funext i
  by_cases hc : (le32 off).Covers i
  · obtain ⟨j, rfl⟩ := Nat.exists_eq_add_of_le hc.1
    exact le32_copy off off b b (Nat.lt_of_add_lt_add_left hc.2)
  · exact ByteField.set_of_not_covers hc

end Pcom.Lib.Memory
