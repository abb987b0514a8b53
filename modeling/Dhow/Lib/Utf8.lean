import Dhow.Lib.Bytes

/-!
# UTF-8

Strings and the byte strings that encode them: `fromUtf8` succeeds exactly on encodings.
-/

namespace Bytes

/-- The bytes of a string. -/
def asBytes (s : String) : Str := s.toByteArray.data.toList

def fromUtf8 (bytes : Str) : Option String := String.fromUTF8? ⟨bytes.toArray⟩

lemma fromUtf8_eq_some_iff {bytes : Str} {s : String} :
    fromUtf8 bytes = some s ↔ asBytes s = bytes := by
  have hba : (⟨bytes.toArray⟩ : ByteArray) = s.toByteArray ↔ asBytes s = bytes := by
    constructor
    · intro h
      rw [asBytes, ← h]
    · rintro rfl
      rw [asBytes, Array.toArray_toList]
  rw [← hba]
  unfold fromUtf8 String.fromUTF8?
  constructor
  · intro h
    split at h
    · cases h
      rfl
    · cases h
  · intro h
    simp only [h]
    rw [dif_pos s.isValidUTF8]
    rfl

@[simp] lemma fromUtf8_asBytes (s : String) : fromUtf8 (asBytes s) = some s :=
  fromUtf8_eq_some_iff.mpr rfl

lemma asBytes_injective : Function.Injective asBytes := by
  intro s t h
  have hs := fromUtf8_asBytes s
  rw [h, fromUtf8_asBytes, Option.some.injEq] at hs
  exact hs.symm

/-! ### ASCII

The byte of an ASCII character is in an encoding only where the character is in the string. -/

lemma asBytes_eq_flatMap (s : String) : asBytes s = s.toList.flatMap String.utf8EncodeChar := by
  conv_lhs => rw [← String.ofList_toList (s := s)]
  rw [asBytes, String.toByteArray_ofList, List.utf8Encode, List.data_toByteArray,
    List.toList_toArray]

/-- The byte of an ASCII character. -/
def ascii (c : Char) : UInt8 := UInt8.ofNat c.toNat

lemma utf8EncodeChar_of_lt {c : Char} (hc : c.toNat < 128) :
    String.utf8EncodeChar c = [ascii c] := by
  apply String.utf8EncodeChar_eq_singleton
  rw [Char.utf8Size_eq_one_iff, UInt32.le_iff_toNat_le]
  exact Nat.le_of_lt_succ hc

lemma utf8EncodeChar_of_le {c : Char} (hc : 128 ≤ c.toNat) :
    2 ≤ (String.utf8EncodeChar c).length ∧ ∀ b ∈ String.utf8EncodeChar c, 128 ≤ b.toNat := by
  have hv : 128 ≤ c.val.toNat := hc
  unfold String.utf8EncodeChar
  dsimp only
  split_ifs <;> simp <;> omega

lemma mem_utf8EncodeChar_iff {c d : Char} (hc : c.toNat < 128) :
    ascii c ∈ String.utf8EncodeChar d ↔ d = c := by
  have hnat : (ascii c).toNat = c.toNat := UInt8.toNat_ofNat_of_lt' (hc.trans (by decide))
  by_cases hd : d.toNat < 128
  · have hdnat : (ascii d).toNat = d.toNat := UInt8.toNat_ofNat_of_lt' (hd.trans (by decide))
    rw [utf8EncodeChar_of_lt hd, List.mem_singleton]
    constructor
    · intro h
      rw [h, hdnat] at hnat
      exact Char.toNat_inj.mp hnat
    · rintro rfl
      rfl
  · constructor
    · intro h
      have hb := (utf8EncodeChar_of_le (Nat.le_of_not_lt hd)).2 _ h
      omega
    · rintro rfl
      exact absurd hc hd

lemma mem_asBytes_iff {c : Char} (hc : c.toNat < 128) (s : String) :
    ascii c ∈ asBytes s ↔ c ∈ s.toList := by
  rw [asBytes_eq_flatMap, List.mem_flatMap]
  simp only [mem_utf8EncodeChar_iff hc, exists_eq_right]

lemma asBytes_eq_nil_iff (s : String) : asBytes s = [] ↔ s.toList = [] := by
  rw [asBytes_eq_flatMap]
  cases s.toList with
  | nil => simp
  | cons c l => simp [String.utf8EncodeChar_ne_nil]

/-- The first byte is that of an ASCII character where the first character is. -/
lemma head?_asBytes_iff {c : Char} (hc : c.toNat < 128) (s : String) :
    (asBytes s).head? = some (ascii c) ↔ s.toList.head? = some c := by
  rw [asBytes_eq_flatMap]
  cases s.toList with
  | nil => simp
  | cons d l =>
    rw [List.flatMap_cons, List.head?_append_of_ne_nil _ String.utf8EncodeChar_ne_nil,
      List.head?_cons, Option.some.injEq]
    constructor
    · intro h
      exact (mem_utf8EncodeChar_iff hc).mp (List.mem_of_mem_head? h)
    · rintro rfl
      rw [utf8EncodeChar_of_lt hc]
      rfl

/-- The second byte is that of an ASCII character where the second character is and the first is
of one byte. -/
lemma getElem?_one_asBytes_iff {c : Char} (hc : c.toNat < 128) (s : String) :
    (asBytes s)[1]? = some (ascii c) ↔
      s.toList[1]? = some c ∧ ∀ d ∈ s.toList.head?, d.toNat < 128 := by
  rw [asBytes_eq_flatMap]
  cases s.toList with
  | nil => simp
  | cons d l =>
    have hhead := head?_asBytes_iff hc (String.ofList l)
    rw [asBytes_eq_flatMap, String.toList_ofList] at hhead
    by_cases hd : d.toNat < 128
    · simp [utf8EncodeChar_of_lt hd, hd, ← List.head?_eq_getElem?, hhead]
    · obtain ⟨hlen, hall⟩ := utf8EncodeChar_of_le (Nat.le_of_not_lt hd)
      have hne : ascii c ≠ (String.utf8EncodeChar d)[1] := by
        intro h
        have hb := hall _ (List.getElem_mem hlen)
        rw [← h, ascii, UInt8.toNat_ofNat_of_lt' (hc.trans (by decide))] at hb
        omega
      rw [List.flatMap_cons, List.getElem?_append_left hlen, List.getElem?_eq_getElem hlen]
      simp [hne.symm, hd]

/-! ### Splitting -/

section Split
variable {α β : Type} [DecidableEq α] [DecidableEq β]

lemma splitOn_append_of_notMem {b : β} {xs : List β} (h : b ∉ xs) (ys : List β) :
    (xs ++ ys).splitOn b = (ys.splitOn b).modifyHead (xs ++ ·) := by
  induction xs with
  | nil => cases h : ys.splitOn b <;> simp [h]
  | cons x xs ih =>
    have hx : (x == b) = false := by
      rw [beq_eq_false_iff_ne]
      rintro rfl
      exact h List.mem_cons_self
    rw [List.cons_append, List.splitOn_cons_eq_if_modifyHead, hx,
      ih fun hb => h (List.mem_cons_of_mem _ hb)]
    cases ys.splitOn b <;> rfl

/-- A code in which `b` stands for `a` alone splits at `b` as its text does at `a`. -/
lemma splitOn_flatMap {f : α → List β} {a : α} {b : β} (ha : f a = [b])
    (hne : ∀ x ≠ a, b ∉ f x) (l : List α) :
    (l.flatMap f).splitOn b = (l.splitOn a).map (List.flatMap f) := by
  induction l with
  | nil => rfl
  | cons x l ih =>
    rw [List.flatMap_cons, List.splitOn_cons_eq_if_modifyHead]
    by_cases hx : x = a
    · subst hx
      rw [ha, List.singleton_append, List.splitOn_cons_eq_if_modifyHead, ih]
      simp
    · rw [splitOn_append_of_notMem (hne x hx), ih, if_neg (by simpa using hx)]
      cases l.splitOn a <;> simp

end Split

/-- A string and its encoding split at an ASCII character into the same parts. -/
lemma splitOn_asBytes {c : Char} (hc : c.toNat < 128) (s : String) :
    (asBytes s).splitOn (ascii c) =
      (s.toList.splitOn c).map fun part => asBytes (String.ofList part) := by
  have hparts : (fun part => asBytes (String.ofList part)) =
      List.flatMap String.utf8EncodeChar := by
    funext part
    rw [asBytes_eq_flatMap, String.toList_ofList]
  rw [hparts, asBytes_eq_flatMap]
  apply splitOn_flatMap (utf8EncodeChar_of_lt hc)
  exact fun x hx h => hx ((mem_utf8EncodeChar_iff hc).mp h)

/-! ### Runes

A byte string read as text, whatever it is: a byte with no encoding at it is read as U+FFFD. -/

/-- The characters from the byte behind the next `skip` on, which belong to one read before. -/
def runesFrom : (skip : ℕ) → Str → List Char
  | _, [] => []
  | skip + 1, _ :: bytes => runesFrom skip bytes
  | 0, b :: bytes =>
    match (b :: bytes).toByteArray.utf8DecodeChar? 0 with
    | none => Char.ofNat 0xFFFD :: runesFrom 0 bytes
    | some c => c :: runesFrom (c.utf8Size - 1) bytes

def runes (bytes : Str) : List Char := runesFrom 0 bytes

lemma runesFrom_append (skipped bytes : Str) :
    runesFrom skipped.length (skipped ++ bytes) = runes bytes := by
  induction skipped with
  | nil => rfl
  | cons b skipped ih => exact ih

lemma runes_utf8EncodeChar_append (c : Char) (bytes : Str) :
    runes (String.utf8EncodeChar c ++ bytes) = c :: runes bytes := by
  have hdecode : (String.utf8EncodeChar c ++ bytes).toByteArray.utf8DecodeChar? 0 = some c := by
    rw [List.toByteArray_append]
    exact ByteArray.utf8DecodeChar?_utf8EncodeChar_append
  cases hc : String.utf8EncodeChar c with
  | nil => exact absurd hc String.utf8EncodeChar_ne_nil
  | cons b tail =>
    have hsize : c.utf8Size - 1 = tail.length := by
      rw [← String.length_utf8EncodeChar, hc, List.length_cons, Nat.add_sub_cancel]
    rw [hc, List.cons_append] at hdecode
    rw [List.cons_append, runes, runesFrom, hdecode]
    dsimp only
    rw [hsize, runesFrom_append]

/-- An encoded text is read as it was. -/
lemma runes_asBytes (s : String) : runes (asBytes s) = s.toList := by
  rw [asBytes_eq_flatMap]
  induction s.toList with
  | nil => rfl
  | cons c l ih => rw [List.flatMap_cons, runes_utf8EncodeChar_append, ih]

end Bytes
