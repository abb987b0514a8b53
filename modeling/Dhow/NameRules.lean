import Dhow.Lib.Utf8
import Dhow.Manifest
import Dhow.Pack

/-!
# The two name rules

The archive checks a name as bytes and the manifest checks it as characters. Both ask for a
relative path that stays below the directory it is joined to; they differ on what is no UTF-8,
and on a colon behind a first character of several bytes.
-/

namespace Dhow
open Bytes

/-- A relative path of at most 4096 bytes that does not leave the directory it is joined to. -/
structure Confined (name : Str) : Prop where
  ne_nil : name ≠ []
  length_le : name.length ≤ Pack.maxNameLen
  no_nul : 0 ∉ name
  no_backslash : 0x5C ∉ name
  relative : name.head? ≠ some slash
  no_dotdot : dotdot ∉ name.splitOn slash

lemma getElem?_one_eq_some_iff {name : Str} {b : UInt8} :
    name[1]? = some b ↔ 1 < name.length ∧ u8At name 1 = b := by
  rw [u8At, List.getD_eq_getElem?_getD, List.getElem?_eq_some_iff]
  constructor
  · rintro ⟨h, rfl⟩
    exact ⟨h, by rw [List.getElem?_eq_getElem h]; rfl⟩
  · rintro ⟨h, rfl⟩
    exact ⟨h, by rw [List.getElem?_eq_getElem h]; rfl⟩

lemma Pack.validateName_eq_ok_iff {name : Str} :
    Pack.validateName name = .ok () ↔ Confined name ∧ name[1]? ≠ some 0x3A := by
  rw [ne_eq, getElem?_one_eq_some_iff]
  unfold Pack.validateName
  constructor
  · intro h
    split_ifs at h with h1 h2 h3 h4 h5
    rw [not_or] at h1 h2
    exact ⟨⟨h1.1, Nat.le_of_not_lt h1.2, h2.1, h2.2, h3, h5⟩, h4⟩
  · rintro ⟨⟨h1, h2, h3, h4, h5, h6⟩, h7⟩
    rw [if_neg (not_or.mpr ⟨h1, Nat.not_lt.mpr h2⟩), if_neg (not_or.mpr ⟨h3, h4⟩), if_neg h5,
      if_neg h7, if_neg h6]

/-- The characters' checks, but for the drive letter's, are checks of the encoding. -/
lemma confined_asBytes_iff {name : String} : Confined (asBytes name) ↔
    name.toList ≠ [] ∧ (asBytes name).length ≤ maxNameLen ∧ '\x00' ∉ name.toList ∧
      '\\' ∉ name.toList ∧ name.toList.head? ≠ some '/' ∧
      ['.', '.'] ∉ name.toList.splitOn '/' := by
  have hnul := mem_asBytes_iff (c := '\x00') (by decide) name
  have hbackslash := mem_asBytes_iff (c := '\\') (by decide) name
  have hhead := head?_asBytes_iff (c := '/') (by decide) name
  have hdotdot : dotdot ∈ (asBytes name).splitOn slash ↔
      ['.', '.'] ∈ name.toList.splitOn '/' := by
    have hsplit := splitOn_asBytes (c := '/') (by decide) name
    change _ ∈ (asBytes name).splitOn (ascii '/') ↔ _
    rw [hsplit, List.mem_map]
    constructor
    · rintro ⟨part, hpart, he⟩
      have hdots : asBytes (String.ofList part) = asBytes (String.ofList ['.', '.']) := he
      rw [← String.ofList_injective (asBytes_injective hdots)]
      exact hpart
    · intro h
      exact ⟨_, h, rfl⟩
  rw [ne_eq, ← asBytes_eq_nil_iff, ← hnul, ← hbackslash, ne_eq, ← hhead, ← hdotdot]
  exact ⟨fun ⟨h1, h2, h3, h4, h5, h6⟩ => ⟨h1, h2, h3, h4, h5, h6⟩,
    fun ⟨h1, h2, h3, h4, h5, h6⟩ => ⟨h1, h2, h3, h4, h5, h6⟩⟩

lemma validateName_eq_ok_iff {name : String} :
    validateName name = .ok () ↔ Confined (asBytes name) ∧ name.toList[1]? ≠ some ':' := by
  rw [confined_asBytes_iff]
  unfold validateName
  dsimp only
  constructor
  · intro h
    split_ifs at h with h1 h2 h3 h4 h5
    rw [not_or] at h3 h4
    exact ⟨⟨h1, Nat.le_of_not_lt h2, h3.1, h3.2, h4.1, h5⟩, h4.2⟩
  · rintro ⟨⟨h1, h2, h3, h4, h5, h6⟩, h7⟩
    rw [if_neg h1, if_neg (Nat.not_lt.mpr h2), if_neg (not_or.mpr ⟨h3, h4⟩),
      if_neg (not_or.mpr ⟨h5, h7⟩), if_neg h6]

/-- No name that the manifest accepts is refused by the archive. -/
lemma Pack.validateName_asBytes {name : String} (h : Dhow.validateName name = .ok ()) :
    Pack.validateName (asBytes name) = .ok () := by
  obtain ⟨hconfined, hdrive⟩ := Dhow.validateName_eq_ok_iff.mp h
  refine Pack.validateName_eq_ok_iff.mpr ⟨hconfined, fun hbyte => hdrive ?_⟩
  exact ((getElem?_one_asBytes_iff (c := ':') (by decide) name).mp hbyte).1

/-- The names on which the rules differ: confined ones that are no UTF-8, and confined ones whose
second character is a colon and whose first takes several bytes. -/
def Disputed (name : Str) : Prop :=
  Confined name ∧
    (fromUtf8 name = none ∧ name[1]? ≠ some 0x3A ∨
      ∃ text c, fromUtf8 name = some text ∧ text.toList.head? = some c ∧ 128 ≤ c.toNat ∧
        text.toList[1]? = some ':')

/-- The archive accepts exactly what is UTF-8 and the manifest accepts, on all but the disputed
names. -/
theorem validateName_agree_iff (name : Str) :
    (Pack.validateName name = .ok () ↔
      ∃ text, fromUtf8 name = some text ∧ validateName text = .ok ()) ↔ ¬Disputed name := by
  constructor
  · rintro hagree ⟨hconfined, ⟨hnone, hbyte⟩ | ⟨text, c, htext, hc, hwide, hcolon⟩⟩
    · obtain ⟨text, htext, -⟩ :=
        hagree.mp (Pack.validateName_eq_ok_iff.mpr ⟨hconfined, hbyte⟩)
      rw [hnone] at htext
      cases htext
    · have hbyte : name[1]? ≠ some 0x3A := by
        intro h
        rw [← fromUtf8_eq_some_iff.mp htext] at h
        have hnarrow := ((getElem?_one_asBytes_iff (c := ':') (by decide) text).mp h).2 c hc
        omega
      obtain ⟨text', htext', hok⟩ :=
        hagree.mp (Pack.validateName_eq_ok_iff.mpr ⟨hconfined, hbyte⟩)
      rw [htext, Option.some.injEq] at htext'
      subst htext'
      exact (validateName_eq_ok_iff.mp hok).2 hcolon
  · intro h
    constructor
    · intro hok
      obtain ⟨hconfined, hbyte⟩ := Pack.validateName_eq_ok_iff.mp hok
      cases htext : fromUtf8 name with
      | none => exact absurd ⟨hconfined, .inl ⟨htext, hbyte⟩⟩ h
      | some text =>
        have hname := fromUtf8_eq_some_iff.mp htext
        refine ⟨text, rfl, validateName_eq_ok_iff.mpr ⟨hname ▸ hconfined, fun hcolon => ?_⟩⟩
        obtain ⟨c, hc⟩ : ∃ c, text.toList.head? = some c := by
          cases hl : text.toList with
          | nil => simp [hl] at hcolon
          | cons c l => exact ⟨c, rfl⟩
        by_cases hwide : 128 ≤ c.toNat
        · exact h ⟨hconfined, .inr ⟨text, c, htext, hc, hwide, hcolon⟩⟩
        · apply hbyte
          rw [← hname]
          refine (getElem?_one_asBytes_iff (c := ':') (by decide) text).mpr ⟨hcolon, ?_⟩
          intro d hd
          rw [hc, Option.mem_some_iff] at hd
          rw [← hd]
          exact Nat.lt_of_not_le hwide
    · rintro ⟨text, htext, hok⟩
      rw [← fromUtf8_eq_some_iff.mp htext]
      exact Pack.validateName_asBytes hok

/-- A byte that is no UTF-8, and a colon behind a letter of two bytes: the archive packs both and
the manifest can name neither. -/
theorem validateName_disagree :
    Pack.validateName [0xFF] = .ok () ∧ fromUtf8 [0xFF] = none ∧
      Pack.validateName (asBytes "é:x") = .ok () ∧ fromUtf8 (asBytes "é:x") = some "é:x" ∧
      validateName "é:x" = .error (.pathTraversal "é:x") := by
  refine ⟨rfl, ?_, rfl, fromUtf8_asBytes _, rfl⟩
  rfl

end Dhow
