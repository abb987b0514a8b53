import Dhow.Netpbm

/-!
# The fields of a header

What a header is made of, as a grammar of its own: gaps of blanks and comments, and words that
comments may interrupt. A token is read from a stream exactly when the stream starts with a field,
and the end of the stream is met exactly when it ends before the end of one is seen.
-/

namespace Dhow.Netpbm
open Bytes

/-- Comments up to the end of their line. -/
inductive Comment : Str → Prop
  | mk {body : Str} {e : UInt8} (hbody : ∀ c ∈ body, ¬IsNewline c) (he : IsNewline e) :
    Comment (hash :: (body ++ [e]))

/-- A comment that the stream ends in. -/
inductive OpenComment : Str → Prop
  | mk {body : Str} (hbody : ∀ c ∈ body, ¬IsNewline c) : OpenComment (hash :: body)

/-- Blanks and comments. -/
inductive Gap : Str → Prop
  | nil : Gap []
  | blank {c : UInt8} {s : Str} (hc : IsBlank c) (hs : Gap s) : Gap (c :: s)
  | comment {k s : Str} (hk : Comment k) (hs : Gap s) : Gap (k ++ s)

/-- The bytes of a word, with comments among them. -/
inductive Spells : Str → Str → Prop
  | nil : Spells [] []
  | byte {c : UInt8} {w s : Str} (hblank : ¬IsBlank c) (hhash : c ≠ hash) (hs : Spells w s) :
    Spells (c :: w) (c :: s)
  | comment {w k s : Str} (hk : Comment k) (hs : Spells w s) : Spells w (k ++ s)

def maxFieldLength : ℕ := 32

/-- The length of a word that a field may hold. -/
def WordLength (w : Str) : Prop := w ≠ [] ∧ w.length ≤ maxFieldLength

/-- A field, up to the blank or the end of the stream that ends it, and what is left. -/
inductive Field (w : Str) : Str → Str → Prop
  | blank {g p rest : Str} {b : UInt8} (hg : Gap g) (hp : Spells w p) (hw : WordLength w)
    (hb : IsBlank b) : Field w (g ++ (p ++ b :: rest)) rest
  | last {g p : Str} (hg : Gap g) (hp : Spells w p) (hw : WordLength w) : Field w (g ++ p) []

/-- The stream ends where a field is looked for, or in a comment before the end of it is seen. -/
inductive NoField : Str → Prop
  | gap {g : Str} (hg : Gap g) : NoField g
  | openComment {g w p o : Str} (hg : Gap g) (hp : Spells w p) (hlen : w.length ≤ maxFieldLength)
    (ho : OpenComment o) : NoField (g ++ (p ++ o))

lemma hash_not_blank : ¬IsBlank hash := by decide

/-! ### What the scan makes of them -/

section Scan
variable (token : Str)

lemma scanToken_inComment {body : Str} (hbody : ∀ c ∈ body, ¬IsNewline c) (s : Str) :
    scanToken token true (body ++ s) = scanToken token true s := by
  induction body with
  | nil => rfl
  | cons c body ih =>
    rw [List.cons_append, scanToken, if_neg (hbody c (List.mem_cons_self ..))]
    exact ih fun d hd => hbody d (List.mem_cons_of_mem c hd)

lemma scanToken_comment {k : Str} (hk : Comment k) (s : Str) :
    scanToken token false (k ++ s) = scanToken token false s := by
  obtain ⟨hbody, he⟩ := hk
  rw [List.cons_append, List.append_assoc, scanToken, if_pos rfl, scanToken_inComment token hbody,
    List.singleton_append, scanToken, if_pos he]

lemma scanToken_openComment {o : Str} (ho : OpenComment o) :
    scanToken token false o = (Checked.fail .eof, []) := by
  obtain ⟨hbody⟩ := ho
  have h := scanToken_inComment token hbody []
  rw [List.append_nil] at h
  rw [scanToken, if_pos rfl, h, scanToken]

lemma scanToken_gap {g : Str} (hg : Gap g) (s : Str) :
    scanToken [] false (g ++ s) = scanToken [] false s := by
  induction hg with
  | nil => rfl
  | @blank c g hc _ ih =>
    have hhash : c ≠ hash := by
      rintro rfl
      exact hash_not_blank hc
    rw [List.cons_append, scanToken, if_neg hhash, if_pos hc, if_neg (by simp)]
    exact ih
  | comment hk _ ih =>
    rw [List.append_assoc, scanToken_comment _ hk]
    exact ih

lemma scanToken_spells {w p : Str} (hp : Spells w p) (hlen : (token ++ w).length ≤ maxFieldLength)
    (s : Str) : scanToken token false (p ++ s) = scanToken (token ++ w) false s := by
  induction hp generalizing token with
  | nil => rw [List.append_nil, List.nil_append]
  | @byte c w p hblank hhash _ ih =>
    have hstep : ¬(token ++ [c]).length > 32 := by
      simp only [List.length_append, List.length_cons, List.length_nil, maxFieldLength] at hlen ⊢
      omega
    rw [List.cons_append, scanToken, if_neg hhash, if_neg hblank, if_neg hstep,
      ih _ (by simpa using hlen), List.append_assoc, List.singleton_append]
  | comment hk _ ih => rw [List.append_assoc, scanToken_comment _ hk, ih _ hlen]

lemma scanToken_tooLong {w p : Str} (hp : Spells w p) (htoken : token.length ≤ maxFieldLength)
    (hlen : maxFieldLength < (token ++ w).length) (s : Str) :
    ∃ rest, scanToken token false (p ++ s) = (Checked.fail .fieldTooLong, rest) := by
  induction hp generalizing token with
  | nil =>
    rw [List.append_nil] at hlen
    omega
  | @byte c w p hblank hhash _ ih =>
    rw [List.cons_append, scanToken, if_neg hhash, if_neg hblank]
    by_cases hstep : (token ++ [c]).length > 32
    · rw [if_pos hstep]
      exact ⟨_, rfl⟩
    · rw [if_neg hstep]
      exact ih _ (Nat.le_of_not_lt hstep) (by simpa using hlen)
  | comment hk _ ih =>
    rw [List.append_assoc, scanToken_comment _ hk]
    exact ih _ htoken hlen

end Scan

/-! ### What a stream starts with -/

lemma exists_newline_or (s : Str) :
    (∃ body e rest, s = body ++ e :: rest ∧ (∀ c ∈ body, ¬IsNewline c) ∧ IsNewline e) ∨
      ∀ c ∈ s, ¬IsNewline c := by
  induction s with
  | nil => exact .inr (by simp)
  | cons c s ih =>
    by_cases hc : IsNewline c
    · exact .inl ⟨[], c, s, rfl, by simp, hc⟩
    · rcases ih with ⟨body, e, rest, rfl, hbody, he⟩ | h
      · refine .inl ⟨c :: body, e, rest, rfl, ?_, he⟩
        exact List.forall_mem_cons.mpr ⟨hc, hbody⟩
      · exact .inr (List.forall_mem_cons.mpr ⟨hc, h⟩)

/-- What comes next in a header. -/
lemma next_cases (s : Str) :
    s = [] ∨ OpenComment s ∨ (∃ k rest, s = k ++ rest ∧ Comment k ∧ rest.length < s.length) ∨
      ∃ c rest, s = c :: rest ∧ c ≠ hash := by
  cases s with
  | nil => exact .inl rfl
  | cons c s =>
    by_cases hc : c = hash
    · subst hc
      rcases exists_newline_or s with ⟨body, e, rest, rfl, hbody, he⟩ | h
      · refine .inr (.inr (.inl ⟨hash :: (body ++ [e]), rest, by simp, ⟨hbody, he⟩, ?_⟩))
        simp only [List.length_cons, List.length_append]
        omega
      · exact .inr (.inl ⟨h⟩)
    · exact .inr (.inr (.inr ⟨c, s, rfl, hc⟩))

/-- A gap ends with the stream, in an open comment or before the byte of a word. -/
lemma exists_gap (s : Str) :
    ∃ g rest, s = g ++ rest ∧ Gap g ∧
      (rest = [] ∨ OpenComment rest ∨ ∃ c t, rest = c :: t ∧ ¬IsBlank c ∧ c ≠ hash) := by
  induction hn : s.length using Nat.strong_induction_on generalizing s with
  | _ n ih =>
    subst hn
    rcases next_cases s with rfl | ho | ⟨k, rest, rfl, hk, hlt⟩ | ⟨c, rest, rfl, hc⟩
    · exact ⟨[], [], rfl, .nil, .inl rfl⟩
    · exact ⟨[], s, rfl, .nil, .inr (.inl ho)⟩
    · obtain ⟨g, t, rfl, hg, ht⟩ := ih _ hlt rest rfl
      exact ⟨k ++ g, t, by simp, .comment hk hg, ht⟩
    · by_cases hb : IsBlank c
      · obtain ⟨g, t, rfl, hg, ht⟩ := ih _ (by simp) rest rfl
        exact ⟨c :: g, t, rfl, .blank hb hg, ht⟩
      · exact ⟨[], c :: rest, rfl, .nil, .inr (.inr ⟨c, rest, rfl, hb, hc⟩)⟩

/-- A word ends with the stream, in an open comment or before a blank. -/
lemma exists_word (s : Str) :
    ∃ w p rest, s = p ++ rest ∧ Spells w p ∧
      (rest = [] ∨ OpenComment rest ∨ ∃ b t, rest = b :: t ∧ IsBlank b) := by
  induction hn : s.length using Nat.strong_induction_on generalizing s with
  | _ n ih =>
    subst hn
    rcases next_cases s with rfl | ho | ⟨k, rest, rfl, hk, hlt⟩ | ⟨c, rest, rfl, hc⟩
    · exact ⟨[], [], [], rfl, .nil, .inl rfl⟩
    · exact ⟨[], [], s, rfl, .nil, .inr (.inl ho)⟩
    · obtain ⟨w, p, t, rfl, hp, ht⟩ := ih _ hlt rest rfl
      exact ⟨w, k ++ p, t, by simp, .comment hk hp, ht⟩
    · by_cases hb : IsBlank c
      · exact ⟨[], [], c :: rest, rfl, .nil, .inr (.inr ⟨c, rest, rfl, hb⟩)⟩
      · obtain ⟨w, p, t, rfl, hp, ht⟩ := ih _ (by simp) rest rfl
        exact ⟨c :: w, c :: p, t, rfl, .byte hb hc hp, ht⟩

/-- A word that is spelled from a byte on is not empty. -/
lemma Spells.ne_nil {w p rest t : Str} {c : UInt8} (hp : Spells w p) (heq : c :: t = p ++ rest)
    (hblank : ¬IsBlank c) (hhash : c ≠ hash)
    (hrest : rest = [] ∨ OpenComment rest ∨ ∃ b t, rest = b :: t ∧ IsBlank b) : w ≠ [] := by
  rintro rfl
  cases hp with
  | nil =>
    rw [List.nil_append] at heq
    subst heq
    rcases hrest with h | h | ⟨b, t, h, hb⟩
    · cases h
    · cases h
      exact hhash rfl
    · cases h
      exact hblank hb
  | comment hk _ =>
    obtain ⟨_, _⟩ := hk
    rw [List.cons_append, List.cons_append] at heq
    exact hhash (List.cons.inj heq).1

/-! ### Reading a token -/

lemma readToken_field {w s rest : Str} (h : Field w s rest) : readToken s = (.ok w, rest) := by
  cases h with
  | @blank g p _ b hg hp hw hb =>
    have hhash : b ≠ hash := by
      rintro rfl
      exact hash_not_blank hb
    rw [readToken, scanToken_gap hg, scanToken_spells [] hp hw.2, List.nil_append, scanToken,
      if_neg hhash, if_pos hb, if_pos hw.1]
  | last hg hp hw =>
    have h := scanToken_spells [] hp hw.2 []
    rw [List.append_nil, List.nil_append] at h
    rw [readToken, scanToken_gap hg, h, scanToken, if_pos hw.1]

lemma readToken_noField {s : Str} (h : NoField s) : readToken s = (Checked.fail .eof, []) := by
  cases h with
  | gap hg =>
    have h := scanToken_gap hg []
    rw [List.append_nil] at h
    rw [readToken, h]
    rfl
  | openComment hg hp hlen ho =>
    rw [readToken, scanToken_gap hg, scanToken_spells [] hp hlen, scanToken_openComment _ ho]

/-- There are no other ways to end. -/
lemma readToken_cases (s : Str) :
    (∃ w rest, Field w s rest) ∨ NoField s ∨
      ∃ rest, readToken s = (Checked.fail .fieldTooLong, rest) := by
  obtain ⟨g, t, rfl, hg, rfl | ho | ⟨c, t, rfl, hblank, hhash⟩⟩ := exists_gap s
  · rw [List.append_nil]
    exact .inr (.inl (.gap hg))
  · exact .inr (.inl (.openComment hg .nil (Nat.zero_le _) ho))
  · obtain ⟨w, p, rest, heq, hp, hrest⟩ := exists_word (c :: t)
    have hne := hp.ne_nil heq hblank hhash hrest
    rw [heq]
    by_cases hlen : w.length ≤ maxFieldLength
    · rcases hrest with rfl | ho | ⟨b, t, rfl, hb⟩
      · rw [List.append_nil]
        exact .inl ⟨w, [], .last hg hp ⟨hne, hlen⟩⟩
      · exact .inr (.inl (.openComment hg hp hlen ho))
      · exact .inl ⟨w, t, .blank hg hp ⟨hne, hlen⟩ hb⟩
    · rw [readToken, scanToken_gap hg]
      exact .inr (.inr (scanToken_tooLong [] hp (Nat.zero_le _) (Nat.lt_of_not_le hlen)
        rest))

/-! ### Reading a number -/

def IsDigit (c : UInt8) : Prop := 0x30 ≤ c ∧ c ≤ 0x39

def decimalValue (w : Str) : ℕ := w.foldl (fun n c => n * 10 + (c - 0x30).toNat) 0

def maxNumber : ℕ := 1 <<< 30

/-- A field that holds a number. -/
def Number (n : ℕ) (s rest : Str) : Prop :=
  ∃ w, Field w s rest ∧ (∀ c ∈ w, IsDigit c) ∧ decimalValue w = n ∧ n ≤ maxNumber

/-- The error is about the header, whatever the header is. -/
def ReadError.IsMalformed (e : ReadError) : Prop := e.isEOF = false

lemma le_foldl_digits (w : Str) (n : ℕ) :
    n ≤ w.foldl (fun n c => n * 10 + (c - 0x30).toNat) n := by
  induction w generalizing n with
  | nil => rfl
  | cons c w ih =>
    have h := ih (n * 10 + (c - 0x30).toNat)
    rw [List.foldl_cons]
    omega

lemma parseDigits_eq {token w : Str} {n : ℕ} (hdigits : ∀ c ∈ w, IsDigit c)
    (hle : w.foldl (fun n c => n * 10 + (c - 0x30).toNat) n ≤ maxNumber) :
    parseDigits token n w = .ok (w.foldl (fun n c => n * 10 + (c - 0x30).toNat) n) := by
  induction w generalizing n with
  | nil => rfl
  | cons c w ih =>
    obtain ⟨⟨hlo, hhi⟩, hdigits⟩ := List.forall_mem_cons.mp hdigits
    rw [List.foldl_cons] at hle ⊢
    have hc : ¬(c < 0x30 ∨ c > 0x39) := by
      rintro (h | h)
      · exact UInt8.not_lt.mpr hlo h
      · exact UInt8.not_lt.mpr hhi h
    have hn : ¬n * 10 + (c - 0x30).toNat > 1 <<< 30 :=
      Nat.not_lt.mpr ((le_foldl_digits w _).trans hle)
    rw [parseDigits, if_neg hc]
    dsimp only
    rw [if_neg hn]
    exact ih hdigits hle

lemma parseDigits_cases (token w : Str) {n : ℕ} (hn : n ≤ maxNumber) :
    ((∀ c ∈ w, IsDigit c) ∧ w.foldl (fun n c => n * 10 + (c - 0x30).toNat) n ≤ maxNumber) ∨
      ∃ e : ReadError, e.IsMalformed ∧ parseDigits token n w = Checked.fail e := by
  induction w generalizing n with
  | nil => exact .inl ⟨by simp, hn⟩
  | cons c w ih =>
    rw [parseDigits, List.foldl_cons]
    by_cases hc : c < 0x30 ∨ c > 0x39
    · rw [if_pos hc]
      exact .inr ⟨.notANumber token, rfl, rfl⟩
    · rw [if_neg hc]
      dsimp only
      by_cases hle : n * 10 + (c - 0x30).toNat > 1 <<< 30
      · rw [if_pos hle]
        exact .inr ⟨.implausibleNumber, rfl, rfl⟩
      · rw [if_neg hle]
        refine (ih (Nat.le_of_not_lt hle)).imp_left fun h => ⟨?_, h.2⟩
        have hdigit : IsDigit c :=
          ⟨UInt8.not_lt.mp fun h => hc (.inl h), UInt8.not_lt.mp fun h => hc (.inr h)⟩
        exact List.forall_mem_cons.mpr ⟨hdigit, h.1⟩

lemma Field.wordLength {w s rest : Str} (h : Field w s rest) : WordLength w := by
  cases h with
  | blank _ _ hw _ => exact hw
  | last _ _ hw => exact hw

lemma readInt_number {n : ℕ} {s rest : Str} (h : Number n s rest) : readInt s = (.ok n, rest) := by
  obtain ⟨w, hfield, hdigits, rfl, hle⟩ := h
  have hparse : ByteReader.lift (parseDigits w 0 w) rest = (.ok (decimalValue w), rest) := by
    rw [ByteReader.lift, parseDigits_eq hdigits hle]
    rfl
  rw [readInt, ByteReader.bind_ok (readToken_field hfield), ByteReader.bind_ok hparse,
    if_neg hfield.wordLength.1]
  rfl

lemma readInt_noField {s : Str} (h : NoField s) : readInt s = (Checked.fail .eof, []) :=
  ByteReader.bind_fail (readToken_noField h)

lemma readInt_cases (s : Str) :
    (∃ n rest, Number n s rest) ∨ NoField s ∨
      ∃ (e : ReadError) (rest : Str), e.IsMalformed ∧ readInt s = (Checked.fail e, rest) := by
  rcases readToken_cases s with ⟨w, rest, hfield⟩ | h | ⟨rest, h⟩
  · rcases parseDigits_cases w w (Nat.zero_le _) with ⟨hdigits, hle⟩ | ⟨e, he, hfail⟩
    · exact .inl ⟨_, rest, w, hfield, hdigits, rfl, hle⟩
    · refine .inr (.inr ⟨e, rest, he, ?_⟩)
      rw [readInt, ByteReader.bind_ok (readToken_field hfield)]
      exact ByteReader.bind_fail (by rw [ByteReader.lift, hfail])
  · exact .inr (.inl h)
  · exact .inr (.inr ⟨.fieldTooLong, rest, rfl, ByteReader.bind_fail h⟩)

end Dhow.Netpbm
