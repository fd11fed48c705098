/-
# `EggLang.Proofs.Text.Encoding` — a file is run as the text that it encodes

A step that runs a file takes bytes.  Two things are between the bytes and a
program, the decoder and the folding of line ends, and both are held against
definitions of their own:

    decoding    bytes are decoded exactly if they are the encoding of a text,
                and then to that text (`decodeUtf8_eq_ok_iff`)
    folding     first `\r\n` and then `\r` are replaced by `\n`
                (`foldNewlines_eq_replaced`)

The encoding of a text is that of its characters, one after the other.  In the
middle is `Row`: the rows of the table that the decoder works by, each with the
value that it has.  A row is what the decoder takes at once (`takeUnit_of_row`,
`row_of_takeUnit`), and it is what a character is encoded as (`row_encodeChar`,
`encodeChar_of_row`).  The ranges of the table are what makes the second one
right: without them two rows would have the same value, or a row a value that no
character has (`valid_of_row`).
-/
import EggLang.Session
import Mathlib.Data.List.Basic

namespace EggLang

namespace Text

def utf8Bytes (s : String) : List UInt8 := s.toUTF8.data.toList

theorem utf8Bytes_eq (s : String) : utf8Bytes s = s.toList.flatMap String.utf8EncodeChar := by
  have hs : s.toUTF8 = s.toList.utf8Encode := by
    rw [String.toUTF8_eq_toByteArray, ← String.toByteArray_ofList, String.ofList_toList]
  rw [utf8Bytes, hs, List.utf8Encode, List.toList_data_toByteArray]

/-! ## Bytes and their values -/

theorem isTail_iff {b : UInt8} : isTail b = true ↔ 0x80 ≤ b.toNat ∧ b.toNat ≤ 0xbf := by
  simp [isTail, UInt8.le_iff_toNat_le]

/-- Four first bytes allow fewer bytes behind them than the others do. -/
theorem isSecond_iff {first b : UInt8} :
    isSecond first b = true ↔ (0x80 ≤ b.toNat ∧ b.toNat ≤ 0xbf) ∧
      (first.toNat = 0xe0 → 0xa0 ≤ b.toNat) ∧ (first.toNat = 0xed → b.toNat ≤ 0x9f) ∧
      (first.toNat = 0xf0 → 0x90 ≤ b.toNat) ∧ (first.toNat = 0xf4 → b.toNat ≤ 0x8f) := by
  have hfirst : ∀ c : UInt8, first = c ↔ first.toNat = c.toNat := fun c => UInt8.toNat_inj.symm
  unfold isSecond
  simp only [hfirst, UInt8.le_iff_toNat_le, UInt8.reduceToNat]
  split
  · simp only [Bool.and_eq_true, decide_eq_true_eq]
    omega
  · split
    · simp only [Bool.and_eq_true, decide_eq_true_eq]
      omega
    · split
      · simp only [Bool.and_eq_true, decide_eq_true_eq]
        omega
      · split
        · simp only [Bool.and_eq_true, decide_eq_true_eq]
          omega
        · rw [isTail_iff]
          omega

theorem tailCount_iff {b : UInt8} {missing : Nat} :
    tailCount b = some missing ↔
      (b.toNat ≤ 0x7f ∧ missing = 0) ∨ (0xc2 ≤ b.toNat ∧ b.toNat ≤ 0xdf ∧ missing = 1) ∨
      (0xe0 ≤ b.toNat ∧ b.toNat ≤ 0xef ∧ missing = 2) ∨
      (0xf0 ≤ b.toNat ∧ b.toNat ≤ 0xf4 ∧ missing = 3) := by
  unfold tailCount
  simp only [UInt8.le_iff_toNat_le, UInt8.lt_iff_toNat_lt, UInt8.reduceToNat]
  split_ifs <;> simp only [Option.some.injEq, false_iff] <;> omega

theorem ofNat_eq {b : UInt8} {n : Nat} (h : n = b.toNat) : UInt8.ofNat n = b := by
  rw [h, UInt8.ofNat_toNat]

/-! ## Rows -/

/-- The bytes are a row of the table, and `n` is the value that it has. -/
inductive Row (n : Nat) : List UInt8 → Prop
  | one {b : UInt8} : b.toNat ≤ 0x7f → n = b.toNat → Row n [b]
  | two {b c : UInt8} : 0xc2 ≤ b.toNat → b.toNat ≤ 0xdf → isSecond b c = true →
      n = (b.toNat - 0xc0) * 64 + (c.toNat - 0x80) → Row n [b, c]
  | three {b c d : UInt8} : 0xe0 ≤ b.toNat → b.toNat ≤ 0xef → isSecond b c = true →
      isTail d = true →
      n = ((b.toNat - 0xe0) * 64 + (c.toNat - 0x80)) * 64 + (d.toNat - 0x80) → Row n [b, c, d]
  | four {b c d e : UInt8} : 0xf0 ≤ b.toNat → b.toNat ≤ 0xf4 → isSecond b c = true →
      isTail d = true → isTail e = true →
      n = (((b.toNat - 0xf0) * 64 + (c.toNat - 0x80)) * 64 + (d.toNat - 0x80)) * 64 +
        (e.toNat - 0x80) → Row n [b, c, d, e]

theorem takeTail_tail {c : UInt8} (missing width n : Nat) (rest : List UInt8)
    (hc : isTail c = true) : takeTail (missing + 1) width n (c :: rest) =
      takeTail missing (width + 1) (n * 64 + (c.toNat - 0x80)) rest :=
  if_pos hc

theorem takeUnit_second {first c : UInt8} (missing : Nat) (rest : List UInt8)
    (hc : isSecond first c = true) : takeUnit first (missing + 1) (c :: rest) =
      takeTail missing 2 (leadBits first (missing + 1) * 64 + (c.toNat - 0x80)) rest :=
  if_pos hc

/-- The decoder takes a row at once. -/
theorem takeUnit_of_row {n : Nat} {b : UInt8} {tail : List UInt8} (h : Row n (b :: tail))
    (rest : List UInt8) :
    ∃ missing, tailCount b = some missing ∧ takeUnit b missing (tail ++ rest) = .scalar n rest := by
  cases h with
  | one hb hn =>
    refine ⟨0, tailCount_iff.mpr (by omega), ?_⟩
    rw [hn]
    rfl
  | two hb hb' hc hn =>
    refine ⟨1, tailCount_iff.mpr (by omega), ?_⟩
    rw [List.cons_append, takeUnit_second _ _ hc, hn]
    rfl
  | three hb hb' hc hd hn =>
    refine ⟨2, tailCount_iff.mpr (by omega), ?_⟩
    rw [List.cons_append, List.cons_append, takeUnit_second _ _ hc, takeTail_tail _ _ _ _ hd, hn]
    rfl
  | four hb hb' hc hd he hn =>
    refine ⟨3, tailCount_iff.mpr (by omega), ?_⟩
    rw [List.cons_append, List.cons_append, List.cons_append, takeUnit_second _ _ hc,
      takeTail_tail _ _ _ _ hd, takeTail_tail _ _ _ _ he, hn]
    rfl

theorem takeTail_succ_eq_scalar {missing width n m : Nat} {bytes rest : List UInt8}
    (h : takeTail (missing + 1) width n bytes = .scalar m rest) :
    ∃ c bytes', bytes = c :: bytes' ∧ isTail c = true ∧
      takeTail missing (width + 1) (n * 64 + (c.toNat - 0x80)) bytes' = .scalar m rest := by
  cases bytes with
  | nil => cases h
  | cons c bytes =>
    simp only [takeTail] at h
    split at h
    · next hc => exact ⟨c, bytes, rfl, hc, h⟩
    · cases h

theorem takeUnit_succ_eq_scalar {first : UInt8} {missing m : Nat} {bytes rest : List UInt8}
    (h : takeUnit first (missing + 1) bytes = .scalar m rest) :
    ∃ c bytes', bytes = c :: bytes' ∧ isSecond first c = true ∧
      takeTail missing 2 (leadBits first (missing + 1) * 64 + (c.toNat - 0x80)) bytes' =
        .scalar m rest := by
  cases bytes with
  | nil => cases h
  | cons c bytes =>
    simp only [takeUnit] at h
    split at h
    · next hc => exact ⟨c, bytes, rfl, hc, h⟩
    · cases h

/-- What the decoder takes at once is a row. -/
theorem row_of_takeUnit {b : UInt8} {missing n : Nat} {bytes rest : List UInt8}
    (hb : tailCount b = some missing) (h : takeUnit b missing bytes = .scalar n rest) :
    ∃ tail, bytes = tail ++ rest ∧ Row n (b :: tail) := by
  rcases tailCount_iff.mp hb with ⟨hle, rfl⟩ | ⟨hge, hle, rfl⟩ | ⟨hge, hle, rfl⟩ | ⟨hge, hle, rfl⟩
  · cases h
    exact ⟨[], rfl, .one hle rfl⟩
  · obtain ⟨c, bytes, rfl, hc, h⟩ := takeUnit_succ_eq_scalar h
    obtain ⟨hn, rfl⟩ := Unit8.scalar.inj h
    exact ⟨[c], rfl, .two hge hle hc hn.symm⟩
  · obtain ⟨c, bytes, rfl, hc, h⟩ := takeUnit_succ_eq_scalar h
    obtain ⟨d, bytes, rfl, hd, h⟩ := takeTail_succ_eq_scalar h
    obtain ⟨hn, rfl⟩ := Unit8.scalar.inj h
    exact ⟨[c, d], rfl, .three hge hle hc hd hn.symm⟩
  · obtain ⟨c, bytes, rfl, hc, h⟩ := takeUnit_succ_eq_scalar h
    obtain ⟨d, bytes, rfl, hd, h⟩ := takeTail_succ_eq_scalar h
    obtain ⟨e, bytes, rfl, he, h⟩ := takeTail_succ_eq_scalar h
    obtain ⟨hn, rfl⟩ := Unit8.scalar.inj h
    exact ⟨[c, d, e], rfl, .four hge hle hc hd he hn.symm⟩

/-! ## Rows and characters -/

/-- A character is encoded as a row of its own value. -/
theorem row_encodeChar (c : Char) : Row c.toNat (String.utf8EncodeChar c) := by
  have hvalid : c.toNat < 0xd800 ∨ 0xdfff < c.toNat ∧ c.toNat < 0x110000 := c.valid
  have hval : c.val.toNat = c.toNat := rfl
  simp only [String.utf8EncodeChar, hval]
  generalize c.toNat = n at hvalid ⊢
  split
  · have hb := UInt8.toNat_ofNat_of_lt' (show n < 256 by omega)
    exact .one (by omega) hb.symm
  have hlast := UInt8.toNat_ofNat_of_lt' (show n % 64 + 128 < 256 by omega)
  split
  · have hb := UInt8.toNat_ofNat_of_lt' (show n / 64 % 32 + 192 < 256 by omega)
    exact .two (by omega) (by omega) (isSecond_iff.mpr (by omega)) (by omega)
  have hmiddle := UInt8.toNat_ofNat_of_lt' (show n / 64 % 64 + 128 < 256 by omega)
  split
  · have hb := UInt8.toNat_ofNat_of_lt' (show n / 4096 % 16 + 224 < 256 by omega)
    exact .three (by omega) (by omega) (isSecond_iff.mpr (by omega)) (isTail_iff.mpr (by omega))
      (by omega)
  · have hb := UInt8.toNat_ofNat_of_lt' (show n / 262144 % 8 + 240 < 256 by omega)
    have hc := UInt8.toNat_ofNat_of_lt' (show n / 4096 % 64 + 128 < 256 by omega)
    exact .four (by omega) (by omega) (isSecond_iff.mpr (by omega)) (isTail_iff.mpr (by omega))
      (isTail_iff.mpr (by omega)) (by omega)

/-- The value of a row is that of a character. -/
theorem valid_of_row {n : Nat} {row : List UInt8} (h : Row n row) : n.isValidChar := by
  show n < 0xd800 ∨ 0xdfff < n ∧ n < 0x110000
  cases h with
  | one hb hn => omega
  | two hb hb' hc hn =>
    rw [isSecond_iff] at hc
    omega
  | three hb hb' hc hd hn =>
    rw [isSecond_iff] at hc
    rw [isTail_iff] at hd
    omega
  | four hb hb' hc hd he hn =>
    rw [isSecond_iff] at hc
    rw [isTail_iff] at hd he
    omega

/-- A row is what the character of its value is encoded as. -/
theorem encodeChar_of_row {c : Char} {row : List UInt8} (h : Row c.toNat row) :
    String.utf8EncodeChar c = row := by
  have hval : c.val.toNat = c.toNat := rfl
  simp only [String.utf8EncodeChar, hval]
  generalize c.toNat = n at h
  cases h with
  | one hb hn =>
    rw [if_pos (by omega), ofNat_eq hn]
  | @two b c hb hb' hc hn =>
    rw [isSecond_iff] at hc
    have h1 : n / 64 % 32 + 192 = b.toNat := by omega
    have h2 : n % 64 + 128 = c.toNat := by omega
    rw [if_neg (by omega), if_pos (by omega), ofNat_eq h1, ofNat_eq h2]
  | @three b c d hb hb' hc hd hn =>
    rw [isSecond_iff] at hc
    rw [isTail_iff] at hd
    have h1 : n / 4096 % 16 + 224 = b.toNat := by omega
    have h2 : n / 64 % 64 + 128 = c.toNat := by omega
    have h3 : n % 64 + 128 = d.toNat := by omega
    rw [if_neg (by omega), if_neg (by omega), if_pos (by omega), ofNat_eq h1, ofNat_eq h2,
      ofNat_eq h3]
  | @four b c d e hb hb' hc hd he hn =>
    rw [isSecond_iff] at hc
    rw [isTail_iff] at hd he
    have h1 : n / 262144 % 8 + 240 = b.toNat := by omega
    have h2 : n / 4096 % 64 + 128 = c.toNat := by omega
    have h3 : n / 64 % 64 + 128 = d.toNat := by omega
    have h4 : n % 64 + 128 = e.toNat := by omega
    rw [if_neg (by omega), if_neg (by omega), if_neg (by omega), ofNat_eq h1, ofNat_eq h2,
      ofNat_eq h3, ofNat_eq h4]

/-! ## Decoding -/

/-- The decoder takes the encoding of a character at once. -/
theorem takeUnit_encodeChar {c : Char} {b : UInt8} {bytes rest : List UInt8}
    (h : b :: bytes = String.utf8EncodeChar c ++ rest) :
    ∃ missing, tailCount b = some missing ∧
      takeUnit b missing bytes = .scalar c.toNat rest := by
  have hrow := row_encodeChar c
  cases hc : String.utf8EncodeChar c with
  | nil =>
    rw [hc] at hrow
    cases hrow
  | cons b' tail =>
    rw [hc] at h hrow
    obtain ⟨rfl, rfl⟩ := List.cons.inj h
    exact takeUnit_of_row hrow rest

/-- What the decoder takes at once is the encoding of a character. -/
theorem encodeChar_of_takeUnit {b : UInt8} {missing n : Nat} {bytes rest : List UInt8}
    (hb : tailCount b = some missing) (h : takeUnit b missing bytes = .scalar n rest) :
    b :: bytes = String.utf8EncodeChar (Char.ofNat n) ++ rest := by
  obtain ⟨tail, rfl, hrow⟩ := row_of_takeUnit hb h
  have hn : (Char.ofNat n).toNat = n := by
    rw [Char.ofNat, dif_pos (valid_of_row hrow)]
    rfl
  rw [encodeChar_of_row (hn.symm ▸ hrow)]
  rfl

/-- A text that bytes encode begins with a character that the decoder takes. -/
theorem takeUnit_flatMap {b : UInt8} {bytes : List UInt8} {cs : List Char}
    (h : b :: bytes = cs.flatMap String.utf8EncodeChar) :
    ∃ c rest missing, cs = c :: rest ∧ tailCount b = some missing ∧
      takeUnit b missing bytes = .scalar c.toNat (rest.flatMap String.utf8EncodeChar) := by
  cases cs with
  | nil => cases h
  | cons c rest =>
    obtain ⟨missing, hb, hunit⟩ := takeUnit_encodeChar (h.trans List.flatMap_cons)
    exact ⟨c, rest, missing, rfl, hb, hunit⟩

theorem flatMap_encodeChar_eq_nil {cs : List Char}
    (h : [] = cs.flatMap String.utf8EncodeChar) : cs = [] := by
  cases cs with
  | nil => rfl
  | cons c rest =>
    have hrow := row_encodeChar c
    rw [(List.append_eq_nil_iff.mp (List.flatMap_cons.symm.trans h.symm)).1] at hrow
    cases hrow

theorem decodeFrom_eq_ok_iff {position : Nat} {done cs : List Char} {bytes : List UInt8} :
    decodeFrom position done bytes = .ok cs ↔
      ∃ more, cs = done.reverse ++ more ∧ bytes = more.flatMap String.utf8EncodeChar := by
  fun_induction decodeFrom position done bytes with
  | case1 position done =>
    constructor
    · intro h
      cases h
      exact ⟨[], (List.append_nil _).symm, rfl⟩
    · rintro ⟨more, rfl, hmore⟩
      rw [flatMap_encodeChar_eq_nil hmore, List.append_nil]
  | case2 position done b bytes hb =>
    refine iff_of_false nofun ?_
    rintro ⟨more, -, hmore⟩
    obtain ⟨c, rest, missing, -, hb', -⟩ := takeUnit_flatMap hmore
    cases hb.symm.trans hb'
  | case3 position done b bytes missing hb width hunit =>
    refine iff_of_false nofun ?_
    rintro ⟨more, -, hmore⟩
    obtain ⟨c, rest, missing', -, hb', hunit'⟩ := takeUnit_flatMap hmore
    cases hb.symm.trans hb'
    cases hunit.symm.trans hunit'
  | case4 position done b bytes missing hb width hunit =>
    refine iff_of_false nofun ?_
    rintro ⟨more, -, hmore⟩
    obtain ⟨c, rest, missing', -, hb', hunit'⟩ := takeUnit_flatMap hmore
    cases hb.symm.trans hb'
    cases hunit.symm.trans hunit'
  | case5 position done b bytes missing hb n rest hunit ih =>
    refine ih.trans ?_
    constructor
    · rintro ⟨more, rfl, rfl⟩
      refine ⟨Char.ofNat n :: more, by simp, ?_⟩
      rw [List.flatMap_cons, encodeChar_of_takeUnit hb hunit]
    · rintro ⟨more, rfl, hmore⟩
      obtain ⟨c, more, missing', rfl, hb', hunit'⟩ := takeUnit_flatMap hmore
      cases hb.symm.trans hb'
      cases hunit.symm.trans hunit'
      exact ⟨more, by simp, rfl⟩

/-- Bytes are decoded if they are the encoding of a text, and then to it. -/
theorem decodeUtf8_eq_ok_iff {bytes : List UInt8} {cs : List Char} :
    decodeUtf8 bytes = .ok cs ↔ bytes = utf8Bytes (String.ofList cs) := by
  rw [decodeUtf8, decodeFrom_eq_ok_iff, utf8Bytes_eq, String.toList_ofList]
  constructor
  · rintro ⟨more, rfl, h⟩
    exact h
  · intro h
    exact ⟨cs, rfl, h⟩

/-! ## Line ends -/

/-- Every `old`, from left to right, becomes `new`. -/
def replaced (old new : List Char) (cs : List Char) : List Char :=
  match cs with
  | [] => []
  | c :: cs =>
      if old.isPrefixOf (c :: cs) then new ++ replaced old new (cs.drop (old.length - 1))
      else c :: replaced old new cs
termination_by cs.length
decreasing_by
  · rw [List.length_drop, List.length_cons]
    omega
  · exact Nat.lt_succ_self _

/-- Replacing one character goes through a text character by character. -/
theorem replaced_single (a b c : Char) (cs : List Char) :
    replaced [a] [b] (c :: cs) = (if c = a then b else c) :: replaced [a] [b] cs := by
  rw [replaced]
  by_cases h : c = a
  · simp [h, List.isPrefixOf]
  · simp [h, Ne.symm h, List.isPrefixOf]

/-- Folding replaces first the longer and then the shorter one of the two other
line ends. -/
theorem foldNewlines_eq_replaced (cs : List Char) :
    foldNewlines cs = replaced ['\r'] ['\n'] (replaced ['\r', '\n'] ['\n'] cs) := by
  fun_induction foldNewlines cs with
  | case1 => simp [replaced]
  | case2 cs ih =>
    have hpair : replaced ['\r', '\n'] ['\n'] ('\r' :: '\n' :: cs) =
        '\n' :: replaced ['\r', '\n'] ['\n'] cs := by
      rw [replaced]
      rfl
    rw [hpair, replaced_single, ih]
    rfl
  | case3 c cs hno ih =>
    have hother : ¬ ['\r', '\n'].isPrefixOf (c :: cs) = true := by
      intro h
      obtain ⟨rest, hrest⟩ := List.isPrefixOf_iff_prefix.mp h
      obtain ⟨rfl, rfl⟩ := List.cons.inj hrest
      exact hno rest rfl rfl
    rw [replaced, if_neg hother, replaced_single, ih]

theorem foldNewlines_of_not_mem {cs : List Char} (h : '\r' ∉ cs) : foldNewlines cs = cs := by
  fun_induction foldNewlines cs with
  | case1 => rfl
  | case2 cs ih => exact absurd List.mem_cons_self h
  | case3 c cs hno ih =>
    have hc : c ≠ '\r' := by
      rintro rfl
      exact h List.mem_cons_self
    rw [if_neg hc, ih fun hmem => h (List.mem_cons_of_mem c hmem)]

end Text

/-! ## Files -/

namespace Session

open Text (utf8Bytes replaced)

/-- The text with `\n` for every `\r\n`, and then for every `\r`. -/
def withLineEnds (s : String) : String :=
  String.ofList (replaced ['\r'] ['\n'] (replaced ['\r', '\n'] ['\n'] s.toList))

theorem withLineEnds_eq (s : String) :
    withLineEnds s = String.ofList (Text.foldNewlines s.toList) := by
  rw [withLineEnds, ← Text.foldNewlines_eq_replaced]

theorem fileText_utf8Bytes (s : String) : fileText (utf8Bytes s) = .ok (withLineEnds s) := by
  have hdecoded : Text.decodeUtf8 (utf8Bytes s) = .ok s.toList := by
    rw [Text.decodeUtf8_eq_ok_iff, String.ofList_toList]
  rw [fileText, hdecoded, withLineEnds_eq]

theorem fileText_of_ne {bytes : List UInt8} (h : ∀ s, bytes ≠ utf8Bytes s) :
    ∃ f, fileText bytes = .error (.badEncoding f) := by
  unfold fileText
  cases hdecoded : Text.decodeUtf8 bytes with
  | ok cs => exact absurd (Text.decodeUtf8_eq_ok_iff.mp hdecoded) (h _)
  | error f => exact ⟨f, rfl⟩

/-- Running a program of one line is running its source. -/
theorem perform_run_single (forms : Forms) (limits : Limits) (s : String) :
    (Step.run [s]).perform forms limits = runSource forms limits s := by
  rw [Step.perform_run, String.intercalate_singleton]

theorem perform_file_utf8Bytes (forms : Forms) (limits : Limits) (s : String) :
    (Step.file (utf8Bytes s)).perform forms limits =
      (Step.run [withLineEnds s]).perform forms limits := by
  funext store
  rw [perform_run_single, Step.perform_file, fileText_utf8Bytes]
  rfl

/-- A file that is the encoding of a text is run as the text is, with its line
ends folded, and so as the text itself if that has no `\r`.  A file that is the
encoding of no text ends in a fault of its encoding, and the store stays as it
is. -/
theorem file_asText (forms : Forms) (limits : Limits) :
    (∀ s : String, (Step.file (utf8Bytes s)).perform forms limits =
      (Step.run [withLineEnds s]).perform forms limits) ∧
    (∀ s : String, '\r' ∉ s.toList → (Step.file (utf8Bytes s)).perform forms limits =
      (Step.run [s]).perform forms limits) ∧
    (∀ bytes, (∀ s, bytes ≠ utf8Bytes s) → ∃ f, ∀ store,
      (Step.file bytes).perform forms limits store = (.error (.badEncoding f), store)) := by
  refine ⟨?_, ?_, ?_⟩
  · intro s
    exact perform_file_utf8Bytes forms limits s
  · intro s hs
    rw [perform_file_utf8Bytes, withLineEnds_eq, Text.foldNewlines_of_not_mem hs,
      String.ofList_toList]
  · intro bytes hbytes
    obtain ⟨f, hf⟩ := fileText_of_ne hbytes
    refine ⟨f, ?_⟩
    intro store
    rw [Step.perform_file, hf]
    rfl

/-- A `\r` ends a comment in a file, though not in a text that is run; the encoding
of a surrogate is a fault. -/
theorem file_asText_lone_return :
    ((Step.file (utf8Bytes "#\r1")).perform Forms.core ⟨2, 0⟩ start).1 =
      .ok (.number (.int 1)) ∧
    ((Step.run ["#\r1"]).perform Forms.core ⟨2, 0⟩ start).1 =
      .error (.unreadable ⟨3, 1, 4⟩ (.unexpected [])) ∧
    ∃ f, (Step.file [0xed, 0xa0, 0x80]).perform Forms.core ⟨2, 0⟩ start =
      (.error (.badEncoding f), start) := by
  obtain ⟨hfile, -, hbad⟩ := file_asText Forms.core ⟨2, 0⟩
  refine ⟨?_, ?_, ?_⟩
  · rw [hfile, withLineEnds_eq]
    with_unfolding_all rfl
  · with_unfolding_all rfl
  · have hrefused : Text.decodeUtf8 [0xed, 0xa0, 0x80] = .error ⟨0, 0xed, 1, .continuation⟩ := by
      with_unfolding_all rfl
    have hsurrogate : ∀ s, [0xed, 0xa0, 0x80] ≠ utf8Bytes s := by
      intro s hs
      rw [← @String.ofList_toList s, ← Text.decodeUtf8_eq_ok_iff] at hs
      cases hrefused.symm.trans hs
    obtain ⟨f, hf⟩ := hbad _ hsurrogate
    exact ⟨f, hf start⟩

end Session

end EggLang
