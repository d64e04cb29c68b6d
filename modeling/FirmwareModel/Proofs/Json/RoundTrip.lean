import Mathlib.Data.Fintype.Basic
import Mathlib.Tactic.FinCases
import FirmwareModel.Json.Reader
import FirmwareModel.Json.Writer
import FirmwareModel.Proofs.Text.Qualified

/-!
# Reading what is written

The written form of a JSON value is read back as that value, when its numbers are numerals of
natural numbers and its strings and names are texts.
-/

namespace FirmwareModel.Json

open FirmwareModel.Text

/-- A value whose numbers are natural numbers and whose strings and names are texts. -/
inductive Value.Plain : Value → Prop
  | null : Plain .null
  | bool (b : Bool) : Plain (.bool b)
  | nat (n : Nat) : Plain (.nat n)
  | text (s : String) : Plain (.text s)
  | array {items : List Value} (h : ∀ item ∈ items, Plain item) : Plain (.array items)
  | record {members : List (String × Value)} (h : ∀ member ∈ members, Plain member.2) :
    Plain (.record members)

namespace Value

/-- An array of plain items is plain. -/
theorem plain_map {α : Type} {encode : α → Value} {as : List α}
    (h : ∀ a ∈ as, (encode a).Plain) : (array (as.map encode)).Plain :=
  .array (List.forall_mem_map.mpr h)

/-- A plain value that may be missing is plain. -/
theorem plain_nullable {α : Type} {encode : α → Value} (h : ∀ a, (encode a).Plain)
    (o : Option α) : (nullable encode o).Plain := by
  cases o with
  | none => exact .null
  | some a => exact h a

end Value

/-! ## Strings -/

/-- The piece that a character is read as: the controls without a short escape are given by their
code. -/
def pieceOf (c : Char) : Piece :=
  if c.toNat < 0x20 ∧ c ∉ ['\x08', '\t', '\n', '\x0c', '\r'] then .codeUnit c.toNat else .char c

/-- A short escape is read as the character that it stands for. -/
theorem readPieces_shortEscape {e c : Char} (he : shortEscape? e = some c) (rest : List Char) :
    readPieces ('\\' :: e :: rest) =
      (readPieces rest).map fun (pieces, rest) => (.char c :: pieces, rest) := by
  have hunicode : e ≠ 'u' := by
    rintro rfl
    cases he
  cases hrest : readPieces rest <;> simp [readPieces, he, hunicode, hrest]

/-- An escape of four digits that spells a control is read as its code. -/
theorem readPieces_control {c : Char} (hc : c.toNat < 0x20) (rest : List Char) :
    readPieces ('\\' :: 'u' :: '0' :: '0' :: (digitChar (c.toNat / 16)).toLower ::
        (digitChar (c.toNat % 16)).toLower :: rest) =
      (readPieces rest).map fun (pieces, rest) => (.codeUnit c.toNat :: pieces, rest) := by
  have hcode : ∀ n : Fin 0x20, continueNumeral? 16 0
      ['0', '0', (digitChar (n / 16)).toLower, (digitChar (n % 16)).toLower] = some n.val := by
    decide
  have hnumber := hcode ⟨c.toNat, hc⟩
  cases hrest : readPieces rest <;> simp [readPieces, hnumber, hrest]

/-- The escaped form of a character is read as its piece. -/
theorem readPieces_escapedChar_append (c : Char) (rest : List Char) :
    readPieces (escapedChar c ++ rest) =
      (readPieces rest).map fun (pieces, rest) => (pieceOf c :: pieces, rest) := by
  unfold escapedChar
  split_ifs with hquote hbackslash hback hfeed hline hreturn htab hcontrol
  · subst hquote
    exact readPieces_shortEscape rfl rest
  · subst hbackslash
    exact readPieces_shortEscape rfl rest
  · subst hback
    exact readPieces_shortEscape rfl rest
  · subst hfeed
    exact readPieces_shortEscape rfl rest
  · subst hline
    exact readPieces_shortEscape rfl rest
  · subst hreturn
    exact readPieces_shortEscape rfl rest
  · subst htab
    exact readPieces_shortEscape rfl rest
  · have hpiece : pieceOf c = .codeUnit c.toNat := by
      simp [pieceOf, hcontrol, hback, hfeed, hline, hreturn, htab]
    rw [hpiece]
    exact readPieces_control hcontrol rest
  · have hpiece : pieceOf c = .char c := by
      simp [pieceOf, hcontrol]
    cases hrest : readPieces rest <;> simp [readPieces, hbackslash, hcontrol, hpiece, hrest]

/-- A string is read piece by piece up to its closing quote, one piece for each character. -/
theorem readPieces_quoted (s rest : List Char) :
    readPieces (s.flatMap escapedChar ++ '"' :: rest) = some (s.map pieceOf, rest) := by
  induction s with
  | nil => rfl
  | cons c s ih =>
    rw [List.flatMap_cons, List.append_assoc, readPieces_escapedChar_append, ih]
    rfl

/-- A control in front is spelled by its code. -/
theorem joinPieces?_codeUnit_cons {n : Nat} (hn : n < 0x20) (pieces : List Piece) :
    joinPieces? (.codeUnit n :: pieces) = (joinPieces? pieces).map (Char.ofNat n :: ·) := by
  have hhigh : isHighSurrogate n = false := by
    simp [isHighSurrogate]
    omega
  have hlow : isLowSurrogate n = false := by
    simp [isLowSurrogate]
    omega
  match pieces with
  | [] => simp [joinPieces?, hhigh, hlow]
  | .char c :: pieces => simp [joinPieces?, hhigh, hlow, Function.comp_def]
  | .codeUnit m :: pieces => simp [joinPieces?, hhigh, hlow]

/-- The pieces of a text spell that text. -/
theorem joinPieces?_map_pieceOf (s : List Char) : joinPieces? (s.map pieceOf) = some s := by
  induction s with
  | nil => rfl
  | cons c s ih =>
    rw [List.map_cons, pieceOf]
    split_ifs with hcontrol
    · rw [joinPieces?_codeUnit_cons hcontrol.1, ih, Char.ofNat_toNat]
      rfl
    · rw [joinPieces?, ih]
      rfl

/-- A string is read back behind its opening quote. -/
theorem readString_quoted (s : String) (rest : List Char) :
    readString (s.toList.flatMap escapedChar ++ '"' :: rest) = some (some s, rest) := by
  simp [readString, readPieces_quoted, joinPieces?_map_pieceOf]

/-! ## Numbers -/

/-- What may stand behind a value in a text that is written: nothing, a comma or a line break. -/
def Follows (rest : List Char) : Prop :=
  ∀ c ∈ rest.head?, c = ',' ∨ c = '\n'

/-- A numeral is a digit and further digits. It begins with a zero only when it is one. -/
theorem exists_numeral_eq_cons (n : Nat) : ∃ d : Fin 10, ∃ digits,
    numeral 10 n = digitChar d :: digits ∧ (d = 0 → n = 0 ∧ digits = []) ∧
      ∀ c ∈ digits, isDigitIn 10 c := by
  fun_induction numeral 10 n with
  | case1 n h =>
    refine ⟨⟨n, by omega⟩, [], rfl, fun hzero => ⟨congrArg Fin.val hzero, rfl⟩, by simp⟩
  | case2 n h ih =>
    obtain ⟨d, digits, hnumeral, hzero, hdigits⟩ := ih
    refine ⟨d, digits ++ [digitChar (n % 10)], by simp [hnumeral], ?_, ?_⟩
    · intro hd
      have hsmall := (hzero hd).1
      omega
    · intro c hc
      rcases List.mem_append.mp hc with hc | hc
      · exact hdigits c hc
      · obtain rfl := List.mem_singleton.mp hc
        simp [isDigitIn, digitIn?_digitChar (show 10 ≤ 16 by decide) (Nat.mod_lt n (by decide))]

/-- No digit follows a written value. -/
theorem Follows.isDigitIn_eq_false {rest : List Char} (hrest : Follows rest) :
    ∀ c ∈ rest.head?, isDigitIn 10 c = false := by
  intro c hc
  rcases hrest c hc with rfl | rfl <;> decide

/-- The whole part of a number is a numeral, up to what follows it. -/
theorem readWhole_numeral (n : Nat) {rest : List Char} (hrest : Follows rest) :
    readWhole (numeral 10 n ++ rest) = some (numeral 10 n, rest) := by
  obtain ⟨d, digits, hnumeral, hzero, hdigits⟩ := exists_numeral_eq_cons n
  rw [hnumeral]
  by_cases hd : d = 0
  · obtain ⟨-, rfl⟩ := hzero hd
    subst hd
    rfl
  · have hdigit : ∀ d : Fin 10, d ≠ 0 → digitChar d ≠ '0' ∧ isDigitIn 10 (digitChar d) = true := by
      decide
    obtain ⟨hnonzero, hfirst⟩ := hdigit d hd
    have hall : ∀ c ∈ digitChar d :: digits, isDigitIn 10 c = true :=
      List.forall_mem_cons.mpr ⟨hfirst, hdigits⟩
    obtain ⟨htake, hdrop⟩ := takeWhile_dropWhile_append hall hrest.isDigitIn_eq_false
    have hread : readWhole (digitChar d :: digits ++ rest) =
        readDigits (digitChar d :: digits ++ rest) := by
      simp [readWhole, hnonzero]
    rw [hread, readDigits, htake, hdrop]
    rfl

/-- A numeral is read back as a number. -/
theorem readNumber_decimalText (n : Nat) {rest : List Char} (hrest : Follows rest) :
    readNumber ((decimalText n).toList ++ rest) = some (.nat n, rest) := by
  have hfraction : readFraction rest = some ([], rest) := by
    cases rest with
    | nil => rfl
    | cons c rest => rcases hrest c rfl with rfl | rfl <;> rfl
  have hexponent : readExponent rest = some ([], rest) := by
    cases rest with
    | nil => rfl
    | cons c rest => rcases hrest c rfl with rfl | rfl <;> rfl
  have hmagnitude : readMagnitude (numeral 10 n ++ rest) = some (numeral 10 n, rest) := by
    simp [readMagnitude, readWhole_numeral n hrest, hfraction, hexponent]
  obtain ⟨d, digits, hnumeral, -, -⟩ := exists_numeral_eq_cons n
  have hminus : ∀ d : Fin 10, digitChar d ≠ '-' := by decide
  have hread : readNumber (numeral 10 n ++ rest) =
      (readMagnitude (numeral 10 n ++ rest)).map fun read =>
        (.number (String.ofList read.1), read.2) := by
    simp [hnumeral, readNumber, hminus d]
  rw [decimalText, String.toList_ofList, hread, hmagnitude]
  rfl

/-! ## Blanks -/

/-- Nothing is skipped before a character that is no blank. -/
theorem skipSpace_cons {c : Char} (hc : isSpace c = false) (s : List Char) :
    skipSpace (c :: s) = c :: s := by
  simp [skipSpace, hc]

/-- A line break and the indentation after it are skipped. -/
theorem skipSpace_lineBreak (level : Nat) (s : List Char) :
    skipSpace (lineBreak level ++ s) = skipSpace s := by
  refine List.dropWhile_append_of_pos fun c hc => ?_
  rcases List.mem_cons.mp hc with rfl | hblank
  · decide
  · rw [List.eq_of_mem_replicate hblank]
    decide

/-! ## Values -/

/-- How the written form of a value begins. -/
theorem Value.Plain.exists_written_eq_cons {v : Value} (hv : v.Plain) (level : Nat) :
    ∃ c s, written level v = c :: s ∧ isSpace c = false ∧ c ≠ ']' := by
  cases hv with
  | null => exact ⟨_, _, rfl, by decide, by decide⟩
  | bool b => cases b <;> exact ⟨_, _, rfl, by decide, by decide⟩
  | nat n =>
    obtain ⟨d, digits, hnumeral, -, -⟩ := exists_numeral_eq_cons n
    have hdigit : ∀ d : Fin 10, isSpace (digitChar d) = false ∧ digitChar d ≠ ']' := by decide
    exact ⟨_, digits, by simp [Value.nat, written, decimalText, hnumeral], hdigit d⟩
  | text s => exact ⟨_, _, rfl, by decide, by decide⟩
  | @array items _ => cases items <;> exact ⟨_, _, rfl, by decide, by decide⟩
  | @record members _ => cases members <;> exact ⟨_, _, rfl, by decide, by decide⟩

/-- The written form of the value is read back, whatever follows it in a text that is written. Its
length is fuel enough. -/
def Value.IsRead (v : Value) : Prop :=
  ∀ level fuel rest, (written level v).length ≤ fuel → Follows rest →
    readValue fuel (written level v ++ rest) = some (v, rest)

/-- A written form is not empty, so there is fuel for at least one step. -/
theorem Value.Plain.isRead_of_succ {v : Value} (hv : v.Plain)
    (hread : ∀ level fuel rest, (written level v).length ≤ fuel + 1 → Follows rest →
      readValue (fuel + 1) (written level v ++ rest) = some (v, rest)) : v.IsRead := by
  intro level fuel rest hfuel hrest
  obtain ⟨c, s, hwritten, -⟩ := hv.exists_written_eq_cons level
  obtain ⟨fuel, rfl⟩ : ∃ k, fuel = k + 1 := by
    refine ⟨fuel - 1, ?_⟩
    simp only [hwritten, List.length_cons] at hfuel
    omega
  exact hread level fuel rest hfuel hrest

/-- A value that begins with a digit is read as a number. -/
theorem readValue_digitChar (fuel : Nat) (d : Fin 10) (s : List Char) :
    readValue (fuel + 1) (digitChar d :: s) = readNumber (digitChar d :: s) := by
  fin_cases d <;> rfl

/-- A written value does not begin with a blank. -/
theorem Value.Plain.skipSpace_written {v : Value} (hv : v.Plain) (level : Nat)
    (rest : List Char) : skipSpace (written level v ++ rest) = written level v ++ rest := by
  obtain ⟨c, s, hwritten, hspace, -⟩ := hv.exists_written_eq_cons level
  rw [hwritten]
  exact skipSpace_cons hspace _

/-- A line break may follow a value. -/
theorem follows_lineBreak (level : Nat) (s : List Char) : Follows (lineBreak level ++ s) := by
  intro c hc
  obtain rfl : '\n' = c := by simpa [lineBreak] using hc
  exact Or.inr rfl

/-- A comma may follow a value. -/
theorem follows_comma (s : List Char) : Follows (',' :: s) := by
  intro c hc
  obtain rfl : ',' = c := by simpa using hc
  exact Or.inl rfl

/-- Items are read up to the bracket at the end. -/
theorem readItems_written {item : Value} {items : List Value}
    (hplain : ∀ v ∈ item :: items, v.Plain) (hread : ∀ v ∈ item :: items, v.IsRead)
    (level outer fuel : Nat) (rest : List Char)
    (hfuel : (written level item ++ writtenItems level items).length < fuel) :
    readItems fuel
        (written level item ++ (writtenItems level items ++ (lineBreak outer ++ ']' :: rest))) =
      some (item :: items, rest) := by
  induction items generalizing item fuel with
  | nil =>
    obtain ⟨fuel, rfl⟩ := Nat.exists_eq_succ_of_ne_zero (Nat.ne_zero_of_lt hfuel)
    have hitem := hread item (by simp) level fuel (lineBreak outer ++ ']' :: rest)
      (by simp at hfuel; omega) (follows_lineBreak _ _)
    have hend : skipSpace (lineBreak outer ++ ']' :: rest) = ']' :: rest := by
      rw [skipSpace_lineBreak, skipSpace_cons (by decide)]
    simp [readItems, writtenItems, hitem, hend]
  | cons next items ih =>
    obtain ⟨fuel, rfl⟩ := Nat.exists_eq_succ_of_ne_zero (Nat.ne_zero_of_lt hfuel)
    have hitem := hread item (by simp) level fuel
      (writtenItems level (next :: items) ++ (lineBreak outer ++ ']' :: rest))
      (by simp at hfuel; omega) (follows_comma _)
    have hitems := ih (List.forall_mem_cons.mp hplain).2 (List.forall_mem_cons.mp hread).2 fuel
      (by simp [writtenItems, lineBreak] at hfuel ⊢; omega)
    have hnext := (hplain next (by simp)).skipSpace_written level
      (writtenItems level items ++ (lineBreak outer ++ ']' :: rest))
    simp [writtenItems] at hitem
    simp [readItems, writtenItems, hitem, skipSpace_cons (show isSpace ',' = false by decide),
      skipSpace_lineBreak, hnext, hitems]

/-- A single blank is skipped. -/
theorem skipSpace_blank (s : List Char) : skipSpace (' ' :: s) = skipSpace s := rfl

/-- Members are read up to the brace at the end. -/
theorem readMembers_written {member : String × Value} {members : List (String × Value)}
    (hplain : ∀ m ∈ member :: members, m.2.Plain) (hread : ∀ m ∈ member :: members, m.2.IsRead)
    (level outer fuel : Nat) (rest : List Char)
    (hfuel : (written level member.2 ++
      writtenMembers level (members.map fun m => (some m.1, m.2))).length < fuel) :
    readMembers fuel (quotedText member.1.toList ++ ':' :: ' ' :: (written level member.2 ++
        (writtenMembers level (members.map fun m => (some m.1, m.2)) ++
          (lineBreak outer ++ '}' :: rest)))) =
      some ((member :: members).map fun m => (some m.1, m.2), rest) := by
  have hcolon : ∀ s, skipSpace (':' :: s) = ':' :: s := fun s => skipSpace_cons (by decide) s
  have hcomma : ∀ s, skipSpace (',' :: s) = ',' :: s := fun s => skipSpace_cons (by decide) s
  have hquote : ∀ s, skipSpace ('"' :: s) = '"' :: s := fun s => skipSpace_cons (by decide) s
  have hbrace : ∀ s, skipSpace ('}' :: s) = '}' :: s := fun s => skipSpace_cons (by decide) s
  induction members generalizing member fuel with
  | nil =>
    obtain ⟨fuel, rfl⟩ := Nat.exists_eq_succ_of_ne_zero (Nat.ne_zero_of_lt hfuel)
    have hvalue := hread member (by simp) level fuel (lineBreak outer ++ '}' :: rest)
      (by simp at hfuel; omega) (follows_lineBreak _ _)
    have hstart := (hplain member (by simp)).skipSpace_written level
      (lineBreak outer ++ '}' :: rest)
    simp [readMembers, writtenMembers, quotedText, readString_quoted, hcolon, skipSpace_blank,
      hstart, hvalue, skipSpace_lineBreak, hbrace]
  | cons next members ih =>
    obtain ⟨fuel, rfl⟩ := Nat.exists_eq_succ_of_ne_zero (Nat.ne_zero_of_lt hfuel)
    have hvalue := hread member (by simp) level fuel
      (writtenMembers level ((next :: members).map fun m => (some m.1, m.2)) ++
        (lineBreak outer ++ '}' :: rest))
      (by simp at hfuel; omega) (follows_comma _)
    have hstart := (hplain member (by simp)).skipSpace_written level
      (writtenMembers level ((next :: members).map fun m => (some m.1, m.2)) ++
        (lineBreak outer ++ '}' :: rest))
    have hmembers := ih (List.forall_mem_cons.mp hplain).2 (List.forall_mem_cons.mp hread).2 fuel
      (by simp [writtenMembers, lineBreak] at hfuel ⊢; omega)
    simp only [List.map_cons, writtenMembers, writtenString, quotedText, Option.getD_some,
      List.cons_append, List.append_assoc, List.nil_append] at hvalue hstart hmembers
    simp [readMembers, writtenMembers, writtenString, quotedText, readString_quoted, hcolon,
      skipSpace_blank, hstart, hvalue, skipSpace_lineBreak, hcomma, hquote, hmembers]

/-- An array is read back when each of its items is. -/
theorem isRead_array {items : List Value} (hplain : ∀ v ∈ items, v.Plain)
    (hread : ∀ v ∈ items, v.IsRead) : (Value.array items).IsRead := by
  refine (Value.Plain.array hplain).isRead_of_succ fun level fuel rest hfuel _ => ?_
  cases items with
  | nil => rfl
  | cons item items =>
    have hitems := readItems_written hplain hread (level + 1) level fuel rest
      (by simp [written, lineBreak] at hfuel ⊢; omega)
    obtain ⟨c, s, hitem, hspace, hbracket⟩ :=
      (hplain item (by simp)).exists_written_eq_cons (level + 1)
    rw [hitem] at hitems
    simpa [written, hitem, readValue, skipSpace_lineBreak, skipSpace_cons hspace, hbracket]
      using hitems

/-- A record is read back when the value of each of its members is. -/
theorem isRead_record {members : List (String × Value)} (hplain : ∀ m ∈ members, m.2.Plain)
    (hread : ∀ m ∈ members, m.2.IsRead) : (Value.record members).IsRead := by
  refine (Value.Plain.record hplain).isRead_of_succ fun level fuel rest hfuel _ => ?_
  cases members with
  | nil => rfl
  | cons member members =>
    have hmembers := readMembers_written hplain hread (level + 1) level fuel rest
      (by simp [Value.record, written, lineBreak] at hfuel ⊢; omega)
    have hquote : ∀ s, skipSpace ('"' :: s) = '"' :: s := fun s => skipSpace_cons (by decide) s
    simpa [Value.record, written, writtenString, quotedText, readValue, skipSpace_lineBreak, hquote]
      using hmembers

/-- Every plain value is read. -/
theorem Value.Plain.isRead {v : Value} (hv : v.Plain) : v.IsRead := by
  induction hv with
  | null => exact Plain.null.isRead_of_succ fun level fuel rest _ _ => rfl
  | bool b =>
    refine (Plain.bool b).isRead_of_succ fun level fuel rest _ _ => ?_
    cases b <;> rfl
  | nat n =>
    refine (Plain.nat n).isRead_of_succ fun level fuel rest _ hrest => ?_
    obtain ⟨d, digits, hnumeral, -, -⟩ := exists_numeral_eq_cons n
    have hnumber := readNumber_decimalText n hrest
    have hwritten : written level (.nat n) = digitChar d :: digits := by
      rw [Value.nat, written, decimalText, String.toList_ofList, hnumeral]
    rw [decimalText, String.toList_ofList, hnumeral] at hnumber
    rw [hwritten, List.cons_append, readValue_digitChar]
    exact hnumber
  | text s =>
    refine (Plain.text s).isRead_of_succ fun level fuel rest _ _ => ?_
    simp [Value.text, written, writtenString, quotedText, readValue, readString_quoted]
  | array hplain ih => exact isRead_array hplain ih
  | record hplain ih => exact isRead_record hplain ih

/-- A plain value is read back from its text. -/
theorem Value.Plain.read?_pretty {v : Value} (hv : v.Plain) : read? v.pretty = some v := by
  have hstart := hv.skipSpace_written 0 []
  have hread := hv.isRead 0 (2 * (written 0 v).length + 2) [] (by omega) (by simp [Follows])
  have hend : skipSpace [] = [] := rfl
  rw [List.append_nil] at hstart hread
  simp [read?, Value.pretty, hstart, hread, hend]

end FirmwareModel.Json
