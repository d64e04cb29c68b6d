import Mathlib.Data.List.Infix
import Mathlib.Data.List.TakeWhile
import Mathlib.Tactic.SplitIfs
import FirmwareModel.Text.Blank
import FirmwareModel.Text.Numeral
import FirmwareModel.Text.Segments

/-!
# Joining and cutting qualified names

A text is cut in front of the first occurrence of another. Joining segments that hold no colon and
cutting the result gives the segments back, so a qualified name of such segments determines them.
Identifiers are described by their characters.
-/

namespace FirmwareModel.Text

/-- What is read off the start of a text as long as a condition holds, and what is left then. -/
theorem takeWhile_dropWhile_append {p : Char → Bool} {front back : List Char}
    (hfront : ∀ c ∈ front, p c) (hback : ∀ c ∈ back.head?, p c = false) :
    (front ++ back).takeWhile p = front ∧ (front ++ back).dropWhile p = back := by
  rw [List.takeWhile_append_of_pos hfront, List.dropWhile_append_of_pos hfront]
  cases back with
  | nil => simp
  | cons c back => simp [hback c rfl]

/-- Reading as long as a condition holds cuts a text in front of the first character that it
rejects. -/
theorem takeWhile_dropWhile_eq_iff {p : Char → Bool} {s front back : List Char} :
    s.takeWhile p = front ∧ s.dropWhile p = back ↔
      s = front ++ back ∧ (∀ c ∈ front, p c) ∧ ∀ c ∈ back.head?, p c = false := by
  constructor
  · rintro ⟨rfl, rfl⟩
    refine ⟨List.takeWhile_append_dropWhile.symm, fun c hc => List.mem_takeWhile_imp hc, ?_⟩
    intro c hc
    have hhead := List.head?_dropWhile_not p s
    rw [Option.mem_def.mp hc] at hhead
    exact hhead
  · rintro ⟨rfl, hfront, hback⟩
    exact takeWhile_dropWhile_append hfront hback

/-- A text is cut behind a start and the symbol that follows it, if there is a symbol. -/
theorem exists_symbol_cut_iff {start s symbol rest : List Char} :
    (∃ text, s = start ++ text ∧ text.takeWhile isSymbolChar ≠ [] ∧
        text.takeWhile isSymbolChar = symbol ∧ text.dropWhile isSymbolChar = rest) ↔
      s = start ++ symbol ++ rest ∧ symbol ≠ [] ∧ (∀ c ∈ symbol, isSymbolChar c) ∧
        ∀ c ∈ rest.head?, isSymbolChar c = false := by
  constructor
  · rintro ⟨text, rfl, hne, hcut⟩
    obtain ⟨rfl, hsymbol, hrest⟩ := takeWhile_dropWhile_eq_iff.mp hcut
    rw [hcut.1] at hne
    exact ⟨(List.append_assoc ..).symm, hne, hsymbol, hrest⟩
  · rintro ⟨rfl, hne, hsymbol, hrest⟩
    have hcut := takeWhile_dropWhile_eq_iff.mpr ⟨rfl, hsymbol, hrest⟩
    exact ⟨symbol ++ rest, List.append_assoc .., by rwa [hcut.1], hcut⟩

/-- A text can be stripped of a start exactly when it begins with it. -/
theorem stripStart?_isSome_iff {start s : List Char} :
    (stripStart? start s).isSome = true ↔ start <+: s := by
  rw [Option.isSome_iff_exists]
  simp only [stripStart?_eq_some_iff]
  exact exists_congr fun rest => eq_comm

/-- A text is cut before its first occurrence of another exactly when it has one. -/
theorem cutBefore?_isSome_iff {wanted s : List Char} :
    (cutBefore? wanted s).isSome = true ↔ wanted <:+: s := by
  induction s with
  | nil => simp [cutBefore?]
  | cons c s ih =>
    rw [cutBefore?, List.infix_cons_iff, ← stripStart?_isSome_iff]
    split
    case isTrue hstart => simp [hstart]
    case isFalse hstart => simp [hstart, ih]

/-- A text is cut in front of an occurrence, and no occurrence has less in front of it. -/
theorem eq_append_of_cutBefore? {wanted s before rest : List Char}
    (hcut : cutBefore? wanted s = some (before, rest)) :
    s = before ++ rest ∧ wanted <+: rest ∧
      ∀ front, front ++ wanted <+: s → before.length ≤ front.length := by
  induction s generalizing before with
  | nil =>
    obtain ⟨hempty, rfl, rfl⟩ : wanted = [] ∧ [] = before ∧ [] = rest := by
      simpa [cutBefore?] using hcut
    simp [hempty]
  | cons c s ih =>
    rw [cutBefore?] at hcut
    split at hcut
    case isTrue hstart =>
      obtain ⟨rfl, rfl⟩ : [] = before ∧ c :: s = rest := by simpa using hcut
      exact ⟨rfl, stripStart?_isSome_iff.mp hstart, by simp⟩
    case isFalse hstart =>
      obtain ⟨⟨before', rest'⟩, hcut', heq⟩ := Option.map_eq_some_iff.mp hcut
      obtain ⟨rfl, rfl⟩ : c :: before' = before ∧ rest' = rest := by simpa using heq
      obtain ⟨rfl, hrest, hfirst⟩ := ih hcut'
      refine ⟨rfl, hrest, fun front hfront => ?_⟩
      cases front with
      | nil => exact absurd (stripStart?_isSome_iff.mpr hfront) hstart
      | cons d front =>
        obtain ⟨-, hbehind⟩ := List.cons_prefix_cons.mp hfront
        simpa using hfirst front hbehind

/-- A text without a colon is its only segment. -/
theorem splitSegments_eq_singleton {segment : List Char} (hcolon : ':' ∉ segment) :
    splitSegments segment = [segment] := by
  induction segment with
  | nil => rfl
  | cons c segment ih =>
    obtain ⟨hc, hsegment⟩ : ':' ≠ c ∧ ':' ∉ segment := by simpa using hcolon
    rw [splitSegments, ih hsegment]
    intro tail htail
    exact absurd htail (by simp [Ne.symm hc])

/-- A text that does not end in a colon is cut as it is when a separator stands behind it. -/
theorem splitSegments_append_of_closed {s : List Char} (hclosed : s.getLast? ≠ some ':')
    (rest : List Char) :
    splitSegments (s ++ ':' :: ':' :: rest) = splitSegments s ++ splitSegments rest := by
  fun_induction splitSegments s with
  | case1 => simp [splitSegments]
  | case2 behind ih =>
    have hbehind : behind.getLast? ≠ some ':' := by
      cases behind <;> simp_all
    simp [splitSegments, ih hbehind]
  | case3 c behind _ hnil _ => exact absurd hnil (splitSegments_ne_nil behind)
  | case4 c behind hseparator segment others hsplit ih =>
    -- The character begins no separator, nor does it together with the separator behind the text.
    have hnone : ∀ tail, c = ':' → behind ++ ':' :: ':' :: rest = ':' :: tail → False := by
      rintro tail rfl htail
      cases behind with
      | nil => simp at hclosed
      | cons d behind =>
        obtain ⟨rfl, -⟩ := List.cons.inj htail
        exact hseparator behind rfl rfl
    have hbehind : behind.getLast? ≠ some ':' := by
      cases behind <;> simp_all
    rw [List.cons_append, splitSegments, ih hbehind, hsplit]
    · rfl
    · exact hnone

/-- A segment without a colon in front of a separator is cut off as it is. -/
theorem splitSegments_append_separator {segment : List Char} (hcolon : ':' ∉ segment)
    (rest : List Char) :
    splitSegments (segment ++ ':' :: ':' :: rest) = segment :: splitSegments rest := by
  have hclosed : segment.getLast? ≠ some ':' := fun hlast => hcolon (List.mem_of_getLast? hlast)
  rw [splitSegments_append_of_closed hclosed, splitSegments_eq_singleton hcolon]
  rfl

/-- Segments without colons in front of a separator are cut off as they are. -/
theorem splitSegments_joinSegments_append {parts : List (List Char)} (hne : parts ≠ [])
    (hcolon : ∀ part ∈ parts, ':' ∉ part) (rest : List Char) :
    splitSegments (joinSegments parts ++ ':' :: ':' :: rest) = parts ++ splitSegments rest := by
  induction parts with
  | nil => exact absurd rfl hne
  | cons part parts ih =>
    have hpart : ':' ∉ part := hcolon part (by simp)
    cases parts with
    | nil => exact splitSegments_append_separator hpart rest
    | cons other others =>
      have hrest := ih (by simp) fun p hp => hcolon p (by simp [hp])
      rw [joinSegments, List.append_assoc, List.cons_append, List.cons_append,
        splitSegments_append_separator hpart, hrest]
      rfl

/-- A text has a single segment exactly when it holds no separator. -/
theorem length_splitSegments_lt_two_iff {s : List Char} :
    (splitSegments s).length < 2 ↔ ¬ [':', ':'] <:+: s := by
  fun_induction splitSegments s with
  | case1 => simp
  | case2 behind ih =>
    have hholds : [':', ':'] <:+: ':' :: ':' :: behind := ⟨[], behind, rfl⟩
    have hpos := List.length_pos_of_ne_nil (splitSegments_ne_nil behind)
    refine iff_of_false ?_ (not_not.mpr hholds)
    rw [List.length_cons]
    omega
  | case3 c behind _ hnil _ => exact absurd hnil (splitSegments_ne_nil behind)
  | case4 c behind hseparator segment others hsplit ih =>
    have hstart : ¬ [':', ':'] <+: c :: behind := by
      rintro ⟨tail, htail⟩
      obtain ⟨rfl, rfl⟩ := List.cons.inj htail
      exact hseparator tail rfl rfl
    rw [hsplit] at ih
    rw [List.infix_cons_iff, or_iff_right hstart, ← ih]
    rfl

/-- Joining two lists of segments puts a separator between their joins. -/
theorem joinSegments_append {front back : List (List Char)} (hfront : front ≠ [])
    (hback : back ≠ []) :
    joinSegments (front ++ back) = joinSegments front ++ ':' :: ':' :: joinSegments back := by
  induction front with
  | nil => exact absurd rfl hfront
  | cons segment front ih =>
    cases front with
    | nil =>
      cases back with
      | nil => exact absurd rfl hback
      | cons other others => rfl
    | cons other others =>
      have hrest := ih (by simp)
      simp only [List.cons_append, joinSegments] at hrest ⊢
      rw [hrest]
      simp

/-- Cutting undoes joining when no segment holds a colon. -/
theorem splitSegments_joinSegments {parts : List (List Char)} (hne : parts ≠ [])
    (hcolon : ∀ part ∈ parts, ':' ∉ part) : splitSegments (joinSegments parts) = parts := by
  obtain rfl | ⟨front, last, rfl⟩ := List.eq_nil_or_concat' parts
  · exact absurd rfl hne
  have hlast : ':' ∉ last := hcolon last (by simp)
  by_cases hfront : front = []
  · subst hfront
    exact splitSegments_eq_singleton hlast
  · rw [joinSegments_append hfront (by simp), joinSegments,
      splitSegments_joinSegments_append hfront fun p hp => hcolon p (by simp [hp]),
      splitSegments_eq_singleton hlast]

/-- A join begins with the join of the first of its segments. -/
theorem joinSegments_prefix {front parts : List (List Char)} (hpre : front <+: parts) :
    joinSegments front <+: joinSegments parts := by
  obtain ⟨back, rfl⟩ := hpre
  by_cases hfront : front = []
  · subst hfront
    exact List.nil_prefix
  by_cases hback : back = []
  · subst hback
    simp
  · rw [joinSegments_append hfront hback]
    exact List.prefix_append _ _

/-- Cutting undoes joining when the segments are the first ones of a name, whether or not they hold
colons. -/
theorem splitSegments_joinSegments_of_prefix {s : List Char} {parts : List (List Char)}
    (hne : parts ≠ []) (hpre : parts <+: splitSegments s) :
    splitSegments (joinSegments parts) = parts := by
  obtain ⟨part, parts, rfl⟩ := List.exists_cons_of_ne_nil hne
  fun_induction splitSegments s generalizing part parts with
  | case1 =>
    obtain ⟨rfl, hparts⟩ := List.cons_prefix_cons.mp hpre
    obtain rfl := List.prefix_nil.mp hparts
    rfl
  | case2 rest ih =>
    obtain ⟨rfl, hparts⟩ := List.cons_prefix_cons.mp hpre
    cases parts with
    | nil => rfl
    | cons other others =>
      rw [joinSegments, List.nil_append, splitSegments, ih other others (by simp) hparts]
  | case3 c rest _ hnil _ => exact absurd hnil (splitSegments_ne_nil rest)
  | case4 c rest hseparator segment others hsplit ih =>
    obtain ⟨rfl, hparts⟩ := List.cons_prefix_cons.mp hpre
    have hbelow : segment :: parts <+: segment :: others := List.cons_prefix_cons.mpr ⟨rfl, hparts⟩
    have hjoin : joinSegments ((c :: segment) :: parts) = c :: joinSegments (segment :: parts) := by
      cases parts <;> rfl
    -- What stands behind the character is the beginning of the rest, so it begins no separator.
    have hrest : joinSegments (segment :: parts) <+: rest := by
      have h := joinSegments_prefix hbelow
      rwa [← hsplit, joinSegments_splitSegments] at h
    rw [hjoin, splitSegments, ih segment parts (by simp) (hsplit ▸ hbelow)]
    rintro tail rfl htail
    obtain ⟨back, hback⟩ := hrest
    rw [htail] at hback
    exact hseparator _ rfl hback.symm

/-- The characters of a qualified name are those of its segments, joined. -/
theorem toList_qualified (parts : List String) :
    (qualified parts).toList = joinSegments (parts.map String.toList) := by
  simp [qualified]

/-- A qualified name determines its segments when none of them holds a colon. -/
theorem segments_qualified {parts : List String} (hne : parts ≠ [])
    (hcolon : ∀ part ∈ parts, ':' ∉ part.toList) : segments (qualified parts) = parts := by
  have hsplit : splitSegments (joinSegments (parts.map String.toList)) = parts.map String.toList :=
    splitSegments_joinSegments (by simpa using hne) (by simpa using hcolon)
  simp [segments, toList_qualified, hsplit, Function.comp_def]

/-- A qualified name determines its segments when they are the first ones of a name. -/
theorem segments_qualified_of_prefix {name : String} {parts : List String} (hne : parts ≠ [])
    (hpre : parts <+: segments name) : segments (qualified parts) = parts := by
  have hlists : parts.map String.toList <+: splitSegments name.toList := by
    simpa [segments, Function.comp_def] using hpre.map String.toList
  have hsplit := splitSegments_joinSegments_of_prefix (by simpa using hne) hlists
  simp [segments, toList_qualified, hsplit, Function.comp_def]

/-- A name is cut at the separator in front of a member when it does not end in a colon. -/
theorem segments_append_member {name member : String} (hclosed : name.toList.getLast? ≠ some ':')
    (hcolon : ':' ∉ member.toList) :
    segments (name ++ "::" ++ member) = segments name ++ [member] := by
  have hsplit := splitSegments_append_of_closed hclosed member.toList
  rw [splitSegments_eq_singleton hcolon] at hsplit
  simp [segments, hsplit]

/-- A name has fewer than two segments when no separator occurs in it. -/
theorem length_segments_lt_two_iff {name : String} :
    (segments name).length < 2 ↔ ¬ [':', ':'] <:+: name.toList := by
  rw [segments, List.length_map, length_splitSegments_lt_two_iff]

/-- The qualified name of two lists of segments, the first of which is itself written out. -/
theorem qualified_append {front back : List String} (hfront : front ≠ []) (hback : back ≠ []) :
    qualified (front ++ back) = qualified (qualified front :: back) := by
  cases back with
  | nil => exact absurd rfl hback
  | cons segment back =>
    rw [← String.toList_inj]
    simp only [toList_qualified, List.map_append, List.map_cons]
    rw [joinSegments_append (by simpa using hfront) (by simp), joinSegments]

/-- The symbol characters are the ASCII letters and digits and the underscore. -/
theorem isSymbolChar_iff {c : Char} : isSymbolChar c = true ↔ c.isAlphanum = true ∨ c = '_' := by
  have hupper : c.isUpper = decide ('A' ≤ c ∧ c ≤ 'Z') := rfl
  have hlower : c.isLower = (decide ('a' ≤ c) && decide (c ≤ 'z')) := rfl
  have hdigit : c.isDigit = (decide ('0' ≤ c) && decide (c ≤ '9')) := rfl
  have halphanum : c.isAlphanum = (c.isUpper || c.isLower || c.isDigit) := rfl
  rw [isSymbolChar, halphanum, hupper, hlower, hdigit]
  simp only [Bool.or_eq_true, Bool.and_eq_true, decide_eq_true_eq, beq_iff_eq]
  tauto

/-- The symbol characters by their codes. -/
theorem isSymbolChar_iff_toNat {c : Char} :
    isSymbolChar c = true ↔ ((97 ≤ c.toNat ∧ c.toNat ≤ 122 ∨ 65 ≤ c.toNat ∧ c.toNat ≤ 90) ∨
      48 ≤ c.toNat ∧ c.toNat ≤ 57) ∨ c.toNat = 95 := by
  simp only [isSymbolChar, Bool.or_eq_true, Bool.and_eq_true, decide_eq_true_eq, beq_iff_eq,
    Char.le_def, UInt32.le_iff_toNat_le, ← Char.val_inj, ← UInt32.toNat_inj, Char.reduceVal,
    UInt32.reduceToNat, Char.toNat]

/-- No symbol character is blank. -/
theorem isBlank_eq_false_of_isSymbolChar {c : Char} (hc : isSymbolChar c = true) :
    isBlank c = false := by
  rw [isSymbolChar_iff_toNat] at hc
  rw [← Bool.not_eq_true]
  simp only [isBlank, Bool.or_eq_true, Bool.and_eq_true, decide_eq_true_eq, beq_iff_eq]
  omega

/-- The digits of all bases are symbol characters. -/
theorem isSymbolChar_of_digitValue?_ne_none {c : Char} (hdigit : digitValue? c ≠ none) :
    isSymbolChar c = true := by
  unfold digitValue? at hdigit
  unfold isSymbolChar
  split_ifs at hdigit with hdecimal hlower hupper
  · simp [hdecimal]
  · simp [hlower.1, Char.le_trans hlower.2 (show 'f' ≤ 'z' by decide)]
  · simp [hupper.1, Char.le_trans hupper.2 (show 'F' ≤ 'Z' by decide)]
  · exact absurd rfl hdigit

/-- A name is an identifier when it is non-empty and made of ASCII letters, digits and
underscores. -/
def IsIdentifier (name : String) : Prop :=
  name ≠ "" ∧ ∀ c ∈ name.toList, c.isAlphanum = true ∨ c = '_'

/-- The check for identifiers accepts exactly the identifiers. -/
theorem isIdentifier_iff {name : String} : isIdentifier name = true ↔ IsIdentifier name := by
  simp [isIdentifier, IsIdentifier, isSymbolChar_iff]

/-- No colon occurs in an identifier. -/
theorem IsIdentifier.colon_notMem {name : String} (hname : IsIdentifier name) :
    ':' ∉ name.toList := by
  intro hmem
  exact absurd (hname.2 ':' hmem) (by decide)

end FirmwareModel.Text
