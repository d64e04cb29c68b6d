import Mathlib.Data.List.Nodup
import Mathlib.Tactic.SplitIfs
import FirmwareModel.Json.Dialect
import FirmwareModel.Object.Symbol
import FirmwareModel.Value.PrimitiveType

/-!
# Records of nested values

How deep a value nests, and what that means for reading it: a record or a list is read when its
members can be read with one level less.
-/

namespace FirmwareModel.Json

open FirmwareModel.Record

/-! ## Nesting -/

mutual

/-- How many levels of arrays and objects a value nests. -/
def Value.depth : Value → Nat
  | .array items => itemsDepth items + 1
  | .object members => membersDepth members + 1
  | _ => 0

/-- How many levels the deepest of the values nests. -/
def itemsDepth : List Value → Nat
  | [] => 0
  | item :: items => max item.depth (itemsDepth items)

/-- How many levels the deepest value of the members nests. -/
def membersDepth : List (Option String × Value) → Nat
  | [] => 0
  | (_, value) :: members => max value.depth (membersDepth members)

end

/-- Items nest within a depth when each of them does. -/
theorem itemsDepth_le_iff {items : List Value} {n : Nat} :
    itemsDepth items ≤ n ↔ ∀ item ∈ items, item.depth ≤ n := by
  induction items with
  | nil => simp [itemsDepth]
  | cons item items ih => rw [itemsDepth, Nat.max_le, ih, List.forall_mem_cons]

/-- Members nest within a depth when the value of each of them does. -/
theorem membersDepth_le_iff {members : List (Option String × Value)} {n : Nat} :
    membersDepth members ≤ n ↔ ∀ member ∈ members, member.2.depth ≤ n := by
  induction members with
  | nil => simp [membersDepth]
  | cons member members ih => rw [membersDepth, Nat.max_le, ih, List.forall_mem_cons]

/-- An array takes one level, and its items nest below that. -/
theorem depth_array_le_succ_iff {items : List Value} {n : Nat} :
    (Value.array items).depth ≤ n + 1 ↔ ∀ item ∈ items, item.depth ≤ n := by
  rw [Value.depth, Nat.add_le_add_iff_right, itemsDepth_le_iff]

/-- A record takes one level, and the values of its members nest below that. -/
theorem depth_record_le_succ_iff {members : List (String × Value)} {n : Nat} :
    (Value.record members).depth ≤ n + 1 ↔ ∀ member ∈ members, member.2.depth ≤ n := by
  rw [Value.record, Value.depth, Nat.add_le_add_iff_right, membersDepth_le_iff,
    List.forall_mem_map]

/-- Null holds nothing nested. -/
@[simp] theorem depth_null : Value.null.depth = 0 := rfl

/-- A truth value holds nothing nested. -/
@[simp] theorem depth_bool (b : Bool) : (Value.bool b).depth = 0 := rfl

/-- A number holds nothing nested. -/
@[simp] theorem depth_word (w : UInt64) : (Value.word w).depth = 0 := rfl

/-- A text holds nothing nested. -/
@[simp] theorem depth_text (s : String) : (Value.text s).depth = 0 := rfl

/-! ## Reading -/

/-- A reader gives back what was written when that nests within the levels, and nothing
otherwise. -/
def ReadsBack {α : Type} (read : Reader Value α) (encode : α → Value) (a : α) : Prop :=
  ∀ n, read n (encode a) = if (encode a).depth ≤ n then some a else none

/-- Going on from what is read within the levels. -/
theorem bind_ite_some {α β : Type} {p : Prop} [Decidable p] (a : α) (f : α → Option β) :
    (if p then some a else none).bind f = if p then f a else none := by
  split <;> rfl

/-- A list of written items is read back when each item is, within the same levels. -/
theorem mapM_map_readsBack {α : Type} {read : Reader Value α} {encode : α → Value} {as : List α}
    (h : ∀ a ∈ as, ReadsBack read encode a) (n : Nat) :
    (as.map encode).mapM (read n) =
      if ∀ a ∈ as, (encode a).depth ≤ n then some as else none := by
  induction as with
  | nil => rfl
  | cons a as ih =>
    have hall : (∀ b ∈ a :: as, (encode b).depth ≤ n) ↔
        (encode a).depth ≤ n ∧ ∀ b ∈ as, (encode b).depth ≤ n := List.forall_mem_cons
    rw [List.map_cons, List.mapM_cons, h a (by simp) n, ih fun b hb => h b (by simp [hb])]
    simp only [hall]
    split_ifs <;> simp_all

/-- A written text is read back. -/
theorem readsBack_text (s : String) : ReadsBack dialect.text .text s :=
  fun _ => rfl

/-- One of the values of an enumeration is read back when its name is its own. -/
theorem readsBack_choice {α : Type} {ofName? : String → Option α} {name : α → String} {a : α}
    (h : ofName? (name a) = some a) :
    ReadsBack (dialect.choice ofName?) (fun a => .text (name a)) a := by
  intro n
  rw [depth_text, if_pos (Nat.zero_le n)]
  cases n <;> exact h

/-- A written type is read back from its name. -/
theorem readsBack_type (type : PrimitiveType) :
    ReadsBack (dialect.choice PrimitiveType.ofName?) (fun type => .text type.name) type :=
  readsBack_choice (by cases type <;> rfl)

/-- The kind of a section is read back from its name. -/
theorem readsBack_kind (kind : SectionKind) :
    ReadsBack (dialect.choice SectionKind.ofName?) (fun kind => .text kind.name) kind :=
  readsBack_choice (by cases kind <;> rfl)

/-- A list is read back when each of its items is. -/
theorem list_readsBack {α : Type} {read : Reader Value α} {encode : α → Value} {as : List α}
    (h : ∀ a ∈ as, ReadsBack read encode a) (n : Nat) :
    dialect.list read n (.array (as.map encode)) =
      if (Value.array (as.map encode)).depth ≤ n then some as else none := by
  cases n with
  | zero => rfl
  | succ n =>
    simp only [depth_array_le_succ_iff, List.forall_mem_map]
    exact mapM_map_readsBack h n

/-- A list of values that do not nest costs one level. -/
theorem list_readsBack_of_flat {α : Type} {read : Reader Value α} {encode : α → Value}
    (hread : ∀ a, ReadsBack read encode a) (hflat : ∀ a, (encode a).depth = 0) (as : List α)
    (n : Nat) : dialect.list read (n + 1) (.array (as.map encode)) = some as := by
  have hdepth : (Value.array (as.map encode)).depth ≤ n + 1 := by
    rw [depth_array_le_succ_iff, List.forall_mem_map]
    intro a _
    rw [hflat]
    exact Nat.zero_le n
  rw [list_readsBack fun a _ => hread a, if_pos hdepth]

/-- The members of a record are found when they are among the declared ones, in the order of
declaration. -/
theorem members?_record {names : List String} {members : List (String × Value)}
    (hnodup : names.Nodup) (hsub : (members.map Prod.fst).Sublist names) :
    dialect.members? names (.record members) = some ⟨false, members⟩ := by
  have hnamed : namedMembers? (members.map fun member => (some member.1, member.2)) =
      some members := by
    rw [namedMembers?, List.mapM_map]
    exact (List.mapM_pure (m := Option) (f := id)).trans (by simp)
  have hdeclared : (members.filter fun member => names.contains member.1) = members := by
    rw [List.filter_eq_self]
    intro member hmember
    simpa using hsub.subset (List.mem_map_of_mem hmember)
  change recordMembers? names (.object _) = _
  simp only [recordMembers?, hnamed, Option.bind_some, hdeclared, if_pos (hnodup.sublist hsub)]

/-- A record is read back when its members, as they are written, make it up again. -/
theorem readsBack_record {α : Type} {reader : Reader Value α} {encode : α → Value} {a : α}
    {names : List String} {read : Nat → Members Value → Option α} {members : List (String × Value)}
    (hreader : reader = dialect.record names read) (hwritten : encode a = .record members)
    (hnodup : names.Nodup) (hsub : (members.map Prod.fst).Sublist names)
    (hread : ∀ n ms, ms = ⟨false, members⟩ →
      read n ms = if ∀ member ∈ members, member.2.depth ≤ n then some a else none) :
    ReadsBack reader encode a := by
  intro n
  rw [hreader, hwritten]
  cases n with
  | zero => rfl
  | succ n =>
    simp only [Dialect.record, members?_record hnodup hsub, Option.bind_some, hread n _ rfl,
      depth_record_le_succ_iff]

/-- A text is read as itself. -/
@[simp] theorem dialect_text?_text (s : String) : dialect.text? (.text s) = some s := rfl

/-- A truth value is read as itself. -/
@[simp] theorem dialect_flag?_bool (b : Bool) : dialect.flag? (.bool b) = some b := rfl

/-- A number that fits a word is read as that word. -/
@[simp] theorem dialect_word?_word (w : UInt64) : dialect.word? (.word w) = some w := by
  change (Value.word w).word? = _
  simp [Value.word, Value.nat, Value.word?, Text.decimalText,
    Text.wordValue?_numeral (show 2 ≤ 10 by decide) (show 10 ≤ 16 by decide)]

/-- A value that is not null is read as one that is there. -/
theorem nullable_of_isNull_eq_false {α : Type} {read : Value → Option α} {v : Value}
    (hnull : v.isNull = false) : dialect.nullable read v = (read v).map some := by
  change (some v.isNull).bind _ = _
  simp [hnull]

/-- What is written as `null` when it is absent is read back. -/
theorem nullable_nullable {α : Type} {read : Value → Option α} {encode : α → Value}
    (hnull : ∀ a, (encode a).isNull = false) (hread : ∀ a, read (encode a) = some a)
    (o : Option α) : dialect.nullable read (.nullable encode o) = some o := by
  cases o with
  | none => rfl
  | some a => rw [Value.nullable, nullable_of_isNull_eq_false (hnull a), hread, Option.map_some]

/-- What is left out when it is absent is read back. -/
theorem withDefault_none {α : Type} {ms : Members Value} {name : String} {read : Reader Value α}
    {encode : α → Value} {o : Option α} (hvalue : ms.value? name = o.map encode)
    (hnull : ∀ a, (encode a).isNull = false) (h : ∀ a ∈ o, ReadsBack read encode a) (n : Nat) :
    ms.withDefault name none (dialect.nullable (read n)) =
      if ∀ a ∈ o, (encode a).depth ≤ n then some o else none := by
  rw [Members.withDefault, hvalue]
  cases o with
  | none => rfl
  | some a =>
    simp only [Option.map_some, nullable_of_isNull_eq_false (hnull a), h a rfl n,
      Option.mem_some_iff, forall_eq']
    split_ifs <;> rfl

/-- A required member that is there is read. -/
theorem required_of_value? {α : Type} {ms : Members Value} {name : String} {v : Value}
    (hvalue : ms.value? name = some v) (read : Value → Option α) :
    ms.required name read = read v := by
  rw [Members.required, hvalue, Option.bind_some]

/-- A member that is there is read, whatever its default. -/
theorem withDefault_of_value? {α : Type} {ms : Members Value} {name : String} {v : Value}
    (hvalue : ms.value? name = some v) (default : α) (read : Value → Option α) :
    ms.withDefault name default read = read v := by
  rw [Members.withDefault, hvalue]

/-- A text that is written only when there is one is read back as one that may be missing. -/
theorem withDefault_text {ms : Members Value} {name : String} {o : Option String}
    (hvalue : ms.value? name = o.map .text) :
    ms.withDefault name none (dialect.nullable dialect.text?) = some o :=
  (withDefault_none hvalue (fun _ => rfl) (fun s _ => readsBack_text s) 0).trans
    (if_pos fun _ _ => Nat.le_refl 0)

end FirmwareModel.Json
