import FirmwareModel.Proofs.Json.Records
import FirmwareModel.Proofs.Json.RoundTrip

/-!
# Records with members left out

A set of members is given by their paths, each of which lists the names that lead to a member. What
remains of a record without them is read member by member: one that is left out has its default,
and no other member is disturbed.
-/

namespace FirmwareModel.Json

open FirmwareModel.Record

/-! ## Leaving members out -/

/-- What is removed from the value of a member. -/
def below (removed : List String → Bool) (name : String) (path : List String) : Bool :=
  removed (name :: path)

mutual

/-- The value without the removed members. The items of an array are no members and stay. -/
def Value.without (removed : List String → Bool) : Value → Value
  | .object members => .object (membersWithout removed members)
  | value => value

/-- What is left of the members of an object. -/
def membersWithout (removed : List String → Bool) :
    List (Option String × Value) → List (Option String × Value)
  | [] => []
  | (none, value) :: members => (none, value) :: membersWithout removed members
  | (some name, value) :: members =>
    if removed [name] then membersWithout removed members
    else (some name, value.without (below removed name)) :: membersWithout removed members

end

/-- What is left of the members of a record. -/
def remaining (removed : List String → Bool) (members : List (String × Value)) :
    List (String × Value) :=
  members.filterMap fun member =>
    if removed [member.1] then none
    else some (member.1, member.2.without (below removed member.1))

variable {removed : List String → Bool} {members : List (String × Value)}

/-- The first member of a record is left out as a whole or keeps what is left of its value. -/
theorem remaining_cons (name : String) (value : Value) (members : List (String × Value)) :
    remaining removed ((name, value) :: members) =
      if removed [name] then remaining removed members
      else (name, value.without (below removed name)) :: remaining removed members := by
  rw [remaining, List.filterMap_cons]
  split_ifs <;> rfl

/-- Leaving members out of a record is leaving them out of its object. -/
theorem membersWithout_map (members : List (String × Value)) :
    membersWithout removed (members.map fun (name, value) => (some name, value)) =
      (remaining removed members).map fun (name, value) => (some name, value) := by
  induction members with
  | nil => rfl
  | cons member members ih =>
    obtain ⟨name, value⟩ := member
    rw [List.map_cons, membersWithout, ih, remaining_cons]
    split_ifs <;> rfl

/-- A record without the removed members is the record of what is left of them. -/
theorem record_without (removed : List String → Bool) (members : List (String × Value)) :
    (Value.record members).without removed = .record (remaining removed members) := by
  rw [Value.record, Value.without, membersWithout_map, Value.record]

mutual

/-- Removing nothing leaves a value as it is. -/
theorem Value.without_nothing : (v : Value) → v.without (fun _ => false) = v
  | .object members => congrArg Value.object (membersWithout_nothing members)
  | .null | .bool _ | .number _ | .string _ | .array _ => rfl

/-- Where nothing is removed, all members stay. -/
theorem membersWithout_nothing : (members : List (Option String × Value)) →
    membersWithout (fun _ => false) members = members
  | [] => rfl
  | (none, value) :: members => by
    rw [membersWithout, membersWithout_nothing members]
  | (some name, value) :: members => by
    have hbelow : below (fun _ => false) name = fun _ => false := rfl
    rw [membersWithout, if_neg Bool.false_ne_true, hbelow, value.without_nothing,
      membersWithout_nothing members]

end

/-! ## What is left -/

/-- A member that is left was there before and keeps what is left of its value. -/
theorem exists_of_mem_remaining {member : String × Value} (h : member ∈ remaining removed members) :
    ∃ value, (member.1, value) ∈ members ∧ value.without (below removed member.1) = member.2 := by
  obtain ⟨⟨name, value⟩, hmem, hleft⟩ := List.mem_filterMap.mp h
  split_ifs at hleft
  obtain rfl := Option.some.inj hleft
  exact ⟨value, hmem, rfl⟩

/-- The names that are left keep their order. -/
theorem names_remaining_sublist (members : List (String × Value)) :
    ((remaining removed members).map Prod.fst).Sublist (members.map Prod.fst) := by
  induction members with
  | nil => exact List.Sublist.refl _
  | cons member members ih =>
    rw [remaining_cons]
    split_ifs
    · exact ih.cons _
    · exact ih.cons_cons _

/-- A removed member is not found. Any other has what is left of its value. -/
theorem lookup_remaining (name : String) (members : List (String × Value)) :
    (remaining removed members).lookup name =
      if removed [name] then none
      else (members.lookup name).map (Value.without (below removed name)) := by
  induction members with
  | nil => split_ifs <;> rfl
  | cons member members ih =>
    obtain ⟨other, value⟩ := member
    rw [remaining_cons]
    by_cases hname : name = other
    · subst hname
      split_ifs with hremoved
      · rw [ih, if_pos hremoved]
      · rw [List.lookup_cons_self, List.lookup_cons_self, Option.map_some]
    · have hne : (name == other) = false := beq_false_of_ne hname
      have hlookup : ((other, value) :: members).lookup name = members.lookup name := by
        rw [List.lookup_cons, hne]
      rw [hlookup, ← ih]
      split_ifs
      · rfl
      · rw [List.lookup_cons, hne]

/-- Nothing but plain values is left of a plain value. -/
theorem Value.Plain.without {v : Value} (hv : v.Plain) (removed : List String → Bool) :
    (v.without removed).Plain := by
  induction hv generalizing removed with
  | null => exact .null
  | bool b => exact .bool b
  | nat n => exact .nat n
  | text s => exact .text s
  | array h => exact .array h
  | record h ih =>
    rw [record_without]
    refine .record fun member hmember => ?_
    obtain ⟨value, hmem, hvalue⟩ := exists_of_mem_remaining hmember
    rw [← hvalue]
    exact ih _ hmem _

/-! ## Reading what is left -/

/-- What is left of a record is read from what is left of its members. -/
theorem record_readsRemaining {α : Type} {names : List String}
    {read : Nat → Members Value → Option α} {n : Nat} {a : α} (hnodup : names.Nodup)
    (hnames : members.map Prod.fst = names)
    (hread : ∀ ms, ms = ⟨false, remaining removed members⟩ → read n ms = some a) :
    dialect.record names read (n + 1) ((Value.record members).without removed) = some a := by
  have hsub : ((remaining removed members).map Prod.fst).Sublist names :=
    hnames ▸ names_remaining_sublist members
  rw [record_without, Dialect.record, members?_record hnodup hsub, Option.bind_some, hread _ rfl]

/-- A member that is removed has its default, and one that is not is read. -/
theorem withDefault_remaining {α : Type} {ms : Members Value} {name : String} {value : Value}
    {default a : α} {read : Value → Option α} (hms : ms = ⟨false, remaining removed members⟩)
    (hvalue : members.lookup name = some value)
    (hread : read (value.without (below removed name)) = some a) :
    ms.withDefault name default read = some (if removed [name] then default else a) := by
  have hfound : ms.value? name = (remaining removed members).lookup name := hms ▸ rfl
  rw [Members.withDefault, hfound, lookup_remaining, hvalue]
  split_ifs
  · rfl
  · exact hread

end FirmwareModel.Json
