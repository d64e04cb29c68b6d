import Mathlib.Data.List.Basic
import FirmwareModel.Grammar.Classify
import FirmwareModel.Proofs.Text.Qualified

/-!
# Classifying and declaring

`classify` reads the name of a symbol and `Role.declaration` writes one. What is read as a field is
the written form of that field, for all markers and module paths. Every written form of a field is
read back when the markers can be told apart and occur in no module path.
-/

namespace FirmwareModel

open FirmwareModel.Text

/-! ## Words for fields -/

/-- A search by word through all values of a type finds the value with that word, when different
values have different words. -/
theorem find?_word_eq_some_iff {α : Type} {all : List α} {word : α → String}
    (hall : ∀ field, field ∈ all) (hinj : Function.Injective word) {text : String} {field : α} :
    (all.find? fun f => word f = text) = some field ↔ word field = text := by
  constructor
  · intro hfind
    simpa using List.find?_some hfind
  · rintro rfl
    cases hfind : all.find? fun f => word f = word field with
    | none =>
      have hnone := List.find?_eq_none.mp hfind field (hall field)
      simp at hnone
    | some other =>
      have hword : word other = word field := by simpa using List.find?_some hfind
      rw [hinj hword]

/-- A word is that of a module field when it is the one that the field is written as. -/
theorem ModuleField.ofWord?_eq_some_iff {text : String} {field : ModuleField} :
    ofWord? text = some field ↔ field.word = text :=
  find?_word_eq_some_iff (by rintro (_ | _ | _) <;> decide)
    (by rintro (_ | _ | _) (_ | _ | _) <;> decide)

/-- A word is that of an input field when it is the one that the field is written as. -/
theorem InputField.ofWord?_eq_some_iff {text : String} {field : InputField} :
    ofWord? text = some field ↔ field.word = text :=
  find?_word_eq_some_iff (by intro f; cases f <;> decide)
    (by intro f g; cases f <;> cases g <;> decide)

/-- A word is that of a procedure field when it is the one that the field is written as. -/
theorem ProcedureField.ofWord?_eq_some_iff {text : String} {field : ProcedureField} :
    ofWord? text = some field ↔ field.word = text :=
  find?_word_eq_some_iff (by intro f; cases f <;> decide)
    (by intro f g; cases f <;> cases g <;> decide)

/-- A word is that of an argument field when it is the one that the field is written as. -/
theorem ArgumentField.ofWord?_eq_some_iff {text : String} {field : ArgumentField} :
    ofWord? text = some field ↔ field.word = text :=
  find?_word_eq_some_iff (by intro f; cases f <;> decide)
    (by intro f g; cases f <;> cases g <;> decide)

/-- Reading a field succeeds exactly when the word is that of a field. -/
theorem map_fieldOr_eq_ok_iff {α β : Type} {owner : EntityKind} {word : String}
    {field? : Option α} {f : α → β} {b : β} :
    (fieldOr owner word field?).map f = .ok b ↔ ∃ field, field? = some field ∧ f field = b := by
  cases field? <;> simp [fieldOr, Except.map]

/-! ## Field roles -/

namespace Role

/-- The names of the entities within their module that a role mentions. -/
def names : Role → List String
  | inputField _ input _ => [input]
  | procedureField _ procedure _ => [procedure]
  | argumentField _ procedure argument _ => [procedure, argument]
  | _ => []

/-- A role is a field of an entity in one of the modules, whose names are identifiers. -/
structure IsFieldIn (role : Role) (paths : List ModulePath) : Prop where
  module_mem : ∃ owner, role.owner? = some owner ∧ owner.1 ∈ paths
  names_valid : ∀ name ∈ role.names, IsIdentifier name

/-- The name of a symbol with a role that speaks of a module. -/
theorem declaration_eq {m : Markers} {role : Role} {path : ModulePath}
    (hmodule : role.module? = some path) :
    role.declaration m = m.namespaceText ++ qualified (path.text :: role.tokens m) := by
  simp [declaration, hmodule]

/-- A role that speaks of an entity is one of the module of that entity. -/
theorem module?_of_owner? {role : Role} {path : ModulePath} {member : Member}
    (howner : role.owner? = some (path, member)) : role.module? = some path := by
  cases role <;> simp_all [owner?, module?]

end Role

/-! ## Reading tokens -/

/-- Tokens that are read as a field are the tokens of that field, and its names are identifiers. -/
theorem tokens_eq_of_roleOfTokens? {m : Markers} {path : ModulePath} {tokens : List String}
    {role : Role} (hread : roleOfTokens? m path tokens = some (.ok role))
    (hfield : role.owner?.isSome) :
    role.module? = some path ∧ role.tokens m = tokens ∧
      ∀ name ∈ role.names, IsIdentifier name := by
  unfold roleOfTokens? at hread
  dsimp only at hread
  split at hread
  · obtain rfl : Role.marker path = role := by simpa using hread
    simp [Role.owner?] at hfield
  split at hread
  case isTrue hhead =>
    split at hread
    · obtain ⟨field, hword, rfl⟩ := map_fieldOr_eq_ok_iff.mp (Option.some.inj hread)
      rw [ModuleField.ofWord?_eq_some_iff] at hword
      simp_all [Role.module?, Role.owner?, Role.tokens, Role.names]
    · simp at hread
  split at hread
  case isTrue hhead =>
    split at hread
    · split at hread
      case isTrue hshape =>
        obtain ⟨field, hword, rfl⟩ := map_fieldOr_eq_ok_iff.mp (Option.some.inj hread)
        rw [InputField.ofWord?_eq_some_iff] at hword
        simp_all [Role.module?, Role.owner?, Role.tokens, Role.names, isIdentifier_iff]
      case isFalse => simp at hread
    · simp at hread
  split at hread
  case isTrue hhead =>
    split at hread
    · split at hread
      case isTrue hshape =>
        obtain ⟨field, hword, rfl⟩ := map_fieldOr_eq_ok_iff.mp (Option.some.inj hread)
        rw [ProcedureField.ofWord?_eq_some_iff] at hword
        simp_all [Role.module?, Role.owner?, Role.tokens, Role.names, isIdentifier_iff]
      case isFalse => simp at hread
    · split at hread
      case isTrue hshape =>
        obtain ⟨field, hword, rfl⟩ := map_fieldOr_eq_ok_iff.mp (Option.some.inj hread)
        rw [ArgumentField.ofWord?_eq_some_iff] at hword
        simp_all [Role.module?, Role.owner?, Role.tokens, Role.names, isIdentifier_iff]
      case isFalse => simp at hread
    · simp at hread
  · simp at hread

/-- The tokens of a field are read as that field when the first ones can be told apart and its
names are identifiers. -/
theorem roleOfTokens?_tokens {m : Markers} {path : ModulePath} {role : Role}
    (hdistinct : [m.module, m.info, m.inputs, m.procedure].Nodup)
    (hfield : role.owner?.isSome) (hmodule : role.module? = some path)
    (hnames : ∀ name ∈ role.names, IsIdentifier name) :
    roleOfTokens? m path (role.tokens m) = some (.ok role) := by
  obtain ⟨⟨hmodInfo, hmodInputs, hmodProc⟩, ⟨hinfoInputs, hinfoProc⟩, hinputsProc⟩ :
      (m.module ≠ m.info ∧ m.module ≠ m.inputs ∧ m.module ≠ m.procedure) ∧
        (m.info ≠ m.inputs ∧ m.info ≠ m.procedure) ∧ m.inputs ≠ m.procedure := by
    simpa using hdistinct
  have hvalid : ∀ name ∈ role.names, isIdentifier name = true :=
    fun name hname => isIdentifier_iff.mpr (hnames name hname)
  cases role with
  | marker => simp [Role.owner?] at hfield
  | irrelevant => simp [Role.owner?] at hfield
  | moduleField module field =>
    obtain rfl : module = path := by simpa [Role.module?, Role.owner?] using hmodule
    have hword : ModuleField.ofWord? field.word = some field :=
      ModuleField.ofWord?_eq_some_iff.mpr rfl
    simp [roleOfTokens?, Role.tokens, hmodInfo.symm, hword, fieldOr, Except.map]
  | inputField module input field =>
    obtain rfl : module = path := by simpa [Role.module?, Role.owner?] using hmodule
    have hword : InputField.ofWord? field.word = some field :=
      InputField.ofWord?_eq_some_iff.mpr rfl
    have hinput : isIdentifier input = true := hvalid input (by simp [Role.names])
    simp [roleOfTokens?, Role.tokens, hmodInputs.symm, hinfoInputs.symm, hinput, hword, fieldOr,
      Except.map]
  | procedureField module procedure field =>
    obtain rfl : module = path := by simpa [Role.module?, Role.owner?] using hmodule
    have hword : ProcedureField.ofWord? field.word = some field :=
      ProcedureField.ofWord?_eq_some_iff.mpr rfl
    have hprocedure : isIdentifier procedure = true := hvalid procedure (by simp [Role.names])
    simp [roleOfTokens?, Role.tokens, hmodProc.symm, hinfoProc.symm, hinputsProc.symm,
      hprocedure, hword, fieldOr, Except.map]
  | argumentField module procedure argument field =>
    obtain rfl : module = path := by simpa [Role.module?, Role.owner?] using hmodule
    have hword : ArgumentField.ofWord? field.word = some field :=
      ArgumentField.ofWord?_eq_some_iff.mpr rfl
    have hprocedure : isIdentifier procedure = true := hvalid procedure (by simp [Role.names])
    have hargument : isIdentifier argument = true := hvalid argument (by simp [Role.names])
    simp [roleOfTokens?, Role.tokens, hmodProc.symm, hinfoProc.symm, hinputsProc.symm,
      hprocedure, hargument, hword, fieldOr, Except.map]

/-! ## Reading names -/

/-- A path gives a role to a text that is the path, a separator and tokens that have the role. -/
theorem roleUnder?_eq_some_iff {m : Markers} {rest : List Char} {path : ModulePath}
    {result : Except DeclarationFault Role} :
    roleUnder? m rest path = some result ↔
      ∃ tail, rest = path.text.toList ++ ':' :: ':' :: tail ∧
        roleOfTokens? m path ((splitSegments tail).map String.ofList) = some result := by
  simp [roleUnder?, Option.bind_eq_some_iff, stripStart?_eq_some_iff]

/-- A name that tells something has its role under one of the paths. -/
theorem exists_roleUnder?_of_classify {m : Markers} {paths : List ModulePath} {name : String}
    {role : Role} (hread : classify m paths name = .ok role) (hrole : role ≠ .irrelevant) :
    ∃ rest, ∃ path ∈ paths, name.toList = m.namespaceText.toList ++ rest ∧
      roleUnder? m rest path = some (.ok role) := by
  unfold classify at hread
  split at hread
  · exact absurd (Except.ok.inj hread).symm hrole
  case h_2 rest hrest =>
    cases hfound : (longestFirst paths).findSome? (roleUnder? m rest) with
    | none =>
      obtain rfl : Role.irrelevant = role := by simpa [hfound] using hread
      exact absurd rfl hrole
    | some result =>
      obtain rfl : result = .ok role := by simpa [hfound] using hread
      obtain ⟨path, hmem, hunder⟩ := List.exists_of_findSome?_eq_some hfound
      exact ⟨rest, path, by simpa [longestFirst] using hmem, stripStart?_eq_some_iff.mp hrest,
        hunder⟩

/-- A name that is read as a field is the written form of that field. -/
theorem eq_declaration_of_classify {m : Markers} {paths : List ModulePath} {name : String}
    {role : Role} (hread : classify m paths name = .ok role) (hfield : role.owner?.isSome) :
    role.IsFieldIn paths ∧ name = role.declaration m := by
  have hrole : role ≠ .irrelevant := by
    rintro rfl
    cases hfield
  obtain ⟨rest, path, hpath, hname, hunder⟩ := exists_roleUnder?_of_classify hread hrole
  obtain ⟨tail, rfl, htokens⟩ := roleUnder?_eq_some_iff.mp hunder
  obtain ⟨hmodule, heq, hnames⟩ := tokens_eq_of_roleOfTokens? htokens hfield
  obtain ⟨⟨owner, member⟩, howner⟩ := Option.isSome_iff_exists.mp hfield
  have hpathOwner : owner = path := by
    simpa [Role.module?_of_owner? howner] using hmodule
  refine ⟨⟨⟨_, howner, hpathOwner ▸ hpath⟩, hnames⟩, ?_⟩
  rw [Role.declaration_eq hmodule, heq, ← String.toList_inj, hname, String.toList_append,
    toList_qualified]
  obtain ⟨segment, segments, hsegments⟩ := List.exists_cons_of_ne_nil (splitSegments_ne_nil tail)
  have hjoin := joinSegments_splitSegments tail
  rw [hsegments] at hjoin
  simp [hsegments, joinSegments, hjoin, Function.comp_def]

/-- The search through the paths stops at a path with a result when every other path with a
result is shorter. -/
theorem findSome?_longestFirst {β : Type} {paths : List ModulePath} {f : ModulePath → Option β}
    {path : ModulePath} {b : β} (hmem : path ∈ paths) (hpath : f path = some b)
    (hlongest : ∀ other ∈ paths, (f other).isSome → other = path ∨ other.length < path.length) :
    (longestFirst paths).findSome? f = some b := by
  have hsorted : (longestFirst paths).Pairwise fun p q => q.length ≤ p.length := by
    have hpairwise : (longestFirst paths).Pairwise
        fun p q => decide (q.length ≤ p.length) = true :=
      List.pairwise_mergeSort (by intro p q r; simp; omega) (by intro p q; simp; omega) paths
    simpa using hpairwise
  have hmemSorted : path ∈ longestFirst paths := by simpa [longestFirst] using hmem
  have hlongestSorted : ∀ other ∈ longestFirst paths, (f other).isSome →
      other = path ∨ other.length < path.length :=
    fun other hother => hlongest other (by simpa [longestFirst] using hother)
  generalize longestFirst paths = sorted at hsorted hmemSorted hlongestSorted
  -- Before the path come only paths that are at least as long, and those give no result.
  induction sorted with
  | nil => simp at hmemSorted
  | cons first sorted ih =>
    obtain ⟨hfirst, hsorted⟩ := List.pairwise_cons.mp hsorted
    cases hresult : f first with
    | none =>
      have hrest : path ∈ sorted := by
        rcases List.mem_cons.mp hmemSorted with rfl | hrest
        · simp [hresult] at hpath
        · exact hrest
      rw [List.findSome?_cons, hresult]
      exact ih hsorted hrest fun other hother => hlongestSorted other (by simp [hother])
    | some c =>
      have heq : first = path := by
        rcases hlongestSorted first (by simp) (by simp [hresult]) with heq | hshorter
        · exact heq
        rcases List.mem_cons.mp hmemSorted with rfl | hrest
        · rfl
        · have hle := hfirst path hrest
          omega
      subst heq
      simp [hpath]

/-- A name is read under the longest of the paths that it follows with a separator, if that gives
it a role. -/
theorem classify_of_roleUnder? {m : Markers} {paths : List ModulePath} {name : String}
    {rest : List Char} {path : ModulePath} {result : Except DeclarationFault Role}
    (hname : name.toList = m.namespaceText.toList ++ rest) (hpath : path ∈ paths)
    (hunder : roleUnder? m rest path = some result)
    (hlongest : ∀ other ∈ paths, ∀ tail, rest = other.text.toList ++ ':' :: ':' :: tail →
      other = path ∨ other.length < path.length) :
    classify m paths name = result := by
  have hsearch := findSome?_longestFirst hpath hunder (by
    intro other hother hsome
    obtain ⟨result', hresult'⟩ := Option.isSome_iff_exists.mp hsome
    obtain ⟨tail, htail, -⟩ := roleUnder?_eq_some_iff.mp hresult'
    exact hlongest other hother tail htail)
  have hstrip : stripText? m.namespaceText name = some rest := stripStart?_eq_some_iff.mpr hname
  simp [classify, hstrip, hsearch]

/-! ## Reading what is written -/

namespace Markers

/-- The tokens that stand between the names in a declaration. -/
def words (m : Markers) : List String :=
  [m.module, m.info, m.inputs, m.procedure, m.arguments]

/-- The tokens cannot run into a separator, and those that can follow a module path differ. -/
structure Distinguishable (m : Markers) : Prop where
  colon_notMem : ∀ word ∈ m.words, ':' ∉ word.toList
  nodup : [m.module, m.info, m.inputs, m.procedure].Nodup

/-- No segment of the path holds a colon or is one of the tokens. -/
structure AbsentFrom (m : Markers) (path : ModulePath) : Prop where
  colon_notMem : ∀ segment ∈ path.segments, ':' ∉ segment.toList
  notMem_words : ∀ segment ∈ path.segments, segment ∉ m.words

end Markers

/-- The text of a path with further segments is the text of the path, a separator and these. -/
theorem ModulePath.toList_qualified_segments_append (path : ModulePath) {back : List String}
    (hback : back ≠ []) :
    (qualified (path.segments ++ back)).toList =
      path.text.toList ++ ':' :: ':' :: (qualified back).toList := by
  rw [toList_qualified, List.map_append, joinSegments_append
    (by simpa using path.segments_ne_nil) (by simpa using hback), ← toList_qualified,
    ← toList_qualified, path.qualified_segments]

/-- A path is longer than each path that it continues. -/
theorem ModulePath.length_lt_of_segments_eq {path other : ModulePath} {back : List String}
    (hback : back ≠ []) (hsegments : path.segments = other.segments ++ back) :
    other.length < path.length := by
  have htext : path.text = other.text ++ (String.ofList [':', ':'] ++ qualified back) := by
    rw [← path.qualified_segments, hsegments, ← String.toList_inj,
      other.toList_qualified_segments_append hback]
    simp
  have hsize := congrArg String.utf8ByteSize htext
  have hcolons : (String.ofList [':', ':']).utf8ByteSize = 2 := by decide
  rw [String.utf8ByteSize_append, String.utf8ByteSize_append, hcolons] at hsize
  unfold ModulePath.length
  omega

/-- The segments of a path determine it. -/
theorem ModulePath.segments_injective {path other : ModulePath}
    (hsegments : path.segments = other.segments) : path = other := by
  apply ModulePath.text_injective
  rw [← path.qualified_segments, ← other.qualified_segments, hsegments]

/-- The tokens of a field begin with a token of the markers. -/
theorem Role.exists_tokens_eq_cons {m : Markers} {role : Role} (hfield : role.owner?.isSome) :
    ∃ word ∈ m.words, ∃ rest, role.tokens m = word :: rest := by
  cases role <;> simp_all [Role.owner?, Role.tokens, Markers.words]

/-- The tokens of a field hold no colon when the markers hold none and its names are
identifiers. -/
theorem Role.colon_notMem_tokens {m : Markers} {role : Role} (hdistinct : m.Distinguishable)
    (hnames : ∀ name ∈ role.names, IsIdentifier name) :
    ∀ token ∈ role.tokens m, ':' ∉ token.toList := by
  have hwords := hdistinct.colon_notMem
  simp only [Markers.words, List.mem_cons, List.not_mem_nil, or_false, forall_eq_or_imp,
    forall_eq] at hwords
  obtain ⟨hmodule, hinfo, hinputs, hprocedure, harguments⟩ := hwords
  have hname : ∀ name ∈ role.names, ':' ∉ name.toList :=
    fun name hmem => (hnames name hmem).colon_notMem
  cases role with
  | marker => simpa [Role.tokens] using hmodule
  | irrelevant => simp [Role.tokens]
  | moduleField module field =>
    have hfield : ':' ∉ field.word.toList := by cases field <;> decide
    simp [Role.tokens, hinfo, hfield]
  | inputField module input field =>
    have hfield : ':' ∉ field.word.toList := by cases field <;> decide
    simp_all [Role.tokens, Role.names]
  | procedureField module procedure field =>
    have hfield : ':' ∉ field.word.toList := by cases field <;> decide
    simp_all [Role.tokens, Role.names]
  | argumentField module procedure argument field =>
    have hfield : ':' ∉ field.word.toList := by cases field <;> decide
    simp_all [Role.tokens, Role.names]

/-- A path that a declaration follows with a separator is the path of the declaration or a shorter
one, when no path holds a token of the markers. -/
theorem eq_or_length_lt_of_prefix {m : Markers} {path other : ModulePath} {tokens : List String}
    {word : String} {tail : List Char} (hpath : ∀ s ∈ path.segments, ':' ∉ s.toList)
    (hother : m.AbsentFrom other) (htokens : ∀ token ∈ word :: tokens, ':' ∉ token.toList)
    (hword : word ∈ m.words)
    (heq : (qualified (path.segments ++ word :: tokens)).toList =
      other.text.toList ++ ':' :: ':' :: tail) :
    other = path ∨ other.length < path.length := by
  have hsegments : path.segments ++ word :: tokens = other.segments ++ segments (.ofList tail) := by
    have hsplit := congrArg splitSegments heq
    rw [← other.qualified_segments, toList_qualified, toList_qualified,
      splitSegments_joinSegments (by simp) (by
        simp only [List.mem_map, forall_exists_index, and_imp, forall_apply_eq_imp_iff₂,
          List.mem_append]
        rintro s (hs | hs)
        · exact hpath s hs
        · exact htokens s hs),
      splitSegments_joinSegments_append (by simpa using other.segments_ne_nil)
        (by simpa using hother.colon_notMem)] at hsplit
    simpa [segments, Function.comp_def] using congrArg (List.map String.ofList) hsplit
  rcases List.append_eq_append_iff.mp hsegments with ⟨back, hback, htail⟩ | ⟨back, hback, htail⟩
  · -- The other path goes on behind this one, so its next segment would be the token.
    cases back with
    | nil => exact Or.inl (ModulePath.segments_injective (by simpa using hback))
    | cons segment back =>
      obtain rfl : word = segment := by simpa using congrArg List.head? htail
      exact absurd hword (hother.notMem_words word (by simp [hback]))
  · cases back with
    | nil => exact Or.inl (ModulePath.segments_injective (by simpa using hback.symm))
    | cons segment back => exact Or.inr (ModulePath.length_lt_of_segments_eq (by simp) hback)

/-- The written form of a field is read back as the field. -/
theorem classify_declaration {m : Markers} {paths : List ModulePath} {role : Role}
    (hdistinct : m.Distinguishable) (habsent : ∀ path ∈ paths, m.AbsentFrom path)
    (hrole : role.IsFieldIn paths) : classify m paths (role.declaration m) = .ok role := by
  obtain ⟨⟨path, member⟩, howner, hpath⟩ := hrole.module_mem
  have hfield : role.owner?.isSome := by simp [howner]
  have hmodule := Role.module?_of_owner? howner
  obtain ⟨word, hword, tokens, htokens⟩ := Role.exists_tokens_eq_cons (m := m) hfield
  have hcolon := Role.colon_notMem_tokens hdistinct hrole.names_valid
  rw [htokens] at hcolon
  have hrest : (qualified (path.segments ++ role.tokens m)).toList =
      path.text.toList ++ ':' :: ':' :: (qualified (role.tokens m)).toList :=
    path.toList_qualified_segments_append (by simp [htokens])
  have hunder : roleUnder? m (qualified (path.segments ++ role.tokens m)).toList path =
      some (.ok role) := by
    rw [roleUnder?_eq_some_iff]
    refine ⟨_, hrest, ?_⟩
    have hsplit : segments (qualified (role.tokens m)) = role.tokens m :=
      segments_qualified (by simp [htokens]) (by simpa [htokens] using hcolon)
    rw [segments] at hsplit
    rw [hsplit]
    exact roleOfTokens?_tokens hdistinct.nodup hfield hmodule hrole.names_valid
  refine classify_of_roleUnder? ?_ hpath hunder fun other hother tail htail => ?_
  · rw [Role.declaration_eq hmodule, String.toList_append,
      qualified_append path.segments_ne_nil (by simp [htokens]), path.qualified_segments]
  · rw [htokens] at htail
    exact eq_or_length_lt_of_prefix (habsent path hpath).colon_notMem (habsent other hother)
      hcolon hword htail

/-- Names and fields correspond. Whatever is read as a field of an entity is the written form of
that field, its module is among the paths, and the names in it are identifiers; so no other name
is read as the same field. And whatever field of an entity in one of the modules is written, with
identifiers for names, is read back as itself, provided that the markers can be told apart and no
module path holds one of them or a colon. -/
theorem classify_reads_exactly_declarations (m : Markers) (paths : List ModulePath) :
    (∀ name role, role.owner?.isSome → classify m paths name = .ok role →
      role.IsFieldIn paths ∧ name = role.declaration m) ∧
    (∀ others name other role, role.owner?.isSome → classify m paths name = .ok role →
      classify m others other = .ok role → name = other) ∧
    (m.Distinguishable → (∀ path ∈ paths, m.AbsentFrom path) →
      ∀ role : Role, role.IsFieldIn paths → classify m paths (role.declaration m) = .ok role) := by
  refine ⟨fun name role hfield hread => eq_declaration_of_classify hread hfield, ?_, ?_⟩
  · intro others name other role hfield hname hother
    rw [(eq_declaration_of_classify hname hfield).2, (eq_declaration_of_classify hother hfield).2]
  · intro hdistinct habsent role hrole
    exact classify_declaration hdistinct habsent hrole

/-- The size of an argument in a nested module is read from its name, and read back, with the
markers that settings have by default. -/
theorem classify_reads_size_of_nested_argument :
    let effects : ModulePath := ⟨"LEDControl::Effects", by decide⟩
    let role := Role.argumentField effects "fade" "speed" .size
    let name := "kaleidoscope::module::LEDControl::Effects::_______procedure_______::fade::" ++
      "_______arguments_______::speed::_______info_______::size"
    let paths : List ModulePath := [⟨"LEDControl", by decide⟩, effects]
    ({} : Markers).Distinguishable ∧ (∀ path ∈ paths, ({} : Markers).AbsentFrom path) ∧
      role.IsFieldIn paths ∧ role.declaration {} = name ∧ classify {} paths name = .ok role ∧
      ∀ others other, classify {} others other = .ok role → other = name := by
  intro effects role name paths
  have hdistinct : ({} : Markers).Distinguishable := ⟨by decide, by decide⟩
  have habsent : ∀ path ∈ paths, ({} : Markers).AbsentFrom path := by
    simp only [paths, List.mem_cons, List.not_mem_nil, or_false, forall_eq_or_imp, forall_eq]
    exact ⟨⟨by decide, by decide⟩, ⟨by decide, by decide⟩⟩
  have hnames : ∀ name ∈ role.names, IsIdentifier name := by
    simp only [role, Role.names, List.forall_mem_cons, ← isIdentifier_iff]
    decide
  have hrole : role.IsFieldIn paths := ⟨⟨_, rfl, by simp [paths]⟩, hnames⟩
  have hname : role.declaration {} = name := by decide +kernel
  have hread : classify {} paths name = .ok role :=
    hname ▸ (classify_reads_exactly_declarations {} paths).2.2 hdistinct habsent role hrole
  refine ⟨hdistinct, habsent, hrole, hname, hread, fun others other hother => ?_⟩
  exact (classify_reads_exactly_declarations {} others).2.1 paths other name role rfl hother hread

end FirmwareModel
