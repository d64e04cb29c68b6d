import FirmwareModel.Extraction
import FirmwareModel.Proofs.Grammar.Candidates

/-!
# Discovering and classifying modules

`declaredModule?` looks for the first `::` that the module marker follows, `classify` for the marker
as a segment. Behind the path that a name declares, no longer path among the declared ones can lead
to a role. So the name is classified as the marker of that module exactly when the marker is a whole
segment of it, and never as the marker of another.
-/

namespace FirmwareModel

open FirmwareModel.Text

/-! ## First segments and separators -/

namespace Text

/-- A segment comes first in a text when nothing or a separator follows it there. -/
theorem headD_splitSegments_eq_iff {segment s : List Char} (hcolon : ':' ∉ segment) :
    (splitSegments s).headD [] = segment ↔
      ∃ back, (back = [] ∨ [':', ':'] <+: back) ∧ s = segment ++ back := by
  constructor
  · intro hhead
    obtain ⟨first, others, hsplit⟩ := List.exists_cons_of_ne_nil (splitSegments_ne_nil s)
    obtain rfl : first = segment := by simpa [hsplit] using hhead
    have hjoin := joinSegments_splitSegments s
    rw [hsplit] at hjoin
    cases others with
    | nil => exact ⟨[], Or.inl rfl, by simpa [joinSegments] using hjoin.symm⟩
    | cons other others =>
      exact ⟨_, Or.inr ⟨_, rfl⟩, hjoin.symm⟩
  · rintro ⟨back, rfl | ⟨behind, rfl⟩, rfl⟩
    · simp [splitSegments_eq_singleton hcolon]
    · simp [splitSegments_append_separator hcolon]

/-- When a separator and a marker without a colon stand behind `front`, and `path` with a separator
is a beginning of the same text in which they do not occur, `path` is not longer than `front`. -/
theorem length_le_of_separator {marker front path back tail : List Char} (hcolon : ':' ∉ marker)
    (hfirst : ∀ before, before ++ ':' :: ':' :: marker <+: path ++ [':'] →
      path.length ≤ before.length)
    (heq : front ++ ':' :: ':' :: (marker ++ back) = path ++ ':' :: ':' :: tail) :
    path.length ≤ front.length := by
  rcases List.append_eq_append_iff.mp heq with ⟨more, rfl, hmore⟩ | ⟨more, rfl, -⟩
  · cases more with
    | nil => simp
    | cons c more =>
      obtain ⟨rfl, hmarker⟩ := List.cons.inj hmore
      have hends : (':' :: marker) ++ back = (more ++ [':']) ++ ':' :: tail := by
        simpa using hmarker
      rcases List.prefix_or_prefix_of_prefix ⟨back, rfl⟩ ⟨':' :: tail, hends.symm⟩ with
        hinside | ⟨behind, hbehind⟩
      · -- The marker ends before the separator of the path does, so the path holds it.
        obtain ⟨rest, hrest⟩ := hinside
        refine hfirst front ⟨rest, ?_⟩
        simp [← hrest]
      · -- The separator of the path ends inside the marker, which therefore holds a colon.
        rw [← hbehind, List.append_assoc, List.append_cancel_left_eq] at hends
        cases behind with
        | nil => exact hfirst front ⟨[], by simp [← hbehind]⟩
        | cons d behind =>
          obtain ⟨rfl, -⟩ := List.cons.inj hends
          refine absurd ?_ hcolon
          cases more with
          | nil =>
            obtain rfl : ':' :: behind = marker := by simpa using hbehind
            simp
          | cons c more =>
            obtain ⟨-, rfl⟩ : c = ':' ∧ more ++ ':' :: ':' :: behind = marker := by
              simpa using hbehind
            simp
  · simp

end Text

/-! ## Reading markers -/

/-- The name declares the module with the marker as a whole segment: it is the namespace, the path,
a separator and the marker, behind which there is nothing or a separator again. -/
def Markers.IsDeclarationOf (m : Markers) (path : ModulePath) (name : String) : Prop :=
  ∃ back, (back = [] ∨ [':', ':'] <+: back) ∧
    name.toList =
      m.namespaceText.toList ++ (path.text.toList ++ ':' :: ':' :: (m.module.toList ++ back))

/-- The tokens behind a path are those of a module marker when the first of them is the marker. -/
theorem roleOfTokens?_eq_marker_iff {m : Markers} {path q : ModulePath} {tokens : List String} :
    roleOfTokens? m path tokens = some (.ok (.marker q)) ↔
      q = path ∧ tokens.headD "" = m.module := by
  unfold roleOfTokens?
  dsimp only
  split
  case isTrue hhead =>
    rw [and_iff_left hhead]
    simp [eq_comm]
  case isFalse hhead =>
    refine iff_of_false ?_ fun h => hhead h.2
    repeat' split
    all_goals simp [map_fieldOr_eq_ok_iff]

/-- A path reads a text as its marker when the marker is the first segment behind it. -/
theorem roleUnder?_eq_marker_iff {m : Markers} (hcolon : ':' ∉ m.module.toList) {rest : List Char}
    {path q : ModulePath} :
    roleUnder? m rest path = some (.ok (.marker q)) ↔
      q = path ∧ ∃ back, (back = [] ∨ [':', ':'] <+: back) ∧
        rest = path.text.toList ++ ':' :: ':' :: (m.module.toList ++ back) := by
  simp only [roleUnder?_eq_some_iff, roleOfTokens?_eq_marker_iff]
  have hhead : ∀ tail, ((splitSegments tail).map String.ofList).headD "" = m.module ↔
      (splitSegments tail).headD [] = m.module.toList := by
    intro tail
    obtain ⟨first, others, hsplit⟩ := List.exists_cons_of_ne_nil (splitSegments_ne_nil tail)
    simp [hsplit, ← String.toList_inj]
  simp only [hhead, headD_splitSegments_eq_iff hcolon]
  constructor
  · rintro ⟨_, hrest, hq, back, hback, rfl⟩
    exact ⟨hq, back, hback, hrest⟩
  · rintro ⟨hq, back, hback, hrest⟩
    exact ⟨_, hrest, hq, back, hback, rfl⟩

/-- What the declared module tells about the name: the path and the marker follow the namespace, and
the marker does not occur earlier. -/
theorem eq_append_of_declaredModule? {m : Markers} {name : String} {path : ModulePath}
    (hdeclared : declaredModule? m name = some path) :
    ∃ back, name.toList =
        m.namespaceText.toList ++ (path.text.toList ++ ':' :: ':' :: (m.module.toList ++ back)) ∧
      ∀ front, front ++ ':' :: ':' :: m.module.toList <+:
          path.text.toList ++ ':' :: ':' :: (m.module.toList ++ back) →
        path.text.toList.length ≤ front.length := by
  simp only [declaredModule?, bind, Option.bind_eq_some_iff] at hdeclared
  obtain ⟨rest, hrest, ⟨before, behind⟩, hcut, hpath⟩ := hdeclared
  obtain ⟨rfl, ⟨back, rfl⟩, hfirst⟩ := eq_append_of_cutBefore? hcut
  have htext : path.text.toList = before := by
    rw [ModulePath.text_of_ofText?_eq_some hpath, String.toList_ofList]
  rw [stripText?, stripStart?_eq_some_iff] at hrest
  exact ⟨back, by simpa [htext] using hrest, by simpa [htext] using hfirst⟩

/-- A declared path that a name follows with a separator is a beginning of the path that the name
declares: a longer one would hold a part of the marker. -/
theorem prefix_of_declaredModule? {m : Markers} (hcolon : ':' ∉ m.module.toList)
    {name other : String} {path q : ModulePath} {tail : List Char}
    (hpath : declaredModule? m name = some path) (hq : declaredModule? m other = some q)
    (hname : name.toList = m.namespaceText.toList ++ (q.text.toList ++ ':' :: ':' :: tail)) :
    q.text.toList <+: path.text.toList := by
  obtain ⟨back, hback, -⟩ := eq_append_of_declaredModule? hpath
  obtain ⟨back', -, hfirst⟩ := eq_append_of_declaredModule? hq
  have heq : path.text.toList ++ ':' :: ':' :: (m.module.toList ++ back) =
      q.text.toList ++ ':' :: ':' :: tail :=
    List.append_cancel_left (hback.symm.trans hname)
  refine List.prefix_of_prefix_length_le ⟨_, heq.symm⟩ ⟨_, rfl⟩
    (length_le_of_separator hcolon (fun before hbefore => hfirst before ?_) heq)
  exact hbefore.trans
    ((List.prefix_append_right_inj _).mpr ⟨':' :: (m.module.toList ++ back'), rfl⟩)

/-! ## Markers in a symbol table -/

/-- Among the modules that the names of a symbol table declare, the name that declares a module is
classified as its marker exactly when the marker is a whole segment of the name. It is never
classified as the marker of another module. -/
theorem classify_declaredModules_eq_marker_iff {m : Markers} (hcolon : ':' ∉ m.module.toList)
    {names : List SymbolName} {name : SymbolName} {path : ModulePath} (hmem : name ∈ names)
    (hdeclared : declaredModule? m name.unmangled = some path) (q : ModulePath) :
    classify m (SymbolSurvey.declaredModules m names) name.unmangled = .ok (.marker q) ↔
      q = path ∧ m.IsDeclarationOf path name.unmangled := by
  have hmodules : ∀ q, q ∈ SymbolSurvey.declaredModules m names ↔
      ∃ other ∈ names, declaredModule? m other.unmangled = some q := by
    simp [SymbolSurvey.declaredModules]
  constructor
  · intro hread
    obtain ⟨rest, module, hmodule, hname, hunder⟩ := exists_roleUnder?_of_classify hread (by simp)
    obtain ⟨rfl, back, hback, rfl⟩ := (roleUnder?_eq_marker_iff hcolon).mp hunder
    obtain ⟨other, -, hother⟩ := (hmodules q).mp hmodule
    have hpre := prefix_of_declaredModule? hcolon hdeclared hother hname
    -- The marker stands behind `q`, and it first stands behind `path`.
    obtain ⟨behind, hbehind, hfirst⟩ := eq_append_of_declaredModule? hdeclared
    have hlength : path.text.toList.length ≤ q.text.toList.length := by
      refine hfirst _ ⟨back, ?_⟩
      rw [← List.append_cancel_left (hname.symm.trans hbehind)]
      simp
    obtain rfl : q = path := ModulePath.text_injective
      (String.toList_inj.mp (hpre.eq_of_length_le hlength))
    exact ⟨rfl, back, hback, hname⟩
  · rintro ⟨rfl, back, hback, hname⟩
    refine classify_of_roleUnder? hname ((hmodules q).mpr ⟨name, hmem, hdeclared⟩) ?_
      fun module hmodule tail htail => ?_
    · exact (roleUnder?_eq_marker_iff hcolon).mpr ⟨rfl, back, hback, rfl⟩
    obtain ⟨other, -, hother⟩ := (hmodules module).mp hmodule
    exact ModulePath.eq_or_length_lt_of_beginning
      (prefix_of_declaredModule? hcolon hdeclared hother (htail ▸ hname))

/-- In a symbol table with a nested module, a name in which a further segment stands behind the
marker of that module is classified as its marker. -/
theorem classify_reads_marker_of_nested_module :
    let effects : ModulePath := ⟨"LEDControl::Effects", by decide⟩
    let name : SymbolName :=
      ⟨"_Z2", "kaleidoscope::module::LEDControl::Effects::_______module_______::tag"⟩
    let names : List SymbolName :=
      [⟨"_Z1", "kaleidoscope::module::LEDControl::_______module_______"⟩, name]
    ':' ∉ ({} : Markers).module.toList ∧ name ∈ names ∧
      declaredModule? {} name.unmangled = some effects ∧
      ({} : Markers).IsDeclarationOf effects name.unmangled ∧
      ∀ q, classify {} (SymbolSurvey.declaredModules {} names) name.unmangled = .ok (.marker q) ↔
        q = effects := by
  intro effects name names
  have hcolon : ':' ∉ ({} : Markers).module.toList := by decide
  have hmem : name ∈ names := by simp [names]
  have hdeclared : declaredModule? {} name.unmangled = some effects := by decide +kernel
  have hdeclaration : ({} : Markers).IsDeclarationOf effects name.unmangled :=
    ⟨"::tag".toList, Or.inr (by decide), by decide +kernel⟩
  refine ⟨hcolon, hmem, hdeclared, hdeclaration, fun q => ?_⟩
  rw [classify_declaredModules_eq_marker_iff hcolon hmem hdeclared q]
  exact and_iff_left hdeclaration

/-- Not every name that declares a module is classified as its marker. The segment of this one only
begins with the marker, so the module has no marker at all. -/
theorem declared_module_without_marker :
    let foo : ModulePath := ⟨"Foo", by decide⟩
    let names : List SymbolName := [⟨"_Z1x", "kaleidoscope::module::Foo::_______module_______x"⟩]
    (∀ word ∈ ({} : Markers).words, ':' ∉ word.toList) ∧
      SymbolSurvey.declaredModules {} names = [foo] ∧
      ∀ name ∈ names, declaredModule? {} name.unmangled = some foo ∧
        classify {} (SymbolSurvey.declaredModules {} names) name.unmangled = .ok .irrelevant := by
  intro foo names
  have hmodules : SymbolSurvey.declaredModules {} names = [foo] := by decide +kernel
  refine ⟨by decide, hmodules, fun name hname => ?_⟩
  obtain rfl := List.mem_singleton.mp hname
  rw [hmodules]
  exact ⟨by decide +kernel, by decide +kernel⟩

end FirmwareModel
