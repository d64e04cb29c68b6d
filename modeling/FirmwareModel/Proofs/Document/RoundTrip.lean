import FirmwareModel.Document.File
import FirmwareModel.Proofs.Json.Records
import FirmwareModel.Proofs.Json.RoundTrip
import FirmwareModel.Proofs.Text.Utf8

/-!
# Documents written and read back

The JSON text of a document is read back as that document, as long as it does not nest deeper than
JSON may.
-/

namespace FirmwareModel

open FirmwareModel.Json FirmwareModel.Record

/-! ## Addresses and types -/

/-- A written address is a plain value. -/
theorem ResolvedAddress.plain_toJson (a : ResolvedAddress) : a.toJson.Plain := by
  cases a with
  | located w => exact .nat _
  | unexported => exact .text _

/-- A written address is read back. -/
theorem ResolvedAddress.read_toJson (a : ResolvedAddress) : read dialect a.toJson = some a := by
  cases a with
  | located w =>
    have hword : dialect.untyped? (.word w) = some (.inl w) := by
      change ((dialect.word? (.word w)).map _).or _ = _
      rw [dialect_word?_word]
      rfl
    rw [read, toJson, hword]
  | unexported => rfl

/-- A written address that may be missing is read back. -/
theorem ResolvedAddress.read_nullable (a : Option ResolvedAddress) :
    dialect.nullable (read dialect) (.nullable toJson a) = some a :=
  nullable_nullable (by rintro (w | _) <;> rfl) read_toJson a

/-- A written address holds nothing nested. -/
@[simp] theorem ResolvedAddress.depth_nullable (a : Option ResolvedAddress) :
    (Value.nullable toJson a).depth = 0 := by
  rcases a with _ | w | _ <;> rfl

/-- A written type that may be missing is read back. -/
theorem PrimitiveType.read_nullable (type : Option PrimitiveType) (n : Nat) :
    dialect.nullable (dialect.choice ofName? n) (.nullable (fun type => .text type.name) type) =
      some type := by
  refine nullable_nullable (fun _ => rfl) (fun type => ?_) type
  exact (readsBack_type type n).trans (if_pos (Nat.zero_le n))

/-- A written type holds nothing nested. -/
@[simp] theorem PrimitiveType.depth_nullable (type : Option PrimitiveType) :
    (Value.nullable (fun type : PrimitiveType => .text type.name) type).depth = 0 := by
  cases type <;> rfl

namespace Document

/-! ## Records -/

/-- A member that is written only when it has a value nests as deep as that value. -/
theorem forall_mem_optionalJson {α : Type} {name : String} {encode : α → Value} {o : Option α}
    {n : Nat} : (∀ member ∈ optionalJson name encode o, member.2.depth ≤ n) ↔
      ∀ a ∈ o, (encode a).depth ≤ n := by
  cases o <;> simp [optionalJson]

/-- A written callable is read back. -/
theorem CallableRecord.readsBack (c : CallableRecord) : ReadsBack (read dialect) toJson c := by
  refine readsBack_record rfl rfl (by decide) (by simp) fun n ms hms => ?_
  have haddress : ms.value? "address" = some (.nullable ResolvedAddress.toJson c.address) :=
    hms ▸ rfl
  have hmangled : ms.value? "symbol_mangled" = some (.text c.mangled) := hms ▸ rfl
  have hunmangled : ms.value? "symbol_unmangled" = some (.text c.unmangled) := hms ▸ rfl
  have hinherited : ms.value? "inherited" = some (.bool c.inherited) := hms ▸ rfl
  simp [Members.required, Dialect.optionalMember, haddress, ResolvedAddress.read_nullable,
    hmangled, hunmangled, hinherited]

/-- A written storage location is read back. -/
theorem StorageRecord.readsBack (s : StorageRecord) : ReadsBack (read dialect) toJson s := by
  refine readsBack_record rfl rfl (by decide) ?_ fun n ms hms => ?_
  · cases s.mangled <;> cases s.unmangled <;> simp [optionalJson]
  have haddress : ms.value? "address" = some (.nullable ResolvedAddress.toJson s.address) :=
    hms ▸ rfl
  have hbase : ms.value? "base_address" = some (.nullable ResolvedAddress.toJson s.baseAddress) :=
    hms ▸ rfl
  have hoffset : ms.value? "offset" = some (.word s.offset) := hms ▸ rfl
  have hsize : ms.value? "size" = some (.word s.size) := hms ▸ rfl
  have htype : ms.value? "type" = some (.nullable (fun type => .text type.name) s.type) :=
    hms ▸ rfl
  have hmangled : ms.value? "symbol_mangled" = s.mangled.map .text := by
    rw [hms]
    cases s.mangled <;> cases s.unmangled <;> rfl
  have hunmangled : ms.value? "symbol_unmangled" = s.unmangled.map .text := by
    rw [hms]
    cases s.mangled <;> cases s.unmangled <;> rfl
  rw [if_pos ?_]
  · simp [Members.required, Dialect.optionalMember, haddress, hbase, hoffset, hsize, htype,
      ResolvedAddress.read_nullable, PrimitiveType.read_nullable, withDefault_text hmangled,
      withDefault_text hunmangled]
  · simp only [List.forall_mem_append, List.forall_mem_cons, forall_mem_optionalJson]
    simp

/-- A written callable is not null. -/
theorem CallableRecord.isNull_toJson (c : CallableRecord) : c.toJson.isNull = false := rfl

/-- A written argument is read back. -/
theorem ArgumentRecord.readsBack (a : ArgumentRecord) : ReadsBack (read dialect) toJson a := by
  refine readsBack_record rfl rfl (by decide) (by simp) fun n ms hms => ?_
  have hname : ms.value? "name" = some (.text a.name) := hms ▸ rfl
  have hdescription : ms.value? "description" = some (.text a.description) := hms ▸ rfl
  have hdata : ms.value? "data" = some a.data.toJson := hms ▸ rfl
  simp [required_of_value? hname, required_of_value? hdescription, required_of_value? hdata,
    a.data.readsBack n, bind_ite_some]

/-- A written input is read back. -/
theorem InputRecord.readsBack (i : InputRecord) : ReadsBack (read dialect) toJson i := by
  refine readsBack_record rfl rfl (by decide) ?_ fun n ms hms => ?_
  · cases i.callable <;> simp [optionalJson]
  have hname : ms.value? "name" = some (.text i.name) := hms ▸ rfl
  have hdescription : ms.value? "description" = some (.text i.description) := hms ▸ rfl
  have hdata : ms.value? "data" = some i.data.toJson := hms ▸ rfl
  have hcallable : ms.value? "callable" = i.callable.map CallableRecord.toJson := by
    rw [hms]
    cases i.callable <;> rfl
  have hread := withDefault_none hcallable CallableRecord.isNull_toJson (fun c _ => c.readsBack) n
  simp only [List.forall_mem_append, List.forall_mem_cons, forall_mem_optionalJson]
  simp [required_of_value? hname, required_of_value? hdescription, required_of_value? hdata,
    i.data.readsBack n, hread, bind_ite_some, ite_and]

/-- A written procedure is read back, with its arguments. -/
theorem ProcedureRecord.readsBack (p : ProcedureRecord) : ReadsBack (read dialect) toJson p := by
  refine readsBack_record rfl rfl (by decide) ?_ fun n ms hms => ?_
  · cases p.callable <;> simp [optionalJson]
  have hname : ms.value? "name" = some (.text p.name) := hms ▸ rfl
  have hdescription : ms.value? "description" = some (.text p.description) := hms ▸ rfl
  have hcallable : ms.value? "callable" = p.callable.map CallableRecord.toJson := by
    rw [hms]
    cases p.callable <;> rfl
  have harguments : ms.value? "arguments" =
      some (.array (p.arguments.map ArgumentRecord.toJson)) := by
    rw [hms]
    cases p.callable <;> rfl
  have hread := withDefault_none hcallable CallableRecord.isNull_toJson (fun c _ => c.readsBack) n
  have hlist := list_readsBack (fun a (_ : a ∈ p.arguments) => a.readsBack) n
  simp only [List.forall_mem_append, List.forall_mem_cons, forall_mem_optionalJson]
  simp [required_of_value? hname, withDefault_of_value? hdescription, hread,
    withDefault_of_value? harguments, hlist, bind_ite_some, ite_and]

namespace ModuleRecord

/-- Modules are written one by one. -/
theorem listToJson_eq_map (modules : List ModuleRecord) :
    listToJson modules = modules.map toJson := by
  induction modules with
  | nil => rfl
  | cons m modules ih => rw [listToJson, ih, List.map_cons]

/-- Modules are read one by one. -/
theorem readList_eq_list {ν : Type} (d : Dialect ν) : readList d = d.list (read d) := by
  funext depth v
  cases depth <;> rfl

/-- A module is read as a record, one of whose members is a list of modules. -/
theorem read_eq_record {ν : Type} (d : Dialect ν) : read d =
    d.record ["name", "description", "callable", "inputs", "procedures", "modules"]
      fun depth ms => (ms.withDefault "modules" [] (d.list (read d) depth)).bind
        (readWith d depth ms) := by
  funext depth v
  rw [← readList_eq_list]
  cases depth <;> rfl

/-- A module is read back when the modules in it are. -/
theorem readsBack_of_modules {m : ModuleRecord}
    (h : ∀ below ∈ m.modules, ReadsBack (read dialect) toJson below) :
    ReadsBack (read dialect) toJson m := by
  obtain ⟨name, description, callable, inputs, procedures, modules⟩ := m
  refine readsBack_record (read_eq_record dialect) rfl (by decide) ?_ fun n ms hms => ?_
  · cases callable <;> simp [optionalJson]
  have hname : ms.value? "name" = some (.text name) := hms ▸ rfl
  have hdescription : ms.value? "description" = some (.text description) := hms ▸ rfl
  have hcallable : ms.value? "callable" = callable.map CallableRecord.toJson := by
    rw [hms]
    cases callable <;> rfl
  have hinputs : ms.value? "inputs" = some (.array (inputs.map InputRecord.toJson)) := by
    rw [hms]
    cases callable <;> rfl
  have hprocedures : ms.value? "procedures" =
      some (.array (procedures.map ProcedureRecord.toJson)) := by
    rw [hms]
    cases callable <;> rfl
  have hmodules : ms.value? "modules" = some (.array (modules.map toJson)) := by
    rw [hms, ← listToJson_eq_map]
    cases callable <;> rfl
  have hread := withDefault_none hcallable CallableRecord.isNull_toJson (fun c _ => c.readsBack) n
  have hinputList := list_readsBack (fun i (_ : i ∈ inputs) => i.readsBack) n
  have hprocedureList := list_readsBack (fun p (_ : p ∈ procedures) => p.readsBack) n
  simp only [List.forall_mem_append, List.forall_mem_cons, forall_mem_optionalJson]
  simp [readWith, required_of_value? hname, required_of_value? hdescription, hread,
    withDefault_of_value? hinputs, withDefault_of_value? hprocedures,
    withDefault_of_value? hmodules, hinputList, hprocedureList, list_readsBack h, bind_ite_some,
    ite_and, listToJson_eq_map]
  -- The modules are read first and written last.
  split_ifs <;> rfl

mutual

/-- A written module is read back, with all modules below it. -/
theorem readsBack : (m : ModuleRecord) → ReadsBack (read dialect) toJson m
  | ⟨_, _, _, _, _, modules⟩ => readsBack_of_modules (readsBack_all modules)

/-- Each of several written modules is read back. -/
theorem readsBack_all : (modules : List ModuleRecord) →
    ∀ m ∈ modules, ReadsBack (read dialect) toJson m
  | [] => fun _ hm => absurd hm List.not_mem_nil
  | m :: modules => List.forall_mem_cons.mpr ⟨readsBack m, readsBack_all modules⟩

end

end ModuleRecord

/-- A written document is read back when its modules nest no deeper than the levels allow. -/
theorem readsBack (document : Document) : ReadsBack (read dialect) toJson document := by
  refine readsBack_record rfl rfl (by decide) ?_ fun n ms hms => ?_
  · cases document.checksum <;> simp [optionalJson]
  have hchecksum : ms.value? "checksum" = document.checksum.map .text := by
    rw [hms]
    cases document.checksum <;> rfl
  have hmodules : ms.value? "modules" =
      some (.array (document.modules.map ModuleRecord.toJson)) := by
    rw [hms, ← ModuleRecord.listToJson_eq_map]
    cases document.checksum <;> rfl
  have hlist := list_readsBack (ModuleRecord.readsBack_all document.modules) n
  simp only [List.forall_mem_append, List.forall_mem_cons, forall_mem_optionalJson]
  simp [withDefault_text hchecksum, required_of_value? hmodules, ModuleRecord.readList_eq_list,
    hlist, bind_ite_some, ModuleRecord.listToJson_eq_map]

/-! ## Plain values -/

/-- A member that is written only when it has a value is plain. -/
theorem plain_optionalJson {α : Type} {name : String} {encode : α → Value} {o : Option α}
    (h : ∀ a, (encode a).Plain) : ∀ member ∈ optionalJson name encode o, member.2.Plain := by
  cases o <;> simp [optionalJson, h]

/-- A written callable is a plain value. -/
theorem CallableRecord.plain_toJson (c : CallableRecord) : c.toJson.Plain := by
  refine .record ?_
  simp only [List.forall_mem_cons]
  exact ⟨Value.plain_nullable ResolvedAddress.plain_toJson _, .text _, .text _, .bool _, by simp⟩

/-- A written storage location is a plain value. -/
theorem StorageRecord.plain_toJson (s : StorageRecord) : s.toJson.Plain := by
  refine .record ?_
  simp only [List.forall_mem_append, List.forall_mem_cons]
  exact ⟨⟨⟨Value.plain_nullable ResolvedAddress.plain_toJson _,
    Value.plain_nullable ResolvedAddress.plain_toJson _, .nat _, .nat _,
    Value.plain_nullable (fun type : PrimitiveType => .text type.name) _, by simp⟩,
    plain_optionalJson .text⟩, plain_optionalJson .text⟩

/-- A written input is a plain value. -/
theorem InputRecord.plain_toJson (i : InputRecord) : i.toJson.Plain := by
  refine .record ?_
  simp only [List.forall_mem_append, List.forall_mem_cons]
  exact ⟨⟨.text _, .text _, i.data.plain_toJson, by simp⟩,
    plain_optionalJson CallableRecord.plain_toJson⟩

/-- A written argument is a plain value. -/
theorem ArgumentRecord.plain_toJson (a : ArgumentRecord) : a.toJson.Plain := by
  refine .record ?_
  simp only [List.forall_mem_cons]
  exact ⟨.text _, .text _, a.data.plain_toJson, by simp⟩

/-- A written procedure is a plain value. -/
theorem ProcedureRecord.plain_toJson (p : ProcedureRecord) : p.toJson.Plain := by
  refine .record ?_
  simp only [List.forall_mem_append, List.forall_mem_cons]
  exact ⟨⟨⟨.text _, .text _, by simp⟩, plain_optionalJson CallableRecord.plain_toJson⟩,
    Value.plain_map fun a _ => a.plain_toJson, by simp⟩

mutual

/-- A written module is a plain value, with all modules below it. -/
theorem ModuleRecord.plain_toJson : (m : ModuleRecord) → m.toJson.Plain
  | ⟨_, _, _, _, _, modules⟩ => by
    refine .record ?_
    simp only [List.forall_mem_append, List.forall_mem_cons]
    exact ⟨⟨⟨.text _, .text _, by simp⟩, plain_optionalJson CallableRecord.plain_toJson⟩,
      Value.plain_map fun i _ => i.plain_toJson, Value.plain_map fun p _ => p.plain_toJson,
      .array (ModuleRecord.plain_listToJson modules), by simp⟩

/-- Each of several written modules is a plain value. -/
theorem ModuleRecord.plain_listToJson : (modules : List ModuleRecord) →
    ∀ v ∈ ModuleRecord.listToJson modules, v.Plain
  | [] => fun _ hv => absurd hv List.not_mem_nil
  | m :: modules => List.forall_mem_cons.mpr ⟨m.plain_toJson, plain_listToJson modules⟩

end

/-- A written document is a plain value. -/
theorem plain_toJson (document : Document) : document.toJson.Plain := by
  refine .record ?_
  simp only [List.forall_mem_append, List.forall_mem_cons]
  exact ⟨plain_optionalJson .text, .array (ModuleRecord.plain_listToJson _), by simp⟩

/-! ## Texts and files -/

/-- The JSON text of a document is read back when it does not nest deeper than JSON may, and is
refused otherwise. -/
theorem ofText?_jsonText (document : Document) :
    ofText? .json document.jsonText =
      if document.toJson.depth ≤ dialect.depthLimit then some document else none := by
  rw [ofText?, jsonText, readRecord?, document.plain_toJson.read?_pretty, Option.bind_some]
  exact document.readsBack _

/-- The text determines the document, however deep it nests. -/
theorem jsonText_injective : Function.Injective jsonText := by
  intro document other htext
  have hvalue : document.toJson = other.toJson := by
    have hread := document.plain_toJson.read?_pretty
    rw [show document.toJson.pretty = other.toJson.pretty from htext,
      other.plain_toJson.read?_pretty] at hread
    exact (Option.some.inj hread).symm
  have hdocument := document.readsBack document.toJson.depth
  rw [hvalue, other.readsBack, if_pos (Nat.le_refl _), if_pos (Nat.le_refl _)] at hdocument
  exact (Option.some.inj hdocument).symm

/-- A document written to a JSON file is loaded from it as it was, whatever its texts and numbers
are, when it nests within the levels of JSON; a deeper one is refused. No other document has the
same text, so what is absent, what is a number and what is a text are told apart. -/
theorem load_write_json {path : String} (hpath : DocumentFormat.ofPath path = .ok .json)
    (document : Document) :
    document.write path = .ok document.jsonText ∧
    load path (some (Text.octets document.jsonText)) =
      (if document.toJson.depth ≤ 127 then .ok document else .error .undecodableDocument) ∧
    ∀ other : Document, other.jsonText = document.jsonText → other = document := by
  refine ⟨?_, ?_, fun other htext => jsonText_injective htext⟩
  · rw [write, hpath]
    rfl
  · have hfile : Text.fileText? (some (Text.octets document.jsonText)) = some document.jsonText :=
      Text.strictText?_octets _
    have hdepth : dialect.depthLimit = 127 := rfl
    rw [load, hfile]
    simp only [hpath, ofText?_jsonText, hdepth]
    split_ifs <;> rfl

/-- A document whose texts look like marks, numbers and escapes, with an address of each kind, in a
module within a module. -/
theorem load_write_json_of_marks :
    let callable : CallableRecord := ⟨some .unexported, "17", "null", true⟩
    let data : StorageRecord :=
      { address := some (.located 18446744073709551615), baseAddress := none, offset := 0, size := 2,
        type := some .float, mangled := some "unexported" }
    let inner : ModuleRecord :=
      { name := "\u0001\t\"\\/é", description := "", inputs := [⟨"null", "\n", data, none⟩] }
    let outer : ModuleRecord :=
      { name := "0", description := "\u007f𝄞", callable := some callable, modules := [inner] }
    let document : Document := { checksum := some "unexported", modules := [outer] }
    DocumentFormat.ofPath "out/model.json" = .ok .json ∧
      document.write "out/model.json" = .ok document.jsonText ∧
      load "out/model.json" (some (Text.octets document.jsonText)) = .ok document := by
  intro callable data inner outer document
  have hpath : DocumentFormat.ofPath "out/model.json" = .ok .json := by rfl
  obtain ⟨hwrite, hload, -⟩ := load_write_json hpath document
  have hdepth : document.toJson.depth ≤ 127 := by decide
  exact ⟨hpath, hwrite, hload.trans (if_pos hdepth)⟩

end Document

end FirmwareModel
