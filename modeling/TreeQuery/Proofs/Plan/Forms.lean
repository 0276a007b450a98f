import TreeQuery.Plan.Json
import TreeQuery.Proofs.Dict.Extensionality
import TreeQuery.Proofs.Json.Form

/-!
# Forms of a plan

A plan is a record, and so are its options and its selections, which stand in fields of it.  What
can be written in a field is said without the readers: a text, a text or null, an object of any
bindings that make the parameters, or a form of another record.  A value reads as a record exactly
if it is a form of it (`ofJson_eq_ok_iff`), and the object that is written for a record is one.
-/

namespace TreeQuery

namespace Selection

/-- The fields of a selection, in order. -/
def fields (s : Selection) : List Json.Field := [
  ⟨"path", (· = .str s.path), False⟩,
  ⟨"output", (· = Json.textOrNull s.output), s.output = none⟩,
  ⟨"description", (· = Json.textOrNull s.description), s.description = none⟩]

variable {s : Selection} {v : Json}

theorem ofJson_eq_ok_iff : ofJson v = .ok s ↔ Json.IsForm s.fields v := by
  cases v with
  | obj members =>
    simp only [Json.isForm_obj_iff, fields, List.forall_mem_cons, List.not_mem_nil, Json.given_text,
      Json.given_textOrNull, ofJson, Json.bind_eq_ok_iff, Json.orElse_eq_ok_iff]
    constructor
    · rintro ⟨description, remark, output, named, _, required, path, rfl, ⟨⟩⟩
      exact ⟨required, ⟨output, named, rfl⟩, ⟨description, remark, rfl⟩, nofun⟩
    · rintro ⟨required, ⟨output, named, into⟩, ⟨description, remark, about⟩, -⟩
      exact ⟨description, remark, output, named, _, required, _, rfl, by rw [into, about]; rfl⟩
  | arr items =>
    simp only [Json.isForm_arr_iff, fields, List.zipIdx_cons, List.zipIdx_nil, List.forall_mem_cons,
      List.not_mem_nil, Json.given_text, Json.given_textOrNull, ofJson, Json.bind_eq_ok_iff,
      Json.orElse_eq_ok_iff, Json.noMoreThan_eq_ok_iff]
    constructor
    · rintro ⟨_, required, path, rfl, output, named, description, remark, _, few, ⟨⟩⟩
      exact ⟨few, required, ⟨output, named, rfl⟩, ⟨description, remark, rfl⟩, nofun⟩
    · rintro ⟨few, required, ⟨output, named, into⟩, ⟨description, remark, about⟩, -⟩
      exact ⟨_, required, _, rfl, output, named, description, remark, (), few,
        by rw [into, about]; rfl⟩
  | _ => exact ⟨nofun, nofun⟩

theorem isForm_toJson (s : Selection) : Json.IsForm s.fields s.toJson := by
  simp [Json.IsForm, fields, toJson, Bindings.find?, Json.Field.Given]

end Selection

namespace Document.Options

/-- The fields of options, in order. -/
def fields (o : Options) : List Json.Field := [
  ⟨"strip_declarations", (· = .bool o.stripDeclarations), o = .plain⟩]

variable {o : Options} {v : Json}

theorem given_strip {w : Option Json} :
    Json.Field.Given ⟨"strip_declarations", (· = .bool o.stripDeclarations), o = .plain⟩ w ↔
      ∃ x, Json.readField Json.readTruth w = .ok x ∧
        x.getD Options.plain.stripDeclarations = o.stripDeclarations := by
  have default : o = .plain ↔ o.stripDeclarations = Options.plain.stripDeclarations := by
    cases o
    simp [plain]
  exact Json.Field.given_iff_getD _ default fun _ => Json.readTruth_eq_ok_iff

theorem ofJson_eq_ok_iff : ofJson v = .ok o ↔ Json.IsForm o.fields v := by
  cases v with
  | obj members =>
    simp only [Json.isForm_obj_iff, fields, List.forall_mem_cons, List.not_mem_nil, given_strip,
      ofJson, Json.bind_eq_ok_iff]
    constructor
    · rintro ⟨strip, read, ⟨⟩⟩
      exact ⟨⟨strip, read, rfl⟩, nofun⟩
    · rintro ⟨⟨strip, read, holds⟩, -⟩
      exact ⟨strip, read, by rw [holds]; rfl⟩
  | arr items =>
    simp only [Json.isForm_arr_iff, fields, List.zipIdx_cons, List.zipIdx_nil, List.forall_mem_cons,
      List.not_mem_nil, given_strip, ofJson, Json.bind_eq_ok_iff, Json.noMoreThan_eq_ok_iff]
    constructor
    · rintro ⟨strip, read, _, few, ⟨⟩⟩
      exact ⟨few, ⟨strip, read, rfl⟩, nofun⟩
    · rintro ⟨few, ⟨strip, read, holds⟩, -⟩
      exact ⟨strip, read, (), few, by rw [holds]; rfl⟩
  | _ => exact ⟨nofun, nofun⟩

theorem isForm_toJson (o : Options) : Json.IsForm o.fields o.toJson := by
  simp [Json.IsForm, fields, toJson, Bindings.find?, Json.Field.Given]

end Document.Options

namespace Plan

/-- The fields of a plan, in order. -/
def fields (p : Plan) : List Json.Field := [
  ⟨"name", (· = .str p.name), False⟩,
  ⟨"description", (· = Json.textOrNull p.description), p.description = none⟩,
  ⟨"options", Json.IsForm p.options.fields, p.options = .plain⟩,
  ⟨"params", fun v => ∃ members, v = .obj members ∧ Dict.ofPairs members = p.params,
    p.params = Dict.empty⟩,
  ⟨"selections", fun v => ∃ items, v = .arr items ∧
    List.Forall₂ (fun s v => Json.IsForm (Selection.fields s) v) p.selections items, False⟩]

variable {p : Plan} {v : Json} {w : Option Json}

theorem given_options :
    Json.Field.Given ⟨"options", Json.IsForm p.options.fields, p.options = .plain⟩ w ↔
      ∃ x, Json.readField Document.Options.ofJson w = .ok x ∧ x.getD .plain = p.options :=
  Json.Field.given_iff_getD _ Iff.rfl fun _ => Document.Options.ofJson_eq_ok_iff

theorem given_params :
    Json.Field.Given ⟨"params", fun v => ∃ members, v = .obj members ∧
        Dict.ofPairs members = p.params, p.params = Dict.empty⟩ w ↔
      ∃ x, Json.readField Json.readMap w = .ok x ∧ x.getD Dict.empty = p.params :=
  Json.Field.given_iff_getD _ Iff.rfl fun _ => Json.readMap_eq_ok_iff

theorem given_selections :
    Json.Field.Given ⟨"selections", fun v => ∃ items, v = .arr items ∧
        List.Forall₂ (fun s v => Json.IsForm (Selection.fields s) v) p.selections items, False⟩ w ↔
      Json.readField (Json.readList Selection.ofJson) w = .ok (some p.selections) := by
  refine Json.Field.given_iff_some _ not_false fun _ => ?_
  simp only [Json.readList_eq_ok_iff, Selection.ofJson_eq_ok_iff]

theorem ofJson_eq_ok_iff : ofJson v = .ok p ↔ Json.IsForm p.fields v := by
  cases v with
  | obj members =>
    simp only [Json.isForm_obj_iff, fields, List.forall_mem_cons, List.not_mem_nil, Json.given_text,
      Json.given_textOrNull, given_options, given_params, given_selections, ofJson,
      Json.bind_eq_ok_iff, Json.orElse_eq_ok_iff]
    constructor
    · rintro ⟨description, remark, _, named, options, how, params, values, _, listed, _, rfl, _,
        rfl, ⟨⟩⟩
      exact ⟨named, ⟨description, remark, rfl⟩, ⟨options, how, rfl⟩, ⟨params, values, rfl⟩, listed,
        nofun⟩
    · rintro ⟨named, ⟨description, remark, about⟩, ⟨options, how, chosen⟩,
        ⟨params, values, given⟩, listed, -⟩
      exact ⟨description, remark, _, named, options, how, params, values, _, listed, _, rfl, _, rfl,
        by rw [about, chosen, given]; rfl⟩
  | arr items =>
    simp only [Json.isForm_arr_iff, fields, List.zipIdx_cons, List.zipIdx_nil, List.forall_mem_cons,
      List.not_mem_nil, Json.given_text, Json.given_textOrNull, given_options, given_params,
      given_selections, ofJson, Json.bind_eq_ok_iff, Json.orElse_eq_ok_iff,
      Json.noMoreThan_eq_ok_iff]
    constructor
    · rintro ⟨_, named, _, rfl, description, remark, options, how, params, values, _, listed, _,
        rfl, _, few, ⟨⟩⟩
      exact ⟨few, named, ⟨description, remark, rfl⟩, ⟨options, how, rfl⟩, ⟨params, values, rfl⟩,
        listed, nofun⟩
    · rintro ⟨few, named, ⟨description, remark, about⟩, ⟨options, how, chosen⟩,
        ⟨params, values, given⟩, listed, -⟩
      exact ⟨_, named, _, rfl, description, remark, options, how, params, values, _, listed, _, rfl,
        (), few, by rw [about, chosen, given]; rfl⟩
  | _ => exact ⟨nofun, nofun⟩

theorem isForm_toJson (p : Plan) : Json.IsForm p.fields p.toJson := by
  have params : ∃ members, Json.ofDict p.params = .obj members ∧ Dict.ofPairs members = p.params :=
    ⟨_, rfl, Dict.ofPairs_eq (List.Perm.refl _)⟩
  have selections : List.Forall₂ (fun s v => Json.IsForm (Selection.fields s) v) p.selections
      (p.selections.map Selection.toJson) :=
    List.forall₂_map_right_iff.mpr (List.forall₂_same.mpr fun s _ => s.isForm_toJson)
  simp only [toJson, Json.isForm_obj_iff, fields, List.forall_mem_cons, List.not_mem_nil]
  exact ⟨rfl, rfl, p.options.isForm_toJson, params, ⟨_, rfl, selections⟩, nofun⟩

/-- The records that a plan is put together from, each with the object that is written for it. -/
def records (p : Plan) : List (List Json.Field × Json) :=
  (p.fields, p.toJson) :: (p.options.fields, p.options.toJson) ::
    p.selections.map fun s => (s.fields, s.toJson)

theorem nodup_of_mem_records {record : List Json.Field × Json} (h : record ∈ p.records) :
    (record.1.map Json.Field.name).Nodup := by
  simp only [records, List.mem_cons, List.mem_map] at h
  rcases h with rfl | rfl | ⟨s, -, rfl⟩
  · simp [fields]
  · simp [Document.Options.fields]
  · simp [Selection.fields]

theorem isForm_of_mem_records {record : List Json.Field × Json} (h : record ∈ p.records) :
    Json.IsForm record.1 record.2 := by
  simp only [records, List.mem_cons, List.mem_map] at h
  rcases h with rfl | rfl | ⟨s, -, rfl⟩
  · exact p.isForm_toJson
  · exact p.options.isForm_toJson
  · exact s.isForm_toJson

/-- **A plan is read from its forms.**  What is written for a plan reads as the plan, so that a
value that reads as some plan reads as the same one when it is written anew.  The values that read
as the plan are its forms; at each of its records these are closed under members with names of no
field, under any form of a field in place of another and under the omission of a field that holds
its default, and the forms of the fields in their order are one. -/
theorem ofJson_forms (p : Plan) (v : Json) :
    ofJson p.toJson = .ok p ∧
    ((ofJson v).bind fun q => ofJson q.toJson) = ofJson v ∧
    (ofJson v = .ok p ↔ Json.IsForm p.fields v) ∧
    ∀ record ∈ p.records, Json.IsForm record.1 record.2 ∧
      (∀ members, Json.IsForm record.1 (.obj members) →
        (∀ name ∉ record.1.map Json.Field.name, ∀ value,
          Json.IsForm record.1 (.obj (Bindings.insert name value members))) ∧
        (∀ f ∈ record.1, ∀ value, f.Written value →
          Json.IsForm record.1 (.obj (Bindings.insert f.name value members))) ∧
        (∀ f ∈ record.1, f.Default →
          Json.IsForm record.1 (.obj (Bindings.without f.name members)))) ∧
      ∀ items, List.Forall₂ Json.Field.Written record.1 items →
        Json.IsForm record.1 (.arr items) := by
  have again : ∀ q : Plan, ofJson q.toJson = .ok q := fun q => ofJson_eq_ok_iff.mpr q.isForm_toJson
  refine ⟨again p, ?_, ofJson_eq_ok_iff, ?_⟩
  · cases read : ofJson v with
    | error e => rfl
    | ok q => exact again q
  · intro record mem
    have nodup := nodup_of_mem_records mem
    refine ⟨isForm_of_mem_records mem, fun members form => ⟨?_, ?_, ?_⟩, fun _ => Json.isForm_arr⟩
    · exact fun name other value => form.insert_other other value
    · exact fun f listed value written => form.insert nodup listed written
    · exact fun f listed holds => form.omit nodup listed holds

example : ofJson (.arr [.str "n", .null, .arr [], .obj [], .arr [.arr [.str "p"]]]) =
    .ok ((new "n").select (.ofPath "p")) := rfl

end Plan

end TreeQuery
