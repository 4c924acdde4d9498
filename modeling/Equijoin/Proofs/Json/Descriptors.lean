import Equijoin.Assembly
import Equijoin.Proofs.Tables.Readback

/-! # Schemas and descriptors as texts

* `Schema.Respelled`: the lists of a schema, those of its types under either of their names.
* `Schema.parse_respelled`: they are read as the schema, on one line or on many.
* `Descriptor.parse_spells`: the lists of a descriptor are read as the descriptor.
* `Schema.exists_types_of_reconcile`: the type names of an output are read as types of the storages
  that they name.
* `descriptor_survives`: schemas are read back, and what is staged as the descriptor of an output is
  read as this descriptor and as a schema.
-/

set_option autoImplicit false

namespace Equijoin

open Json

/-! ## Schemas -/

namespace Schema

/-- The other name of a list of types. -/
def snakeCase : String → String
  | "idTypes" => "id_types"
  | "featureTypes" => "feature_types"
  | "labelTypes" => "label_types"
  | name => name

/-- The same lists in the same order, each under its name or the other one. -/
def Respelled (lists respelled : TextLists) : Prop :=
  List.Forall₂ (fun field field' => field'.2 = field.2 ∧
    (field'.1 = field.1 ∨ field'.1 = snakeCase field.1)) lists respelled

variable {s : Schema} {lists : TextLists}

/-- Only the lists of types have another name. -/
theorem respelled_textLists (h : Respelled s.textLists lists) : ∃ a b c,
    (a = "idTypes" ∨ a = "id_types") ∧ (b = "featureTypes" ∨ b = "feature_types") ∧
    (c = "labelTypes" ∨ c = "label_types") ∧
    lists = [("ids", s.ids), ("features", s.features), ("labels", s.labels),
      (a, s.idTypes.map ColumnType.name), (b, s.featureTypes.map ColumnType.name),
      (c, s.labelTypes.map ColumnType.name)] := by
  have hown : ∀ {name name' : String}, snakeCase name = name →
      (name' = name ∨ name' = snakeCase name) → name' = name :=
    fun hsame h => h.elim id fun h => h.trans hsame
  unfold Respelled textLists at h
  simp only [List.forall₂_cons_left_iff, List.forall₂_nil_left_iff] at h
  obtain ⟨⟨_, _⟩, _, ⟨rfl, hids⟩, ⟨⟨_, _⟩, _, ⟨rfl, hfeatures⟩, ⟨⟨_, _⟩, _, ⟨rfl, hlabels⟩,
    ⟨⟨a, _⟩, _, ⟨rfl, ha⟩, ⟨⟨b, _⟩, _, ⟨rfl, hb⟩, ⟨⟨c, _⟩, _, ⟨rfl, hc⟩, rfl, rfl⟩, rfl⟩, rfl⟩,
    rfl⟩, rfl⟩, rfl⟩ := h
  obtain rfl := hown rfl hids
  obtain rfl := hown rfl hfeatures
  obtain rfl := hown rfl hlabels
  exact ⟨a, b, c, ha, hb, hc, rfl⟩

/-- The lists of a schema are read as the schema, in every layout and whatever their names. -/
theorem parse_respelled (h : Respelled s.textLists lists) {cs : List Char}
    (hcs : Json.Spells lists cs) : parse (String.ofList cs) = .ok s := by
  obtain ⟨a, b, c, ha, hb, hc, rfl⟩ := respelled_textLists h
  exact parse_spells (named_map s.idTypes) (named_map s.featureTypes) (named_map s.labelTypes) ha hb
    hc hcs

/-- Every type name of an output is read as a type of the storage that it names. -/
theorem exists_types_of_reconcile {header : List String} {out : Descriptor}
    (h : s.reconcile header = .ok out) (group : ColumnGroup) :
    ∃ types, Named (out.types group) types ∧
      types.map (fun type => type.storage.name) = out.types group := by
  obtain ⟨found, -, rfl⟩ := reconcile_eq_ok h
  have hempty : Descriptor.empty.types group = [] := by cases group <;> rfl
  rw [Descriptor.types_addAll, hempty, List.nil_append]
  refine ⟨(found.filter (·.group = group)).map fun d => d.type.storage.type, ?_, ?_⟩
  · refine List.forall₂_map_left_iff.2 (List.forall₂_map_right_iff.2 (List.forall₂_same.2 ?_))
    exact fun d _ => ColumnType.ofName?_storage d.type.storage
  · simp only [List.map_map, Function.comp_def, Storage.storage_type]

end Schema

/-! ## Descriptors -/

namespace Descriptor

variable {d : Descriptor}

theorem takes_fields (d : Descriptor) : Takes fields .none d.textLists
    ⟨some d.ids, some d.features, some d.labels, some d.idTypes, some d.featureTypes,
      some d.labelTypes⟩ := by
  refine .cons rfl rfl (fun cs hcs rest => congrArg (Except.map _) (texts_spells hcs rest)) ?_
  refine .cons rfl rfl (fun cs hcs rest => congrArg (Except.map _) (texts_spells hcs rest)) ?_
  refine .cons rfl rfl (fun cs hcs rest => congrArg (Except.map _) (texts_spells hcs rest)) ?_
  refine .cons rfl rfl (fun cs hcs rest => congrArg (Except.map _) (texts_spells hcs rest)) ?_
  refine .cons rfl rfl (fun cs hcs rest => congrArg (Except.map _) (texts_spells hcs rest)) ?_
  refine .cons rfl rfl (fun cs hcs rest => congrArg (Except.map _) (texts_spells hcs rest)) ?_
  exact .nil _

/-- The lists of a descriptor are read as the descriptor, in every layout. -/
theorem parse_spells {cs : List Char} (h : Json.Spells d.textLists cs) :
    parse (String.ofList cs) = .ok d := by
  have hread : reader cs = .ok (d, []) := by
    unfold reader
    rw [← List.append_nil cs, record_spells "OutputSchema" d.takes_fields rfl h []]
    rfl
  unfold parse
  rw [parse_of_read hread]
  rfl

end Descriptor

/-- A schema is read back from its text, on one line or on many, whichever names the lists of types
have there. What is staged as the descriptor of an output is read as this descriptor, and as a
schema with the same names, as many types as names, and the storages that the descriptor names. -/
theorem descriptor_survives :
    (∀ s : Schema, Schema.parse s.write = .ok s) ∧
    (∀ (s : Schema) (lists : TextLists), Schema.Respelled s.textLists lists →
      Schema.parse (String.ofList (writeCompact lists)) = .ok s ∧
        Schema.parse (String.ofList (writePretty lists)) = .ok s) ∧
    ∀ (merged : Schema) (header : List String) (d : Descriptor), merged.reconcile header = .ok d →
      ∀ (path : String) (files : FileTree) (place : Location),
        files.stagingPlace path = .ok place →
          ∃ content text, stageDescriptor d path files =
              .ok (place, files.put place (.file content)) ∧
            Utf8.decode content = .ok text ∧ Descriptor.parse text = .ok d ∧
            ∃ s, Schema.parse text = .ok s ∧ s.check = .ok () ∧
              s.ids = d.ids ∧ s.features = d.features ∧ s.labels = d.labels ∧
              s.idTypes.map (fun type => type.storage.name) = d.idTypes ∧
              s.featureTypes.map (fun type => type.storage.name) = d.featureTypes ∧
              s.labelTypes.map (fun type => type.storage.name) = d.labelTypes := by
  refine ⟨fun s => Schema.parse_write s, fun s lists h => ?_,
    fun merged header d hd path files place hplace => ?_⟩
  · exact ⟨Schema.parse_respelled h (spells_writeCompact lists),
      Schema.parse_respelled h (spells_writePretty lists)⟩
  obtain ⟨idTypes, hid, hidTypes⟩ := Schema.exists_types_of_reconcile hd .id
  obtain ⟨featureTypes, hfeature, hfeatureTypes⟩ := Schema.exists_types_of_reconcile hd .feature
  obtain ⟨labelTypes, hlabel, hlabelTypes⟩ := Schema.exists_types_of_reconcile hd .label
  have hstage : stageDescriptor d path files =
      .ok (place, files.put place (.file (Utf8.encode d.write))) := by
    unfold stageDescriptor FileTree.stage
    rw [hplace]
    rfl
  have hlengths : ∀ {group : ColumnGroup} {types : List ColumnType},
      Schema.Named (d.types group) types → (d.names group).length = types.length :=
    fun h => (Schema.reconcile_lengths hd _).trans h.length_eq
  have heven : Schema.Even ⟨d.ids, d.features, d.labels, idTypes, featureTypes, labelTypes⟩ :=
    ⟨hlengths hid, hlengths hfeature, hlengths hlabel⟩
  exact ⟨_, d.write, hstage, Utf8.decode_encode _,
    Descriptor.parse_spells (spells_writePretty d.textLists), _,
    Schema.parse_descriptor hid hfeature hlabel, Schema.check_of_even heven, rfl, rfl, rfl,
    hidTypes, hfeatureTypes, hlabelTypes⟩

end Equijoin
