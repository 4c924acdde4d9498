import Equijoin.Proofs.Json.Reading
import Equijoin.Schema.Notation

/-! # Schemas read back

A schema is written as an object of lists of texts, on one line or on many. Both are read as a
schema, the types by their names.

* `Spells`: the texts of an object of lists.
* `spells_writeCompact`, `spells_writePretty`: what is written.
* `Json.Takes`, `record_spells`: such an object is read, list by list.
* `Schema.parse_spells`: it is read as a schema.
* `Schema.parse_write`, `Schema.parse_descriptor`: schemas and descriptors that were written.
-/

set_option autoImplicit false

namespace Equijoin

namespace Json

/-! ## Lists of texts -/

/-- A text for a list of texts, after some blanks. -/
def SpellsList (xs : List String) (cs : List Char) : Prop :=
  ∃ gap lead tail, Blanks gap ∧ Blanks lead ∧ Blanks tail ∧
    cs = gap ++ '[' :: (spread lead tail (xs.map writeText) ++ [']'])

/-- A text for an object of lists. -/
def Spells (fields : TextLists) (cs : List Char) : Prop :=
  ∃ lead tail parts, Blanks lead ∧ Blanks tail ∧
    List.Forall₂ (fun field part => ∃ value, SpellsList field.2 value ∧
      part = writeText field.1 ++ ':' :: value) fields parts ∧
    cs = '\x7b' :: (spread lead tail parts ++ ['\x7d'])

theorem spellsList_compact (xs : List String) : SpellsList xs (compactList xs) :=
  ⟨[], [], [], blanks_nil, blanks_nil, blanks_nil, by simp [compactList, spread]⟩

theorem spells_writeCompact (fields : TextLists) : Spells fields (writeCompact fields) := by
  refine ⟨[], [], fields.map fun field => writeText field.1 ++ ':' :: compactList field.2,
    blanks_nil, blanks_nil, ?_, by simp [writeCompact, spread]⟩
  rw [List.forall₂_map_right_iff, List.forall₂_same]
  exact fun field _ => ⟨_, spellsList_compact field.2, rfl⟩

/-- Parts on lines of their own are parts between blanks. -/
theorem bracketed_eq (opening closing : Char) {margin : List Char} (hmargin : Blanks margin)
    (parts : List (List Char)) : ∃ lead tail, Blanks lead ∧ Blanks tail ∧
      bracketed opening closing margin parts =
        opening :: (spread lead tail parts ++ [closing]) := by
  cases parts with
  | nil => exact ⟨[], [], blanks_nil, blanks_nil, rfl⟩
  | cons part parts =>
    exact ⟨'\n' :: ' ' :: ' ' :: margin, '\n' :: margin, ((hmargin.cons rfl).cons rfl).cons rfl,
      hmargin.cons rfl, by simp [bracketed, spread]⟩

theorem spells_writePretty (fields : TextLists) : Spells fields (writePretty fields) := by
  have hgap : Blanks [' '] := blanks_nil.cons rfl
  have hmargin : Blanks [' ', ' '] := hgap.cons rfl
  obtain ⟨lead, tail, hlead, htail, heq⟩ := bracketed_eq '\x7b' '\x7d' blanks_nil
    (fields.map fun field => writeText field.1 ++ ':' :: ' ' ::
      bracketed '[' ']' [' ', ' '] (field.2.map writeText))
  refine ⟨lead, tail, _, hlead, htail, ?_, heq⟩
  rw [List.forall₂_map_right_iff, List.forall₂_same]
  intro field _
  obtain ⟨lead, tail, hlead, htail, heq⟩ := bracketed_eq '[' ']' hmargin (field.2.map writeText)
  exact ⟨_, ⟨[' '], lead, tail, hgap, hlead, htail, rfl⟩, by rw [heq]; rfl⟩

/-- A list of texts is read with any reader that reads its items. -/
theorem list_spells {α : Type} {item : Reader α} {xs : List String} {as : List α} {cs : List Char}
    (hitems : List.Forall₂ (fun x a => ∀ rest, item (writeText x ++ rest) = .ok (a, rest)) xs as)
    (h : SpellsList xs cs) (rest : List Char) : list item (cs ++ rest) = .ok (as, rest) := by
  obtain ⟨gap, lead, tail, hgap, hlead, htail, rfl⟩ := h
  have hshows : List.Forall₂ (Shows item) (xs.map writeText) as :=
    List.forall₂_map_left_iff.2 (hitems.imp fun _ _ h => ⟨rfl, h⟩)
  have hlist := list_spread hlead htail hshows rest
  unfold list at hlist ⊢
  rw [List.append_assoc, skipSpace_append hgap]
  simpa using hlist

/-- Lists that are read one after the other as the named fields of a record. -/
inductive Takes {σ : Type} (fields : List (NamedField σ)) : σ → TextLists → σ → Prop
  | nil (s : σ) : Takes fields s [] s
  | cons {s s' s'' : σ} {name : String} {xs : List String} {lists : TextLists} {f : NamedField σ}
      (find : fields.find? (·.hasName name) = some f) (given : f.given s = false)
      (read : ∀ cs, SpellsList xs cs → ∀ rest, f.read s (cs ++ rest) = .ok (s', rest))
      (others : Takes fields s' lists s'') : Takes fields s ((name, xs) :: lists) s''

/-- An object of lists is read, list by list. -/
theorem record_spells {σ : Type} {fields : List (NamedField σ)} {s s' : σ} (name : String)
    {lists : TextLists} {cs : List Char} (htakes : Takes fields s lists s')
    (hcomplete : fields.find? (fun f => f.required && !f.given s') = none)
    (h : Spells lists cs) (rest : List Char) :
    record name fields s (cs ++ rest) = .ok (s', rest) := by
  obtain ⟨lead, tail, parts, hlead, htail, hparts, rfl⟩ := h
  have hfills : Fills fields s parts s' := by
    clear hcomplete
    induction htakes generalizing parts with
    | nil s =>
      rw [List.forall₂_nil_left_iff.1 hparts]
      exact .nil s
    | cons find given read _ ih =>
      obtain ⟨_, parts, ⟨value, hvalue, rfl⟩, hothers, rfl⟩ :=
        List.forall₂_cons_left_iff.1 hparts
      exact .cons (fun rest => (namedField_of_find? find given _).trans (read value hvalue rest))
        (ih _ hothers)
  simpa using record_spread name hlead htail hfills hcomplete rest

theorem texts_spells {xs : List String} {cs : List Char} (h : SpellsList xs cs) (rest : List Char) :
    texts (cs ++ rest) = .ok (xs, rest) :=
  list_spells (List.forall₂_same.2 fun x _ => text_write "a string" x) h rest

end Json

open Json

theorem ColumnType.types_spells {names : List String} {types : List ColumnType} {cs : List Char}
    (hnames : List.Forall₂ (fun name type => ofName? name = some type) names types)
    (h : SpellsList names cs) (rest : List Char) :
    Json.list ColumnType.reader (cs ++ rest) = .ok (types, rest) := by
  refine list_spells (hnames.imp fun name type htype rest => ?_) h rest
  unfold ColumnType.reader
  simp only [text_write, ok_bind, htype]

namespace Schema

/-- The types that names in a text stand for. -/
def Named (names : List String) (types : List ColumnType) : Prop :=
  List.Forall₂ (fun name type => ColumnType.ofName? name = some type) names types

variable {ids features labels idNames featureNames labelNames : List String}
  {idTypes featureTypes labelTypes : List ColumnType} {a b c : String}

theorem takes_fields (hid : Named idNames idTypes) (hfeature : Named featureNames featureTypes)
    (hlabel : Named labelNames labelTypes)
    (ha : a = "idTypes" ∨ a = "id_types") (hb : b = "featureTypes" ∨ b = "feature_types")
    (hc : c = "labelTypes" ∨ c = "label_types") :
    Takes fields .none [("ids", ids), ("features", features), ("labels", labels), (a, idNames),
        (b, featureNames), (c, labelNames)]
      ⟨some ids, some features, some labels, some idTypes, some featureTypes, some labelTypes⟩ := by
  have hfinda : fields.find? (·.hasName a) = some fields[3] := by rcases ha with rfl | rfl <;> rfl
  have hfindb : fields.find? (·.hasName b) = some fields[4] := by rcases hb with rfl | rfl <;> rfl
  have hfindc : fields.find? (·.hasName c) = some fields[5] := by rcases hc with rfl | rfl <;> rfl
  refine .cons rfl rfl (fun cs hcs rest => congrArg (Except.map _) (texts_spells hcs rest)) ?_
  refine .cons rfl rfl (fun cs hcs rest => congrArg (Except.map _) (texts_spells hcs rest)) ?_
  refine .cons rfl rfl (fun cs hcs rest => congrArg (Except.map _) (texts_spells hcs rest)) ?_
  refine .cons hfinda rfl
    (fun cs hcs rest => congrArg (Except.map _) (ColumnType.types_spells hid hcs rest)) ?_
  refine .cons hfindb rfl
    (fun cs hcs rest => congrArg (Except.map _) (ColumnType.types_spells hfeature hcs rest)) ?_
  refine .cons hfindc rfl
    (fun cs hcs rest => congrArg (Except.map _) (ColumnType.types_spells hlabel hcs rest)) ?_
  exact .nil _

/-- The lists of a schema are read, whichever of their two names the lists of types have. -/
theorem parse_spells {cs : List Char} (hid : Named idNames idTypes)
    (hfeature : Named featureNames featureTypes) (hlabel : Named labelNames labelTypes)
    (ha : a = "idTypes" ∨ a = "id_types") (hb : b = "featureTypes" ∨ b = "feature_types")
    (hc : c = "labelTypes" ∨ c = "label_types")
    (h : Spells [("ids", ids), ("features", features), ("labels", labels), (a, idNames),
      (b, featureNames), (c, labelNames)] cs) :
    parse (String.ofList cs) = .ok ⟨ids, features, labels, idTypes, featureTypes, labelTypes⟩ := by
  have hrecord := record_spells "TableSchema"
    (takes_fields hid hfeature hlabel ha hb hc) rfl h []
  have hread : reader cs =
      .ok (⟨ids, features, labels, idTypes, featureTypes, labelTypes⟩, []) := by
    unfold reader
    rw [← List.append_nil cs, hrecord]
    rfl
  unfold parse
  rw [parse_of_read hread]
  rfl

theorem named_map (types : List ColumnType) : Named (types.map ColumnType.name) types :=
  List.forall₂_map_left_iff.2 (List.forall₂_same.2 fun type _ => ColumnType.ofName?_name type)

/-- A schema that was written is read back. -/
theorem parse_write (s : Schema) : parse s.write = .ok s :=
  parse_spells (named_map s.idTypes) (named_map s.featureTypes) (named_map s.labelTypes)
    (.inl rfl) (.inl rfl) (.inl rfl) (spells_writeCompact s.textLists)

/-- The descriptor of an output is read as a schema. -/
theorem parse_descriptor {d : Descriptor} (hid : Named d.idTypes idTypes)
    (hfeature : Named d.featureTypes featureTypes) (hlabel : Named d.labelTypes labelTypes) :
    parse d.write = .ok ⟨d.ids, d.features, d.labels, idTypes, featureTypes, labelTypes⟩ :=
  parse_spells hid hfeature hlabel (.inl rfl) (.inl rfl) (.inl rfl) (spells_writePretty d.textLists)

end Schema

end Equijoin
