import ModelCatalog.Proofs.Table.Columns
import ModelCatalog.Proofs.Table.Quoting

/-!
# Defaults read back from statements

A default value that is a text, a list or a mapping is written as a literal, the text itself or the
compact document. A database reads the literal by the rule of `Sql.readQuoted?`: it accepts exactly
the texts between single quotes in which every single quote is doubled, as long as no single quote
follows. So the text or the document comes back whole, whatever quotes and backslashes are in it,
and what stands behind it is left.

In the statement that creates a table, what stands behind a default is the next column or the end of
the list of columns, and neither begins with a quote.
-/

namespace ModelCatalog

namespace Sql

/-! ## Literals -/

private theorem readQuoted?_eq_none {mark : Char} {cs : List Char} (h : cs.head? ≠ some mark) :
    readQuoted? mark cs = none := by
  rw [Option.eq_none_iff_forall_ne_some]
  rintro ⟨text, rest⟩ hread
  obtain ⟨rfl, -⟩ := readQuoted?_eq_some_iff.1 hread
  exact h rfl

/-- In front of a text that does not go on with a single quote, a literal is read back. -/
theorem readQuoted?_literal (text : String) {rest : List Char} (h : rest.head? ≠ some '\'') :
    readQuoted? '\'' ((literal text).toList ++ rest) = some (text.toList, rest) :=
  readQuoted?_eq_some_iff.2 ⟨toList_literal_append text rest, h⟩

private theorem readQuoted?_bare {text : String} (hbare : IsBare text) {rest : List Char}
    (h : rest.head? ≠ some '\'') : readQuoted? '\'' (text.toList ++ rest) = none := by
  refine readQuoted?_eq_none ?_
  have hbegins := hbare.beginsBare
  rcases hlist : text.toList with - | ⟨c, cs⟩
  · exact h
  · rw [hlist] at hbegins
    exact hbegins.head?_ne rfl

/-! ## Defaults -/

namespace Default

/-- The text of the literal that a default is written as, and what is written behind it. -/
def literal? : Default → Option (String × String)
  | .text value => some (value, "")
  | .document value => some (value.text, "::jsonb")
  | .currentTime | .number _ | .truth _ => none

/-- What is read from a default: its literal if it is written as one, and nothing otherwise. -/
theorem readQuoted?_sql (default : Default) {rest : List Char} (h : rest.head? ≠ some '\'') :
    readQuoted? '\'' (default.sql.toList ++ rest) =
      default.literal?.map fun (content, suffix) ↦ (content.toList, suffix.toList ++ rest) := by
  rcases default with - | value | value | value | value
  · exact readQuoted?_bare (by decide) h
  · exact readQuoted?_literal value h
  · exact readQuoted?_bare (isBare_number value) h
  · rcases value with - | - <;> exact readQuoted?_bare (by decide) h
  · have hsuffix : ("::jsonb".toList ++ rest).head? ≠ some '\'' := by simp
    rw [sql, String.toList_append, List.append_assoc, readQuoted?_literal value.text hsuffix]
    rfl

theorem readQuoted?_sql_eq_none_iff {value : Json} {default : Default}
    (hvalue : ofJson? value = some default) {rest : List Char} (h : rest.head? ≠ some '\'') :
    readQuoted? '\'' (default.sql.toList ++ rest) = none ↔
      value = .string "now()" ∨ (∃ number, value = .number number) ∨
        ∃ truth, value = .bool truth := by
  rw [readQuoted?_sql default h, Option.map_eq_none_iff]
  rcases value with - | truth | number | content | items | fields
  · cases hvalue
  · obtain rfl := Option.some.inj hvalue
    simp [literal?]
  · obtain rfl := Option.some.inj hvalue
    simp [literal?]
  · obtain rfl := Option.some.inj hvalue
    split <;> simp [literal?, *]
  · obtain rfl := Option.some.inj hvalue
    simp [literal?]
  · obtain rfl := Option.some.inj hvalue
    simp [literal?]

end Default

/-! ## Defaults in statements

The column stands somewhere in the list of columns, so the statement is the text in front of the
default, the default, and what stands behind it. -/

/-- Behind one of several texts there is nothing, or what stands between them. -/
theorem exists_intercalate_eq {sep : String} (hsep : IsBare sep) (hne : sep ≠ "")
    {texts : List String} {text : String} (h : text ∈ texts) :
    ∃ before after, sep.intercalate texts = before ++ text ++ after ∧ BeginsBare after.toList := by
  induction texts with
  | nil => cases h
  | cons first others ih =>
    -- only behind the last text there is nothing
    rcases others with - | ⟨second, others⟩
    · obtain rfl := List.mem_singleton.1 h
      exact ⟨"", "", by simp, rfl⟩
    · rw [String.intercalate_cons_cons]
      rcases List.mem_cons.1 h with rfl | h
      · refine ⟨"", sep ++ sep.intercalate (second :: others), ?_, hsep.beginsBare_append hne _⟩
        simp [String.append_assoc]
      · obtain ⟨before, after, heq, hafter⟩ := ih h
        refine ⟨first ++ sep ++ before, after, ?_, hafter⟩
        rw [heq]
        simp only [String.append_assoc]

end Sql

open Sql

/-- Between the name of a column and its default stands nothing quoted, unless the column refers to
another. -/
theorem Column.exists_sql_eq {c : Column} (hreferences : c.references = none)
    {default : Sql.Default} (hdefault : c.default = some default) : ∃ flags, IsBare flags ∧
      c.sql = Sql.identifier c.name ++ flags ++ " DEFAULT " ++ default.sql := by
  have htype : IsBare c.type.sql := by rcases c.type <;> decide
  have hflags : IsBare (" " ++ c.type.sql ++ (if c.primary then " PRIMARY KEY" else "") ++
      (if c.notNull then " NOT NULL" else "") ++ (if c.unique then " UNIQUE" else "")) :=
    ((((by decide : IsBare " ").append htype).append_if c.primary (by decide)).append_if
      c.notNull (by decide)).append_if c.unique (by decide)
  refine ⟨_, hflags, ?_⟩
  simp only [Column.sql, hreferences, hdefault, Option.map_none, Option.map_some, Option.getD_none,
    Option.getD_some, String.append_empty, String.append_assoc]

/-- A column stands in the statement that creates its table, and no quote stands behind it. -/
theorem Table.exists_createStatement_eq {t : Table} {c : Column} (h : c ∈ t.columns) :
    ∃ before after, t.createStatement = before ++ c.sql ++ after ∧ BeginsBare after.toList := by
  have hdeclared : c.sql ∈ t.declarations := List.mem_append_left _ (List.mem_map_of_mem h)
  obtain ⟨before, after, heq, hafter⟩ :=
    exists_intercalate_eq (by decide : IsBare ",\n  ") (by decide) hdeclared
  refine ⟨"CREATE TABLE IF NOT EXISTS " ++ Sql.identifier t.name ++ " (\n  " ++ before,
    after ++ "\n)", ?_, ?_⟩
  · -- not by rw, which would try to close the goal by computing with the texts
    unfold Table.createStatement
    rewrite [heq]
    simp only [String.append_assoc]
  · rw [String.toList_append]
    exact hafter.append (by decide)

namespace Model

/-- The property has a column of its own, and its schema gives it this value as a default. -/
def HasDefault (m : Model) (property : String) (value : Json) : Prop :=
  property ∉ m.idProperties ∧ ∃ schema, (property, schema) ∈ m.properties ∧
    ∃ expanded, m.expandProperty schema = .ok expanded ∧ marks expanded "computed" = false ∧
      expanded.get? "default" = some value

variable {registry : Registry} {style : NamingStyle} {m : Model} {now : Timestamp} {mig : Migration}

theorem HasDefault.exists_column {property : String} {value : Json}
    (h : m.HasDefault property value) (hmig : m.migration registry style now = .ok mig) :
    ∃ c ∈ mig.table.columns, c.name = style.apply property ∧ c.references = none ∧
      c.default = Sql.Default.ofJson? value := by
  obtain ⟨t, ht, rfl⟩ := migration_eq_ok_iff.1 hmig
  obtain ⟨keys, -, properties, hproperties, rfl⟩ := table_eq_ok_iff.1 ht
  obtain ⟨hid, schema, hschema, expanded, hexpanded, hcomputed, hvalue⟩ := h
  have hcolumn : m.propertyColumn? style (property, schema) = .ok (some _) :=
    propertyColumn?_eq_ok_some_iff.2 ⟨expanded, hexpanded, hcomputed, rfl⟩
  refine ⟨_, List.mem_append_right _ ((mem_propertyColumns_iff hproperties).2
    ⟨_, hschema, hid, hcolumn⟩), rfl, rfl, ?_⟩
  simp [hvalue]

/-- A default stands in the statement that creates the table, behind the name of its column, and no
quote stands behind it. -/
theorem HasDefault.exists_createStatement_eq {property : String} {value : Json}
    (h : m.HasDefault property value) (hmig : m.migration registry style now = .ok mig)
    {default : Sql.Default} (hdefault : Sql.Default.ofJson? value = some default) :
    ∃ before flags after, IsBare flags ∧ BeginsBare after.toList ∧
      mig.table.createStatement = before ++ Sql.identifier (style.apply property) ++ flags ++
        " DEFAULT " ++ default.sql ++ after := by
  obtain ⟨c, hc, hname, hreferences, hcolumn⟩ := h.exists_column hmig
  obtain ⟨flags, hflags, hsql⟩ := c.exists_sql_eq hreferences (hcolumn.trans hdefault)
  obtain ⟨before, after, heq, hafter⟩ := Table.exists_createStatement_eq hc
  refine ⟨before, flags, after, hflags, hafter, ?_⟩
  rw [heq, hsql, hname]
  simp only [String.append_assoc]

end Model

/-- **Defaults in statements.** A text other than `now()` comes back whole from the literal that it
is written as, and a list or a mapping comes back as its compact document, with what follows left
over; no other default is a literal. In the statement that creates the table of a model, what
follows a default is of the kind that this asks for. -/
theorem Sql.literalReadsBack (value : Json) (rest : List Char) (h : rest.head? ≠ some '\'') :
    (∀ content, value = .string content → content ≠ "now()" →
      ∃ default, Default.ofJson? value = some default ∧
        readQuoted? '\'' (default.sql.toList ++ rest) = some (content.toList, rest)) ∧
    (value.isArray ∨ value.isObject → ∃ default, Default.ofJson? value = some default ∧
      readQuoted? '\'' (default.sql.toList ++ rest) =
        some (value.text.toList, "::jsonb".toList ++ rest)) ∧
    ∀ default, Default.ofJson? value = some default →
      (readQuoted? '\'' (default.sql.toList ++ rest) = none ↔
        value = .string "now()" ∨ (∃ number, value = .number number) ∨
          ∃ truth, value = .bool truth) ∧
      ∀ registry style m now mig, Model.migration registry style now m = .ok mig →
        ∀ property, m.HasDefault property value → ∃ before flags after, IsBare flags ∧
          mig.table.createStatement = before ++ Sql.identifier (style.apply property) ++ flags ++
            " DEFAULT " ++ default.sql ++ after ∧ after.toList.head? ≠ some '\'' := by
  refine ⟨?_, ?_, ?_⟩
  · rintro content rfl hcontent
    refine ⟨.text content, by simp [Default.ofJson?, hcontent], ?_⟩
    exact Default.readQuoted?_sql (.text content) h
  · intro hvalue
    have hdocument : Default.ofJson? value = some (.document value) := by
      rcases hvalue with harray | hobject
      · obtain ⟨items, rfl⟩ := Json.isArray_iff.1 harray
        rfl
      · obtain ⟨fields, rfl⟩ := Json.isObject_iff.1 hobject
        rfl
    exact ⟨.document value, hdocument, Default.readQuoted?_sql (.document value) h⟩
  · intro default hdefault
    refine ⟨Default.readQuoted?_sql_eq_none_iff hdefault h, ?_⟩
    intro registry style m now mig hmig property hproperty
    obtain ⟨before, flags, after, hflags, hafter, heq⟩ :=
      hproperty.exists_createStatement_eq hmig hdefault
    exact ⟨before, flags, after, hflags, heq, hafter.head?_ne rfl⟩

/-- Notes with a mood and labels, whose defaults have quotes and a backslash in them. -/
def Model.quotedNotes : Model :=
  { Model.named "Note" with
    properties := [("mood", .object [("type", .string "string"), ("default", .string "it's \\'")]),
      ("labels", .object [("type", .string "object"),
        ("default", .object [("a'b", .array [.string "'", .string "\""])])])] }

theorem Sql.literalReadsBack_quotedNotes : ",\n".toList.head? ≠ some '\'' ∧
    (∃ default, Default.ofJson? (.string "it's \\'") = some default ∧
      readQuoted? '\'' (default.sql.toList ++ ",\n".toList) =
        some ("it's \\'".toList, ",\n".toList)) ∧
    (∃ default,
      Default.ofJson? (.object [("a'b", .array [.string "'", .string "\""])]) = some default ∧
        readQuoted? '\'' (default.sql.toList ++ ",\n".toList) =
          some ("\x7b\"a'b\":[\"'\",\"\\\"\"]\x7d".toList, "::jsonb,\n".toList)) ∧
    ∃ mig, Model.quotedNotes.migration (.exact []) ⟨false⟩ ⟨2024, 3, 9, 8, 5, 7⟩ = .ok mig ∧
      ∃ before flags after, IsBare flags ∧
        mig.table.createStatement = before ++ Sql.identifier "mood" ++ flags ++ " DEFAULT " ++
          "'it''s \\'''" ++ after ∧ after.toList.head? ≠ some '\'' := by
  have hrest : ",\n".toList.head? ≠ some '\'' := by decide
  obtain ⟨htext, -, hmood⟩ := literalReadsBack (.string "it's \\'") ",\n".toList hrest
  obtain ⟨-, hdocument, -⟩ :=
    literalReadsBack (.object [("a'b", .array [.string "'", .string "\""])]) ",\n".toList hrest
  have hproperty : Model.quotedNotes.HasDefault "mood" (.string "it's \\'") :=
    ⟨by decide, _, .head _, _, rfl, rfl, rfl⟩
  have hmig : Model.quotedNotes.migration (.exact []) ⟨false⟩ ⟨2024, 3, 9, 8, 5, 7⟩ = .ok _ := rfl
  obtain ⟨-, hplace⟩ := hmood (.text "it's \\'") rfl
  refine ⟨hrest, htext _ rfl (by decide), ?_, _, hmig, hplace _ _ _ _ _ hmig _ hproperty⟩
  exact hdocument (.inr rfl)

end ModelCatalog
