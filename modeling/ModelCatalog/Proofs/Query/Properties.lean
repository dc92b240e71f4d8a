import ModelCatalog.Proofs.Outcome
import ModelCatalog.Proofs.Query.QuotedWords

/-!
# The grammar of properties expressions

A properties expression goes through three stages before it means something: quotes are put around
its words, the result is read as a document, and the document as lists of texts. Together they
recognise one small grammar, entries with commas between them, each a model with a list of words in
brackets, and nothing that documents could write beyond it.

## From texts to tokens

The grammar is compared with the tokens of an expression, construct by construct: `Reads` says that
the texts of an item are those that spell its tokens, and lists of items inherit it. What a document
has for its tokens is known from the reader, and its depth is two at most, far from the bound.
-/

namespace ModelCatalog

open Text

namespace PropertiesExpression

/-! ## The grammar

The grammar is given on characters and without reference to any reader. A gap is any run of spaces,
tabs and line ends. -/

section

variable {α : Type} (Item : List Char → α → Prop)

/-- Items with commas between them, and gaps around the commas. -/
inductive Separated : List Char → List α → Prop
  | last {cs : List Char} {a : α} : Item cs a → Separated cs [a]
  | more {cs before behind others : List Char} {a : α} {as : List α} : Item cs a → IsGap before →
    IsGap behind → Separated others as →
      Separated (cs ++ (before ++ ',' :: (behind ++ others))) (a :: as)

/-- Any number of items, with commas between them and gaps around all. -/
inductive Listed : List Char → List α → Prop
  | none {gap : List Char} : IsGap gap → Listed gap []
  | some {before cs behind : List Char} {as : List α} : IsGap before → Separated Item cs as →
    IsGap behind → Listed (before ++ (cs ++ behind)) as

end

/-- What may stand between a model and its list: nothing, or a colon with gaps around it. -/
inductive Link : List Char → Prop
  | nothing : Link []
  | colon {before behind : List Char} : IsGap before → IsGap behind →
    Link (before ++ ':' :: behind)

/-- A model with its properties. -/
inductive Entry : List Char → String × List String → Prop
  | intro {cs link listed : List Char} {model : String} {properties : List String} :
    Word cs model → Link link → Listed Word listed properties →
      Entry (cs ++ (link ++ '[' :: (listed ++ [']']))) (model, properties)

/-- The entries that an expression consists of. -/
abbrev Derives : List Char → List (String × List String) → Prop := Listed Entry

/-! ## The grammar on tokens

An item may be followed by nothing, by a comma, or by the end of a list. In front of these the
tokens of an item tell the texts that are read as the item. -/

/-- What a word before the text does not run into: neither a word nor a list begins the text. -/
def Apart (cs : List Char) : Prop := ¬beginsWord cs ∧ linkTokens cs = []

theorem apart_cons {c : Char} (hword : ¬isWordChar c) (hlist : c ≠ '[') (cs : List Char) :
    Apart (c :: cs) := by
  refine ⟨by simpa using hword, ?_⟩
  unfold linkTokens
  split
  · exact absurd (List.cons.inj ‹_›).1 hlist
  · rfl

private theorem apart_gap {c : Char} (hc : Token.isGap c) (cs : List Char) : Apart (c :: cs) :=
  apart_cons (not_isWordChar_of_isGap hc) (by rintro rfl; cases hc) cs

/-- Tokens that may follow an item: none, a comma, or the end of a list. -/
def Ends (tokens : List Token) : Prop :=
  ∀ token ∈ tokens.head?, token = .comma ∨ token = .closeArray

theorem Spells.apart {cs : List Char} {tokens : List Token} (h : Spells cs tokens)
    (hends : Ends tokens) : Apart cs := by
  cases h with
  | nil => exact ⟨by simp, rfl⟩
  | gap hc _ => exact apart_gap hc _
  | punctuation hc _ =>
    rcases hends _ rfl with rfl | rfl
    · obtain rfl := Token.eq_of_ofPunctuation? (d := ',') hc rfl
      exact apart_cons (by decide) (by decide) _
    · obtain rfl := Token.eq_of_ofPunctuation? (d := ']') hc rfl
      exact apart_cons (by decide) (by decide) _
  | word => simpa using hends _ rfl

/-- The tokens are those of the item, where a text is read as an item and what may follow it. -/
def Reads {α : Type} (Item : List Char → α → Prop) (write : α → List Token) : Prop :=
  ∀ {cs : List Char} {a : α} {tokens : List Token}, Ends tokens →
    (Spells cs (write a ++ tokens) ↔ ∃ gap read others, cs = gap ++ (read ++ others) ∧
      IsGap gap ∧ Item read a ∧ Spells others tokens)

private theorem reads_word : Reads Word fun word ↦ [.string word] := by
  intro cs word tokens hends
  rw [List.singleton_append, Spells.string_iff]
  constructor
  · rintro ⟨gap, read, others, further, rfl, rfl, hgap, hread, -, hfurther⟩
    have hlink : linkTokens others = [] := by
      unfold linkTokens at hends ⊢
      split at hends
      · simpa using hends _ rfl
      · rfl
    rw [hlink, List.nil_append]
    exact ⟨gap, read, others, rfl, hgap, hread, hfurther⟩
  · rintro ⟨gap, read, others, rfl, hgap, hread, hothers⟩
    obtain ⟨hword, hlink⟩ := hothers.apart hends
    exact ⟨gap, read, others, tokens, rfl, by rw [hlink, List.nil_append], hgap, hread, hword,
      hothers⟩

section

variable {α : Type} {Item : List Char → α → Prop} {write : α → List Token} {tokens : List Token}

theorem Reads.separated (h : Reads Item write) (hends : Ends tokens) {a : α} {as : List α}
    {cs : List Char} :
    Spells cs (Token.separated ((a :: as).map write) ++ tokens) ↔ ∃ gap read others,
      cs = gap ++ (read ++ others) ∧ IsGap gap ∧ Separated Item read (a :: as) ∧
        Spells others tokens := by
  -- on the items behind the first one: a comma follows all but the last
  induction as generalizing a cs with
  | nil =>
    have hlast : ∀ read, Separated Item read [a] ↔ Item read a := by
      intro read
      constructor
      · rintro (hitem | ⟨_, _, _, hothers⟩)
        · exact hitem
        · cases hothers
      · exact .last
    simp only [hlast]
    simpa [Token.separated] using h hends
  | cons b as ih =>
    have hmore : Token.separated ((a :: b :: as).map write) ++ tokens =
        write a ++ (.comma :: (Token.separated ((b :: as).map write) ++ tokens)) := by
      simp [Token.separated]
    have hcomma : Ends (.comma :: (Token.separated ((b :: as).map write) ++ tokens)) := by
      simp [Ends]
    rw [hmore, h hcomma]
    simp only [Spells.punctuation_iff (c := ',') rfl, ih]
    constructor
    · rintro ⟨gap, read, _, rfl, hgap, hread, before, _, rfl, hbefore, behind, others, rest, rfl,
        hbehind, hothers, hrest⟩
      exact ⟨gap, _, rest, by simp, hgap, .more hread hbefore hbehind hothers, hrest⟩
    · rintro ⟨gap, _, rest, rfl, hgap, hread | ⟨hread, hbefore, hbehind, hothers⟩, hrest⟩
      exact ⟨gap, _, _, by simp, hgap, hread, _, _, rfl, hbefore, _, _, rest, rfl, hbehind, hothers,
        hrest⟩

theorem Reads.listed (h : Reads Item write) (hends : Ends tokens) {as : List α} {cs : List Char} :
    Spells cs (Token.separated (as.map write) ++ tokens) ↔
      ∃ read others, cs = read ++ others ∧ Listed Item read as ∧ Spells others tokens := by
  cases as with
  | nil =>
    rw [List.map_nil, Token.separated, List.intercalate_nil, List.nil_append]
    constructor
    · intro hcs
      exact ⟨[], cs, rfl, .none isGap_nil, hcs⟩
    · rintro ⟨gap, others, rfl, hgap | ⟨_, hread, _⟩, hothers⟩
      · exact .gaps hgap hothers
      · cases hread
  | cons a as =>
    rw [h.separated hends]
    constructor
    · rintro ⟨gap, read, others, rfl, hgap, hread, hothers⟩
      exact ⟨_, others, by simp, .some hgap hread isGap_nil, hothers⟩
    · rintro ⟨_, others, rfl, _ | ⟨hgap, hread, hbehind⟩, hothers⟩
      exact ⟨_, _, _, by simp, hgap, hread, .gaps hbehind hothers⟩

end

theorem Listed.append {α : Type} {Item : List Char → α → Prop} {cs gap : List Char} {as : List α}
    (h : Listed Item cs as) (hgap : IsGap gap) : Listed Item (cs ++ gap) as := by
  cases h with
  | none hcs => exact .none (hcs.append hgap)
  | some hbefore hread hbehind =>
    rw [List.append_assoc, List.append_assoc]
    exact .some hbefore hread (hbehind.append hgap)

def entryTokens (entry : String × List String) : List Token :=
  Json.entryTokens (entry.1, Json.strings entry.2)

private theorem entryTokens_eq (model : String) (properties : List String) :
    entryTokens (model, properties) = .string model :: .colon :: .openArray ::
      (Token.separated (properties.map fun property ↦ [.string property]) ++ [.closeArray]) := by
  simp [entryTokens, Json.entryTokens, Json.strings, Json.tokens, Function.comp_def]

/-- Between a model and its list stands a colon, with gaps around it, or nothing. -/
theorem spells_link_iff {cs : List Char} {tokens : List Token} :
    (∃ further, .colon :: .openArray :: tokens = linkTokens cs ++ further ∧ ¬beginsWord cs ∧
      Spells cs further) ↔
        ∃ link others, cs = link ++ '[' :: others ∧ Link link ∧ Spells others tokens := by
  constructor
  · rintro ⟨further, htokens, -, hfurther⟩
    unfold linkTokens at htokens
    split at htokens
    · obtain rfl := (List.cons.inj htokens).2
      obtain ⟨gap, others, heq, hgap, hothers⟩ := (Spells.punctuation_iff (c := '[') rfl).1 hfurther
      -- the word would have had no colon if a gap stood between it and the list
      obtain rfl : gap = [] := by
        cases gap with
        | nil => rfl
        | cons c gap =>
          obtain ⟨rfl, -⟩ := List.cons.inj heq
          exact absurd (hgap '[' (by simp)) (by decide)
      exact ⟨[], others, heq, .nothing, hothers⟩
    · obtain rfl : _ = further := htokens
      obtain ⟨before, _, rfl, hbefore, hlist⟩ := (Spells.punctuation_iff (c := ':') rfl).1 hfurther
      obtain ⟨behind, others, rfl, hbehind, hothers⟩ :=
        (Spells.punctuation_iff (c := '[') rfl).1 hlist
      exact ⟨_, others, by simp, .colon hbefore hbehind, hothers⟩
  · rintro ⟨_, others, rfl, _ | ⟨hbefore, hbehind⟩, hothers⟩
    · exact ⟨_, rfl, by simp; decide, .punctuation rfl hothers⟩
    · rename_i before behind
      have hapart : Apart (before ++ ':' :: behind ++ '[' :: others) := by
        cases before with
        | nil => exact apart_cons (by decide) (by decide) _
        | cons c before => exact apart_gap (hbefore c (by simp)) _
      have hlist := Spells.gaps hbehind (.punctuation (c := '[') rfl hothers)
      have hcolon := Spells.gaps hbefore (.punctuation (c := ':') rfl hlist)
      exact ⟨_, by rw [hapart.2, List.nil_append], hapart.1, by simpa using hcolon⟩

private theorem reads_entry : Reads Entry entryTokens := by
  rintro cs ⟨model, properties⟩ tokens -
  have hlisted : ∀ {cs : List Char}, Spells cs (Token.separated (properties.map fun property ↦
      [.string property]) ++ (.closeArray :: tokens)) ↔ ∃ read others, cs = read ++ ']' :: others ∧
        Listed Word read properties ∧ Spells others tokens := by
    intro cs
    have hends : Ends (.closeArray :: tokens) := by simp [Ends]
    rw [reads_word.listed hends]
    simp only [Spells.punctuation_iff (c := ']') rfl]
    constructor
    · rintro ⟨read, _, rfl, hread, gap, others, rfl, hgap, hothers⟩
      exact ⟨read ++ gap, others, by simp, hread.append hgap, hothers⟩
    · rintro ⟨read, others, rfl, hread, hothers⟩
      exact ⟨read, _, rfl, hread, [], others, rfl, isGap_nil, hothers⟩
  have htokens : entryTokens (model, properties) ++ tokens =
      .string model :: .colon :: .openArray ::
        (Token.separated (properties.map fun property ↦ [.string property]) ++
          (.closeArray :: tokens)) := by
    simp [entryTokens_eq]
  rw [htokens, Spells.string_iff]
  constructor
  · rintro ⟨gap, read, others, further, rfl, hfurther, hgap, hread, hothers, hspells⟩
    obtain ⟨link, _, rfl, hlink, hlist⟩ := spells_link_iff.1 ⟨further, hfurther, hothers, hspells⟩
    obtain ⟨listed, rest, rfl, hproperties, hrest⟩ := hlisted.1 hlist
    exact ⟨gap, _, rest, by simp, hgap, .intro hread hlink hproperties, hrest⟩
  · rintro ⟨gap, _, rest, rfl, hgap, ⟨hread, hlink, hproperties⟩, hrest⟩
    obtain ⟨further, hfurther, hothers, hspells⟩ :=
      spells_link_iff.2 ⟨_, _, rfl, hlink, hlisted.2 ⟨_, rest, rfl, hproperties, hrest⟩⟩
    exact ⟨gap, _, _, further, by simp, hfurther, hgap, hread, hothers, hspells⟩

theorem derives_iff {cs : List Char} {entries : List (String × List String)} :
    Spells cs (Token.separated (entries.map entryTokens)) ↔ Derives cs entries := by
  have hends : Ends [] := by simp [Ends]
  rw [← List.append_nil (Token.separated _), reads_entry.listed hends]
  simp only [Spells.nil_iff]
  constructor
  · rintro ⟨read, gap, rfl, hread, hgap⟩
    exact hread.append hgap
  · intro h
    exact ⟨cs, [], by simp, h, isGap_nil⟩

/-! ## What is read

The texts of the entries become the strings of a document, and among equal names of models the last
one counts, as in every object. -/

private theorem strings?_eq_some_iff {value : Json} {words : List String} :
    Record.strings? value = some words ↔ value = Json.strings words := by
  have hstring : ∀ (item : Json) (word : String),
      item.string? = some word ↔ item = .string word := by
    intro item word
    cases item <;> simp [Json.string?]
  cases value with
  | array items =>
    have hread : Record.strings? (.array items) = items.mapM Json.string? := rfl
    rw [hread, Outcome.mapM_eq_some_iff_eq_map hstring, Json.strings, Json.array.injEq]
  | _ => simp [Record.strings?, Json.array?, Json.strings]

def document (entries : List (String × List String)) : Json :=
  .object (entries.map fun entry ↦ (entry.1, Json.strings entry.2))

private theorem mapping?_strings_eq_some_iff {value : Json} {properties : PropertiesExpression} :
    Record.mapping? Record.strings? value = some properties ↔
      ∃ entries, value = document entries ∧ properties = Fields.ofList entries := by
  have hentry : ∀ (entry : String × Json) (read : String × List String),
      (Record.strings? entry.2).map (entry.1, ·) = some read ↔
        entry = (read.1, Json.strings read.2) := by
    rintro ⟨key, value⟩ ⟨model, words⟩
    simp only [Option.map_eq_some_iff, strings?_eq_some_iff, Prod.mk.injEq]
    constructor
    · rintro ⟨_, rfl, rfl, rfl⟩
      exact ⟨rfl, rfl⟩
    · rintro ⟨rfl, rfl⟩
      exact ⟨words, rfl, rfl, rfl⟩
  cases value with
  | object fields =>
    have hread : Record.mapping? Record.strings? (.object fields) =
        (fields.mapM fun entry ↦ (Record.strings? entry.2).map (entry.1, ·)).bind
          fun entries ↦ some (Fields.ofList entries) := rfl
    rw [hread, Option.bind_eq_some_iff]
    simp only [Outcome.mapM_eq_some_iff_eq_map hentry, Option.some.injEq, document,
      Json.object.injEq, eq_comm (b := properties)]
  | _ => simp [Record.mapping?, Json.object?, document]

private theorem depth_document_le (entries : List (String × List String)) :
    (document entries).depth ≤ 2 := by
  have hwords : ∀ words : List String, Json.itemsDepth (words.map .string) = 0 := by
    intro words
    induction words with
    | nil => rfl
    | cons word words ih => simp [Json.itemsDepth, Json.depth, ih]
  have hentries :
      Json.fieldsDepth (entries.map fun entry ↦ (entry.1, Json.strings entry.2)) ≤ 1 := by
    induction entries with
    | nil => exact Nat.zero_le 1
    | cons entry entries ih =>
      rw [List.map_cons, Json.fieldsDepth, Json.strings, Json.depth, hwords]
      exact max_le le_rfl ih
  rw [document, Json.depth]
  omega

private theorem toList_objectText (expression : String) :
    (objectText expression).toList = '{' :: (quoted expression.toList ++ ['}']) := by
  simp [objectText, quoted]

private theorem read?_objectText_iff {expression : String} (hquote : '"' ∉ expression.toList)
    {entries : List (String × List String)} :
    Json.read? (objectText expression) = some (document entries) ↔
      Derives expression.toList entries := by
  have htokens : (document entries).tokens =
      .openObject :: (Token.separated (entries.map entryTokens) ++ [.closeObject]) := by
    rw [document, Json.tokens_object, List.map_map]
    rfl
  have hopen : ∀ {rest}, IsGap rest →
      (Token.Lexes (objectText expression).toList (document entries).tokens rest ↔
        Token.Lexes (quoted expression.toList ++ ['}'])
          (Token.separated (entries.map entryTokens) ++ [.closeObject]) rest) := by
    intro rest hrest
    rw [toList_objectText, htokens, lexes_iff (Token.next?_punctuation rfl _) (by simp) hrest]
    simp
  have hdepth : (document entries).depth < Reader.depthLimit :=
    Nat.lt_of_le_of_lt (depth_document_le entries) (by decide)
  rw [Json.read?_eq_some_iff, and_iff_right hdepth, ← derives_iff]
  constructor
  · rintro ⟨rest, hlexes, hrest⟩
    obtain ⟨spelled, heq, hspelled⟩ :=
      exists_spells_of_lexes hquote hrest ((hopen hrest).1 hlexes)
    rwa [List.append_cancel_right heq]
  · intro h
    exact ⟨[], (hopen isGap_nil).2 (lexes_of_spells h), isGap_nil⟩

/-- An expression without quotes is read as the entries that it derives from. -/
theorem parse_eq_ok_iff {expression : String} (hquote : '"' ∉ expression.toList)
    {properties : PropertiesExpression} :
    parse expression = .ok properties ↔
      ∃ entries, Derives expression.toList entries ∧ properties = Fields.ofList entries := by
  have hparse : parse expression = .ok properties ↔
      (Json.read? (objectText expression)).bind (Record.mapping? Record.strings?) =
        some properties := by
    rw [parse]
    split
    · rename_i read hread
      rw [hread, Except.ok.injEq, Option.some.injEq]
    · rename_i hnone
      simp [hnone]
  rw [hparse, Option.bind_eq_some_iff]
  simp only [mapping?_strings_eq_some_iff, ← read?_objectText_iff hquote]
  constructor
  · rintro ⟨_, hread, entries, rfl, heq⟩
    exact ⟨entries, hread, heq⟩
  · rintro ⟨entries, hread, heq⟩
    exact ⟨_, hread, entries, rfl, heq⟩

/-- **The grammar.** An expression without quotes is read exactly if it derives from entries. The
models are those of the entries, in the order of their first occurrences, and each has the
properties of its last one. -/
theorem ofJson_string {expression : String} (hquote : '"' ∉ expression.toList) :
    ((∃ properties, ofJson (.string expression) = .ok properties) ↔
      ∃ entries, Derives expression.toList entries) ∧
    ∀ entries, Derives expression.toList entries →
      ∃ properties, ofJson (.string expression) = .ok properties ∧
        properties.keys = (entries.map (·.1)).eraseDups ∧
          ∀ model, properties.get? model = Fields.get? entries.reverse model := by
  rw [ofJson]
  simp only [parse_eq_ok_iff hquote]
  refine ⟨?_, ?_⟩
  · constructor
    · rintro ⟨_, entries, hentries, -⟩
      exact ⟨entries, hentries⟩
    · rintro ⟨entries, hentries⟩
      exact ⟨_, entries, hentries, rfl⟩
  · intro entries hentries
    exact ⟨_, ⟨entries, hentries, rfl⟩, Fields.keys_ofList entries,
      fun model ↦ Fields.get?_ofList entries model⟩

theorem ofJson_string_usersAndPosts :
    let text := "User[id], Post:[], User[name]"
    '"' ∉ text.toList ∧
      Derives text.toList [("User", ["id"]), ("Post", []), ("User", ["name"])] ∧
        ∃ properties, ofJson (.string text) = .ok properties ∧
          properties.keys = ["User", "Post"] ∧ properties.get? "User" = some ["name"] ∧
            properties.get? "Post" = some [] := by
  intro text
  have hquote : '"' ∉ text.toList := by decide
  have hblank : IsGap [' '] := by simp [IsGap, Token.isGap]
  have hword : ∀ word : String, word.toList ≠ [] → word.toList.all isWordChar →
      Word word.toList word :=
    fun word hne hall ↦ ⟨hne, List.all_eq_true.1 hall, String.ofList_toList.symm⟩
  have hid : Entry "User[id]".toList ("User", ["id"]) :=
    .intro (hword "User" (by decide) (by decide)) .nothing
      (.some isGap_nil (.last (hword "id" (by decide) (by decide))) isGap_nil)
  have hnone : Entry "Post:[]".toList ("Post", []) :=
    .intro (hword "Post" (by decide) (by decide)) (.colon isGap_nil isGap_nil) (.none isGap_nil)
  have hname : Entry "User[name]".toList ("User", ["name"]) :=
    .intro (hword "User" (by decide) (by decide)) .nothing
      (.some isGap_nil (.last (hword "name" (by decide) (by decide))) isGap_nil)
  have hderives : Derives text.toList [("User", ["id"]), ("Post", []), ("User", ["name"])] := by
    have hentries := Listed.some isGap_nil
      (.more hid isGap_nil hblank (.more hnone isGap_nil hblank (.last hname))) isGap_nil
    simpa [text] using hentries
  obtain ⟨properties, hread, hkeys, hget⟩ := (ofJson_string hquote).2 _ hderives
  exact ⟨hquote, hderives, properties, hread, hkeys, hget "User", hget "Post"⟩

end PropertiesExpression

end ModelCatalog
