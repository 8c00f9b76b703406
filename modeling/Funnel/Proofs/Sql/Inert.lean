import Funnel.Proofs.Command.Names

/-!
# What queries are made of

What a query adds around names has none of the characters that could end a name or begin something
else, and the names of an accepted configuration have none either. So up to the filters it says what
it is meant to say.
-/

namespace Funnel

namespace Sql

/-- Characters that may end what stands around them, or begin a parameter: quotes, semicolons,
parentheses, backslashes, line breaks and dollar signs. -/
def reservedChars : List Char :=
  ['\'', '"', '\x60', ';', '(', ')', '\\', '\n', '\r', '\x0b', '\x0c', '\u0085', '\u2028', '\u2029',
    '$']

/-- What comments begin with. -/
def commentMarks : List String :=
  ["--", "/*"]

/-- A text with no comments, and no reserved characters but some that are allowed. -/
structure IsInert (allowed : List Char) (s : String) : Prop where
  chars : ∀ c ∈ reservedChars, c ∈ s.toList → c ∈ allowed
  comments : ∀ mark ∈ commentMarks, ¬ mark.toList <:+: s.toList

/-- A text in which some words stand in single quotes, in their order, and no other quotes. -/
inductive Quotes : List String → String → Prop
  | none {s : String} (h : '\'' ∉ s.toList) : Quotes [] s
  | word {before word after : String} {words : List String} (hbefore : '\'' ∉ before.toList)
      (hword : '\'' ∉ word.toList) (hafter : Quotes words after) :
      Quotes (word :: words) (before ++ "'" ++ word ++ "'" ++ after)

theorem Quotes.append {words words' : List String} {s t : String} (hs : Quotes words s)
    (ht : Quotes words' t) : Quotes (words ++ words') (s ++ t) := by
  induction hs with
  | @none s hs =>
    cases ht with
    | none ht => exact .none (by simp [hs, ht])
    | @word before word after words hbefore hword hafter =>
      have hfront : '\'' ∉ (s ++ before).toList := by simp [hs, hbefore]
      have h := Quotes.word hfront hword hafter
      simpa only [String.append_assoc, List.nil_append] using h
  | @word before word after words hbefore hword _ ih =>
    have h := Quotes.word hbefore hword ih
    simpa only [String.append_assoc, List.cons_append] using h

theorem Quotes.intercalate {words : List String} {separator : String}
    (hseparator : '\'' ∉ separator.toList) {part : String → String}
    (hparts : ∀ word ∈ words, Quotes [word] (part word)) :
    Quotes words (separator.intercalate (words.map part)) := by
  induction words with
  | nil => exact .none (by simp)
  | cons word words ih =>
    obtain ⟨hword, hwords⟩ := List.forall_mem_cons.1 hparts
    cases words with
    | nil =>
      rw [List.map_singleton, String.intercalate_singleton]
      exact hword
    | cons next words =>
      rw [List.map_cons, List.map_cons, String.intercalate_cons_cons]
      exact (hword.append (.none hseparator)).append (ih hwords)

/-- What names are put between in queries. -/
def separatorChars : List Char :=
  [' ', ',', ':', '=', '>', '-']

/-- A text of name characters, separators and some characters more, with minus signs only where
arrows start. -/
structure IsTame (allowed : List Char) (s : String) : Prop where
  chars : ∀ c ∈ s.toList, isNameChar c = true ∨ c ∈ separatorChars ∨ c ∈ allowed
  arrows : s.toList.IsChain fun c d => c = '-' → d = '>'
  getLast? : s.toList.getLast? ≠ some '-'

-- the characters of the text are tried, not all that there are
instance (allowed : List Char) (s : String) : Decidable (IsTame allowed s) :=
  decidable_of_iff
    ((s.toList.Forall fun c => isNameChar c = true ∨ c ∈ separatorChars ∨ c ∈ allowed) ∧
      (s.toList.IsChain fun c d => c = '-' → d = '>') ∧ s.toList.getLast? ≠ some '-')
    ⟨fun h => ⟨List.forall_iff_forall_mem.1 h.1, h.2.1, h.2.2⟩,
      fun h => ⟨List.forall_iff_forall_mem.2 h.chars, h.arrows, h.getLast?⟩⟩

variable {allowed : List Char} {s t : String}

theorem IsTame.append (hs : IsTame allowed s) (ht : IsTame allowed t) :
    IsTame allowed (s ++ t) where
  chars c hc := by
    rw [String.toList_append, List.mem_append] at hc
    exact hc.elim (hs.chars c) (ht.chars c)
  arrows := by
    rw [String.toList_append, List.isChain_append]
    exact ⟨hs.arrows, ht.arrows, fun c hc _ _ hminus => absurd (hminus ▸ hc) hs.getLast?⟩
  getLast? := by
    rw [String.toList_append, List.getLast?_append]
    cases hlast : t.toList.getLast? with
    | none => exact hs.getLast?
    | some c => exact fun heq => ht.getLast? (hlast.trans heq)

theorem IsTame.intercalate (hs : IsTame allowed s) {parts : List String}
    (hparts : ∀ part ∈ parts, IsTame allowed part) : IsTame allowed (s.intercalate parts) := by
  induction parts with
  | nil =>
    rw [String.intercalate_nil]
    exact ⟨nofun, .nil, nofun⟩
  | cons part parts ih =>
    obtain ⟨hpart, hrest⟩ := List.forall_mem_cons.1 hparts
    cases parts with
    | nil => rwa [String.intercalate_singleton]
    | cons next parts =>
      rw [String.intercalate_cons_cons]
      exact (hpart.append hs).append (ih hrest)

theorem IsTame.of_nil (h : IsTame [] s) : IsTame allowed s :=
  ⟨fun c hc => (h.chars c hc).imp_right (.imp_right nofun), h.arrows, h.getLast?⟩

/-- Reserved characters are no name characters and no separators, a slash is neither, and no minus
sign follows another one. -/
theorem IsTame.isInert (h : IsTame allowed s) (hallowed : allowed ⊆ reservedChars) :
    IsInert allowed s where
  chars c hc hmem := by
    have hreserved : ∀ c ∈ reservedChars, isNameChar c = false ∧ c ∉ separatorChars :=
      List.forall_iff_forall_mem.1 (by decide)
    obtain ⟨hname, hseparator⟩ := hreserved c hc
    rcases h.chars c hmem with hchar | hchar | hchar
    · rw [hname] at hchar
      cases hchar
    · exact absurd hchar hseparator
    · exact hchar
  comments mark hmark hinfix := by
    simp only [commentMarks, List.mem_cons, List.not_mem_nil, or_false] at hmark
    rcases hmark with rfl | rfl
    · have hchain := h.arrows.infix hinfix
      simp at hchain
    · have hslash : '/' ∉ reservedChars ∧ isNameChar '/' = false ∧ '/' ∉ separatorChars := by decide
      have hmem : '/' ∈ s.toList := hinfix.subset (by simp)
      rcases h.chars '/' hmem with hchar | hchar | hchar
      · rw [hslash.2.1] at hchar
        cases hchar
      · exact hslash.2.2 hchar
      · exact hslash.1 (hallowed hchar)

theorem IsTame.not_mem (h : IsTame [] s) : ∀ c ∈ reservedChars, c ∉ s.toList := fun c hc hmem =>
  absurd ((h.isInert (List.nil_subset _)).chars c hc hmem) List.not_mem_nil

theorem IsTame.quote_not_mem (h : IsTame [] s) : '\'' ∉ s.toList :=
  h.not_mem _ (List.mem_cons_self ..)

theorem IsName.isTame (h : IsName s) : IsTame allowed s := by
  have hchars := List.all_eq_true.1 (all_isNameChar_of_isIdentifier (isIdentifier_iff.2 h))
  have hminus : '-' ∉ s.toList := fun hmem => absurd (hchars _ hmem) (by decide)
  refine ⟨fun c hc => .inl (hchars c hc), ?_, fun hlast => hminus (List.mem_of_getLast? hlast)⟩
  refine (List.pairwise_of_forall_mem_list fun c hc d _ => ?_).isChain
  rintro rfl
  exact absurd hc hminus

section Parts

variable {value type name : String}

theorem isTame_column (hvalue : IsTame allowed value) (htype : IsTame allowed type)
    (hname : IsTame allowed name) : IsTame allowed (column value type name) := by
  have hcast : IsTame [] "::" := by decide
  have halias : IsTame [] " AS " := by decide
  exact (((hvalue.append hcast.of_nil).append htype).append halias.of_nil).append hname

theorem isTame_optionalColumn {value : Option String} (hvalue : ∀ name ∈ value, IsName name)
    (htype : IsTame allowed type) : IsTame allowed (optionalColumn value type) := by
  have hcast : IsTame [] "::" := by decide
  have hnull : IsTame [] "NULL" := by decide
  have hcolumn : IsTame allowed (value.getD "NULL") := by
    cases value with
    | none => exact hnull.of_nil
    | some name => exact (hvalue name rfl).isTame
  exact (hcolumn.append hcast.of_nil).append htype

theorem isTame_present (hvalue : IsTame allowed value) : IsTame allowed (present value) := by
  have hnull : IsTame [] " IS NOT NULL" := by decide
  exact hvalue.append hnull.of_nil

end Parts

section Events

variable {source : Source} {filters : List String} {windowed : Bool}

theorem eventsQuery_append_filters :
    eventsQuery source filters windowed =
      eventsQuery source [] windowed ++
        String.join (filters.map fun filter => " AND (" ++ filter ++ ")") := by
  simp [eventsQuery]

theorem isTame_eventsQuery (h : source.IsNamed) : IsTame [] (eventsQuery source [] false) := by
  have huser : IsTame [] source.userColumn := h.userColumn.isTame
  have hevent : IsTame [] source.eventColumn := h.eventColumn.isTame
  have htime : IsTame [] source.timeColumn := h.timeColumn.isTame
  have hsession : IsTame [] (source.sessionColumn.getD source.userColumn) := by
    cases hcolumn : source.sessionColumn with
    | none => exact huser
    | some column => exact (h.sessionColumn column hcolumn).isTame
  have hproperties :
      IsTame [] (optionalColumn source.propertiesColumn "jsonb" ++ " AS properties") :=
    (isTame_optionalColumn h.propertiesColumn (by decide)).append (by decide)
  have hcolumns : IsTame [] (", ".intercalate [
      column source.userColumn "text" "user_id",
      column (source.sessionColumn.getD source.userColumn) "text" "session_id",
      column source.eventColumn "text" "event_type",
      column source.timeColumn "timestamptz" "occurred_at",
      optionalColumn source.propertiesColumn "jsonb" ++ " AS properties"]) := by
    refine .intercalate (by decide) ?_
    simp only [List.forall_mem_cons, List.not_mem_nil, IsEmpty.forall_iff, implies_true, and_true]
    exact ⟨isTame_column huser (by decide) (by decide),
      isTame_column hsession (by decide) (by decide),
      isTame_column hevent (by decide) (by decide),
      isTame_column htime (by decide) (by decide), hproperties⟩
  have hconditions : IsTame [] (" AND ".intercalate ([source.userColumn,
      source.sessionColumn.getD source.userColumn, source.eventColumn, source.timeColumn].map
        present)) := by
    refine .intercalate (by decide) (List.forall_mem_map.2 fun value hvalue => isTame_present ?_)
    revert value
    simp only [List.forall_mem_cons, List.not_mem_nil, IsEmpty.forall_iff, implies_true, and_true]
    exact ⟨huser, hsession, hevent, htime⟩
  have hselect : IsTame [] "SELECT " := by decide
  have hfrom : IsTame [] " FROM " := by decide
  have hwhere : IsTame [] " WHERE " := by decide
  have hempty : IsTame [] "" := by decide
  exact ((((((hselect.append hcolumns).append hfrom).append h.table.isTame).append hwhere).append
    hconditions).append hempty).append hempty

/-- The parameter of a windowed query stands at its end. -/
theorem exists_eventsQuery_eq (h : source.IsNamed) :
    ∃ head, IsTame [] head ∧ eventsQuery source [] true = head ++ "$1" := by
  have hand : IsTame [] " AND " := by decide
  have hcast : IsTame [] "::timestamptz >= " := by decide
  have hparameter : "::timestamptz >= $1" = "::timestamptz >= " ++ "$1" := by decide
  refine ⟨_, (((isTame_eventsQuery h).append hand).append h.timeColumn.isTame).append hcast, ?_⟩
  simp [-String.reduceAppend, eventsQuery, hparameter, String.append_assoc]

end Events

section Attributes

variable {lookup : Lookup} {dimensions : List String} {attributes dimension : String}

/-- What stands around the columns of the dimensions. -/
theorem exists_attributesQuery_eq (h : lookup.IsNamed) :
    ∃ head tail, IsTame [] head ∧ IsTame [] tail ∧ ∀ dimensions,
      attributesQuery lookup dimensions =
        head ++ ", ".intercalate (dimensions.map (dimensionColumn lookup.attributesColumn)) ++
          tail := by
  have huser : IsTame [] lookup.userColumn := h.userColumn.isTame
  have htime : IsTame [] lookup.timeColumn := h.timeColumn.isTame
  have hcomma : IsTame [] ", " := by decide
  have hsession : IsTame [] (optionalColumn lookup.sessionColumn "text" ++ " AS session_id") :=
    (isTame_optionalColumn h.sessionColumn (by decide)).append (by decide)
  -- these columns are there in every query, and those of the dimensions follow them
  have hcolumns : IsTame [] (", ".intercalate [
      column lookup.userColumn "text" "user_id",
      optionalColumn lookup.sessionColumn "text" ++ " AS session_id",
      column lookup.timeColumn "timestamptz" "observed_at"]) := by
    refine .intercalate hcomma ?_
    simp only [List.forall_mem_cons, List.not_mem_nil, IsEmpty.forall_iff, implies_true, and_true]
    exact ⟨isTame_column huser (by decide) (by decide), hsession,
      isTame_column htime (by decide) (by decide)⟩
  have hconditions : IsTame [] (" AND ".intercalate
      ([lookup.userColumn, lookup.timeColumn].map present)) := by
    refine .intercalate (by decide) ?_
    simp only [List.map_cons, List.map_nil, List.forall_mem_cons, List.not_mem_nil,
      IsEmpty.forall_iff, implies_true, and_true]
    exact ⟨isTame_present huser, isTame_present htime⟩
  have hselect : IsTame [] "SELECT " := by decide
  have hfrom : IsTame [] " FROM " := by decide
  have hwhere : IsTame [] " WHERE " := by decide
  refine ⟨_, _, (hselect.append hcolumns).append hcomma,
    ((hfrom.append h.table.isTame).append hwhere).append hconditions, fun dimensions => ?_⟩
  simp [-String.reduceAppend, attributesQuery, String.append_assoc]

theorem isTame_attributesQuery (h : lookup.IsNamed)
    (hdimensions : ∀ dimension ∈ dimensions,
      IsTame allowed (dimensionColumn lookup.attributesColumn dimension)) :
    IsTame allowed (attributesQuery lookup dimensions) := by
  obtain ⟨head, tail, hhead, htail, heq⟩ := exists_attributesQuery_eq h
  have hcomma : IsTame [] ", " := by decide
  have hcolumns := IsTame.intercalate hcomma.of_nil (List.forall_mem_map.2 hdimensions)
  rw [heq]
  exact (hhead.of_nil.append hcolumns).append htail.of_nil

theorem isTame_plainColumn (hdimension : IsPlainName dimension) :
    IsTame allowed (dimensionColumn none dimension) := by
  have hname : IsTame allowed dimension := (IsName.plain hdimension).isTame
  have htext : IsTame [] "text" := by decide
  exact isTame_column hname htext.of_nil hname

theorem isTame_quotedColumn (hattributes : IsName attributes) (hdimension : IsPlainName dimension) :
    IsTame ['\''] (dimensionColumn (some attributes) dimension) := by
  have hname : IsTame ['\''] dimension := (IsName.plain hdimension).isTame
  have harrow : IsTame ['\''] "::jsonb ->> '" := by decide
  have halias : IsTame ['\''] "' AS " := by decide
  exact (((hattributes.isTame.append harrow).append hname).append halias).append hname

theorem quotes_quotedColumn (hattributes : IsName attributes) (hdimension : IsPlainName dimension) :
    Quotes [dimension] (dimensionColumn (some attributes) dimension) := by
  have hname : IsTame [] dimension := (IsName.plain hdimension).isTame
  have harrow : IsTame [] "::jsonb ->> " := by decide
  have halias : IsTame [] " AS " := by decide
  have heq : dimensionColumn (some attributes) dimension =
      attributes ++ "::jsonb ->> " ++ "'" ++ dimension ++ "'" ++ (" AS " ++ dimension) := by
    have hopen : "::jsonb ->> '" = "::jsonb ->> " ++ "'" := by decide
    have hclose : "' AS " = "'" ++ " AS " := by decide
    rw [dimensionColumn, hopen, hclose]
    simp only [String.append_assoc]
  rw [heq]
  exact .word (hattributes.isTame.append harrow).quote_not_mem hname.quote_not_mem
    (.none (halias.append hname).quote_not_mem)

theorem quotes_attributesQuery (h : lookup.IsNamed) (hsome : lookup.attributesColumn.isSome)
    (hdimensions : ∀ dimension ∈ dimensions, IsPlainName dimension) :
    Quotes dimensions (attributesQuery lookup dimensions) := by
  obtain ⟨head, tail, hhead, htail, heq⟩ := exists_attributesQuery_eq h
  obtain ⟨attributes, hattributes⟩ := Option.isSome_iff_exists.1 hsome
  have hname : IsName attributes := h.attributesColumn attributes hattributes
  have hcomma : IsTame [] ", " := by decide
  have hcolumns := Quotes.intercalate hcomma.quote_not_mem fun dimension hdimension =>
    quotes_quotedColumn hname (hdimensions dimension hdimension)
  rw [heq, hattributes]
  have hquotes := ((Quotes.none hhead.quote_not_mem).append hcolumns).append
    (.none htail.quote_not_mem)
  simpa only [List.nil_append, List.append_nil] using hquotes

end Attributes

end Sql

/-- The queries of a configuration keep to what they are meant to say. -/
structure Config.HasInertQueries (config : Config) : Prop where
  /-- Filters stand at the end of the query for events, each in parentheses. -/
  filters : ∀ windowed, Sql.eventsQuery config.source config.filters windowed =
    Sql.eventsQuery config.source [] windowed ++
      String.join (config.filters.map fun filter => " AND (" ++ filter ++ ")")
  events : Sql.IsInert [] (Sql.eventsQuery config.source [] false)
  /-- The only dollar sign is that of the parameter. -/
  windowedEvents : Sql.IsInert ['$'] (Sql.eventsQuery config.source [] true)
  parameter : ∃ head, Sql.eventsQuery config.source [] true = head ++ "$1" ∧ '$' ∉ head.toList
  attributes : ∀ lookup ∈ config.lookup, lookup.attributesColumn = none →
    Sql.IsInert [] (Sql.attributesQuery lookup config.dimensions)
  /-- The only quotes are those around the dimensions. -/
  quotedAttributes : ∀ lookup ∈ config.lookup, lookup.attributesColumn.isSome →
    Sql.IsInert ['\''] (Sql.attributesQuery lookup config.dimensions) ∧
      Sql.Quotes config.dimensions (Sql.attributesQuery lookup config.dimensions)

namespace Config

variable {config : Config}

theorem hasInertQueries_of_isNamed (hsource : config.source.IsNamed)
    (hlookup : ∀ lookup ∈ config.lookup, lookup.IsNamed)
    (hdimensions : ∀ name ∈ config.dimensions, Sql.IsPlainName name) : config.HasInertQueries where
  filters _ := Sql.eventsQuery_append_filters
  events := (Sql.isTame_eventsQuery hsource).isInert (List.nil_subset _)
  windowedEvents := by
    obtain ⟨head, hhead, heq⟩ := Sql.exists_eventsQuery_eq hsource
    have hparameter : Sql.IsTame ['$'] "$1" := by decide
    rw [heq]
    exact (hhead.of_nil.append hparameter).isInert (by decide)
  parameter := by
    obtain ⟨head, hhead, heq⟩ := Sql.exists_eventsQuery_eq hsource
    exact ⟨head, heq, hhead.not_mem _ (by decide)⟩
  attributes lookup hmem hnone :=
    (Sql.isTame_attributesQuery (hlookup lookup hmem) fun dimension hdimension => by
      rw [hnone]
      exact Sql.isTame_plainColumn (hdimensions dimension hdimension)).isInert (List.nil_subset _)
  quotedAttributes lookup hmem hsome := by
    obtain ⟨attributes, hattributes⟩ := Option.isSome_iff_exists.1 hsome
    have hname := (hlookup lookup hmem).attributesColumn attributes hattributes
    have htame : Sql.IsTame ['\''] (Sql.attributesQuery lookup config.dimensions) :=
      Sql.isTame_attributesQuery (hlookup lookup hmem) fun dimension hdimension => by
        rw [hattributes]
        exact Sql.isTame_quotedColumn hname (hdimensions dimension hdimension)
    exact ⟨htame.isInert (by decide),
      Sql.quotes_attributesQuery (hlookup lookup hmem) hsome hdimensions⟩

/-- Identifiers are plain names, or two with a point between, and the queries of an accepted
configuration keep to what they are meant to say. -/
theorem validate_keeps_queries_inert :
    (∀ s, Sql.isIdentifier s = true ↔ Sql.IsName s) ∧
      ∀ (config : Config) (warnings : List Ambiguity),
        config.validate = .ok warnings → config.HasInertQueries := by
  refine ⟨fun s => Sql.isIdentifier_iff, fun config warnings h => ?_⟩
  obtain ⟨-, hbindings, -, hdimensions, -, -⟩ := check_eq_ok_iff.1 (validate_eq_ok_iff.1 h).1
  obtain ⟨hsource, -, hlookup⟩ := forall_bindings_isNamed_iff.1 fun binding hbinding =>
    Binding.check_eq_ok_iff.1 (hbindings binding hbinding)
  exact hasInertQueries_of_isNamed hsource hlookup (checkDimensions_eq_ok_iff.1 hdimensions).1

/-- A funnel with filters, one of which has quotes, and with dimensions from a column of
attributes. -/
def tagged : Config :=
  { visits "reports" with
    filters := ["amount > 0", "event_name <> 'test'"]
    dimensions := ["os", "plan"]
    lookup := some
      { table := "shop.attributes"
        userColumn := "user_id"
        sessionColumn := none
        timeColumn := "observed_at"
        attributesColumn := some "attributes"
        selection := .latest } }

theorem validate_tagged_keeps_queries_inert :
    tagged.validate = .ok [] ∧ tagged.HasInertQueries := by
  have hvalidate : tagged.validate = .ok [] :=
    validate_eq_ok_iff.2 ⟨check_eq_ok_of_isOk (by decide +kernel), by cbv⟩
  exact ⟨hvalidate, validate_keeps_queries_inert.2 tagged [] hvalidate⟩

end Config

end Funnel
