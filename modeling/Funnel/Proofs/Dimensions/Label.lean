import Funnel.Proofs.NameMap

/-!
# Headings of dimension maps

Headings are written without quoting. A map is legible if each of its values ends where the next
name is first seen. Among the maps of the same names that have a heading there is exactly one
legible one.
-/

namespace Funnel.Dimensions

/-- A value as headings show it. -/
def shown (value : Option String) : String :=
  value.getD "(none)"

/-- What a heading has between a value and the value of the next name. -/
def separator (next : String) : String :=
  ", " ++ next ++ "="

/-- With a separator behind it, a text shows this separator before its own end. -/
def EndsEarly (sep text : String) : Prop :=
  ∃ before after, text ++ sep = before ++ sep ++ after ∧ after ≠ ""

/-- Entries are legible if no value is the text for an unset one and no value ends early in front of
the next name. -/
structure AreLegible (entries : List (String × Option String)) : Prop where
  values : ∀ entry ∈ entries, entry.2 ≠ some "(none)"
  separators : entries.IsChain fun entry next => ¬ EndsEarly (separator next.1) (shown entry.2)

/-- A map is legible if its entries are. -/
def IsLegible (d : Dimensions) : Prop :=
  AreLegible d.entries

/-- What a heading says behind the first name and its equals sign. -/
def valuesText : List (String × Option String) → String
  | [] => ""
  | [entry] => shown entry.2
  | entry :: next :: rest => shown entry.2 ++ separator next.1 ++ valuesText (next :: rest)

variable {sep text other : String} {entry next : String × Option String}
  {entries others rest : List (String × Option String)}

/-- In front of a separator a text does not end early unless it goes on from a shorter one that the
separator stands behind as well. -/
theorem eq_nil_of_not_endsEarly {more rest rest' : List Char} (hends : ¬ EndsEarly sep other)
    (hmore : other.toList = text.toList ++ more)
    (hsep : sep.toList ++ rest = more ++ (sep.toList ++ rest')) : more = [] := by
  by_contra hne
  have hprefix : sep.toList <+: more ++ sep.toList := by
    have hsum : more ++ sep.toList <+: sep.toList ++ rest := by
      rw [hsep, ← List.append_assoc]
      exact List.prefix_append ..
    exact List.prefix_of_prefix_length_le (List.prefix_append ..) hsum (by simp)
  obtain ⟨after, hafter⟩ := hprefix
  refine hends ⟨text, String.ofList after, ?_, ?_⟩
  · rw [← String.toList_inj]
    simp [hmore, hafter]
  · intro hempty
    have hnil : after = [] := by simpa using hempty
    rw [hnil, List.append_nil] at hafter
    exact hne (List.self_eq_append_left.1 hafter)

/-- Two texts that do not end early end at the same place, if the same follows. -/
theorem append_inj_of_not_endsEarly {rest rest' : String} (htext : ¬ EndsEarly sep text)
    (hother : ¬ EndsEarly sep other) (h : text ++ sep ++ rest = other ++ sep ++ rest') :
    text = other ∧ rest = rest' := by
  have hlists : text.toList ++ (sep.toList ++ rest.toList) =
      other.toList ++ (sep.toList ++ rest'.toList) := by
    simpa using congrArg String.toList h
  have htexts : text = other := by
    rw [← String.toList_inj]
    obtain ⟨more, hmore, hsep⟩ | ⟨more, hmore, hsep⟩ := List.append_eq_append_iff.1 hlists
    · rw [hmore, eq_nil_of_not_endsEarly hother hmore hsep, List.append_nil]
    · rw [hmore, eq_nil_of_not_endsEarly htext hmore hsep, List.append_nil]
  rw [htexts] at hlists
  refine ⟨htexts, String.toList_inj.1 ?_⟩
  exact List.append_cancel_left (List.append_cancel_left hlists)

/-- A text with a separator behind it begins with a text that does not end early and a
separator. -/
theorem exists_not_endsEarly (sep text : String) :
    ∃ short more, text ++ sep = short ++ sep ++ more ∧ ¬ EndsEarly sep short := by
  by_cases h : EndsEarly sep text
  · -- the separator that is shown early stands behind a shorter text
    obtain ⟨before, after, heq, hafter⟩ := h
    have hlength : before.length < text.length := by
      have hsum := congrArg String.length heq
      simp only [String.length_append] at hsum
      have hpositive : after.length ≠ 0 := by simpa using hafter
      omega
    obtain ⟨short, more, hshort, hends⟩ := exists_not_endsEarly sep before
    exact ⟨short, more ++ after, by rw [heq, hshort, String.append_assoc], hends⟩
  · exact ⟨text, "", by simp, h⟩
termination_by text.length

/-- Lists that are alike have the last place of a character in common. -/
theorem eq_nil_of_append_cons_eq {c : Char} {before front rest after : List Char}
    (hc : c ∉ rest ++ after) (h : before ++ c :: (rest ++ after) = front ++ c :: rest) :
    after = [] := by
  obtain ⟨more, -, hmore⟩ | ⟨more, -, hmore⟩ := List.append_eq_append_iff.1 h
  · cases more with
    | nil => simpa using hmore
    | cons d more =>
      rw [List.cons_append] at hmore
      rw [(List.cons_eq_cons.1 hmore).2] at hc
      simp at hc
  · have hlength := congrArg List.length hmore
    simp only [List.length_cons, List.length_append] at hlength
    exact List.length_eq_zero_iff.1 (by omega)

/-- The separator in front of a name without a comma does not overlap with itself, so what ends
early has it within. -/
theorem endsEarly_iff_occurs {name : String} (h : ',' ∉ name.toList) :
    EndsEarly (separator name) text ↔ (separator name).toList <:+: text.toList := by
  obtain ⟨tail, hsep, hcomma⟩ :
      ∃ tail : List Char, (separator name).toList = ',' :: tail ∧ ',' ∉ tail :=
    ⟨' ' :: name.toList ++ ['='], by simp [separator], by simpa using h⟩
  constructor
  · rintro ⟨before, after, heq, hafter⟩
    have hlists : before.toList ++ (separator name).toList ++ after.toList =
        text.toList ++ (separator name).toList := by
      simpa using congrArg String.toList heq.symm
    obtain ⟨rest, htext, -⟩ | ⟨rest, htext, hrest⟩ := List.append_eq_append_iff.1 hlists
    · exact ⟨before.toList, rest, htext.symm⟩
    · cases rest with
      | nil => exact ⟨before.toList, [], by simpa using htext⟩
      | cons c rest =>
        -- of two separators that overlap the first has the comma of the second
        rw [hsep, List.cons_append] at hrest
        obtain ⟨rfl, rfl⟩ := List.cons_eq_cons.1 hrest
        rw [hsep] at htext
        exact absurd (eq_nil_of_append_cons_eq hcomma htext) (by simpa using hafter)
  · rintro ⟨before, rest, heq⟩
    refine ⟨String.ofList before, String.ofList rest ++ separator name, ?_, by simp [separator]⟩
    rw [← String.toList_inj]
    simp [← heq]

theorem areLegible_cons_cons : AreLegible (entry :: next :: rest) ↔
    entry.2 ≠ some "(none)" ∧ ¬ EndsEarly (separator next.1) (shown entry.2) ∧
      AreLegible (next :: rest) := by
  constructor
  · rintro ⟨hvalues, hseparators⟩
    obtain ⟨hvalue, hvalues⟩ := List.forall_mem_cons.1 hvalues
    obtain ⟨hseparator, hseparators⟩ := List.isChain_cons_cons.1 hseparators
    exact ⟨hvalue, hseparator, hvalues, hseparators⟩
  · rintro ⟨hvalue, hseparator, hvalues, hseparators⟩
    exact ⟨List.forall_mem_cons.2 ⟨hvalue, hvalues⟩,
      List.isChain_cons_cons.2 ⟨hseparator, hseparators⟩⟩

theorem areLegible_singleton : AreLegible [entry] ↔ entry.2 ≠ some "(none)" :=
  ⟨fun h => h.values entry (List.mem_singleton_self _),
    fun h => ⟨List.forall_mem_singleton.2 h, .singleton _⟩⟩

theorem shown_injOn {value value' : Option String} (h : value ≠ some "(none)")
    (h' : value' ≠ some "(none)") (heq : shown value = shown value') : value = value' := by
  cases value <;> cases value' <;> simp_all [shown]

/-- Legible entries of the same names are told apart by what a heading says of them. -/
theorem AreLegible.eq_of_valuesText_eq (h : AreLegible entries) (hother : AreLegible others)
    (hnames : entries.map Prod.fst = others.map Prod.fst)
    (heq : valuesText entries = valuesText others) : entries = others := by
  induction entries generalizing others with
  | nil =>
    exact (List.map_eq_nil_iff.1 hnames.symm).symm
  | cons entry rest ih =>
    obtain ⟨entry', rest', rfl, hname, hnames⟩ := List.map_eq_cons_iff.1 hnames.symm
    cases rest with
    | nil =>
      obtain rfl := List.map_eq_nil_iff.1 hnames
      rw [Prod.ext hname.symm
        (shown_injOn (areLegible_singleton.1 h) (areLegible_singleton.1 hother) heq)]
    | cons next rest =>
      obtain ⟨next', rest', rfl, hname', -⟩ := List.map_eq_cons_iff.1 hnames
      obtain ⟨hvalue, hseparator, hrest⟩ := areLegible_cons_cons.1 h
      obtain ⟨hvalue', hseparator', hrest'⟩ := areLegible_cons_cons.1 hother
      rw [hname'] at hseparator'
      rw [valuesText, valuesText, hname'] at heq
      obtain ⟨hshown, htext⟩ := append_inj_of_not_endsEarly hseparator hseparator' heq
      rw [ih hrest hrest' hnames.symm htext,
        Prod.ext hname.symm (shown_injOn hvalue hvalue' hshown)]

/-- Text in front of some entries belongs to the first value. -/
theorem append_valuesText (text : String) :
    text ++ valuesText (entry :: rest) =
      valuesText ((entry.1, some (text ++ shown entry.2)) :: rest) := by
  cases rest with
  | nil => rfl
  | cons next rest => simp [valuesText, shown, String.append_assoc]

/-- Every text is a value as headings show it; the text for an unset value is read as one. -/
theorem exists_shown_eq (text : String) :
    ∃ value, value ≠ some "(none)" ∧ shown value = text := by
  by_cases h : text = "(none)"
  · exact ⟨none, by simp, h.symm⟩
  · exact ⟨some text, by simpa using h, rfl⟩

/-- What a heading says of some entries it says of legible entries of the same names: each value
ends where the next name is first seen, and the next value begins there. -/
theorem exists_areLegible_cons (rest : List (String × Option String))
    (entry : String × Option String) :
    ∃ legible, AreLegible legible ∧ legible.map Prod.fst = (entry :: rest).map Prod.fst ∧
      valuesText legible = valuesText (entry :: rest) := by
  -- what is cut off the first value goes to the second one, so that value is any in the induction
  induction rest generalizing entry with
  | nil =>
    obtain ⟨value, hvalue, hshown⟩ := exists_shown_eq (shown entry.2)
    exact ⟨[(entry.1, value)], areLegible_singleton.2 hvalue, rfl, hshown⟩
  | cons next rest ih =>
    obtain ⟨short, more, heq, hends⟩ := exists_not_endsEarly (separator next.1) (shown entry.2)
    obtain ⟨value, hvalue, rfl⟩ := exists_shown_eq short
    obtain ⟨legible, hlegible, hnames, htext⟩ := ih (next.1, some (more ++ shown next.2))
    obtain ⟨next', rest', rfl, hname, -⟩ := List.map_eq_cons_iff.1 hnames
    refine ⟨(entry.1, value) :: next' :: rest', areLegible_cons_cons.2 ⟨hvalue, ?_, hlegible⟩,
      congrArg (entry.1 :: ·) hnames, ?_⟩
    · rwa [hname]
    · rw [valuesText, valuesText, hname, htext, ← append_valuesText, heq]
      simp only [String.append_assoc]

theorem exists_areLegible (entries : List (String × Option String)) :
    ∃ legible, AreLegible legible ∧ legible.map Prod.fst = entries.map Prod.fst ∧
      valuesText legible = valuesText entries := by
  cases entries with
  | nil => exact ⟨[], ⟨by simp, .nil⟩, rfl, rfl⟩
  | cons entry rest => exact exists_areLegible_cons rest entry

theorem intercalate_entries (entry : String × Option String)
    (rest : List (String × Option String)) :
    ", ".intercalate ((entry :: rest).map fun entry => entry.1 ++ "=" ++ shown entry.2) =
      entry.1 ++ "=" ++ valuesText (entry :: rest) := by
  induction rest generalizing entry with
  | nil => exact String.intercalate_singleton
  | cons next rest ih =>
    have hnext := ih next
    rw [List.map_cons] at hnext
    rw [List.map_cons, List.map_cons, String.intercalate_cons_cons, hnext, valuesText, separator]
    simp only [String.append_assoc]

theorem label_of_entries {d : Dimensions} (h : d.entries = entry :: rest) :
    d.label = entry.1 ++ "=" ++ valuesText (entry :: rest) := by
  have hnonempty : d.isEmpty = false := by rw [NameMap.isEmpty, h]; rfl
  rw [label, hnonempty, h]
  exact intercalate_entries entry rest

/-- Maps of the same names have the same heading if it says the same of their values. -/
theorem label_eq_label_iff {d e : Dimensions} (hnames : d.names = e.names) :
    d.label = e.label ↔ valuesText d.entries = valuesText e.entries := by
  cases hd : d.entries with
  | nil =>
    have he : e.entries = [] := by
      simpa [NameMap.names, hd] using hnames.symm
    rw [NameMap.entries_injective (hd.trans he.symm), he]
    exact iff_of_true rfl rfl
  | cons entry rest =>
    have hcons : e.entries.map Prod.fst = entry.1 :: rest.map Prod.fst := by
      simpa [NameMap.names, hd] using hnames.symm
    obtain ⟨entry', rest', he, hname, -⟩ := List.map_eq_cons_iff.1 hcons
    rw [label_of_entries hd, label_of_entries he, he, hname]
    simp

/-- Legible maps of the same names are told apart by their headings. -/
theorem IsLegible.eq_of_label_eq {d e : Dimensions} (hd : d.IsLegible) (he : e.IsLegible)
    (hnames : d.names = e.names) (h : d.label = e.label) : d = e :=
  NameMap.entries_injective
    (AreLegible.eq_of_valuesText_eq hd he hnames ((label_eq_label_iff hnames).1 h))

/-- A heading belongs to exactly one legible map of the names that it is a heading for. -/
theorem existsUnique_isLegible (d : Dimensions) :
    ∃! e : Dimensions, e.IsLegible ∧ e.names = d.names ∧ e.label = d.label := by
  obtain ⟨legible, hlegible, hnames, htext⟩ := exists_areLegible d.entries
  have hascending : legible.Pairwise fun a b => compare a.1 b.1 = .lt := by
    have hkeys : (legible.map Prod.fst).Pairwise fun a b => compare a b = .lt := by
      rw [hnames]
      exact List.pairwise_map.2 d.ascending
    exact List.pairwise_map.1 hkeys
  let e : Dimensions := ⟨legible, hascending⟩
  have hlabel : e.label = d.label := (label_eq_label_iff (d := e) hnames).2 htext
  refine ⟨e, ⟨hlegible, hnames, hlabel⟩, ?_⟩
  rintro other ⟨hother, hnames', hlabel'⟩
  exact hother.eq_of_label_eq hlegible (hnames'.trans hnames.symm) (hlabel'.trans hlabel.symm)

/-- Where no name has a comma, a map is legible if none of its values is the text for an unset one
and none has the separator of the next name in it. -/
theorem isLegible_iff {d : Dimensions} (h : ∀ name ∈ d.names, ',' ∉ name.toList) :
    d.IsLegible ↔ (∀ entry ∈ d.entries, entry.2 ≠ some "(none)") ∧
      d.entries.IsChain fun entry next =>
        ∀ value ∈ entry.2, ¬ (separator next.1).toList <:+: value.toList := by
  have hchain : d.entries.IsChain (fun entry next =>
      ¬ EndsEarly (separator next.1) (shown entry.2)) ↔ d.entries.IsChain fun entry next =>
        ∀ value ∈ entry.2, ¬ (separator next.1).toList <:+: value.toList := by
    refine List.IsChain.iff_of_mem_imp fun entry next _ hnext => ?_
    rw [endsEarly_iff_occurs (h _ (List.mem_map_of_mem hnext))]
    cases entry.2 with
    | some value => simp [shown]
    | none =>
      -- the text for an unset value has no comma
      refine iff_of_true (fun hinfix => ?_) (by simp)
      have hcomma : ',' ∈ (shown none).toList := hinfix.subset (by simp [separator])
      exact absurd hcomma (by decide)
  rw [← hchain]
  exact ⟨fun h => ⟨h.values, h.separators⟩, fun h => ⟨h.1, h.2⟩⟩

end Funnel.Dimensions
