import Funnel.Proofs.Command.Run
import Funnel.Proofs.Config.WellFormed
import Funnel.Proofs.Sql.Fragments
import Funnel.Proofs.Store.Readback

/-!
# Which names reach the store

A command looks at the names of its configuration before it sends a statement that has any in its
text, unless it is to write a report: this queries the relation of metrics of a configuration that
nobody has checked.
-/

namespace Funnel

open Store

namespace Sql

/-- A character that does not end a name. -/
def isNameChar (c : Char) : Bool :=
  isWordChar c || c == '.'

theorem IsPlainName.all_isNameChar {s : String} (h : IsPlainName s) :
    s.toList.all isNameChar = true :=
  List.all_eq_true.2 fun _ hc => Bool.or_eq_true_iff.2 (.inl (h.isWordChar_of_mem hc))

/-- Nothing in an identifier ends it. -/
theorem all_isNameChar_of_isIdentifier {s : String} (h : isIdentifier s = true) :
    s.toList.all isNameChar = true := by
  cases isIdentifier_iff.1 h with
  | plain hplain => exact hplain.all_isNameChar
  | qualified hschema hname =>
    rw [String.toList_append, String.toList_append, List.all_append, List.all_append,
      hschema.all_isNameChar, hname.all_isNameChar]
    rfl

theorem isIdentifier_of_isUnqualified {s : String} (h : isUnqualified s = true) :
    isIdentifier s = true :=
  (Bool.and_eq_true_iff.1 h).1

end Sql

namespace Config

variable {config : Config}

/-- The names that a configuration brings into SQL texts: those that are there for it, the
dimensions, and what both relations are called. -/
inductive Names (config : Config) : String → Prop
  | binding {binding : Binding} (h : binding ∈ config.bindings) : Names config binding.value
  | dimension {dimension : String} (h : dimension ∈ config.dimensions) : Names config dimension
  | funnelTable : Names config config.destination.funnelTable
  | metricsTable : Names config config.destination.metricsTable

/-- A configuration of which each part of a name is an identifier. -/
structure HasPlainNames (config : Config) : Prop where
  bindings : ∀ binding ∈ config.bindings, Sql.isIdentifier binding.value = true
  stem : Sql.isUnqualified config.destination.stem = true
  dimensions : ∀ dimension ∈ config.dimensions, Sql.isUnqualified dimension = true

theorem hasPlainNames_of_check (h : config.check = .ok ()) : config.HasPlainNames := by
  obtain ⟨-, hbindings, -, hdimensions, -, -⟩ := check_eq_ok_iff.1 h
  have hnamed : ∀ binding ∈ config.bindings, binding.IsNamed :=
    fun binding hbinding => Binding.check_eq_ok_iff.1 (hbindings binding hbinding)
  obtain ⟨-, hdestination, -⟩ := forall_bindings_isNamed_iff.1 hnamed
  exact
    { bindings := fun binding hbinding => Sql.isIdentifier_iff.2 (hnamed binding hbinding).isName
      stem := Sql.isUnqualified_iff.2 hdestination.stem
      dimensions := fun name hname =>
        Sql.isUnqualified_iff.2 ((checkDimensions_eq_ok_iff.1 hdimensions).1 name hname) }

/-- Nothing in a name of a configuration ends it if each part is an identifier. -/
theorem HasPlainNames.all_isNameChar (h : config.HasPlainNames) {name : String}
    (hname : config.Names name) : name.toList.all Sql.isNameChar = true := by
  have hschema : config.destination.schema.toList.all Sql.isNameChar = true :=
    Sql.all_isNameChar_of_isIdentifier (h.bindings ⟨"destination.schema", _, true⟩
      (by simp [Config.bindings, Destination.bindings]))
  have hstem : config.destination.stem.toList.all Sql.isNameChar = true :=
    Sql.all_isNameChar_of_isIdentifier (Sql.isIdentifier_of_isUnqualified h.stem)
  cases hname with
  | binding hbinding => exact Sql.all_isNameChar_of_isIdentifier (h.bindings _ hbinding)
  | dimension hdimension =>
    exact Sql.all_isNameChar_of_isIdentifier
      (Sql.isIdentifier_of_isUnqualified (h.dimensions _ hdimension))
  | funnelTable | metricsTable =>
    simp only [Destination.funnelTable, Destination.metricsTable, String.toList_append,
      List.all_append, hschema, hstem]
    rfl

end Config

section Statements

variable {config : Config}

theorem Config.names_of_mem_map {bindings : List Binding} (h : bindings ⊆ config.bindings)
    {name : String} (hname : name ∈ bindings.map Binding.value) : config.Names name := by
  obtain ⟨binding, hbinding, rfl⟩ := List.mem_map.1 hname
  exact .binding (h hbinding)

theorem Config.names_selectEvents {since : Option Time.Instant} {name : String}
    (h : name ∈ (Statement.selectEvents config.source config.filters since).names) :
    config.Names name := by
  refine names_of_mem_map (fun binding hbinding => ?_) (Source.names_fragments_subset _ _ _ h)
  simp [Config.bindings, hbinding]

theorem Config.names_selectAttributes {lookup : Lookup} (hlookup : config.lookup = some lookup)
    {name : String} (h : name ∈ (Statement.selectAttributes lookup config.dimensions).names) :
    config.Names name := by
  rcases List.mem_append.1 (Lookup.names_fragments_subset _ _ h) with h | h
  · refine names_of_mem_map (fun binding hbinding => ?_) h
    simp [Config.bindings, hlookup, hbinding]
  · exact .dimension h

theorem names_subset_of_mem_transaction {destination : Destination} {stamp : Stamp}
    {output : RunOutput} {statement : Statement}
    (h : statement ∈ transaction destination stamp output) :
    statement.names ⊆
      [destination.schema, destination.funnelTable, destination.metricsTable] := by
  have hnames : ∀ name ∈ [destination.schema, destination.funnelTable, destination.metricsTable],
      [name] ⊆ [destination.schema, destination.funnelTable, destination.metricsTable] :=
    fun name hname => List.cons_subset.2 ⟨hname, List.nil_subset _⟩
  simp only [transaction, publication, List.mem_append, List.mem_cons, List.mem_map,
    List.not_mem_nil, or_false] at h
  rcases h with (rfl | ((rfl | rfl | rfl | rfl | rfl) | ⟨part, -, rfl⟩) | ⟨part, -, rfl⟩) | rfl
  all_goals first | exact List.nil_subset _ | exact hnames _ (by simp)

/-- The names in a transaction are those of its destination. -/
theorem Config.names_transaction {stamp : Stamp} {output : RunOutput} {statement : Statement}
    (h : statement ∈ transaction config.destination stamp output) {name : String}
    (hname : name ∈ statement.names) : config.Names name := by
  have hmem := names_subset_of_mem_transaction h hname
  simp only [List.mem_cons, List.not_mem_nil, or_false] at hmem
  rcases hmem with rfl | rfl | rfl
  · have hschema : ⟨"destination.schema", config.destination.schema, true⟩ ∈ config.bindings := by
      simp [Config.bindings, Destination.bindings]
    exact .binding hschema
  · exact .funnelTable
  · exact .metricsTable

end Statements

namespace Command

/-- The file of the configuration that a command is about. -/
def configPath? : Command → Option String
  | validate path => some path
  | run path .. => some path
  | report path _ => some path
  | _ => none

/-- What a command may send for a configuration. -/
structure MaySend (command : Command) (config : Config) (statement : Statement) : Prop where
  text : statement.sql = Fragment.render statement.fragments
  /-- All names in the text of the statement are names of the configuration. -/
  named : ∀ name ∈ statement.names, config.Names name
  /-- The configuration has passed its checks, or the command is to write a report. -/
  checked : config.check = .ok () ∨ ∃ path out, command = .report path out
  /-- The one statement of a report queries its relation of metrics. -/
  reported : ∀ path out, command = .report path out →
    statement = .selectMetrics config.destination.metricsTable
  /-- If the configuration passes its checks, all parts of its names are identifiers, and so no name
  in the statement is more than a name. -/
  plain : config.check = .ok () → config.HasPlainNames ∧
    ∀ name ∈ statement.names, name.toList.all Sql.isNameChar = true

/-- In some exchanges a configuration is read first, and what is sent after that is what a command
may send for the configuration. -/
def KeepsTo (command : Command) (path : String) (exchanges : List Exchange) : Prop :=
  ∃ contents rest, exchanges = ⟨.readFile path, contents⟩ :: rest ∧
    ∀ statement ∈ statementsOf exchanges, ∃ config,
      Config.load contents = .ok config ∧ command.MaySend config statement

variable {command : Command} {config : Config} {statement : Statement} {path : String}

theorem MaySend.of_names (hnamed : ∀ name ∈ statement.names, config.Names name)
    (hchecked : config.check = .ok () ∨ ∃ path out, command = .report path out)
    (hreported : ∀ path out, command = .report path out →
      statement = .selectMetrics config.destination.metricsTable) :
    command.MaySend config statement where
  text := statement.sql_eq_render
  named := hnamed
  checked := hchecked
  reported := hreported
  plain h :=
    have hplain := Config.hasPlainNames_of_check h
    ⟨hplain, fun name hname => hplain.all_isNameChar (hnamed name hname)⟩

section Sent

variable {exchanges : List Exchange}

/-- What follows the reading of a file may send what the contents of the file allow for. -/
theorem keepsTo_of_readFile_bind {α : Type} {f : Except Text.FileError String → Action α}
    {result : Except Abort α} (h : (Action.readFile path >>= f).run.Yields exchanges result)
    (hf : ∀ contents, (f contents).run.AsksOnly (Request.ExecutesOnly fun statement =>
      ∃ config, Config.load contents = .ok config ∧ command.MaySend config statement)) :
    command.KeepsTo path exchanges := by
  obtain ⟨contents, rest, rfl, hrest⟩ := Action.yields_perform_bind_iff.1 h
  have hsent := (hf contents).of_mem_statementsOf hrest
  exact ⟨contents, rest, rfl, hsent⟩

/-- The configuration of a plan is the one that was loaded, and passes its checks. -/
theorem load_of_planned {contents : Except Text.FileError String} {plan : Plan}
    (h : (Config.load contents >>= Plan.ofConfig) = .ok plan) :
    Config.load contents = .ok plan.config ∧ plan.config.check = .ok () := by
  obtain ⟨config, hload, hplan⟩ := bind_eq_ok_iff.1 h
  obtain ⟨haccepted, rfl⟩ := Plan.ofConfig_eq_ok_iff.1 hplan
  exact ⟨hload, haccepted⟩

/-- What follows the loading of a plan may send the names of its configuration. -/
theorem keepsTo_of_loadPlan_bind {α : Type} {f : Plan → Action α} {result : Except Abort α}
    (hcommand : ∀ file out, command ≠ .report file out)
    (h : (loadPlan path >>= f).run.Yields exchanges result)
    (hf : ∀ plan, (f plan).run.AsksOnly (Request.ExecutesOnly fun statement =>
      ∀ name ∈ statement.names, plan.config.Names name)) :
    command.KeepsTo path exchanges := by
  rw [loadPlan, bind_assoc] at h
  refine keepsTo_of_readFile_bind h fun contents =>
    Action.asksOnly_expect_bind fun plan hplan => ?_
  obtain ⟨hload, hcheck⟩ := load_of_planned hplan
  refine (hf plan).mono fun request hrequest => hrequest.mono fun statement hnamed => ?_
  exact ⟨plan.config, hload,
    .of_names hnamed (.inl hcheck) fun file out heq => absurd heq (hcommand file out)⟩

theorem keepsTo_of_validate {result : Except Abort Unit}
    (h : (validate path).action.run.Yields exchanges result) :
    (validate path).KeepsTo path exchanges := by
  refine keepsTo_of_loadPlan_bind (by simp) h fun plan => ?_
  exact Action.asksOnly_bind (Action.asksOnly_perform nofun) fun _ => Action.asksOnly_perform nofun

theorem keepsTo_of_run {sinceDays : Option Int64} {dryRun : Bool} {result : Except Abort Unit}
    (h : (run path sinceDays dryRun).action.run.Yields exchanges result) :
    (run path sinceDays dryRun).KeepsTo path exchanges := by
  have h : (runPlan path sinceDays dryRun).run.Yields exchanges result := h
  rw [runPlan_eq, prepare, bind_assoc] at h
  refine keepsTo_of_loadPlan_bind (by simp) h fun loaded => ?_
  rw [bind_assoc]
  refine asksOnly_withPeriod_bind ?_
  -- a period that was asked for changes nothing of the configuration
  rw [bind_assoc, ← config_over sinceDays loaded]
  refine Action.asksOnly_bind ?_ fun _ => ?_
  · exact asksOnly_compute (fun since name => Config.names_selectEvents)
      fun lookup hlookup name => Config.names_selectAttributes hlookup
  · rw [pure_bind]
    exact asksOnly_conclude fun statement hmem name => Config.names_transaction hmem

theorem keepsTo_of_report {out : String} {result : Except Abort Unit}
    (h : (report path out).action.run.Yields exchanges result) :
    (report path out).KeepsTo path exchanges := by
  have h : (loadConfig path >>= _).run.Yields exchanges result := h
  rw [loadConfig, bind_assoc] at h
  refine keepsTo_of_readFile_bind h fun contents =>
    Action.asksOnly_expect_bind fun config hconfig => ?_
  have hquery : (report path out).MaySend config
      (.selectMetrics config.destination.metricsTable) := by
    refine .of_names (fun name hname => ?_) (.inr ⟨path, out, rfl⟩) fun _ _ _ => rfl
    rw [List.mem_singleton.1 hname]
    exact .metricsTable
  refine Action.asksOnly_bind (Action.asksOnly_connect nofun) fun _ => ?_
  refine Action.asksOnly_bind ?_ fun _ => ?_
  · refine Action.asksOnly_bind (Action.asksOnly_execute _
      (Request.executesOnly_execute ⟨config, hconfig, hquery⟩)) fun rows => ?_
    split
    · exact Action.asksOnly_pure _
    · exact Action.asksOnly_throw _
  refine Action.asksOnly_bind (Action.asksOnly_perform nofun) fun _ => ?_
  exact Action.asksOnly_bind (Action.asksOnly_expect ..) fun _ => Action.asksOnly_perform nofun

/-- A command about a configuration reads it first, and every statement that it sends after that
has its names from there. They are plain, unless the statement is the query of a report: nobody has
checked the configuration that it is about. -/
theorem sends_configured_names {result : Except Abort Unit}
    (hpath : command.configPath? = some path)
    (h : command.action.run.Yields exchanges result) : command.KeepsTo path exchanges := by
  cases command with
  | initDb | seed | importEvents csv => cases hpath
  | validate file =>
    obtain rfl := Option.some.inj hpath
    exact keepsTo_of_validate h
  | run file sinceDays dryRun =>
    obtain rfl := Option.some.inj hpath
    exact keepsTo_of_run h
  | report file out =>
    obtain rfl := Option.some.inj hpath
    exact keepsTo_of_report h

theorem run_visits_sends_configured_names :
    let command := run "visits.json" none false
    ∃ exchanges, command.configPath? = some "visits.json" ∧
      command.action.run.Yields exchanges (.ok ()) ∧
      .selectEvents (Config.visits "reports").source [] none ∈ statementsOf exchanges ∧
      command.KeepsTo "visits.json" exchanges := by
  obtain ⟨written, hyields, -⟩ :=
    (writesLast "visits.json" none false).publishes rfl Preparation.visits
  refine ⟨_, rfl, hyields, ?_, sends_configured_names rfl hyields⟩
  rw [statementsOf_append]
  exact List.mem_append_left _ (List.mem_cons_self ..)

/-- Whatever configuration there is, a report on it queries what that calls its relation of
metrics. -/
theorem exists_yields_report {contents : Except Text.FileError String} {config : Config}
    (h : Config.load contents = .ok config) (path out : String) :
    ∃ rest,
      (report path out).action.run.Yields (⟨.readFile path, contents⟩ :: rest) (.ok ()) ∧
      statementsOf rest = [.selectMetrics config.destination.metricsTable] := by
  have hload : (loadConfig path).run.Yields [⟨.readFile path, contents⟩] (.ok config) :=
    Action.yields_bind_expect_iff.2 ⟨contents, Action.yields_perform_iff.2 rfl, h⟩
  have hread : readMetrics [] = .ok [] := congrArg Except.ok (sortOn_eq_self .nil)
  have hfetch := yields_fetchMetrics config.destination hread
  have hwrite : (Action.writeFile out (Report.text config.funnelName none [])).run.Yields
      [⟨.writeFile _ _, .ok ()⟩] (.ok (.ok ())) := Action.yields_perform_iff.2 rfl
  have hprint : (Action.print ("Report written to " ++ out ++ ".\n")).run.Yields
      [⟨.print _, ()⟩] (.ok ()) := Action.yields_perform_iff.2 rfl
  exact ⟨_, Action.yields_bind hload (Action.yields_bind (Action.yields_connect_iff.2 rfl)
    (Action.yields_bind hfetch (Action.yields_bind hwrite
      (Action.yields_bind (Action.yields_expect_iff.2 ⟨rfl, rfl⟩) hprint)))), rfl⟩

/-- A schema that names a relation and begins a comment behind it: the query of the report reads
that relation. -/
theorem report_sends_unchecked_name :
    let schema := "shop.archive --"
    let config := Config.visits schema
    Config.load (.ok (visitsText schema)) = .ok config ∧
      config.check.isOk = false ∧ Sql.isIdentifier config.destination.schema = false ∧
      ∃ rest,
        (report "visits.json" "report.md").action.run.Yields
          (⟨.readFile "visits.json", .ok (visitsText schema)⟩ :: rest) (.ok ()) ∧
        statementsOf rest = [.selectMetrics "shop.archive --.visits_metrics"] := by
  have hload := load_visitsText "shop.archive --" (by decide +kernel)
  exact ⟨hload, by decide +kernel, by decide +kernel,
    exists_yields_report hload "visits.json" "report.md"⟩

end Sent

end Command

end Funnel
