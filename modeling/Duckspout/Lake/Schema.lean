import Duckspout.Lake.Committer
import Duckspout.Lib.Fallible

/-! Schema evolution of a dataset's lake table (`evolve_schema_blocking` in
    `duckspout-lake-ducklake/src/lib.rs`): the table is created from the first evolution that names it,
    and later ones add the columns it lacks. -/

namespace Duckspout

/-! ### Types and columns -/

/-- The column types of the lake. -/
inductive SqlType where
  | boolean | tinyint | smallint | integer | bigint | utinyint | usmallint | uinteger | ubigint
  | float | double | varchar | blob | timestamp
  deriving DecidableEq, Repr

/-- One column of a schema evolution: its name and the name of its logical type. -/
structure ColumnSpec where
  name : String
  logicalType : String
  deriving DecidableEq, Repr

/-- Columns added or widened. -/
structure SchemaEvolution where
  dataset : DatasetId
  columns : List ColumnSpec
  deriving DecidableEq, Repr

structure LakeColumn where
  name : String
  type : SqlType
  deriving DecidableEq, Repr

/-- The tables of the lake by name. -/
abbrev LakeTables := String → Option (List LakeColumn)

/-- What the engine makes of identifiers: `fold` is the text two names share when they name one column, and a
    name may be refused. `debug` renders a string with its quotes. -/
structure Identifiers where
  fold : String → String
  refused : String → Option String
  duplicate : String → String
  debug : String → String

/-- The closed table of logical types. -/
def sqlType (ids : Identifiers) : String → Except LakeError SqlType
  | "boolean" => .ok .boolean
  | "int8" => .ok .tinyint
  | "int16" => .ok .smallint
  | "int32" => .ok .integer
  | "int64" => .ok .bigint
  | "uint8" => .ok .utinyint
  | "uint16" => .ok .usmallint
  | "uint32" => .ok .uinteger
  | "uint64" => .ok .ubigint
  | "float32" => .ok .float
  | "float64" => .ok .double
  | "utf8" => .ok .varchar
  | "binary" => .ok .blob
  | "timestamp_micros" => .ok .timestamp
  | other => .error (.misconfigured
      ("unknown logical type " ++ ids.debug other ++ " (the §2 lattice is closed; widen by review)"))

/-! ### The engine's statements -/

inductive SchemaStatement where
  | tableExists (table : String)
  | createTable (table : String) (columns : List LakeColumn)
  | addColumn (table : String) (column : LakeColumn)
  deriving DecidableEq, Repr

namespace Identifiers

variable (ids : Identifiers)

/-- The table has the column, under some spelling. -/
def Has (columns : List LakeColumn) (name : String) : Prop := ∃ c ∈ columns, ids.fold c.name = ids.fold name

instance (columns : List LakeColumn) (name : String) : Decidable (ids.Has columns name) :=
  inferInstanceAs (Decidable (∃ c ∈ columns, ids.fold c.name = ids.fold name))

/-- `ADD COLUMN IF NOT EXISTS`: a column that is there keeps its type. -/
def addIfAbsent (columns : List LakeColumn) (column : LakeColumn) : List LakeColumn :=
  if ids.Has columns column.name then columns else columns ++ [column]

/-- The columns of `CREATE TABLE`, which must differ in their names. -/
def created : List LakeColumn → List LakeColumn → Except String (List LakeColumn)
  | done, [] => .ok done
  | done, column :: rest =>
    match ids.refused column.name with
    | some text => .error text
    | none =>
      if ids.Has done column.name then .error (ids.duplicate column.name)
      else created (done ++ [column]) rest

end Identifiers

/-- An evolution works on the tables. -/
abbrev SchemaM := Fallible LakeError LakeTables

/-- The statement's own failure, if any. -/
def schemaFault (fault : SchemaStatement → Option String) (statement : SchemaStatement) : SchemaM Unit :=
  match fault statement with
  | none => pure ()
  | some text => throw (.backend text)

/-- `CREATE TABLE IF NOT EXISTS`. -/
def createTable (ids : Identifiers) (fault : SchemaStatement → Option String) (table : String)
    (columns : List LakeColumn) : SchemaM Unit := do
  schemaFault fault (.createTable table columns)
  match ids.created [] columns with
  | .error text => throw (.backend text)
  | .ok columns =>
    match (← get) table with
    | some _ => return ()
    | none => modify fun tables => Function.update tables table (some columns)

/-- `ALTER TABLE … ADD COLUMN IF NOT EXISTS`. -/
def addColumn (ids : Identifiers) (fault : SchemaStatement → Option String) (table : String) (column : LakeColumn) :
    SchemaM Unit := do
  schemaFault fault (.addColumn table column)
  match ids.refused column.name with
  | some text => throw (.backend text)
  | none =>
    match (← get) table with
    | none => throw (.backend ("Table with name " ++ table ++ " does not exist!"))
    | some columns => modify fun tables => Function.update tables table (some (ids.addIfAbsent columns column))

/-! ### `evolve_schema` -/

def resolveColumn (ids : Identifiers) (column : ColumnSpec) : Except LakeError LakeColumn := do
  return ⟨column.name, ← sqlType ids column.logicalType⟩

/-- Creates the table from the columns, or adds to it those it lacks, one statement each. -/
def evolveSchemaBlocking (ids : Identifiers) (fault : SchemaStatement → Option String) (change : SchemaEvolution) :
    SchemaM Unit := do
  let table := datasetTable change.dataset
  schemaFault fault (.tableExists table)
  match (← get) table with
  | none =>
    let columns ← Fallible.ofExcept (change.columns.mapM (resolveColumn ids))
    if columns = [] then
      throw (.misconfigured "schema evolution creating a table needs at least one column")
    createTable ids fault table columns
  | some _ =>
    change.columns.forM fun column => do
      let column ← Fallible.ofExcept (resolveColumn ids column)
      addColumn ids fault table column

/-- One call, with the failures the engine has in it. -/
structure SchemaCall where
  change : SchemaEvolution
  fault : SchemaStatement → Option String

/-- The tables after calls that all succeed. -/
def evolveAll (ids : Identifiers) : LakeTables → List SchemaCall → Option LakeTables
  | tables, [] => some tables
  | tables, call :: rest =>
    match (evolveSchemaBlocking ids call.fault call.change).run tables with
    | (.ok _, tables') => evolveAll ids tables' rest
    | (.error _, _) => none

/-! ### Width -/

/-- The width of an integer type and whether it is signed. -/
def SqlType.integerBits : SqlType → Option (Bool × ℕ)
  | .tinyint => some (true, 8)
  | .smallint => some (true, 16)
  | .integer => some (true, 32)
  | .bigint => some (true, 64)
  | .utinyint => some (false, 8)
  | .usmallint => some (false, 16)
  | .uinteger => some (false, 32)
  | .ubigint => some (false, 64)
  | _ => none

/-- Every value of `narrow` is one of `wide`. -/
def SqlType.atLeastAsWide (wide narrow : SqlType) : Bool :=
  decide (wide = narrow) || decide (wide = .double ∧ narrow = .float) ||
    match wide.integerBits, narrow.integerBits with
    | some (true, a), some (true, b) => decide (b ≤ a)
    | some (false, a), some (false, b) => decide (b ≤ a)
    | some (true, a), some (false, b) => decide (b < a)
    | _, _ => false

/-! ### What the table keeps -/

/-- The field is one the engine can take: its type is known and its name accepted. -/
def Accepted (ids : Identifiers) (field : ColumnSpec) (column : LakeColumn) : Prop :=
  resolveColumn ids field = .ok column ∧ ids.refused column.name = none

/-- The logical name of a type. -/
def SqlType.logicalName : SqlType → String
  | .boolean => "boolean"
  | .tinyint => "int8"
  | .smallint => "int16"
  | .integer => "int32"
  | .bigint => "int64"
  | .utinyint => "uint8"
  | .usmallint => "uint16"
  | .uinteger => "uint32"
  | .ubigint => "uint64"
  | .float => "float32"
  | .double => "float64"
  | .varchar => "utf8"
  | .blob => "binary"
  | .timestamp => "timestamp_micros"

theorem logicalName_of_sqlType {ids : Identifiers} {logical : String} {type : SqlType}
    (h : sqlType ids logical = .ok type) : type.logicalName = logical := by
  simp only [sqlType] at h
  split at h <;> cases h <;> rfl

theorem resolveColumn_ok {ids : Identifiers} {field : ColumnSpec} {column : LakeColumn}
    (h : resolveColumn ids field = .ok column) :
    column.name = field.name ∧ sqlType ids field.logicalType = .ok column.type := by
  simp only [resolveColumn] at h
  rcases htype : sqlType ids field.logicalType with e | type <;> rw [htype] at h <;> cases h
  exact ⟨rfl, rfl⟩

/-- Different fields ask for different columns. -/
theorem resolveColumn_injective {ids : Identifiers} {f g : ColumnSpec} {column : LakeColumn}
    (hf : resolveColumn ids f = .ok column) (hg : resolveColumn ids g = .ok column) : f = g := by
  obtain ⟨hfname, hftype⟩ := resolveColumn_ok hf
  obtain ⟨hgname, hgtype⟩ := resolveColumn_ok hg
  obtain ⟨fname, flogical⟩ := f
  obtain ⟨gname, glogical⟩ := g
  rw [ColumnSpec.mk.injEq]
  exact ⟨hfname.symm.trans hgname, (logicalName_of_sqlType hftype).symm.trans (logicalName_of_sqlType hgtype)⟩

section Columns

variable {ids : Identifiers}

/-- No two columns share a name. -/
def Unambiguous (ids : Identifiers) (columns : List LakeColumn) : Prop :=
  ∀ a ∈ columns, ∀ b ∈ columns, ids.fold a.name = ids.fold b.name → a = b

theorem mem_addIfAbsent_left {columns : List LakeColumn} {c : LakeColumn} (column : LakeColumn) (h : c ∈ columns) :
    c ∈ ids.addIfAbsent columns column := by
  simp only [Identifiers.addIfAbsent]
  split
  · exact h
  · exact List.mem_append_left _ h

theorem mem_addIfAbsent {columns : List LakeColumn} {column c : LakeColumn}
    (h : c ∈ ids.addIfAbsent columns column) : c ∈ columns ∨ c = column := by
  simp only [Identifiers.addIfAbsent] at h
  split at h
  · exact Or.inl h
  · simpa using h

theorem has_addIfAbsent (columns : List LakeColumn) (column : LakeColumn) :
    ids.Has (ids.addIfAbsent columns column) column.name := by
  simp only [Identifiers.addIfAbsent]
  split
  next h => exact h
  · exact ⟨column, by simp, rfl⟩

theorem unambiguous_addIfAbsent {columns : List LakeColumn} (column : LakeColumn) (h : Unambiguous ids columns) :
    Unambiguous ids (ids.addIfAbsent columns column) := by
  simp only [Identifiers.addIfAbsent]
  split
  · exact h
  next habsent =>
    intro a ha b hb hab
    rcases List.mem_append.mp ha with ha | ha <;> rcases List.mem_append.mp hb with hb | hb
    · exact h a ha b hb hab
    · rw [List.mem_singleton.mp hb] at hab
      exact absurd ⟨a, ha, hab⟩ habsent
    · rw [List.mem_singleton.mp ha] at hab
      exact absurd ⟨b, hb, hab.symm⟩ habsent
    · rw [List.mem_singleton.mp ha, List.mem_singleton.mp hb]

/-- The columns of a table that has `columns` and is asked for `requested`, one after the other. -/
def addAll (ids : Identifiers) (columns requested : List LakeColumn) : List LakeColumn :=
  requested.foldl ids.addIfAbsent columns

theorem addAll_cons (columns : List LakeColumn) (column : LakeColumn) (requested : List LakeColumn) :
    addAll ids columns (column :: requested) = addAll ids (ids.addIfAbsent columns column) requested := rfl

theorem mem_addAll_left {requested : List LakeColumn} {c : LakeColumn} : ∀ {columns : List LakeColumn},
    c ∈ columns → c ∈ addAll ids columns requested := by
  induction requested with
  | nil => exact fun h => h
  | cons column requested ih => exact fun h => ih (mem_addIfAbsent_left column h)

theorem mem_addAll {requested : List LakeColumn} {c : LakeColumn} : ∀ {columns : List LakeColumn},
    c ∈ addAll ids columns requested → c ∈ columns ∨ c ∈ requested := by
  induction requested with
  | nil => exact fun h => Or.inl h
  | cons column requested ih =>
    intro columns h
    rcases ih h with h | h
    · rcases mem_addIfAbsent h with h | rfl
      · exact Or.inl h
      · exact Or.inr List.mem_cons_self
    · exact Or.inr (List.mem_cons_of_mem _ h)

theorem has_addAll {requested : List LakeColumn} : ∀ {columns : List LakeColumn},
    ∀ c ∈ requested, ids.Has (addAll ids columns requested) c.name := by
  induction requested with
  | nil => exact fun _ h => absurd h List.not_mem_nil
  | cons column requested ih =>
    intro columns c hc
    rcases List.mem_cons.mp hc with rfl | hc
    · obtain ⟨c', hc', hname⟩ := has_addIfAbsent columns c
      rw [addAll_cons]
      exact ⟨c', mem_addAll_left hc', hname⟩
    · exact ih c hc

theorem unambiguous_addAll {requested : List LakeColumn} : ∀ {columns : List LakeColumn},
    Unambiguous ids columns → Unambiguous ids (addAll ids columns requested) := by
  induction requested with
  | nil => exact fun h => h
  | cons column requested ih => exact fun h => ih (unambiguous_addIfAbsent column h)

theorem unambiguous_nil : Unambiguous ids [] := fun _ h => absurd h List.not_mem_nil

/-- Requests that do not conflict are all kept as they are. -/
theorem mem_addAll_nil {requested : List LakeColumn} (h : Unambiguous ids requested) {c : LakeColumn} :
    c ∈ addAll ids [] requested ↔ c ∈ requested := by
  constructor
  · intro hc
    exact (mem_addAll hc).resolve_left List.not_mem_nil
  · intro hc
    obtain ⟨c', hc', hname⟩ := has_addAll c hc
    have hmem : c' ∈ requested := (mem_addAll hc').resolve_left List.not_mem_nil
    rwa [h c hc c' hmem hname.symm]

end Columns

/-! ### Calls that succeed -/

section Calls

variable {ids : Identifiers} {fault : SchemaStatement → Option String}

theorem schemaFault_ok {statement : SchemaStatement} {tables tables' : LakeTables} {u : Unit}
    (h : (schemaFault fault statement).run tables = (.ok u, tables')) : tables' = tables := by
  simp only [schemaFault] at h
  split at h <;> cases h
  rfl

theorem created_ok {columns : List LakeColumn} : ∀ {done result : List LakeColumn}, ids.created done columns = .ok result →
    result = addAll ids done columns ∧ ∀ c ∈ columns, ids.refused c.name = none := by
  induction columns with
  | nil =>
    intro done result h
    cases h
    exact ⟨rfl, fun _ h => absurd h List.not_mem_nil⟩
  | cons column columns ih =>
    intro done result h
    rw [Identifiers.created] at h
    split at h
    · cases h
    next hrefused =>
    split at h
    · cases h
    next habsent =>
    obtain ⟨hresult, hrest⟩ := ih h
    refine ⟨?_, List.forall_mem_cons.mpr ⟨hrefused, hrest⟩⟩
    rw [hresult, addAll_cons, Identifiers.addIfAbsent, if_neg habsent]

theorem createTable_ok {table : String} {columns : List LakeColumn} {tables tables' : LakeTables} {u : Unit}
    (habsent : tables table = none) (h : (createTable ids fault table columns).run tables = (.ok u, tables')) :
    tables' = Function.update tables table (some (addAll ids [] columns)) ∧
      ∀ c ∈ columns, ids.refused c.name = none := by
  simp only [createTable] at h
  obtain ⟨_, _, hfault, hbody⟩ := Fallible.run_bind_ok.mp h
  rw [schemaFault_ok hfault] at hbody
  split at hbody
  · cases hbody
  next result hcreated =>
    obtain ⟨rfl, hrefused⟩ := created_ok hcreated
    rw [Fallible.run_bind, Fallible.run_get] at hbody
    simp only [habsent] at hbody
    cases hbody
    exact ⟨rfl, hrefused⟩

theorem addColumn_ok {table : String} {column : LakeColumn} {columns : List LakeColumn} {tables tables' : LakeTables}
    {u : Unit} (hthere : tables table = some columns)
    (h : (addColumn ids fault table column).run tables = (.ok u, tables')) :
    tables' = Function.update tables table (some (ids.addIfAbsent columns column)) ∧ ids.refused column.name = none := by
  simp only [addColumn] at h
  obtain ⟨_, _, hfault, hbody⟩ := Fallible.run_bind_ok.mp h
  rw [schemaFault_ok hfault] at hbody
  split at hbody
  · cases hbody
  next hrefused =>
    rw [Fallible.run_bind, Fallible.run_get] at hbody
    simp only [hthere] at hbody
    cases hbody
    exact ⟨rfl, hrefused⟩

/-- The `ALTER TABLE` loop. -/
theorem addColumns_ok {table : String} {fields : List ColumnSpec} : ∀ {columns : List LakeColumn}
    {tables tables' : LakeTables} {u : Unit}, tables table = some columns →
    (fields.forM fun field => do
      let column ← Fallible.ofExcept (resolveColumn ids field)
      addColumn ids fault table column).run tables = (.ok u, tables') →
    ∃ requested, List.Forall₂ (Accepted ids) fields requested ∧
      tables' = Function.update tables table (some (addAll ids columns requested)) := by
  induction fields with
  | nil =>
    intro columns tables tables' u hthere h
    cases h
    exact ⟨[], .nil, by simp [addAll, ← hthere]⟩
  | cons field fields ih =>
    intro columns tables tables' u hthere h
    rw [List.forM] at h
    obtain ⟨_, _, hhead, hrest⟩ := Fallible.run_bind_ok.mp h
    obtain ⟨column, _, hresolve, hadd⟩ := Fallible.run_bind_ok.mp hhead
    obtain ⟨hresolved, rfl⟩ := Prod.mk.inj hresolve
    obtain ⟨rfl, hrefused⟩ := addColumn_ok hthere hadd
    obtain ⟨requested, hrequested, rfl⟩ := ih (Function.update_self ..) hrest
    exact ⟨column :: requested, .cons ⟨hresolved, hrefused⟩ hrequested, by rw [Function.update_idem, addAll_cons]⟩

theorem mapM_resolveColumn {fields : List ColumnSpec} : ∀ {columns : List LakeColumn},
    fields.mapM (resolveColumn ids) = .ok columns →
      List.Forall₂ (fun field column => resolveColumn ids field = .ok column) fields columns := by
  induction fields with
  | nil =>
    intro columns h
    cases h
    exact .nil
  | cons field fields ih =>
    intro columns h
    rw [List.mapM_cons] at h
    rcases hfield : resolveColumn ids field with e | column <;> rw [hfield] at h
    · cases h
    rcases hfields : fields.mapM (resolveColumn ids) with e | rest <;> rw [hfields] at h
    · cases h
    cases h
    exact .cons hfield (ih hfields)

theorem accepted_of_resolved {fields : List ColumnSpec} {columns : List LakeColumn}
    (h : List.Forall₂ (fun field column => resolveColumn ids field = .ok column) fields columns)
    (hrefused : ∀ c ∈ columns, ids.refused c.name = none) : List.Forall₂ (Accepted ids) fields columns := by
  induction h with
  | nil => exact .nil
  | cons hfield _ ih =>
    obtain ⟨hhead, htail⟩ := List.forall_mem_cons.mp hrefused
    exact .cons ⟨hfield, hhead⟩ (ih htail)

/-- What a successful call does: it was asked for accepted columns, and adds those whose names are not taken. -/
theorem evolveSchemaBlocking_ok {change : SchemaEvolution} {tables tables' : LakeTables} {u : Unit}
    (h : (evolveSchemaBlocking ids fault change).run tables = (.ok u, tables')) :
    ∃ requested, List.Forall₂ (Accepted ids) change.columns requested ∧
      tables' = Function.update tables (datasetTable change.dataset)
        (some (addAll ids ((tables (datasetTable change.dataset)).getD []) requested)) := by
  simp only [evolveSchemaBlocking] at h
  obtain ⟨_, _, hfault, hbody⟩ := Fallible.run_bind_ok.mp h
  rw [schemaFault_ok hfault, Fallible.run_bind, Fallible.run_get] at hbody
  rcases hthere : tables (datasetTable change.dataset) with _ | columns <;> simp only [hthere] at hbody
  · obtain ⟨requested, _, hresolve, hcreate⟩ := Fallible.run_bind_ok.mp hbody
    obtain ⟨hresolved, rfl⟩ := Prod.mk.inj hresolve
    split at hcreate
    · cases hcreate
    · obtain ⟨rfl, hrefused⟩ := createTable_ok hthere hcreate
      exact ⟨requested, accepted_of_resolved (mapM_resolveColumn hresolved) hrefused, rfl⟩
  · obtain ⟨requested, hrequested, rfl⟩ := addColumns_ok hthere hbody
    exact ⟨requested, hrequested, rfl⟩

/-- An evolution by one accepted column succeeds where the engine does not fail. -/
theorem evolveSchemaBlocking_single {dataset : DatasetId} {field : ColumnSpec} {column : LakeColumn}
    (h : Accepted ids field column) (tables : LakeTables) :
    ∃ tables', (evolveSchemaBlocking ids (fun _ => none) ⟨dataset, [field]⟩).run tables = (.ok (), tables') := by
  obtain ⟨hresolve, hrefused⟩ := h
  have hnone : ∀ statement, (schemaFault (fun _ => none) statement).run tables = (.ok (), tables) := fun _ => rfl
  simp only [evolveSchemaBlocking]
  simp only [Fallible.run_bind, hnone, Fallible.run_get]
  rcases hthere : tables (datasetTable dataset) with _ | columns
  · have hcreated : ids.created [] [column] = .ok [column] := by
      simp [Identifiers.created, hrefused, Identifiers.Has]
    have hresolved : [field].mapM (resolveColumn ids) = .ok [column] := by
      rw [List.mapM_cons, hresolve]
      rfl
    refine ⟨Function.update tables (datasetTable dataset) (some [column]), ?_⟩
    simp only [hthere, Fallible.run_bind, Fallible.run_ofExcept, hresolved, reduceCtorEq, if_false, createTable, hnone,
      hcreated, Fallible.run_get, Fallible.run_modify]
  · refine ⟨Function.update tables (datasetTable dataset) (some (ids.addIfAbsent columns column)), ?_⟩
    simp only [hthere, List.forM, Fallible.run_bind, Fallible.run_ofExcept, hresolve, addColumn, hnone, hrefused,
      Fallible.run_get, Fallible.run_modify, Fallible.run_pure]

/-! ### Sequences of calls -/

/-- The fields a sequence of calls asks for. -/
def requestedFields (calls : List SchemaCall) : List ColumnSpec := calls.flatMap fun call => call.change.columns

/-- Calls on one dataset that all succeed, from a lake without its table: the columns the table ends with. -/
def Evolved (ids : Identifiers) (dataset : DatasetId) (calls : List SchemaCall) (columns : List LakeColumn) : Prop :=
  (∀ call ∈ calls, call.change.dataset = dataset) ∧ ∃ tables tables', tables (datasetTable dataset) = none ∧
    evolveAll ids tables calls = some tables' ∧ (tables' (datasetTable dataset)).getD [] = columns

theorem evolveAll_eq_some {dataset : DatasetId} {calls : List SchemaCall} : ∀ {tables tables' : LakeTables},
    (∀ call ∈ calls, call.change.dataset = dataset) → evolveAll ids tables calls = some tables' →
    ∃ requested, List.Forall₂ (Accepted ids) (requestedFields calls) requested ∧
      (tables' (datasetTable dataset)).getD [] = addAll ids ((tables (datasetTable dataset)).getD []) requested := by
  induction calls with
  | nil =>
    intro tables tables' _ h
    cases h
    exact ⟨[], .nil, rfl⟩
  | cons call calls ih =>
    intro tables tables' hdataset h
    rw [evolveAll] at h
    split at h
    next hcall =>
      obtain ⟨hhead, htail⟩ := List.forall_mem_cons.mp hdataset
      obtain ⟨first, hfirst, rfl⟩ := evolveSchemaBlocking_ok hcall
      obtain ⟨rest, hrest, hresult⟩ := ih htail h
      refine ⟨first ++ rest, List.rel_append hfirst hrest, ?_⟩
      rw [hresult, hhead, Function.update_self, Option.getD_some, addAll, addAll, addAll, List.foldl_append]
    · cases h

theorem evolved_spec {dataset : DatasetId} {calls : List SchemaCall} {columns : List LakeColumn}
    (h : Evolved ids dataset calls columns) :
    ∃ requested, List.Forall₂ (Accepted ids) (requestedFields calls) requested ∧
      columns = addAll ids [] requested := by
  obtain ⟨hdataset, tables, tables', habsent, hrun, rfl⟩ := h
  obtain ⟨requested, hrequested, hresult⟩ := evolveAll_eq_some hdataset hrun
  rw [habsent] at hresult
  exact ⟨requested, hrequested, hresult⟩

/-- One call for each field. -/
def singly (dataset : DatasetId) (fields : List ColumnSpec) : List SchemaCall :=
  fields.map fun field => ⟨⟨dataset, [field]⟩, fun _ => none⟩

theorem requestedFields_singly (dataset : DatasetId) (fields : List ColumnSpec) :
    requestedFields (singly dataset fields) = fields := by
  simp [requestedFields, singly, List.flatMap_map]

theorem evolveAll_singly {dataset : DatasetId} {fields : List ColumnSpec} : ∀ (tables : LakeTables),
    (∀ field ∈ fields, ∃ column, Accepted ids field column) →
    ∃ tables', evolveAll ids tables (singly dataset fields) = some tables' := by
  induction fields with
  | nil => exact fun tables _ => ⟨tables, rfl⟩
  | cons field fields ih =>
    intro tables haccepted
    obtain ⟨⟨column, hcolumn⟩, htail⟩ := List.forall_mem_cons.mp haccepted
    obtain ⟨tables', hcall⟩ := evolveSchemaBlocking_single hcolumn tables
    obtain ⟨tables'', hrest⟩ := ih tables' htail
    refine ⟨tables'', ?_⟩
    rw [singly, List.map_cons, evolveAll, hcall]
    exact hrest

theorem evolved_singly (dataset : DatasetId) {fields : List ColumnSpec}
    (h : ∀ field ∈ fields, ∃ column, Accepted ids field column) :
    ∃ columns, Evolved ids dataset (singly dataset fields) columns := by
  obtain ⟨tables', hrun⟩ := evolveAll_singly (fun _ => none) h
  refine ⟨_, ?_, fun _ => none, tables', rfl, hrun, rfl⟩
  intro call hcall
  obtain ⟨field, -, rfl⟩ := List.mem_map.mp hcall
  rfl

theorem evolved_singly_addAll (dataset : DatasetId) {fields : List ColumnSpec} {requested : List LakeColumn}
    (h : List.Forall₂ (Accepted ids) fields requested) :
    Evolved ids dataset (singly dataset fields) (addAll ids [] requested) := by
  have haccepted : ∀ field ∈ fields, ∃ column, Accepted ids field column := by
    intro field hfield
    obtain ⟨i, hi, rfl⟩ := List.getElem_of_mem hfield
    exact ⟨_, h.get hi (h.length_eq ▸ hi)⟩
  obtain ⟨columns, hrun⟩ := evolved_singly dataset haccepted
  obtain ⟨requested', hrequested, rfl⟩ := evolved_spec hrun
  rw [requestedFields_singly] at hrequested
  have hunique : Relator.RightUnique (Accepted ids) :=
    fun _ _ _ hab hac => Except.ok.inj (hab.1.symm.trans hac.1)
  rwa [List.right_unique_forall₂' hunique h hrequested]

/-- The field that is asked for first keeps its type. -/
theorem evolved_singly_cons {dataset : DatasetId} {field : ColumnSpec} {fields : List ColumnSpec}
    {columns : List LakeColumn} (h : Evolved ids dataset (singly dataset (field :: fields)) columns) :
    ∃ column ∈ columns, resolveColumn ids field = .ok column := by
  obtain ⟨requested, hrequested, rfl⟩ := evolved_spec h
  rw [requestedFields_singly] at hrequested
  cases hrequested with
  | cons haccepted _ =>
    refine ⟨_, ?_, haccepted.1⟩
    rw [addAll_cons]
    refine mem_addAll_left ?_
    simp [Identifiers.addIfAbsent, Identifiers.Has]

theorem unambiguous_of_evolved {dataset : DatasetId} {calls : List SchemaCall} {columns : List LakeColumn}
    (h : Evolved ids dataset calls columns) : Unambiguous ids columns := by
  obtain ⟨requested, -, rfl⟩ := evolved_spec h
  exact unambiguous_addAll unambiguous_nil

/-- Where the fields do not conflict, the columns are the fields. -/
theorem mem_of_evolved {dataset : DatasetId} {calls : List SchemaCall} {columns : List LakeColumn}
    (h : Evolved ids dataset calls columns)
    (hdistinct : ∀ f ∈ requestedFields calls, ∀ g ∈ requestedFields calls, ids.fold f.name = ids.fold g.name → f = g)
    (c : LakeColumn) : c ∈ columns ↔ ∃ field ∈ requestedFields calls, Accepted ids field c := by
  obtain ⟨requested, hrequested, rfl⟩ := evolved_spec h
  have hfield : ∀ c ∈ requested, ∃ field ∈ requestedFields calls, Accepted ids field c := by
    intro c hc
    obtain ⟨i, hi, rfl⟩ := List.getElem_of_mem hc
    have hi' : i < (requestedFields calls).length := hrequested.length_eq ▸ hi
    exact ⟨(requestedFields calls)[i], List.getElem_mem hi', hrequested.get hi' hi⟩
  have hcolumn : ∀ field ∈ requestedFields calls, ∃ c ∈ requested, Accepted ids field c := by
    intro field hmem
    obtain ⟨i, hi, rfl⟩ := List.getElem_of_mem hmem
    have hi' : i < requested.length := hrequested.length_eq ▸ hi
    exact ⟨requested[i], List.getElem_mem hi', hrequested.get hi hi'⟩
  have hunambiguous : Unambiguous ids requested := by
    intro a ha b hb hab
    obtain ⟨f, hf, hfa⟩ := hfield a ha
    obtain ⟨g, hg, hgb⟩ := hfield b hb
    rw [(resolveColumn_ok hfa.1).1, (resolveColumn_ok hgb.1).1] at hab
    obtain rfl := hdistinct f hf g hg hab
    exact Except.ok.inj (hfa.1.symm.trans hgb.1)
  rw [mem_addAll_nil hunambiguous]
  constructor
  · exact hfield c
  · rintro ⟨field, hmem, haccepted⟩
    obtain ⟨c', hc', haccepted'⟩ := hcolumn field hmem
    rwa [Except.ok.inj (haccepted.1.symm.trans haccepted'.1)]

end Calls

/-- The schema a set of fields leads to is independent of the order and the repetition of the requests, and wide
    enough for each of them, exactly where no two of the fields share a name. -/
theorem evolve_schema_converges_iff (ids : Identifiers) (dataset : DatasetId) (fields : List ColumnSpec)
    (haccepted : ∀ field ∈ fields, ∃ column, Accepted ids field column) :
    (∀ calls calls' columns columns', Evolved ids dataset calls columns → Evolved ids dataset calls' columns' →
        (∀ field, field ∈ requestedFields calls ↔ field ∈ fields) →
        (∀ field, field ∈ requestedFields calls' ↔ field ∈ fields) →
        (∀ c, c ∈ columns ↔ c ∈ columns') ∧
          ∀ field ∈ fields, ∃ c ∈ columns, ids.fold c.name = ids.fold field.name ∧
            ∀ type, sqlType ids field.logicalType = .ok type → c.type.atLeastAsWide type = true) ↔
      ∀ f ∈ fields, ∀ g ∈ fields, ids.fold f.name = ids.fold g.name → f = g := by
  constructor
  · intro h f hf g hg hname
    have hcons : ∀ e ∈ fields, ∀ field ∈ e :: fields, ∃ column, Accepted ids field column := by
      intro e he field hfield
      rcases List.mem_cons.mp hfield with rfl | hfield
      · exact haccepted field he
      · exact haccepted field hfield
    have hsame : ∀ e ∈ fields, ∀ field, field ∈ requestedFields (singly dataset (e :: fields)) ↔ field ∈ fields := by
      intro e he field
      rw [requestedFields_singly, List.mem_cons]
      exact or_iff_right_of_imp fun heq => heq ▸ he
    -- each of the two comes first in one of two sequences, and the first one decides
    obtain ⟨columns, hrun⟩ := evolved_singly dataset (hcons f hf)
    obtain ⟨columns', hrun'⟩ := evolved_singly dataset (hcons g hg)
    obtain ⟨column, hmem, hresolve⟩ := evolved_singly_cons hrun
    obtain ⟨column', hmem', hresolve'⟩ := evolved_singly_cons hrun'
    have hthere := ((h _ _ _ _ hrun hrun' (hsame f hf) (hsame g hg)).1 column).mp hmem
    have hfold : ids.fold column.name = ids.fold column'.name := by
      rw [(resolveColumn_ok hresolve).1, (resolveColumn_ok hresolve').1, hname]
    rw [unambiguous_of_evolved hrun' column hthere column' hmem' hfold] at hresolve
    exact resolveColumn_injective hresolve hresolve'
  · intro hdistinct calls calls' columns columns' hrun hrun' hsame hsame'
    have hmem : ∀ {calls columns}, Evolved ids dataset calls columns →
        (∀ field, field ∈ requestedFields calls ↔ field ∈ fields) →
        ∀ c, c ∈ columns ↔ ∃ field ∈ fields, Accepted ids field c := by
      intro calls columns hrun hsame c
      rw [mem_of_evolved hrun (fun f hf g hg => hdistinct f ((hsame f).mp hf) g ((hsame g).mp hg)) c]
      simp only [hsame]
    refine ⟨fun c => (hmem hrun hsame c).trans (hmem hrun' hsame' c).symm, ?_⟩
    intro field hfield
    obtain ⟨c, hc⟩ := haccepted field hfield
    obtain ⟨hname, htype⟩ := resolveColumn_ok hc.1
    refine ⟨c, (hmem hrun hsame c).mpr ⟨field, hfield, hc⟩, by rw [hname], ?_⟩
    intro type h
    rw [htype] at h
    cases h
    simp [SqlType.atLeastAsWide]

/-- Identifiers as the engine compares them: up to the case of ASCII letters, and not empty. -/
def caseInsensitive : Identifiers where
  fold name := String.ofList (name.toList.map Char.toLower)
  refused name := if name = "" then some "zero-length delimited identifier" else none
  duplicate name := "Column with name " ++ name ++ " already exists!"
  debug text := "\"" ++ text ++ "\""

/-- Two columns that do not conflict converge. -/
theorem evolve_schema_converges_ts_body :
    (∀ field ∈ [ColumnSpec.mk "ts" "timestamp_micros", ⟨"body", "utf8"⟩], ∃ column,
      Accepted caseInsensitive field column) ∧
    ∀ calls calls' columns columns', Evolved caseInsensitive ⟨"logs"⟩ calls columns →
      Evolved caseInsensitive ⟨"logs"⟩ calls' columns' →
      (∀ field, field ∈ requestedFields calls ↔ field ∈ [ColumnSpec.mk "ts" "timestamp_micros", ⟨"body", "utf8"⟩]) →
      (∀ field, field ∈ requestedFields calls' ↔ field ∈ [ColumnSpec.mk "ts" "timestamp_micros", ⟨"body", "utf8"⟩]) →
      ∀ c, c ∈ columns ↔ c ∈ columns' := by
  have haccepted : ∀ field ∈ [ColumnSpec.mk "ts" "timestamp_micros", ⟨"body", "utf8"⟩], ∃ column,
      Accepted caseInsensitive field column := by
    refine List.forall_mem_cons.mpr ⟨⟨⟨"ts", .timestamp⟩, rfl, by decide⟩, List.forall_mem_singleton.mpr ?_⟩
    exact ⟨⟨"body", .varchar⟩, rfl, by decide⟩
  refine ⟨haccepted, fun calls calls' columns columns' h h' hsame hsame' => ?_⟩
  refine ((evolve_schema_converges_iff caseInsensitive ⟨"logs"⟩ _ haccepted).mpr ?_
    calls calls' columns columns' h h' hsame hsame').1
  decide

/-- One column asked for with two integer types: the two orders leave different types, one of them too narrow for
    what was asked. -/
theorem evolve_schema_diverges :
    ∃ calls calls' : List SchemaCall, (∀ field, field ∈ requestedFields calls ↔ field ∈ requestedFields calls') ∧
      Evolved caseInsensitive ⟨"logs"⟩ calls [⟨"count", .integer⟩] ∧
      Evolved caseInsensitive ⟨"logs"⟩ calls' [⟨"count", .bigint⟩] ∧
      ⟨"count", "int64"⟩ ∈ requestedFields calls ∧ SqlType.integer.atLeastAsWide .bigint = false := by
  have hnarrow : Accepted caseInsensitive ⟨"count", "int32"⟩ ⟨"count", .integer⟩ := ⟨rfl, by decide⟩
  have hwide : Accepted caseInsensitive ⟨"count", "int64"⟩ ⟨"count", .bigint⟩ := ⟨rfl, by decide⟩
  have hfirst : ∀ a b, addAll caseInsensitive [] [⟨"count", a⟩, ⟨"count", b⟩] = [⟨"count", a⟩] := by
    simp [addAll, Identifiers.addIfAbsent, Identifiers.Has]
  refine ⟨singly ⟨"logs"⟩ [⟨"count", "int32"⟩, ⟨"count", "int64"⟩],
    singly ⟨"logs"⟩ [⟨"count", "int64"⟩, ⟨"count", "int32"⟩], ?_, ?_, ?_, ?_, rfl⟩
  · intro field
    simp only [requestedFields_singly, List.mem_cons, List.not_mem_nil, or_false]
    exact or_comm
  · exact hfirst _ _ ▸ evolved_singly_addAll _ (.cons hnarrow (.cons hwide .nil))
  · exact hfirst _ _ ▸ evolved_singly_addAll _ (.cons hwide (.cons hnarrow .nil))
  · simp [requestedFields_singly]

end Duckspout
