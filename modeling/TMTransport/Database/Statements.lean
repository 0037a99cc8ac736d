import Mathlib.Data.List.Dedup
import Mathlib.Logic.Function.Basic

/-!
# Statements of the database servers and exporters

The transaction servers and the table exporters write the text of each statement once:
it is kept in a static variable of the function that issues it, and a static variable
is shared by all objects of the same template instantiation. So the first object that
issues a statement settles the text for all others, with its table in it.

The database is a parameter. It is asked to execute a text with bound values on a session,
does what it does to the table that the text names, and says whether it has failed.
-/

namespace Database

/-- What the traits of `DBTableExporterFactory` tell apart. -/
inductive Backend where
  | mysql
  | sqlite3
  | other
  deriving DecidableEq

/-- A field of a struct, of `FIELD_NAMES`. -/
structure Field where
  name : String
  /-- It is a `time_point` or a `TimePointAsString`. -/
  isTime : Bool
  deriving DecidableEq

/-- The structs that a template is instantiated with: key, data, and the row of an exporter. -/
structure Layout where
  key : List Field
  data : List Field
  row : List Field

inductive Value where
  | param (name : String)
  | strToDate (name : String)
  deriving DecidableEq

/-- The text of a statement. -/
inductive Template where
  | insert (table : String) (columns : List String) (values : List Value)
  /-- With `ON DUPLICATE KEY UPDATE` -/
  | insertOrUpdate (table : String) (columns : List String) (values : List Value)
      (updated : List String)
  | update (table : String) (set wheres : List String)
  | delete (table : String) (wheres : List String)
  deriving DecidableEq

/-- The table that it names. -/
def Template.table : Template → String
  | .insert table _ _ => table
  | .insertOrUpdate table _ _ _ => table
  | .update table _ _ => table
  | .delete table _ => table

/-! ## The templates -/

def fieldNames (fields : List Field) : List String := fields.map Field.name

def params (fields : List Field) : List Value := fields.map fun f => .param f.name

/-- `addValueFieldsToInsertValueList` -/
def valueFields (backend : Backend) (fields : List Field) : List Value :=
  fields.map fun f =>
    if f.isTime ∧ backend ≠ .sqlite3 then .strToDate f.name else .param f.name

variable (layout : Layout)

/-- `insertTemplate` of both servers -/
def insertTemplate (tableName : String) : Template :=
  .insert tableName (fieldNames layout.key ++ fieldNames layout.data)
    (params layout.key ++ params layout.data)

def updateTemplate (tableName : String) : Template :=
  .update tableName (fieldNames layout.data) (fieldNames layout.key)

/-- `deleteTemplate` of both servers -/
def deleteTemplate (tableName : String) : Template :=
  .delete tableName (fieldNames layout.key)

/-- `insertTemplate` of the exporters -/
def exportTemplate (backend : Backend) (tableName : String) : Template :=
  .insert tableName (fieldNames layout.row) (valueFields backend layout.row)

def insertTemplateWithDuplicateCheck (backend : Backend) (tableName : String) : Template :=
  .insertOrUpdate tableName (fieldNames layout.key ++ fieldNames layout.data)
    (valueFields backend layout.key ++ valueFields backend layout.data) (fieldNames layout.data)

/-- The static variables of one instantiation. -/
inductive Slot where
  | itemInsert
  | itemUpdate
  | itemDelete
  /-- `del_templ` -/
  | collectionDelete
  /-- `ins_templ` -/
  | collectionInsert
  | exporter
  | exporterWithDuplicateCheck
  | batchExporter
  deriving DecidableEq

/-- What an object puts into a static variable that it finds empty. -/
def Slot.template (backend : Backend) (tableName : String) : Slot → Template
  | .itemInsert => insertTemplate layout tableName
  | .itemUpdate => updateTemplate layout tableName
  | .itemDelete => deleteTemplate layout tableName
  | .collectionDelete => deleteTemplate layout tableName
  | .collectionInsert => insertTemplate layout tableName
  | .exporter => exportTemplate layout backend tableName
  | .exporterWithDuplicateCheck => insertTemplateWithDuplicateCheck layout backend tableName
  | .batchExporter => exportTemplate layout backend tableName

/-! ## Calls -/

/-- `CollectionDelta` -/
structure Delta (K D : Type) where
  deletes : List K
  inserts_updates : List (K × D)

/-- The values that are bound to a statement. -/
inductive Bound (K D T : Type) where
  | keys (ks : List K)
  | rows (rs : List (K × D))
  | records (ts : List T)

/-- A call of a server, or a row that comes to an exporter. -/
inductive Call (K D T : Type) where
  | handleInsert (account : String) (key : K) (data : D)
  | handleUpdate (account : String) (key : K) (processedUpdate : D)
  | handleDelete (account : String) (key : K)
  /-- `handleUpdate` of the collection server -/
  | handleCollectionUpdate (account : String) (processedUpdate : Delta K D)
  | export (data : T)
  | exportWithDuplicateCheck (data : K × D)
  | exportBatch (data : List T)

variable {S C K D T : Type} [DecidableEq K]

/-- Each key with the last of its values: `valuesToInsert`. -/
def lastValues : List (K × D) → List (K × D)
  | [] => []
  | r :: rs => if r.1 ∈ rs.map Prod.fst then lastValues rs else r :: lastValues rs

/-- The order that the two hash tables give out their elements in. -/
structure HashOrder (K D : Type) where
  keys : List K → List K
  rows : List (K × D) → List (K × D)
  keys_perm : ∀ ks, (keys ks).Perm ks
  rows_perm : ∀ rs, (rows rs).Perm rs

/-- `keysToDeleteVec` -/
def HashOrder.keysToDelete (order : HashOrder K D) (delta : Delta K D) : List K :=
  order.keys (delta.deletes ++ delta.inserts_updates.map Prod.fst).dedup

/-- `keysToInsertVec` and `datasToInsertVec` -/
def HashOrder.rowsToInsert (order : HashOrder K D) (delta : Delta K D) : List (K × D) :=
  order.rows (lastValues delta.inserts_updates)

/-- The statements that a call issues one after the other, if none fails. -/
def statements (order : HashOrder K D) : Call K D T → List (Slot × Bound K D T)
  | .handleInsert _ key data => [(.itemInsert, .rows [(key, data)])]
  | .handleUpdate _ key data => [(.itemUpdate, .rows [(key, data)])]
  | .handleDelete _ key => [(.itemDelete, .keys [key])]
  | .handleCollectionUpdate _ delta =>
    (if order.keysToDelete delta = [] then []
      else [(.collectionDelete, .keys (order.keysToDelete delta))]) ++
    (if (order.rowsToInsert delta).isEmpty then []
      else [(.collectionInsert, .rows (order.rowsToInsert delta))])
  | .export data => [(.exporter, .records [data])]
  | .exportWithDuplicateCheck data => [(.exporterWithDuplicateCheck, .rows [data])]
  | .exportBatch data => if data.isEmpty then [] else [(.batchExporter, .records data)]

/-- The account that a server is called for. -/
def Call.account : Call K D T → Option String
  | .handleInsert account _ _ => some account
  | .handleUpdate account _ _ => some account
  | .handleDelete account _ => some account
  | .handleCollectionUpdate account _ => some account
  | _ => none

/-! ## Objects and their process -/

structure Object (S : Type) where
  session : Option S
  tableName : String
  accountFilter : Option (String → Bool)

def Object.accepts (o : Object S) (account : Option String) : Bool :=
  match o.accountFilter, account with
  | some accountFilter, some account => accountFilter account
  | _, _ => true

/-- What the database does to a table that a statement names, and whether the statement goes
through. -/
structure Engine (S C K D T : Type) where
  execute : S → Template → Bound K D T → C → C × Bool

structure Process (S C : Type) where
  /-- The static variables, `none` for the empty text. -/
  kept : Slot → Option Template
  tables : S → String → C
  /-- For the record: the table of who has issued a statement, and its text. -/
  issued : List (String × Template)

inductive Outcome where
  | success
  | failurePermission
  /-- An exception. -/
  | threw
  deriving DecidableEq

variable [DecidableEq S]

def writeTable (tables : S → String → C) (session : S) (table : String) (c : C) :
    S → String → C :=
  Function.update tables session (Function.update (tables session) table c)

/-- The text that a statement is issued with. -/
def Process.text (p : Process S C) (own : Template) (slot : Slot) : Template :=
  (p.kept slot).getD own

/-- One statement: the text is taken from the static variable, or put there, and executed. -/
def Process.issue (engine : Engine S C K D T) (backend : S → Backend) (session : S)
    (tableName : String) (p : Process S C) (st : Slot × Bound K D T) : Process S C × Bool :=
  let text := p.text (st.1.template layout (backend session) tableName) st.1
  let result := engine.execute session text st.2 (p.tables session text.table)
  ({ kept := Function.update p.kept st.1 (some text)
     tables := writeTable p.tables session text.table result.1
     issued := p.issued ++ [(tableName, text)] }, result.2)

/-- An exception of a statement leaves out the rest. -/
def Process.issueAll (engine : Engine S C K D T) (backend : S → Backend) (session : S)
    (tableName : String) : Process S C → List (Slot × Bound K D T) → Process S C × Bool
  | p, [] => (p, true)
  | p, st :: sts =>
    match p.issue layout engine backend session tableName st with
    | (p', true) => issueAll engine backend session tableName p' sts
    | (p', false) => (p', false)

def Process.call (engine : Engine S C K D T) (backend : S → Backend) (order : HashOrder K D)
    (o : Object S) (p : Process S C) (c : Call K D T) : Process S C × Outcome :=
  if o.accepts c.account then
    match o.session with
    | none => (p, .failurePermission)
    | some session =>
      let result := p.issueAll layout engine backend session o.tableName (statements order c)
      (result.1, if result.2 then .success else .threw)
  else (p, .failurePermission)

end Database
