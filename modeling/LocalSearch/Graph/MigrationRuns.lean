import LocalSearch.Graph.Migrations

/-!
# Interrupted migrations

Migration 1 may be cut anywhere: each of its statements does nothing the second
time. The later ones begin with a statement that fails the second time, so a cut
inside one of them leaves a database that no attempt opens again.
-/
namespace LocalSearch.Graph

set_option autoImplicit false

open Lib

/-- Every row is in its place, with further values behind its own. -/
def KeepsRows (rows rows' : List (List Value)) : Prop :=
  ∀ (i : Nat) (row : List Value), rows[i]? = some row → ∃ row', rows'[i]? = some row' ∧ row <+: row'

/-- What no statement takes away: tables keep their columns and rows, and indexes
stay. -/
structure Keeps (db db' : Database) : Prop where
  tables : ∀ name table rows, db.objects.get name = some (.table table rows) →
    ∃ table' rows', db'.objects.get name = some (.table table' rows') ∧
      table.columns <+: table'.columns ∧ KeepsRows rows rows'
  indexes : ∀ name definition, db.objects.get name = some (.index definition) →
    db'.objects.get name = some (.index definition)

theorem KeepsRows.refl (rows : List (List Value)) : KeepsRows rows rows :=
  fun _ row h => ⟨row, h, List.prefix_rfl⟩

theorem KeepsRows.trans {rows rows' rows'' : List (List Value)} (h : KeepsRows rows rows')
    (h' : KeepsRows rows' rows'') : KeepsRows rows rows'' := by
  intro i row hrow
  obtain ⟨row₁, hrow₁, hbegins₁⟩ := h i row hrow
  obtain ⟨row₂, hrow₂, hbegins₂⟩ := h' i row₁ hrow₁
  exact ⟨row₂, hrow₂, hbegins₁.trans hbegins₂⟩

theorem KeepsRows.append (rows later : List (List Value)) : KeepsRows rows (rows ++ later) := by
  intro i row hrow
  obtain ⟨hlt, -⟩ := List.getElem?_eq_some_iff.mp hrow
  exact ⟨row, by rw [List.getElem?_append_left hlt, hrow], List.prefix_rfl⟩

theorem KeepsRows.widen (rows : List (List Value)) (default : Value) :
    KeepsRows rows (rows.map (· ++ [default])) := by
  intro i row hrow
  exact ⟨row ++ [default], by rw [List.getElem?_map, hrow]; rfl, List.prefix_append _ _⟩

namespace Keeps

variable {db db' db'' : Database}

theorem refl (db : Database) : Keeps db db where
  tables := fun _ table rows h => ⟨table, rows, h, List.prefix_rfl, .refl rows⟩
  indexes := fun _ _ h => h

theorem trans (h : Keeps db db') (h' : Keeps db' db'') : Keeps db db'' where
  tables := by
    intro name table rows hget
    obtain ⟨table₁, rows₁, hget₁, hcolumns₁, hrows₁⟩ := h.tables name table rows hget
    obtain ⟨table₂, rows₂, hget₂, hcolumns₂, hrows₂⟩ := h'.tables name table₁ rows₁ hget₁
    exact ⟨table₂, rows₂, hget₂, hcolumns₁.trans hcolumns₂, hrows₁.trans hrows₂⟩
  indexes := fun name definition hget => h'.indexes name definition (h.indexes name definition hget)

/-- One table is written to, and keeps its columns and rows. -/
theorem insert_table {name : ObjectName} {table table' : TableDefinition} {rows rows' : List (List Value)}
    (hget : db.objects.get name = some (.table table rows)) (hcolumns : table.columns <+: table'.columns)
    (hrows : KeepsRows rows rows') :
    Keeps db { db with objects := db.objects.insert name (.table table' rows') } where
  tables := by
    intro other t r hother
    by_cases hname : other = name
    · subst hname
      rw [hget] at hother
      obtain ⟨rfl, rfl⟩ := SchemaObject.table.inj (Option.some.inj hother)
      exact ⟨table', rows', Table.get_insert_self _ _ _, hcolumns, hrows⟩
    · exact ⟨t, r, (Table.get_insert_ne _ _ hname).trans hother, List.prefix_rfl, .refl r⟩
  indexes := by
    intro other definition hother
    refine (Table.get_insert_ne _ _ ?_).trans hother
    rintro rfl
    rw [hget] at hother
    cases hother

theorem insert_new {name : ObjectName} (object : SchemaObject) (hget : db.objects.get name = none) :
    Keeps db { db with objects := db.objects.insert name object } := by
  have hold : ∀ other o, db.objects.get other = some o →
      (db.objects.insert name object).get other = some o := by
    intro other o hother
    refine (Table.get_insert_ne _ _ ?_).trans hother
    rintro rfl
    rw [hget] at hother
    cases hother
  exact ⟨fun other t r hother => ⟨t, r, hold other _ hother, List.prefix_rfl, .refl r⟩,
    fun other definition hother => hold other _ hother⟩

end Keeps

/-- What an accepted statement has done. -/
theorem execute_ok {s : Statement} {db db' : Database} (h : s.execute db = .ok db') :
    match s with
    | .createTable ifNotExists name definition =>
        (ifNotExists = true ∧ (∃ table rows, db.objects.get name = some (.table table rows)) ∧ db' = db) ∨
        (db.objects.get name = none ∧
          db' = { db with objects := db.objects.insert name (.table definition []) })
    | .createIndex ifNotExists name definition =>
        (∃ table rows, db.objects.get definition.table = some (.table table rows)) ∧
        ((ifNotExists = true ∧ (∃ old, db.objects.get name = some (.index old)) ∧ db' = db) ∨
          (db.objects.get name = none ∧
            db' = { db with objects := db.objects.insert name (.index definition) }))
    | .addColumn name column default =>
        ∃ table rows, db.objects.get name = some (.table table rows) ∧
          db' = { db with
            objects := db.objects.insert name
              (.table ({ table with columns := table.columns ++ [column] })
                (rows.map (· ++ [default]))) }
    | .insertMigration orIgnore version description =>
        ∃ table rows, db.objects.get migrationsTable = some (.table table rows) ∧
          ((orIgnore = true ∧ recorded version rows = true ∧ db' = db) ∨
            db' = { db with
              objects := db.objects.insert migrationsTable
                (.table table (rows ++ [[.integer version, .text description]])) })
    | .setUserVersion version => db' = { db with userVersion := version } := by
  cases s with
  | createTable ifNotExists name definition =>
    simp only [Statement.execute] at h
    split at h
    · next table rows hget =>
      split_ifs at h with hif
      exact Or.inl ⟨hif, ⟨table, rows, hget⟩, (Except.ok.inj h).symm⟩
    · cases h
    · next hget => exact Or.inr ⟨hget, (Except.ok.inj h).symm⟩
  | createIndex ifNotExists name definition =>
    simp only [Statement.execute] at h
    split at h
    · next table rows htable =>
      refine ⟨⟨table, rows, htable⟩, ?_⟩
      split at h
      · cases h
      · next old hget =>
        split_ifs at h with hif
        exact Or.inl ⟨hif, ⟨old, hget⟩, (Except.ok.inj h).symm⟩
      · next hget =>
        split_ifs at h
        exact Or.inr ⟨hget, (Except.ok.inj h).symm⟩
    · cases h
  | addColumn name column default =>
    simp only [Statement.execute] at h
    split at h
    · next table rows hget =>
      split_ifs at h
      exact ⟨table, rows, hget, (Except.ok.inj h).symm⟩
    · cases h
  | insertMigration orIgnore version description =>
    simp only [Statement.execute] at h
    split at h
    · next table rows hget =>
      refine ⟨table, rows, hget, ?_⟩
      split_ifs at h with hrecorded hignore
      · exact Or.inl ⟨hignore, hrecorded, (Except.ok.inj h).symm⟩
      · exact Or.inr (Except.ok.inj h).symm
    · cases h
  | setUserVersion version => exact (Except.ok.inj h).symm

theorem execute_keeps {s : Statement} {db db' : Database} (h : s.execute db = .ok db') :
    Keeps db db' := by
  have hdone := execute_ok h
  cases s with
  | createTable ifNotExists name definition =>
    rcases hdone with ⟨-, -, rfl⟩ | ⟨hget, rfl⟩
    · exact .refl _
    · exact .insert_new _ hget
  | createIndex ifNotExists name definition =>
    obtain ⟨-, ⟨-, -, rfl⟩ | ⟨hget, rfl⟩⟩ := hdone
    · exact .refl _
    · exact .insert_new _ hget
  | addColumn name column default =>
    obtain ⟨table, rows, hget, rfl⟩ := hdone
    exact .insert_table hget (List.prefix_append _ _) (.widen rows default)
  | insertMigration orIgnore version description =>
    obtain ⟨table, rows, hget, ⟨-, -, rfl⟩ | rfl⟩ := hdone
    · exact .refl _
    · exact .insert_table hget List.prefix_rfl (.append rows _)
  | setUserVersion version =>
    have hset : db' = { db with userVersion := version } := hdone
    rw [hset]
    exact ⟨(Keeps.refl db).tables, (Keeps.refl db).indexes⟩

theorem recorded_keeps {version : Nat} {rows rows' : List (List Value)} (h : KeepsRows rows rows')
    (hrecorded : recorded version rows = true) : recorded version rows' = true := by
  obtain ⟨row, hrow, hhead⟩ := List.any_eq_true.mp hrecorded
  obtain ⟨i, hi⟩ := List.mem_iff_getElem?.mp hrow
  obtain ⟨row', hrow', rest, rfl⟩ := h i row hi
  refine List.any_eq_true.mpr ⟨row ++ rest, List.mem_of_getElem? hrow', ?_⟩
  have hhead' : row.head? = some (.integer version) := of_decide_eq_true hhead
  rw [List.head?_append, hhead']
  exact decide_eq_true rfl

/-- The statement does nothing where it was done before. -/
def Statement.Repeatable : Statement → Prop
  | .createTable ifNotExists _ _ | .createIndex ifNotExists _ _ => ifNotExists = true
  | .insertMigration orIgnore _ _ => orIgnore = true
  | .addColumn _ _ _ | .setUserVersion _ => False

instance (s : Statement) : Decidable s.Repeatable := by
  cases s <;> unfold Statement.Repeatable <;> infer_instance

/-- The statement fails where it was done before. -/
def Statement.Once : Statement → Prop
  | .createTable ifNotExists _ _ => ifNotExists = false
  | .addColumn _ _ _ => True
  | .createIndex _ _ _ | .insertMigration _ _ _ | .setUserVersion _ => False

theorem execute_again {s : Statement} {db db' later : Database} (hs : s.Repeatable)
    (h : s.execute db = .ok db') (hlater : Keeps db' later) : s.execute later = .ok later := by
  have hdone := execute_ok h
  cases s with
  | createTable ifNotExists name definition =>
    obtain rfl : ifNotExists = true := hs
    have htable : ∃ table rows, db'.objects.get name = some (.table table rows) := by
      rcases hdone with ⟨-, htable, rfl⟩ | ⟨-, rfl⟩
      · exact htable
      · exact ⟨definition, [], Table.get_insert_self _ _ _⟩
    obtain ⟨table, rows, hget⟩ := htable
    obtain ⟨table', rows', hget', -⟩ := hlater.tables name table rows hget
    simp only [Statement.execute, hget']
    rfl
  | createIndex ifNotExists name definition =>
    obtain rfl : ifNotExists = true := hs
    obtain ⟨⟨table, rows, htable⟩, hindex⟩ := hdone
    obtain ⟨table₁, rows₁, htable₁, -⟩ := (execute_keeps h).tables _ table rows htable
    obtain ⟨table₂, rows₂, htable₂, -⟩ := hlater.tables _ table₁ rows₁ htable₁
    have hget : ∃ old, db'.objects.get name = some (.index old) := by
      rcases hindex with ⟨-, hold, rfl⟩ | ⟨-, rfl⟩
      · exact hold
      · exact ⟨definition, Table.get_insert_self _ _ _⟩
    obtain ⟨old, hold⟩ := hget
    have hget' := hlater.indexes name old hold
    simp only [Statement.execute, htable₂, hget']
    rfl
  | insertMigration orIgnore version description =>
    obtain rfl : orIgnore = true := hs
    obtain ⟨table, rows, hget, hrow⟩ := hdone
    have hrecorded : ∃ rows', db'.objects.get migrationsTable = some (.table table rows') ∧
        recorded version rows' = true := by
      rcases hrow with ⟨-, hrecorded, rfl⟩ | rfl
      · exact ⟨rows, hget, hrecorded⟩
      · refine ⟨_, Table.get_insert_self _ _ _, ?_⟩
        simp [recorded]
    obtain ⟨rows', hget', hrecorded⟩ := hrecorded
    obtain ⟨table₁, rows₁, hget₁, -, hkeeps⟩ := hlater.tables _ table rows' hget'
    simp only [Statement.execute, hget₁, recorded_keeps hkeeps hrecorded]
    rfl
  | addColumn | setUserVersion => exact hs.elim

theorem execute_once {s : Statement} {db db' later : Database} (hs : s.Once)
    (h : s.execute db = .ok db') (hlater : Keeps db' later) : ∃ e, s.execute later = .error e := by
  have hdone := execute_ok h
  cases s with
  | createTable ifNotExists name definition =>
    obtain rfl : ifNotExists = false := hs
    rcases hdone with ⟨hif, -⟩ | ⟨-, rfl⟩
    · cases hif
    · obtain ⟨table, rows, hget, -⟩ :=
        hlater.tables name definition [] (Table.get_insert_self _ _ _)
      refine ⟨.tableExists name, ?_⟩
      simp only [Statement.execute, hget]
      rfl
  | addColumn name column default =>
    obtain ⟨table, rows, -, rfl⟩ := hdone
    obtain ⟨table', rows', hget, hcolumns, -⟩ := hlater.tables name _ _ (Table.get_insert_self _ _ _)
    have hmem : column.name ∈ table'.columns.map (·.name) :=
      List.mem_map.mpr ⟨column, hcolumns.subset (by simp), rfl⟩
    refine ⟨.duplicateColumn column.name, ?_⟩
    simp only [Statement.execute, hget, if_pos hmem]
  | createIndex | insertMigration | setUserVersion => exact hs.elim

/-- A table without its rows, but for those that record the migrations. -/
def SchemaObject.withoutRows (name : ObjectName) : SchemaObject → SchemaObject
  | .table definition rows => .table definition (if name = migrationsTable then rows else [])
  | .index definition => .index definition

def skeleton (db : Database) : Database :=
  { db with objects := db.objects.mapRows SchemaObject.withoutRows }

def emptyDatabase : Database := ⟨.empty, 0⟩

/-- What the migrations make of an empty database. -/
def versionDatabase (version : Nat) : Database :=
  (runBatch Statement.execute (migrations.take version).flatten emptyDatabase).1

/-- The database has the tables, columns and indexes of a version. -/
def AtVersion (version : Nat) (db : Database) : Prop := skeleton db = versionDatabase version

instance (version : Nat) (db : Database) : Decidable (AtVersion version db) :=
  inferInstanceAs (Decidable (_ = _))

/-- The statement does not look at the rows. -/
def Statement.RowBlind : Statement → Prop
  | .createIndex _ _ definition => definition.unique = false
  | _ => True

instance (s : Statement) : Decidable s.RowBlind := by
  cases s <;> unfold Statement.RowBlind <;> infer_instance

@[simp] theorem skeleton_get (db : Database) (name : ObjectName) :
    (skeleton db).objects.get name = (db.objects.get name).map (SchemaObject.withoutRows name) :=
  Table.get_mapRows _ _ _

theorem skeleton_insert (db : Database) (name : ObjectName) (object : SchemaObject) :
    skeleton { db with objects := db.objects.insert name object } =
      { skeleton db with
        objects := (skeleton db).objects.insert name (object.withoutRows name) } :=
  congrArg (Database.mk · db.userVersion) (Table.mapRows_insert _ _ _ _)

/-- Such a statement does the same to the shape. -/
theorem execute_skeleton {s : Statement} (hs : s.RowBlind) (db : Database) :
    s.execute (skeleton db) = skeleton <$> s.execute db := by
  cases s with
  | createTable ifNotExists name definition =>
    have hnew : SchemaObject.withoutRows name (.table definition []) = .table definition [] :=
      congrArg (SchemaObject.table definition) (ite_self [])
    simp only [Statement.execute, skeleton_get]
    rcases db.objects.get name with _ | ⟨table, rows⟩ | old
    · exact congrArg Except.ok (by rw [skeleton_insert, hnew])
    · exact ite_map (fun _ => rfl) fun _ => rfl
    · rfl
  | createIndex ifNotExists name definition =>
    have hs : definition.unique = false := hs
    simp only [Statement.execute, skeleton_get, hs]
    rcases db.objects.get definition.table with _ | ⟨table, rows⟩ | old
    · rfl
    · rcases db.objects.get name with _ | ⟨table', rows'⟩ | old
      · refine ite_map (fun _ => rfl) fun _ => ite_map (fun h => nomatch h) fun _ => ?_
        exact congrArg Except.ok (skeleton_insert db name (.index definition)).symm
      · rfl
      · exact ite_map (fun _ => rfl) fun _ => rfl
    · rfl
  | addColumn name column default =>
    simp only [Statement.execute, skeleton_get]
    rcases db.objects.get name with _ | ⟨table, rows⟩ | old
    · rfl
    · refine ite_map (fun _ => rfl) fun _ => congrArg Except.ok ?_
      rw [skeleton_insert]
      simp only [SchemaObject.withoutRows]
      split_ifs <;> rfl
    · rfl
  | insertMigration orIgnore version description =>
    simp only [Statement.execute, skeleton_get]
    rcases db.objects.get migrationsTable with _ | ⟨table, rows⟩ | old
    · rfl
    · refine ite_map (fun _ => ite_map (fun _ => rfl) fun _ => rfl) fun _ => ?_
      refine congrArg Except.ok ?_
      rw [skeleton_insert]
      simp only [SchemaObject.withoutRows, if_true]
    · rfl
  | setUserVersion version => rfl

/-- A database without rows stays without. -/
theorem execute_bare {s : Statement} {db db' : Database} (hbare : skeleton db = db)
    (h : s.execute db = .ok db') : skeleton db' = db' := by
  have hinsert : ∀ {name : ObjectName} {object : SchemaObject}, object.withoutRows name = object →
      skeleton { db with objects := db.objects.insert name object } =
        { db with objects := db.objects.insert name object } := by
    intro name object hobject
    rw [skeleton_insert, hbare, hobject]
  have hdone := execute_ok h
  cases s with
  | createTable ifNotExists name definition =>
    rcases hdone with ⟨-, -, rfl⟩ | ⟨-, rfl⟩
    · exact hbare
    · exact hinsert (congrArg (SchemaObject.table definition) (ite_self []))
  | createIndex ifNotExists name definition =>
    obtain ⟨-, ⟨-, -, rfl⟩ | ⟨-, rfl⟩⟩ := hdone
    · exact hbare
    · exact hinsert rfl
  | addColumn name column default =>
    obtain ⟨table, rows, hget, rfl⟩ := hdone
    refine hinsert (congrArg (SchemaObject.table _) ?_)
    have hrows := skeleton_get db name
    rw [hbare, hget] at hrows
    have hrows : rows = if name = migrationsTable then rows else [] :=
      (SchemaObject.table.inj (Option.some.inj hrows)).2
    split_ifs at hrows ⊢
    · rfl
    · rw [hrows]
      rfl
  | insertMigration orIgnore version description =>
    obtain ⟨table, rows, -, ⟨-, -, rfl⟩ | rfl⟩ := hdone
    · exact hbare
    · exact hinsert (congrArg (SchemaObject.table table) (if_pos rfl))
  | setUserVersion version =>
    obtain rfl : db' = { db with userVersion := version } := hdone
    exact congrArg (Database.mk · version) (congrArg Database.objects hbare)

theorem versionDatabase_bare (v : Nat) : AtVersion v (versionDatabase v) := by
  have hkeeps : skeleton emptyDatabase = emptyDatabase → AtVersion v (versionDatabase v) :=
    runBatch_keeps (R := fun db db' => skeleton db = db → skeleton db' = db') (fun _ => id)
      (fun h h' => h' ∘ h) (fun _ _ _ _ h hbare => execute_bare hbare h) emptyDatabase
  exact hkeeps rfl

def Statement.KeepsVersion : Statement → Prop
  | .setUserVersion _ => False
  | _ => True

instance (s : Statement) : Decidable s.KeepsVersion := by
  cases s <;> unfold Statement.KeepsVersion <;> infer_instance

instance (s : Statement) : Decidable s.Once := by
  cases s <;> unfold Statement.Once <;> infer_instance

/-- What every migration has in common, and what the later ones differ in from
the first. -/
structure Migration (version : Nat) (statements : List Statement) : Prop where
  marked : statements = statements.dropLast ++ [.setUserVersion version]
  unmarked : ∀ s ∈ statements.dropLast, s.KeepsVersion
  repeatable : version = 1 → ∀ s ∈ statements.dropLast, s.Repeatable
  blind : version ≠ 1 → ∀ s ∈ statements, s.RowBlind
  once : version ≠ 1 → ∀ s ∈ statements.head?, s.Once

theorem drop_cons_lt {v : Nat} {statements : List Statement} {later : List (List Statement)}
    (h : migrations.drop v = statements :: later) : v < graphSchemaVersion := by
  by_contra hv
  have hnil : migrations.drop v = [] := List.drop_eq_nil_of_le (Nat.le_of_not_lt hv)
  rw [hnil] at h
  cases h

theorem drop_of_cons {v : Nat} {statements : List Statement} {later : List (List Statement)}
    (h : migrations.drop v = statements :: later) : migrations.drop (v + 1) = later := by
  rw [← List.tail_drop, h, List.tail_cons]

theorem migration_of_drop {v : Nat} {statements : List Statement} {later : List (List Statement)}
    (h : migrations.drop v = statements :: later) : Migration (v + 1) statements := by
  match v, h with
  | 0, rfl => exact ⟨rfl, by decide, by decide, by decide, by decide⟩
  | 1, rfl => exact ⟨rfl, by decide, by decide, by decide, by decide⟩
  | 2, rfl => exact ⟨rfl, by decide, by decide, by decide, by decide⟩
  | 3, rfl => exact ⟨rfl, by decide, by decide, by decide, by decide⟩
  | 4, rfl => exact ⟨rfl, by decide, by decide, by decide, by decide⟩
  | n + 5, h => exact absurd (drop_cons_lt h) (Nat.not_lt.mpr (Nat.le_add_left 5 n))

theorem migrations_accepted :
    (runBatch Statement.execute migrations.flatten emptyDatabase).2 = none := by
  decide

theorem versionDatabase_run {v : Nat} {statements : List Statement} {later : List (List Statement)}
    (h : migrations.drop v = statements :: later) :
    runBatch Statement.execute statements (versionDatabase v) = (versionDatabase (v + 1), none) := by
  have hget : migrations[v]? = some statements := by
    rw [← List.head?_drop, h]
    rfl
  have htake : (migrations.take (v + 1)).flatten = (migrations.take v).flatten ++ statements := by
    rw [List.take_add_one, hget, List.flatten_append]
    exact congrArg _ (List.append_nil _)
  have haccepted := migrations_accepted
  rw [← List.take_append_drop (v + 1) migrations, List.flatten_append] at haccepted
  have hpart := congrArg Prod.snd (runBatch_split haccepted).1
  rw [htake] at hpart
  have hlast := (runBatch_split hpart).2
  rwa [← htake] at hlast

theorem run_version {l : List Statement} (hl : ∀ s ∈ l, s.KeepsVersion) (db : Database) :
    (runBatch Statement.execute l db).1.userVersion = db.userVersion := by
  have htrans : ∀ {s t u : Database}, t.userVersion = s.userVersion →
      u.userVersion = t.userVersion → u.userVersion = s.userVersion := fun h h' => h'.trans h
  refine runBatch_keeps (R := fun s t => t.userVersion = s.userVersion) (fun _ => rfl) htrans ?_ db
  intro s hs before after h
  have hdone := execute_ok h
  cases s with
  | createTable ifNotExists name definition =>
    rcases hdone with ⟨-, -, rfl⟩ | ⟨-, rfl⟩ <;> rfl
  | createIndex ifNotExists name definition =>
    obtain ⟨-, ⟨-, -, rfl⟩ | ⟨-, rfl⟩⟩ := hdone <;> rfl
  | addColumn name column default =>
    obtain ⟨table, rows, -, rfl⟩ := hdone
    rfl
  | insertMigration orIgnore version description =>
    obtain ⟨table, rows, -, ⟨-, -, rfl⟩ | rfl⟩ := hdone <;> rfl
  | setUserVersion version => exact (hl _ hs).elim

theorem run_keeps (l : List Statement) (db : Database) :
    Keeps db (runBatch Statement.execute l db).1 :=
  runBatch_keeps (R := Keeps) .refl .trans (fun _ _ => execute_keeps) db

/-- The marker is set by the last statement only. -/
theorem Migration.sets_version {version : Nat} {statements : List Statement}
    (h : Migration version statements) {db db' : Database}
    (hrun : runBatch Statement.execute statements db = (db', none)) : db'.userVersion = version := by
  rw [h.marked] at hrun
  have hlast := (runBatch_split (congrArg Prod.snd hrun)).2
  rw [hrun] at hlast
  exact (congrArg (·.1.userVersion) hlast).symm

theorem mem_dropLast_of_take {statements : List Statement} {k : Nat} (hk : k < statements.length)
    {s : Statement} (hs : s ∈ statements.take k) : s ∈ statements.dropLast := by
  rw [List.dropLast_eq_take]
  exact List.take_subset_take_left statements (Nat.le_pred_of_lt hk) hs

theorem versionDatabase_version {v : Nat} (hv : v ≤ graphSchemaVersion) :
    (versionDatabase v).userVersion = v := by
  cases v with
  | zero => rfl
  | succ v =>
    have hlt : v < migrations.length := hv
    have hdrop := List.drop_eq_getElem_cons hlt
    exact (migration_of_drop hdrop).sets_version (versionDatabase_run hdrop)

theorem AtVersion.version {v : Nat} {db : Database} (h : AtVersion v db)
    (hv : v ≤ graphSchemaVersion) : db.userVersion = v :=
  (congrArg Database.userVersion h).trans (versionDatabase_version hv)

/-- The next attempt fails at once. -/
def Stuck (db : Database) : Prop :=
  db.userVersion ≤ graphSchemaVersion ∧ ∃ first later e,
    pendingStatements db.userVersion = first :: later ∧ first.execute db = .error e

theorem Stuck.interrupted {db : Database} (h : Stuck db) (k : Nat) : interrupted db k = db := by
  obtain ⟨hversion, first, later, e, hpending, hfails⟩ := h
  rw [Graph.interrupted, if_neg (Nat.not_lt.mpr hversion), hpending]
  exact runBatch_stuck hfails k

theorem Stuck.refused {db : Database} (h : Stuck db) : (initializeGraph db).2 ≠ none := by
  obtain ⟨hversion, first, later, e, hpending, hfails⟩ := h
  rw [initializeGraph, if_neg (Nat.not_lt.mpr hversion), hpending]
  simp only [runBatch, hfails]
  exact Option.some_ne_none _

/-- A migration past the first takes any database of its version to the next. -/
theorem AtVersion.migrate {v : Nat} {db : Database} {statements : List Statement}
    {later : List (List Statement)} (h : AtVersion v db) (hv : 0 < v)
    (hdrop : migrations.drop v = statements :: later) :
    ∃ db', runBatch Statement.execute statements db = (db', none) ∧ AtVersion (v + 1) db' := by
  have hblind := (migration_of_drop hdrop).blind (Nat.succ_ne_succ_iff.mpr hv.ne')
  have hshape := runBatch_map (fun s hs db => execute_skeleton (hblind s hs) db) db
  rw [show skeleton db = versionDatabase v from h, versionDatabase_run hdrop] at hshape
  obtain ⟨hskeleton, hnone⟩ := Prod.mk.inj hshape
  exact ⟨_, Prod.ext rfl hnone.symm, hskeleton.symm⟩

theorem AtVersion.stuck {v k : Nat} {db : Database} {statements : List Statement}
    {later : List (List Statement)} (h : AtVersion v db) (hv : 0 < v)
    (hdrop : migrations.drop v = statements :: later) (hk : k ≠ 0) (hlen : k < statements.length) :
    Stuck (runBatch Statement.execute (statements.take k) db).1 := by
  have hmigration := migration_of_drop hdrop
  obtain ⟨db', hrun, -⟩ := h.migrate hv hdrop
  have hle : v ≤ graphSchemaVersion := (drop_cons_lt hdrop).le
  have hversion : (runBatch Statement.execute (statements.take k) db).1.userVersion = v := by
    rw [run_version (fun s hs => hmigration.unmarked s (mem_dropLast_of_take hlen hs))]
    exact h.version hle
  refine ⟨hversion ▸ hle, ?_⟩
  cases statements with
  | nil => exact absurd hlen (Nat.not_lt_zero k)
  | cons first rest =>
    obtain ⟨j, rfl⟩ := Nat.exists_eq_succ_of_ne_zero hk
    have honce : first.Once := hmigration.once (Nat.succ_ne_succ_iff.mpr hv.ne') first rfl
    rw [runBatch] at hrun
    cases hfirst : first.execute db with
    | error e =>
      rw [hfirst] at hrun
      cases hrun
    | ok db₁ =>
      have hstop : (runBatch Statement.execute ((first :: rest).take (j + 1)) db).1 =
          (runBatch Statement.execute (rest.take j) db₁).1 := by
        rw [List.take_succ_cons, runBatch, hfirst]
      rw [hversion, hstop]
      obtain ⟨e, he⟩ := execute_once honce hfirst (run_keeps (rest.take j) db₁)
      refine ⟨first, rest ++ later.flatten, e, ?_, he⟩
      rw [pendingStatements, hdrop]
      rfl

/-- The version an attempt leaves that begins at a version, the migrations from
there on being the list; none when it stops inside one of them past the first. -/
def stopsAt : Nat → List (List Statement) → Nat → Option Nat
  | version, [], _ => some version
  | version, statements :: later, cut =>
      if statements.length ≤ cut then stopsAt (version + 1) later (cut - statements.length)
      else if version = 0 ∨ cut = 0 then some version
      else none

/-- No attempt stops between the statements of a migration past the first. -/
def CutsBetween : Nat → List Nat → Prop
  | _, [] => True
  | version, cut :: later =>
      match stopsAt version (migrations.drop version) cut with
      | none => False
      | some reached => CutsBetween reached later

/-- What attempts make of a database that do not stop inside a migration past the
first. -/
inductive Phase : Nat → Database → Prop where
  | begun {p : Nat} (hp : p < migration001.length) :
      Phase 0 (runBatch Statement.execute (migration001.take p) emptyDatabase).1
  | settled {version : Nat} {db : Database} (hpos : 0 < version)
      (hle : version ≤ graphSchemaVersion) (h : AtVersion version db) : Phase version db

theorem take_flatten_of_le {statements : List Statement} {later : List (List Statement)} {k : Nat}
    (h : statements.length ≤ k) : (statements :: later).flatten.take k =
      statements ++ later.flatten.take (k - statements.length) := by
  rw [List.flatten_cons, List.take_append, List.take_of_length_le h]

theorem take_flatten_of_lt {statements : List Statement} {later : List (List Statement)} {k : Nat}
    (h : k < statements.length) : (statements :: later).flatten.take k = statements.take k := by
  rw [List.flatten_cons, List.take_append_of_le_length h.le]

/-- An attempt from a version past the first migration. -/
theorem AtVersion.attempt {rest : List (List Statement)} {v k : Nat} {db : Database}
    (h : AtVersion v db) (hpos : 0 < v) (hle : v ≤ graphSchemaVersion)
    (hdrop : migrations.drop v = rest) :
    match stopsAt v rest k with
    | some reached => Phase reached (runBatch Statement.execute (rest.flatten.take k) db).1
    | none => Stuck (runBatch Statement.execute (rest.flatten.take k) db).1 := by
  induction rest generalizing v k db with
  | nil =>
    rw [List.flatten_nil, List.take_nil]
    exact .settled hpos hle h
  | cons statements later ih =>
    rw [stopsAt]
    split_ifs with hlen hzero
    · obtain ⟨db', hrun, hnext⟩ := h.migrate hpos hdrop
      rw [take_flatten_of_le hlen, runBatch_append hrun]
      exact ih hnext v.succ_pos (drop_cons_lt hdrop) (drop_of_cons hdrop)
    · obtain rfl : k = 0 := hzero.resolve_left hpos.ne'
      exact .settled hpos hle h
    · have hk : k ≠ 0 := fun hk => hzero (.inr hk)
      have hlt : k < statements.length := Nat.lt_of_not_le hlen
      rw [take_flatten_of_lt hlt]
      exact h.stuck hpos hdrop hk hlt

theorem AtVersion.complete {rest : List (List Statement)} {v : Nat} {db : Database}
    (h : AtVersion v db) (hpos : 0 < v) (hle : v ≤ graphSchemaVersion)
    (hdrop : migrations.drop v = rest) :
    ∃ db', runBatch Statement.execute rest.flatten db = (db', none) ∧
      AtVersion graphSchemaVersion db' := by
  induction rest generalizing v db with
  | nil =>
    obtain rfl : v = graphSchemaVersion := hle.antisymm (List.drop_eq_nil_iff.mp hdrop)
    exact ⟨db, rfl, h⟩
  | cons statements later ih =>
    obtain ⟨db₁, hrun, hnext⟩ := h.migrate hpos hdrop
    obtain ⟨db₂, hlater, hlast⟩ := ih hnext v.succ_pos (drop_cons_lt hdrop) (drop_of_cons hdrop)
    exact ⟨db₂, (runBatch_append hrun).trans hlater, hlast⟩

theorem begun_resumes {p : Nat} (hp : p < migration001.length) (k : Nat) :
    runBatch Statement.execute (migration001.take k)
        (runBatch Statement.execute (migration001.take p) emptyDatabase).1 =
      ((runBatch Statement.execute (migration001.take (max p k)) emptyDatabase).1, none) := by
  have hfirst : Migration 1 migration001 := migration_of_drop (v := 0) rfl
  have hrun := congrArg Prod.snd (versionDatabase_run (v := 0) rfl)
  refine runBatch_resume (R := Keeps) .refl .trans execute_keeps ?_ hrun k
  intro s hs before after later h hlater
  exact execute_again (hfirst.repeatable rfl s (mem_dropLast_of_take hp hs)) h hlater

/-- Begun again and not stopped there, the first migration is done. -/
theorem begun_done {p : Nat} (hp : p < migration001.length) :
    runBatch Statement.execute migration001
      (runBatch Statement.execute (migration001.take p) emptyDatabase).1 =
      (versionDatabase 1, none) := by
  have hresumed := begun_resumes hp migration001.length
  rw [List.take_length, Nat.max_eq_right hp.le, List.take_length] at hresumed
  rw [hresumed]
  exact versionDatabase_run (v := 0) rfl

namespace Phase

variable {v : Nat} {db : Database}

theorem version (h : Phase v db) : db.userVersion = v := by
  cases h with
  | begun hp =>
    have hfirst : Migration 1 migration001 := migration_of_drop (v := 0) rfl
    exact run_version (fun s hs => hfirst.unmarked s (mem_dropLast_of_take hp hs)) _
  | settled hpos hle h => exact h.version hle

theorem version_le (h : Phase v db) : v ≤ graphSchemaVersion := by
  cases h with
  | begun hp => exact Nat.zero_le _
  | settled hpos hle h => exact hle

/-- Where one attempt leads. -/
theorem attempt (h : Phase v db) (k : Nat) :
    match stopsAt v (migrations.drop v) k with
    | some reached => Phase reached (interrupted db k)
    | none => Stuck (interrupted db k) := by
  have hlt : ¬ graphSchemaVersion < db.userVersion := by
    rw [h.version]
    exact Nat.not_lt.mpr h.version_le
  rw [interrupted, if_neg hlt, pendingStatements, h.version]
  cases h with
  | @begun p hp =>
    show match stopsAt 0 (migration001 :: migrations.drop 1) k with
      | some reached => Phase reached (runBatch Statement.execute
          ((migration001 :: migrations.drop 1).flatten.take k) _).1
      | none => Stuck (runBatch Statement.execute
          ((migration001 :: migrations.drop 1).flatten.take k) _).1
    rw [stopsAt]
    split_ifs with hlen hzero
    · rw [take_flatten_of_le hlen, runBatch_append (begun_done hp)]
      exact (versionDatabase_bare 1).attempt Nat.one_pos (by decide) rfl
    · have hk : k < migration001.length := Nat.lt_of_not_le hlen
      rw [take_flatten_of_lt hk, begun_resumes hp k]
      exact .begun (max_lt hp hk)
    · exact absurd (Or.inl rfl) hzero
  | settled hpos hle h => exact h.attempt hpos hle rfl

/-- An attempt that is not stopped. -/
theorem opens (h : Phase v db) :
    (initializeGraph db).2 = none ∧ AtVersion graphSchemaVersion (initializeGraph db).1 := by
  have hlt : ¬ graphSchemaVersion < db.userVersion := by
    rw [h.version]
    exact Nat.not_lt.mpr h.version_le
  have hrun : ∃ db', runBatch Statement.execute (pendingStatements db.userVersion) db = (db', none) ∧
      AtVersion graphSchemaVersion db' := by
    rw [pendingStatements, h.version]
    cases h with
    | begun hp =>
      obtain ⟨db', hlater, hlast⟩ := (versionDatabase_bare 1).complete Nat.one_pos (by decide) rfl
      exact ⟨db', (runBatch_append (begun_done hp)).trans hlater, hlast⟩
    | settled hpos hle h => exact h.complete hpos hle rfl
  obtain ⟨db', hrun, hlast⟩ := hrun
  rw [initializeGraph, if_neg hlt, hrun]
  exact ⟨rfl, hlast⟩

end Phase

theorem AtVersion.phase {v : Nat} {db : Database} (h : AtVersion v db)
    (hv : v ≤ graphSchemaVersion) : Phase v db := by
  cases v with
  | zero =>
    have hget : ∀ name, db.objects.get name = none := by
      intro name
      have hshape := congrArg (·.objects.get name) h
      rw [skeleton_get] at hshape
      exact Option.map_eq_none_iff.mp hshape
    have hempty : db = emptyDatabase :=
      congrArg₂ Database.mk (Table.ext_get hget) (h.version hv)
    rw [hempty]
    exact .begun (p := 0) (by decide)
  | succ v => exact .settled v.succ_pos hv h

theorem Stuck.stays {db : Database} (h : Stuck db) (cuts : List Nat) :
    cuts.foldl Graph.interrupted db = db := by
  induction cuts with
  | nil => rfl
  | cons cut later ih => rw [List.foldl_cons, h.interrupted, ih]

/-- Attempts lead from phase to phase, or to a database that stays as it is. -/
theorem Phase.attempts {v : Nat} {db : Database} (h : Phase v db) (cuts : List Nat) :
    CutsBetween v cuts ∧ (∃ reached, Phase reached (cuts.foldl interrupted db)) ∨
      ¬ CutsBetween v cuts ∧ Stuck (cuts.foldl interrupted db) := by
  induction cuts generalizing v db with
  | nil => exact .inl ⟨trivial, v, h⟩
  | cons cut later ih =>
    have hattempt := h.attempt cut
    rw [CutsBetween, List.foldl_cons]
    cases hstop : stopsAt v (migrations.drop v) cut with
    | some reached =>
      rw [hstop] at hattempt
      exact ih hattempt
    | none =>
      rw [hstop] at hattempt
      exact .inr ⟨id, (hattempt.stays later).symm ▸ hattempt⟩

/-- The tables with their columns and constraints, and the indexes. -/
def definitions (db : Database) : Table ObjectName SchemaObject :=
  db.objects.mapRows fun _ object =>
    match object with
    | .table definition _ => .table definition []
    | .index definition => .index definition

theorem definitions_skeleton (db : Database) : definitions (skeleton db) = definitions db := by
  refine Table.ext_get fun name => ?_
  simp only [definitions, Table.get_mapRows, skeleton_get]
  rcases db.objects.get name with _ | ⟨definition, rows⟩ | definition <;> rfl

theorem AtVersion.definitions_eq {v : Nat} {db db' : Database} (h : AtVersion v db)
    (h' : AtVersion v db') : definitions db = definitions db' := by
  have hshape : skeleton db = skeleton db' := h.trans (Eq.symm h')
  rw [← definitions_skeleton db, hshape, definitions_skeleton db']

/-- The migration, begun again after attempts that were cut, ends where it would
have ended without them, and every row is kept. -/
structure Survives (db : Database) (cuts : List Nat) : Prop where
  opens : (initializeGraph (cuts.foldl interrupted db)).2 = none
  version : (initializeGraph (cuts.foldl interrupted db)).1.userVersion = graphSchemaVersion
  schema : definitions (initializeGraph (cuts.foldl interrupted db)).1 =
    definitions (initializeGraph db).1
  rows : Keeps db (initializeGraph (cuts.foldl interrupted db)).1

theorem interrupted_keeps (db : Database) (k : Nat) : Keeps db (interrupted db k) := by
  rw [interrupted]
  split_ifs
  · exact .refl db
  · exact run_keeps _ db

theorem initializeGraph_keeps (db : Database) : Keeps db (initializeGraph db).1 := by
  rw [initializeGraph]
  split_ifs
  · exact .refl db
  · exact run_keeps _ db

theorem attempts_keep (db : Database) (cuts : List Nat) :
    Keeps db (cuts.foldl interrupted db) := by
  induction cuts generalizing db with
  | nil => exact .refl db
  | cons cut later ih => exact (interrupted_keeps db cut).trans (ih _)

/-- A migration survives its interruptions exactly when none of them falls between
the statements of a migration past the first. -/
theorem interrupted_migrations {v : Nat} {db : Database} (hv : v ≤ graphSchemaVersion)
    (hdb : AtVersion v db) (cuts : List Nat) : Survives db cuts ↔ CutsBetween v cuts := by
  have hphase : Phase v db := hdb.phase hv
  constructor
  · intro h
    rcases hphase.attempts cuts with ⟨hbetween, -⟩ | ⟨-, hstuck⟩
    · exact hbetween
    · exact absurd h.opens hstuck.refused
  · intro hbetween
    rcases hphase.attempts cuts with ⟨-, reached, hreached⟩ | ⟨hnot, -⟩
    · obtain ⟨hopens, hlast⟩ := hreached.opens
      exact {
        opens := hopens
        version := hlast.version le_rfl
        schema := hlast.definitions_eq hphase.opens.2
        rows := (attempts_keep db cuts).trans (initializeGraph_keeps _) }
    · exact absurd hbetween hnot

section Example

/-- The database with one volume in it. -/
def withVolume (db : Database) : Database :=
  { db with
    objects := db.objects.mapRows fun name object =>
      match object with
      | .table definition rows =>
          .table definition (if name = .graphVolumes then
            [[.blob (List.replicate 16 1), .null, .text "[]", .null, .integer 0, .integer 1,
              .integer 0, .null, .integer 0]] else rows)
      | .index definition => .index definition }

theorem skeleton_withVolume (db : Database) : skeleton (withVolume db) = skeleton db := by
  refine congrArg (Database.mk · db.userVersion) (Table.ext_get fun name => ?_)
  simp only [withVolume, Table.get_mapRows]
  rcases db.objects.get name with _ | ⟨definition, rows⟩ | definition
  · rfl
  · by_cases hname : name = .graphVolumes
    · subst hname
      rfl
    · simp only [Option.map_some, if_neg hname]
  · rfl

def olderDatabase : Database := withVolume (versionDatabase 1)

theorem olderDatabase_version : AtVersion 1 olderDatabase :=
  (skeleton_withVolume _).trans (versionDatabase_bare 1)

/-- Stopped before the second migration and then after the third. -/
theorem olderDatabase_survives : Survives olderDatabase [0, 12] :=
  (interrupted_migrations (by decide) olderDatabase_version [0, 12]).mpr trivial

/-- Stopped after `ALTER TABLE graph_path_refresh_jobs ADD COLUMN`, which is then in
the way. -/
theorem olderDatabase_lost :
    AtVersion 1 olderDatabase ∧ (initializeGraph (interrupted olderDatabase 1)).2 =
      some (.sqlite (.duplicateColumn "projection_scan_cursor")) ∧
    ¬ Survives olderDatabase [1] := by
  have hopen : (initializeGraph (interrupted olderDatabase 1)).2 =
      some (.sqlite (.duplicateColumn "projection_scan_cursor")) := by decide
  refine ⟨olderDatabase_version, hopen, fun h => ?_⟩
  have hnone : (initializeGraph (interrupted olderDatabase 1)).2 = none := h.opens
  rw [hopen] at hnone
  cases hnone

end Example

end LocalSearch.Graph
