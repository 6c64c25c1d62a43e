import HomeKeeper.Lib.CData

/-!
# `sqlGenerate/sqlGen.cpp` — the select and the bindings of a table

`sqlGen` describes a table and generates two texts that have to fit together: a `select` of its
columns, and the C code that binds a buffer to each `varchar` column of that select. The first loop
counts the columns in `p`; the second runs `for (int i = 0; i <= p; i++)` and so reads
`fieldInfo[p]`, which is no column. What lies there is `beyond`.

The texts are those that are wanted when `beyond` does not look like a `varchar` and no line is
longer than the buffer (`genSql_eq`, `fileCode_eq`). The read is there for every table.
-/

namespace HomeKeeper.SqlGen

open CData

/-! ## The program -/

/-- A row of `desc`: the name and the type of a column. -/
structure Column where
  name : Bytes
  type : Bytes
  deriving DecidableEq, Repr

/-- `field_t`. -/
structure Field where
  name : Bytes
  type : Bytes
  length : Bytes
  deriving DecidableEq, Repr

def getTypeAndLength (res : Bytes) (field : Field) : Field :=
  match res.findIdx? (· = 40) with
  | none => { field with type := res }
  | some iter =>
    let field := { field with type := res.take iter }
    if field.type = ascii "varchar" ∨ field.type = ascii "char" then
      { field with length := (res.drop (iter + 1)).take (res.length - iter - 2) }
    else field

def fieldInfo (columns : List Column) : List Field :=
  columns.map fun c => getTypeAndLength c.type ⟨c.name, [], []⟩

/-- The loop that builds the `select`: `p` counts the columns. -/
def selectLoop (size : Nat) : Nat → List Field → Bytes → Nat × Bytes
  | p, [], genSql => (p, genSql)
  | p, info :: rest, genSql =>
    selectLoop size (p + 1) rest
      (genSql ++ info.name ++ if size = p + 1 then ascii " " else ascii ", ")

/-- `p` and `genSql` after the loop. -/
def selected (columns : List Column) : Nat × Bytes :=
  selectLoop (fieldInfo columns).length 0 (fieldInfo columns) (ascii "select ")

def genSql (columns : List Column) (tableName : Bytes) : Bytes :=
  (selected columns).2 ++ ascii " from " ++ tableName

/-- The lines of one column. -/
def bufferTypeLine (i : Nat) : Bytes :=
  ascii "    params[" ++ ascii (toString i) ++ ascii "].buffer_type = MYSQL_TYPE_STRING;\n"

def bufferLine (structName : Bytes) (i : Nat) (name : Bytes) : Bytes :=
  ascii "    params[" ++ ascii (toString i) ++ ascii "].buffer = " ++ structName ++ ascii "."
    ++ name ++ ascii ";\n"

def bufferLengthLine (structName : Bytes) (i : Nat) (name : Bytes) : Bytes :=
  ascii "    params[" ++ ascii (toString i) ++ ascii "].buffer_length = sizeof(" ++ structName
    ++ ascii "." ++ name ++ ascii ");\n"

/-- What round `i` appends to `fileCode`; each line goes through `char buf[512]`. -/
def bindRound (structName : Bytes) (i : Nat) (field : Field) : Bytes :=
  if field.type = ascii "varchar" then
    snprintfS 512 (bufferTypeLine i) ++ snprintfS 512 (bufferLine structName i field.name)
      ++ (snprintfS 512 (bufferLengthLine structName i field.name) ++ ascii "\n")
  else []

/-- The values of `i` in `for (int i = 0; i <= p; i++)`: the fields that the second loop reads. -/
def bindReads (columns : List Column) : List Nat := List.range ((selected columns).1 + 1)

def fileCode (columns : List Column) (beyond : Field) (structName : Bytes) : Bytes :=
  ascii "    memset(params, 0, sizeof(params));\n"
    ++ (bindReads columns).flatMap fun i =>
        bindRound structName i ((fieldInfo columns).getD i beyond)

/-! ## The purpose -/

/-- The type is `varchar(n)`. -/
def Column.isVarchar (c : Column) : Bool := (ascii "varchar(").isPrefixOf c.type

/-- The names with commas between them. -/
def selectText (columns : List Column) (tableName : Bytes) : Bytes :=
  ascii "select " ++ (ascii ", ").intercalate (columns.map (·.name))
    ++ (if columns = [] then [] else ascii " ") ++ ascii " from " ++ tableName

/-- The block of a column, whole. -/
def bindBlock (structName : Bytes) (k : Nat) (name : Bytes) : Bytes :=
  bufferTypeLine k ++ bufferLine structName k name
    ++ (bufferLengthLine structName k name ++ ascii "\n")

/-- One block for each `varchar` column, with its position and its name. -/
def bindText (columns : List Column) (structName : Bytes) : Bytes :=
  ascii "    memset(params, 0, sizeof(params));\n"
    ++ columns.zipIdx.flatMap fun p =>
        if p.1.isVarchar then bindBlock structName p.2 p.1.name else []

/-- The two texts are right and agree, and no field is read that is not there. -/
structure Agrees (columns : List Column) (structName tableName : Bytes) : Prop where
  select : genSql columns tableName = selectText columns tableName
  bind : ∀ beyond, fileCode columns beyond structName = bindText columns structName
  reads : ∀ i ∈ bindReads columns, i < columns.length

/-! ## The select -/

theorem length_fieldInfo (columns : List Column) :
    (fieldInfo columns).length = columns.length := List.length_map _

theorem name_getTypeAndLength (res : Bytes) (field : Field) :
    (getTypeAndLength res field).name = field.name := by
  unfold getTypeAndLength
  split
  · rfl
  · simp only
    split <;> rfl

theorem names_fieldInfo (columns : List Column) :
    (fieldInfo columns).map (·.name) = columns.map (·.name) := by
  rw [fieldInfo, List.map_map]
  apply List.map_congr_left
  intro c _
  exact name_getTypeAndLength c.type ⟨c.name, [], []⟩

/-- The loop counts every column. -/
theorem selectLoop_count (size p : Nat) (fields : List Field) (sql : Bytes) :
    (selectLoop size p fields sql).1 = p + fields.length := by
  induction fields generalizing p sql with
  | nil => rfl
  | cons info rest ih =>
    rw [selectLoop, ih, List.length_cons]
    omega

theorem selected_count (columns : List Column) : (selected columns).1 = columns.length := by
  rw [selected, selectLoop_count, length_fieldInfo, Nat.zero_add]

theorem selectLoop_eq {size p : Nat} {fields : List Field} (hne : fields ≠ [])
    (hsize : size = p + fields.length) (sql : Bytes) :
    (selectLoop size p fields sql).2
      = sql ++ (ascii ", ").intercalate (fields.map (·.name)) ++ ascii " " := by
  induction fields generalizing p sql with
  | nil => exact absurd rfl hne
  | cons info rest ih =>
    rw [List.length_cons] at hsize
    unfold selectLoop
    cases rest with
    | nil =>
      rw [if_pos (by simpa using hsize)]
      simp [selectLoop]
    | cons next rest =>
      rw [List.length_cons] at hsize
      rw [if_neg (by omega), ih (by simp) (by simp only [List.length_cons]; omega)]
      simp only [List.map_cons, List.intercalate_cons_cons, List.append_assoc]

theorem genSql_eq (columns : List Column) (tableName : Bytes) :
    genSql columns tableName = selectText columns tableName := by
  unfold genSql selectText selected
  cases columns with
  | nil => rfl
  | cons c columns =>
    rw [selectLoop_eq (by simp [fieldInfo]) (Nat.zero_add _).symm, names_fieldInfo,
      if_neg (List.cons_ne_nil c columns)]

/-! ## The bindings -/

theorem findIdx?_bracket {a : Bytes} (h : (40 : UInt8) ∉ a) :
    a.findIdx? (fun c => decide (c = 40)) = none := by
  rw [List.findIdx?_eq_none_iff]
  intro c hc
  have hne : c ≠ 40 := by
    rintro rfl
    exact h hc
  simpa using hne

theorem type_of_bracket {pre post : Bytes} (h : (40 : UInt8) ∉ pre) (field : Field) :
    (getTypeAndLength (pre ++ 40 :: post) field).type = pre := by
  have hfind : (pre ++ 40 :: post).findIdx? (fun c => decide (c = 40)) = some pre.length := by
    rw [List.findIdx?_append, findIdx?_bracket h]
    simp [List.findIdx?_cons]
  unfold getTypeAndLength
  rw [hfind]
  simp only
  split
  · exact List.take_left
  · exact List.take_left

theorem type_of_no_bracket {res : Bytes} (h : (40 : UInt8) ∉ res) (field : Field) :
    (getTypeAndLength res field).type = res := by
  rw [getTypeAndLength, findIdx?_bracket h]

/-- The type of a field is `varchar` for the columns that are, if the server prints the length. -/
theorem type_getTypeAndLength_iff {c : Column} (hplain : c.type ≠ ascii "varchar") (field : Field) :
    (getTypeAndLength c.type field).type = ascii "varchar" ↔ c.isVarchar = true := by
  unfold Column.isVarchar
  rw [List.isPrefixOf_iff_prefix]
  by_cases hmem : (40 : UInt8) ∈ c.type
  · obtain ⟨pre, post, htype, hpre⟩ := List.eq_append_cons_of_mem hmem
    rw [htype, type_of_bracket hpre]
    constructor
    · rintro rfl
      exact ⟨post, by simp [ascii]⟩
    · rintro ⟨t, ht⟩
      -- both sides end at their first bracket
      have hscan : (ascii "varchar" ++ 40 :: t).takeWhile (fun c => decide (c ≠ 40)) = pre := by
        rw [← takeWhile_ne_append_cons hpre post, ← ht]
        rfl
      rw [takeWhile_ne_append_cons (by decide)] at hscan
      exact hscan.symm
  · rw [type_of_no_bracket hmem]
    constructor
    · intro h
      exact absurd h hplain
    · rintro ⟨t, ht⟩
      rw [← ht] at hmem
      exact absurd (List.mem_append_left t (by decide)) hmem

/-- Reading a list by its indices. -/
theorem flatMap_range_getD {α : Type*} (l : List α) (d : α) (f : Nat → α → Bytes) :
    (List.range l.length).flatMap (fun i => f i (l.getD i d))
      = l.zipIdx.flatMap fun p => f p.2 p.1 := by
  have hzip : l.zipIdx = (List.range l.length).map fun i => (l.getD i d, i) := by
    apply List.ext_getElem
    · simp
    · intro i hi hj
      have hlt : i < l.length := by simpa using hi
      simp [List.getElem?_eq_getElem hlt]
  rw [hzip, List.flatMap_map]

/-- The bindings are right where what lies behind the fields does not show. -/
theorem fileCode_eq {columns : List Column} {beyond : Field} {structName : Bytes}
    (hbeyond : beyond.type ≠ ascii "varchar") (hplain : ∀ c ∈ columns, c.type ≠ ascii "varchar")
    (hfits : ∀ p ∈ columns.zipIdx, p.1.isVarchar = true →
      ∀ line ∈ [bufferTypeLine p.2, bufferLine structName p.2 p.1.name,
        bufferLengthLine structName p.2 p.1.name], (0 : UInt8) ∉ line ∧ line.length ≤ 511) :
    fileCode columns beyond structName = bindText columns structName := by
  have hlast : bindRound structName (fieldInfo columns).length
      ((fieldInfo columns).getD (fieldInfo columns).length beyond) = [] := by
    have hdefault : (fieldInfo columns).getD (fieldInfo columns).length beyond = beyond := by simp
    rw [hdefault]
    exact if_neg hbeyond
  unfold fileCode bindText bindReads
  rw [selected_count, ← length_fieldInfo, List.range_succ, List.flatMap_append,
    List.flatMap_singleton, hlast, List.append_nil,
    flatMap_range_getD, fieldInfo, List.zipIdx_map, List.flatMap_map, List.flatMap_def,
    List.flatMap_def]
  congr 2
  apply List.map_congr_left
  intro p hp
  have hmem : p.1 ∈ columns := List.fst_mem_of_mem_zipIdx hp
  show bindRound structName p.2 (getTypeAndLength p.1.type ⟨p.1.name, [], []⟩) = _
  unfold bindRound
  rw [name_getTypeAndLength]
  by_cases hvarchar : p.1.isVarchar = true
  · have hline := hfits p hp hvarchar
    rw [if_pos ((type_getTypeAndLength_iff (hplain _ hmem) _).mpr hvarchar), if_pos hvarchar]
    simp only [List.forall_mem_cons] at hline
    obtain ⟨⟨h1, l1⟩, ⟨h2, l2⟩, ⟨h3, l3⟩, -⟩ := hline
    rw [snprintfS_eq_self h1 l1, snprintfS_eq_self h2 l2, snprintfS_eq_self h3 l3]
    rfl
  · rw [if_neg fun h => hvarchar ((type_getTypeAndLength_iff (hplain _ hmem) _).mp h),
      if_neg hvarchar]

/-- **The generators never agree.** For every table the second loop reads the field behind the last
column. -/
theorem generators_never_agree (columns : List Column) (structName tableName : Bytes) :
    ¬ Agrees columns structName tableName := by
  intro h
  have hread : columns.length ∈ bindReads columns := by
    rw [bindReads, selected_count, List.mem_range]
    omega
  exact Nat.lt_irrefl _ (h.reads _ hread)

/-- The table of `sbin/code.c`. -/
def ipInfoColumns : List Column :=
  [⟨ascii "rec_id", ascii "int(11)"⟩, ⟨ascii "ip", ascii "varchar(100)"⟩]

theorem field_behind_last_read :
    ¬ ∀ (columns : List Column) (structName tableName : Bytes),
      Agrees columns structName tableName := by
  intro h
  have hreads := (h ipInfoColumns (ascii "ipInfo") (ascii "ipInfo")).reads
  exact absurd (hreads 2 (by decide)) (by decide)

end HomeKeeper.SqlGen
