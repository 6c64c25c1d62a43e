import HomeKeeper.Lib.Handles
import HomeKeeper.Notify.Database
import Mathlib.Data.List.Dedup
import Mathlib.Data.List.Induction
import Mathlib.Data.List.Sort
import Mathlib.Data.List.Perm.Basic

/-!
# `MysqlDataBase.hpp` — the prepared statements of an object

`setAllSql` registers the statements of a class, `sqlBind` gives each a handle and prepares it, and
the destructor closes the handles whose `flag` is 0. The flag does not follow the handle: `setSql`
assigns it to its local variable after that was copied to the map, so what the map holds is whatever
was on the stack; and when a statement cannot be prepared its flag is set to 1, although it has a
handle. What `tblEmailInfo` does to a flag it does to a copy of the map.

`mysql_stmt_init` is not out of memory here: `mysql_stmt_prepare` does not survive a null handle.
-/

namespace HomeKeeper.Notify

open Handles

/-! ## The map -/

/-- A `MYSQL_STMT *`; `none` is `nullptr`. -/
abbrev StmtHandle := Option Nat

/-- `sql_stmt_t`, with its key in the map. -/
structure SqlStmt where
  id : String
  sql : String
  stmt : StmtHandle
  flag : Int32
  deriving DecidableEq, Repr

/-- `sqlStmts[id]`: an entry is made if there is none. The entries are in the order of the keys. -/
def subscript (m : List SqlStmt) (id : String) : List SqlStmt :=
  if m.any (·.id = id) then m
  else m.orderedInsert (fun a b => a.id ≤ b.id) ⟨id, "", none, 0⟩

/-- `sqlStmts[id] = stmt`. -/
def register (m : List SqlStmt) (e : SqlStmt) : List SqlStmt :=
  (subscript m e.id).map fun x => if x.id = e.id then e else x

/-- `setSql`; `junk` is the value of `stmt.flag`, which is not assigned yet. -/
def setSql (m : List SqlStmt) (id sql : String) (junk : Int32) : List SqlStmt :=
  register m ⟨id, sql, none, junk⟩

/-! ## The classes -/

/-- What a class adds to `MysqlDataBase`. -/
structure StmtClass where
  /-- The calls of `setSql` in `setAllSql`. -/
  sqls : List (String × String)
  /-- The entries that `sqlBind` looks up when all statements are prepared, -/
  lookups : List String
  /-- and whether it does so in a copy, `auto sql_stmt = getStmt ()`. -/
  onCopy : Bool
  /-- The calls into MySQL that follow, each of which can fail. -/
  calls : Nat
  registered : ∀ id ∈ lookups, id ∈ sqls.map Prod.fst

def tblIpInfoClass : StmtClass where
  sqls := [
    ("select", "select rec_id,ip,send_flag from ipInfo "
      ++ "where rec_id=(select max(rec_id) from ipInfo) for update"),
    ("update", "update ipInfo set send_flag=1,upd_ts=now() where rec_id=?"),
    ("insert", "insert into ipInfo (ip,crt_ts,upd_ts,send_flag) values (?,now(),now(),0)")]
  lookups := ["select", "insert", "update"]
  onCopy := false
  calls := 3
  registered := by decide

def tblEmailInfoClass : StmtClass where
  sqls := [("select", "select username,passwd,smtpServer,recipient,mailfrom from emailInfo")]
  lookups := ["select"]
  onCopy := true
  calls := 3
  registered := by decide

def downloadFileClass : StmtClass where
  sqls := [
    ("select", "select fileName,path from downloadfile where send_flag=0 and fileSize<3000000000 "
      ++ "limit 1"),
    ("update", "update downloadfile set send_flag=1,upd_ts=now(),send_ts=now() where fileName=?")]
  lookups := ["select", "update"]
  onCopy := false
  calls := 2
  registered := by decide

/-! ## The life of an object -/

/-- What happens to one object. -/
structure InitOutcome where
  /-- The configuration is read and the connection made. -/
  connect : Bool
  /-- The `n`-th `mysql_stmt_prepare` succeeds. -/
  prepare : Nat → Bool
  /-- The `n`-th call after them succeeds. -/
  call : Nat → Bool
  /-- The unassigned `flag` of the `n`-th `setSql`. -/
  junk : Nat → Int32

/-- The state after a part of `init`. -/
structure Inited where
  ret : Ret
  sqlStmts : List SqlStmt
  trace : List (Event StmtHandle)
  deriving DecidableEq, Repr

/-- The local variables that the calls of `setSql` copy to the map. -/
def StmtClass.registrations (c : StmtClass) (junk : Nat → Int32) : List SqlStmt :=
  c.sqls.zipIdx.map fun p => ⟨p.1.1, p.1.2, none, junk p.2⟩

def StmtClass.setAllSql (c : StmtClass) (junk : Nat → Int32) : List SqlStmt :=
  c.sqls.zipIdx.foldl (fun m p => setSql m p.1.1 p.1.2 (junk p.2)) []

/-- The loop of `sqlBind` over the map; `n` handles have been given out. -/
def prepareLoop (prepare : Nat → Bool) : Nat → List SqlStmt → Inited
  | _, [] => ⟨.success, [], []⟩
  | n, e :: m =>
    if prepare n then
      let r := prepareLoop prepare (n + 1) m
      ⟨r.ret, { e with stmt := some n } :: r.sqlStmts, .opened (some n) :: r.trace⟩
    else
      ⟨.failed, { e with stmt := some n, flag := 1 } :: m, [.opened (some n)]⟩

def StmtClass.sqlBind (c : StmtClass) (o : InitOutcome) (m : List SqlStmt) : Inited :=
  let r := prepareLoop o.prepare 0 m
  match r.ret with
  | .failed => r
  | .success =>
    let ret := if (List.range c.calls).all o.call then .success else .failed
    -- a flag that is set here on a failure is set in the copy
    if c.onCopy then { r with ret := ret }
    else { r with ret := ret, sqlStmts := c.lookups.foldl subscript r.sqlStmts }

def StmtClass.init (c : StmtClass) (o : InitOutcome) : Inited :=
  if !o.connect then ⟨.failed, [], []⟩ else c.sqlBind o (c.setAllSql o.junk)

/-- `~MysqlDataBase`. -/
def destroy (m : List SqlStmt) : List (Event StmtHandle) :=
  (m.filter (·.flag = 0)).map fun e => .closed e.stmt

/-- An object is made, its `init` is called, and it is destroyed. -/
def StmtClass.life (c : StmtClass) (o : InitOutcome) : List (Event StmtHandle) :=
  (c.init o).trace ++ destroy (c.init o).sqlStmts

/-! ## Registering -/

theorem subscript_of_mem {m : List SqlStmt} {id : String} (h : id ∈ m.map (·.id)) :
    subscript m id = m := by
  obtain ⟨e, he, rfl⟩ := List.mem_map.mp h
  unfold subscript
  rw [if_pos]
  exact List.any_eq_true.mpr ⟨e, he, by simp⟩

theorem mem_subscript {m : List SqlStmt} {id : String} {x : SqlStmt} :
    x ∈ subscript m id → x ∈ m ∨ x.id = id := by
  unfold subscript
  split
  · exact .inl
  · intro h
    rcases (List.mem_orderedInsert _).mp h with rfl | h
    · exact .inr rfl
    · exact .inl h

theorem subset_subscript {m : List SqlStmt} {id : String} {x : SqlStmt} (h : x ∈ m) :
    x ∈ subscript m id := by
  unfold subscript
  split
  · exact h
  · exact (List.mem_orderedInsert _).mpr (.inr h)

theorem exists_mem_subscript (m : List SqlStmt) (id : String) :
    ∃ x ∈ subscript m id, x.id = id := by
  unfold subscript
  split
  · rename_i hany
    obtain ⟨x, hx, hid⟩ := List.any_eq_true.mp hany
    exact ⟨x, hx, of_decide_eq_true hid⟩
  · exact ⟨_, (List.mem_orderedInsert _).mpr (.inl rfl), rfl⟩

theorem mem_register {m : List SqlStmt} {e x : SqlStmt} :
    x ∈ register m e ↔ x = e ∨ x ∈ m ∧ x.id ≠ e.id := by
  unfold register
  rw [List.mem_map]
  constructor
  · rintro ⟨y, hy, rfl⟩
    split
    · exact .inl rfl
    · rename_i hid
      rcases mem_subscript hy with hy | hy
      · exact .inr ⟨hy, hid⟩
      · exact absurd hy hid
  · rintro (rfl | ⟨hx, hid⟩)
    · obtain ⟨y, hy, hid⟩ := exists_mem_subscript m x.id
      exact ⟨y, hy, if_pos hid⟩
    · exact ⟨x, subset_subscript hx, if_neg hid⟩

theorem nodup_register {m : List SqlStmt} {e : SqlStmt} (h : (m.map (·.id)).Nodup) :
    ((register m e).map (·.id)).Nodup := by
  have hids : (register m e).map (·.id) = (subscript m e.id).map (·.id) := by
    rw [register, List.map_map]
    apply List.map_congr_left
    intro x _
    show (if x.id = e.id then e else x).id = x.id
    split
    · rename_i hid
      exact hid.symm
    · rfl
  rw [hids]
  unfold subscript
  split
  · exact h
  · rename_i hany
    rw [((List.perm_orderedInsert _ _ m).map (·.id)).nodup_iff, List.map_cons, List.nodup_cons]
    refine ⟨fun hmem => hany ?_, h⟩
    obtain ⟨x, hx, hid⟩ := List.mem_map.mp hmem
    exact List.any_eq_true.mpr ⟨x, hx, by simpa using hid⟩

theorem setAllSql_eq (c : StmtClass) (junk : Nat → Int32) :
    c.setAllSql junk = (c.registrations junk).foldl register [] := by
  rw [StmtClass.registrations, List.foldl_map]
  rfl

/-- The map holds of each id what was registered last. -/
theorem mem_foldl_register {rs : List SqlStmt} {x : SqlStmt} :
    x ∈ rs.foldl register [] ↔ ∃ pre post, rs = pre ++ x :: post ∧ ∀ q ∈ post, q.id ≠ x.id := by
  induction rs using List.reverseRecOn with
  | nil => simp
  | append_singleton rs r ih =>
    rw [List.foldl_append, List.foldl_cons, List.foldl_nil, mem_register, ih]
    constructor
    · rintro (rfl | ⟨⟨pre, post, rfl, hpost⟩, hid⟩)
      · exact ⟨rs, [], rfl, by simp⟩
      · refine ⟨pre, post ++ [r], by simp, fun q hq => ?_⟩
        rcases List.mem_append.mp hq with hq | hq
        · exact hpost q hq
        · rw [List.mem_singleton.mp hq]
          exact hid.symm
    · rintro ⟨pre, post, heq, hpost⟩
      rcases List.eq_nil_or_concat post with rfl | ⟨post, q, rfl⟩
      · have hlast := List.append_inj_right' heq rfl
        exact .inl (List.singleton_inj.mp hlast).symm
      · rw [List.concat_eq_append] at heq hpost
        have hsplit : rs ++ [r] = (pre ++ x :: post) ++ [q] := by
          rw [heq]
          simp
        obtain ⟨rfl, hq⟩ := List.append_inj' hsplit rfl
        obtain rfl := List.singleton_inj.mp hq
        refine .inr ⟨⟨pre, post, rfl, fun p hp => hpost p (by simp [hp])⟩, ?_⟩
        exact (hpost r (by simp)).symm

theorem nodup_foldl_register (rs : List SqlStmt) :
    ((rs.foldl register []).map (·.id)).Nodup := by
  induction rs using List.reverseRecOn with
  | nil => exact List.nodup_nil
  | append_singleton rs r ih =>
    rw [List.foldl_append]
    exact nodup_register ih

theorem exists_mem_foldl_register {rs : List SqlStmt} {id : String} :
    (∃ x ∈ rs.foldl register [], x.id = id) ↔ ∃ x ∈ rs, x.id = id := by
  induction rs using List.reverseRecOn with
  | nil => simp
  | append_singleton rs r ih =>
    rw [List.foldl_append, List.foldl_cons, List.foldl_nil]
    constructor
    · rintro ⟨x, hx, hid⟩
      rcases mem_register.mp hx with rfl | ⟨hx, -⟩
      · exact ⟨x, by simp, hid⟩
      · obtain ⟨y, hy, hyid⟩ := ih.mp ⟨x, hx, hid⟩
        exact ⟨y, by simp [hy], hyid⟩
    · rintro ⟨x, hx, hid⟩
      by_cases hr : r.id = id
      · exact ⟨r, mem_register.mpr (.inl rfl), hr⟩
      · rcases List.mem_append.mp hx with hx | hx
        · obtain ⟨y, hy, hyid⟩ := ih.mpr ⟨x, hx, hid⟩
          exact ⟨y, mem_register.mpr (.inr ⟨hy, fun h => hr (h ▸ hyid)⟩), hyid⟩
        · rw [List.mem_singleton.mp hx] at hid
          exact absurd hid hr

/-- The ids that are registered, each once: so many statements are to be prepared. -/
def StmtClass.ids (c : StmtClass) : List String := (c.sqls.map Prod.fst).dedup

theorem mem_ids_setAllSql {c : StmtClass} {junk : Nat → Int32} {id : String} :
    id ∈ (c.setAllSql junk).map (·.id) ↔ id ∈ c.sqls.map Prod.fst := by
  have hids : c.sqls.map Prod.fst = (c.registrations junk).map (·.id) := by
    rw [StmtClass.registrations, List.map_map]
    show _ = c.sqls.zipIdx.map (Prod.fst ∘ Prod.fst)
    rw [← List.map_map, List.zipIdx_map_fst]
  rw [hids, setAllSql_eq, List.mem_map, List.mem_map]
  exact exists_mem_foldl_register

theorem length_setAllSql (c : StmtClass) (junk : Nat → Int32) :
    (c.setAllSql junk).length = c.ids.length := by
  have hnodup : ((c.setAllSql junk).map (·.id)).Nodup := by
    rw [setAllSql_eq]
    exact nodup_foldl_register _
  have hperm : ((c.setAllSql junk).map (·.id)).Perm c.ids := by
    refine (List.perm_ext_iff_of_nodup hnodup (List.nodup_dedup _)).mpr fun id => ?_
    rw [mem_ids_setAllSql, List.mem_dedup]
  rw [← List.length_map (·.id)]
  exact hperm.length_eq

/-- No statement has a handle yet. -/
theorem stmt_setAllSql {c : StmtClass} {junk : Nat → Int32} {e : SqlStmt}
    (he : e ∈ c.setAllSql junk) : e.stmt = none := by
  rw [setAllSql_eq, mem_foldl_register] at he
  obtain ⟨pre, post, hsplit, -⟩ := he
  have hmem : e ∈ c.registrations junk := by
    rw [hsplit]
    simp
  obtain ⟨p, -, rfl⟩ := List.mem_map.mp hmem
  rfl

/-! ## Preparing -/

theorem ids_prepareLoop (prepare : Nat → Bool) (n : Nat) (m : List SqlStmt) :
    (prepareLoop prepare n m).sqlStmts.map (·.id) = m.map (·.id) := by
  induction m generalizing n with
  | nil => rfl
  | cons e m ih =>
    unfold prepareLoop
    split
    · simp [ih]
    · rfl

theorem not_closed_mem_prepareLoop {prepare : Nat → Bool} {n : Nat} {m : List SqlStmt}
    {h : StmtHandle} : .closed h ∉ (prepareLoop prepare n m).trace := by
  induction m generalizing n with
  | nil => simp [prepareLoop]
  | cons e m ih =>
    unfold prepareLoop
    split
    · simp [ih]
    · simp

/-- All statements are prepared: they have the handles in turn, and the flags they had. -/
theorem prepareLoop_ok (prepare : Nat → Bool) (n : Nat) (m : List SqlStmt)
    (h : ∀ k, k < m.length → prepare (n + k) = true) :
    (prepareLoop prepare n m).ret = .success
      ∧ (prepareLoop prepare n m).sqlStmts.map (·.stmt) = (List.range' n m.length).map some
      ∧ (prepareLoop prepare n m).sqlStmts.map (·.flag) = m.map (·.flag)
      ∧ (prepareLoop prepare n m).trace
          = ((prepareLoop prepare n m).sqlStmts.map (·.stmt)).map .opened := by
  induction m generalizing n with
  | nil => exact ⟨rfl, rfl, rfl, rfl⟩
  | cons e m ih =>
    have hfirst : prepare n = true := h 0 (by simp)
    obtain ⟨hret, hstmt, hflag, htrace⟩ := ih (n + 1) fun k hk => by
      rw [show n + 1 + k = n + (k + 1) by omega]
      exact h (k + 1) (by simpa using hk)
    unfold prepareLoop
    rw [if_pos hfirst, List.length_cons, List.range'_succ]
    exact ⟨hret, by simp [hstmt], by simp [hflag], by simp [htrace]⟩

/-- A statement cannot be prepared: it has a handle, and a flag that keeps it from being closed. -/
theorem prepareLoop_fails (prepare : Nat → Bool) (n : Nat) (m : List SqlStmt)
    (hm : ∀ e ∈ m, e.stmt = none) (h : ∃ k, k < m.length ∧ prepare (n + k) = false) :
    (prepareLoop prepare n m).ret = .failed ∧ ∃ k, n ≤ k
      ∧ .opened (some k) ∈ (prepareLoop prepare n m).trace
      ∧ ∀ e ∈ (prepareLoop prepare n m).sqlStmts, e.stmt = some k → e.flag = 1 := by
  induction m generalizing n with
  | nil =>
    obtain ⟨k, hk, -⟩ := h
    cases hk
  | cons e m ih =>
    have htail : ∀ x ∈ m, x.stmt = none := fun x hx => hm x (List.mem_cons_of_mem e hx)
    unfold prepareLoop
    split
    · rename_i hfirst
      have hlater : ∃ k, k < m.length ∧ prepare (n + 1 + k) = false := by
        obtain ⟨k, hk, hbad⟩ := h
        cases k with
        | zero =>
          rw [Nat.add_zero, hfirst] at hbad
          cases hbad
        | succ k =>
          refine ⟨k, by simpa using hk, ?_⟩
          rw [show n + 1 + k = n + (k + 1) by omega]
          exact hbad
      obtain ⟨hret, k, hk, hopened, hflag⟩ := ih (n + 1) htail hlater
      refine ⟨hret, k, by omega, List.mem_cons_of_mem _ hopened, fun x hx hstmt => ?_⟩
      rcases List.mem_cons.mp hx with rfl | hx
      · -- the head has an earlier handle
        have : n = k := Option.some.inj hstmt
        omega
      · exact hflag x hx hstmt
    · refine ⟨rfl, n, Nat.le_refl n, by simp, fun x hx hstmt => ?_⟩
      rcases List.mem_cons.mp hx with rfl | hx
      · rfl
      · rw [htail x hx] at hstmt
        cases hstmt

/-! ## Closing -/

theorem closed_mem_destroy {m : List SqlStmt} {h : StmtHandle} :
    .closed h ∈ destroy m ↔ ∃ e ∈ m, e.flag = 0 ∧ e.stmt = h := by
  unfold destroy
  simp only [List.mem_map, List.mem_filter, decide_eq_true_eq, Event.closed.injEq]
  constructor
  · rintro ⟨e, ⟨he, hflag⟩, hstmt⟩
    exact ⟨e, he, hflag, hstmt⟩
  · rintro ⟨e, he, hflag, hstmt⟩
    exact ⟨e, ⟨he, hflag⟩, hstmt⟩

theorem destroy_of_flags {m : List SqlStmt} (h : ∀ e ∈ m, e.flag = 0) :
    destroy m = (m.map (·.stmt)).map .closed := by
  unfold destroy
  rw [List.filter_eq_self.mpr fun e he => by simpa using h e he, List.map_map]
  rfl

theorem foldl_subscript_of_mem {ids : List String} {m : List SqlStmt}
    (h : ∀ id ∈ ids, id ∈ m.map (·.id)) : ids.foldl subscript m = m := by
  induction ids with
  | nil => rfl
  | cons id ids ih =>
    rw [List.foldl_cons, subscript_of_mem (h id List.mem_cons_self)]
    exact ih fun x hx => h x (List.mem_cons_of_mem id hx)

/-- Nothing is looked up that was not registered, so the loop leaves the map as it stays. -/
theorem life_of_connect {c : StmtClass} {o : InitOutcome} (h : o.connect = true) :
    c.life o = (prepareLoop o.prepare 0 (c.setAllSql o.junk)).trace
      ++ destroy (prepareLoop o.prepare 0 (c.setAllSql o.junk)).sqlStmts := by
  have hlookups : c.lookups.foldl subscript
      (prepareLoop o.prepare 0 (c.setAllSql o.junk)).sqlStmts
        = (prepareLoop o.prepare 0 (c.setAllSql o.junk)).sqlStmts := by
    apply foldl_subscript_of_mem
    intro id hid
    rw [ids_prepareLoop]
    exact mem_ids_setAllSql.mpr (c.registered id hid)
  have hinit : c.init o = c.sqlBind o (c.setAllSql o.junk) := by
    rw [StmtClass.init, h]
    rfl
  unfold StmtClass.life
  rw [hinit]
  unfold StmtClass.sqlBind
  simp only
  split
  · rfl
  · split
    · rfl
    · simp only [hlookups]

/-- With every statement prepared, the flags decide. -/
theorem life_prepared_iff {c : StmtClass} {o : InitOutcome} (hconnect : o.connect = true)
    (hprepare : ∀ k, k < (c.setAllSql o.junk).length → o.prepare k = true) :
    (Released (c.life o) ∧ .closed none ∉ c.life o) ↔ ∀ e ∈ c.setAllSql o.junk, e.flag = 0 := by
  rw [life_of_connect hconnect]
  obtain ⟨-, hstmt, hflag, htrace⟩ := prepareLoop_ok o.prepare 0 (c.setAllSql o.junk)
    fun k hk => by rw [Nat.zero_add]; exact hprepare k hk
  generalize hr : prepareLoop o.prepare 0 (c.setAllSql o.junk) = r at hstmt hflag htrace
  have hnodup : (r.sqlStmts.map (·.stmt)).Nodup := by
    rw [hstmt]
    exact (List.nodup_range' 1).map (Option.some_injective Nat)
  have hzero : (∀ e ∈ c.setAllSql o.junk, e.flag = 0) ↔ ∀ e ∈ r.sqlStmts, e.flag = 0 := by
    have hmap (m : List SqlStmt) : (∀ e ∈ m, e.flag = 0) ↔ ∀ f ∈ m.map (·.flag), f = 0 := by
      rw [List.forall_mem_map]
    rw [hmap, hmap, hflag]
  rw [hzero, htrace]
  constructor
  · rintro ⟨hreleased, -⟩ e he
    -- its handle was opened, so some entry with flag 0 closes it: this one
    have hone := hreleased e.stmt
      (List.mem_append_left _ (List.mem_map_of_mem (List.mem_map_of_mem he)))
    have hclosed : .closed e.stmt ∈ (r.sqlStmts.map (·.stmt)).map .opened
        ++ destroy r.sqlStmts := by
      rw [← List.count_pos_iff, hone]
      exact Nat.one_pos
    rcases List.mem_append.mp hclosed with hclosed | hclosed
    · simp at hclosed
    · obtain ⟨d, hd, hdflag, hdk⟩ := closed_mem_destroy.mp hclosed
      rw [← List.inj_on_of_nodup_map hnodup hd he hdk]
      exact hdflag
  · intro hall
    rw [destroy_of_flags hall]
    refine ⟨released_append_closed hnodup, ?_⟩
    rw [hstmt]
    simp

/-- A statement that cannot be prepared is never closed. -/
theorem not_released_of_fails {c : StmtClass} {o : InitOutcome} (hconnect : o.connect = true)
    (h : ∃ k, k < (c.setAllSql o.junk).length ∧ o.prepare k = false) :
    ¬ Released (c.life o) := by
  intro hreleased
  rw [life_of_connect hconnect] at hreleased
  obtain ⟨-, k, -, hopened, hflag⟩ := prepareLoop_fails o.prepare 0 (c.setAllSql o.junk)
    (fun e he => stmt_setAllSql he) (by simpa using h)
  have hone := hreleased (some k) (List.mem_append_left _ hopened)
  have hclosed := List.count_pos_iff.mp (hone ▸ Nat.one_pos)
  rcases List.mem_append.mp hclosed with hclosed | hclosed
  · exact not_closed_mem_prepareLoop hclosed
  · obtain ⟨e, he, hzero, hstmt⟩ := closed_mem_destroy.mp hclosed
    rw [hflag e he hstmt] at hzero
    cases hzero

/-- **When the statements are closed.** Destroying the object closes each handle that was given out
exactly once and no null handle, if and only if `init` does not come to the statements, or all of
them can be prepared and every flag that stays in the map happens to be 0. What the binds and the
first execute return makes no difference. -/
theorem statements_closed_once_iff (c : StmtClass) (o : InitOutcome) :
    (Released (c.life o) ∧ .closed none ∉ c.life o)
      ↔ o.connect = false
        ∨ (∀ k, k < c.ids.length → o.prepare k = true)
          ∧ ∀ pre r post, c.registrations o.junk = pre ++ r :: post →
              (∀ q ∈ post, q.id ≠ r.id) → r.flag = 0 := by
  cases hconnect : o.connect with
  | false =>
    have hlife : c.life o = [] := by
      rw [StmtClass.life, StmtClass.init, hconnect]
      rfl
    rw [hlife]
    simp [Released]
  | true =>
    have hflags : (∀ e ∈ c.setAllSql o.junk, e.flag = 0)
        ↔ ∀ pre r post, c.registrations o.junk = pre ++ r :: post →
              (∀ q ∈ post, q.id ≠ r.id) → r.flag = 0 := by
      simp only [setAllSql_eq, mem_foldl_register]
      constructor
      · intro h pre r post hsplit hpost
        exact h r ⟨pre, post, hsplit, hpost⟩
      · rintro h e ⟨pre, post, hsplit, hpost⟩
        exact h pre e post hsplit hpost
    rw [← hflags, ← length_setAllSql c o.junk]
    constructor
    · intro h
      have hprepare : ∀ k, k < (c.setAllSql o.junk).length → o.prepare k = true := by
        intro k hk
        by_contra hbad
        exact not_released_of_fails hconnect ⟨k, hk, by simpa using hbad⟩ h.1
      exact .inr ⟨hprepare, (life_prepared_iff hconnect hprepare).mp h⟩
    · rintro (hno | ⟨hprepare, hzero⟩)
      · cases hno
      · exact (life_prepared_iff hconnect hprepare).mpr hzero

/-- The first statement of a `tblIpInfo` cannot be prepared. -/
theorem unprepared_statement_leaks :
    ¬ ∀ (c : StmtClass) (o : InitOutcome), Released (c.life o) ∧ .closed none ∉ c.life o := by
  intro h
  have hclosed := h tblIpInfoClass ⟨true, fun _ => false, fun _ => true, fun _ => 0⟩
  exact absurd (hclosed.1 (some 0) (by decide)) (by decide)

end HomeKeeper.Notify
