import Mathlib.Data.List.Nodup
import TradeCore.Common
import TradeCore.Lib.Interleave

/-!
# TradeCore.Gateway.ConnectionPool

The pool of Horizon connections and the operations of the gateway that use it. A connection is held
from the moment `acquireConnection` marks it to the moment the operation releases it; in between the
operation awaits the server, and other operations, waiters and the cleanup run.

Connections are listed in the order of the map, and the id of a connection is the number of the
`createConnection` call that made it.

* `pool_run`: in every interleaving no two operations hold the same connection, the connections in
  use are those held, the cleanup keeps them, and the size of the pool stays within its bounds.
-/

namespace TradeCore
namespace Gateway

open Lib

structure ConnectionPoolConfig where
  minConnections : Nat
  maxConnections : Nat
  idleTimeoutMs : Int
  connectionTtlMs : Int
  deriving DecidableEq, Repr

structure PooledConnection where
  id : Nat
  inUse : Bool
  lastUsed : Time
  created : Time
  usageCount : Nat
  deriving DecidableEq, Repr

/-- What an acquisition writes to a connection of the pool. -/
def PooledConnection.take (now : Time) (conn : PooledConnection) : PooledConnection :=
  { conn with inUse := true, lastUsed := now, usageCount := conn.usageCount + 1 }

/-- What it writes to one that it has just created. -/
def PooledConnection.takeNew (conn : PooledConnection) : PooledConnection :=
  { conn with inUse := true, usageCount := conn.usageCount + 1 }

def PooledConnection.release (now : Time) (conn : PooledConnection) : PooledConnection :=
  { conn with inUse := false, lastUsed := now }

/-- The pool; `created` counts the connections made so far. -/
structure ConnectionPool where
  connections : List PooledConnection
  created : Nat
  deriving DecidableEq, Repr

namespace ConnectionPool

def ids (p : ConnectionPool) : List Nat := p.connections.map (·.id)

def inUseIds (p : ConnectionPool) : List Nat := (p.connections.filter (·.inUse)).map (·.id)

def update (p : ConnectionPool) (id : Nat) (f : PooledConnection → PooledConnection) :
    ConnectionPool :=
  { p with connections := p.connections.map fun conn => if conn.id = id then f conn else conn }

def createConnection (now : Time) (p : ConnectionPool) : ConnectionPool :=
  ⟨p.connections ++ [⟨p.created, false, now, now, 0⟩], p.created + 1⟩

def createConnections (now : Time) : Nat → ConnectionPool → ConnectionPool
  | 0, p => p
  | n + 1, p => createConnections now n (p.createConnection now)

def initializePool (cfg : ConnectionPoolConfig) (now : Time) : ConnectionPool :=
  createConnections now cfg.minConnections ⟨[], 0⟩

inductive Acquired where
  | connection (id : Nat)
  | exhausted
  | failed
  deriving DecidableEq, Repr

/-- The callback of a waiter, and the first thing an acquisition tries. -/
def takeAvailable (now : Time) (p : ConnectionPool) : ConnectionPool × Option Nat :=
  match p.connections.find? fun conn => !conn.inUse with
  | some conn => (p.update conn.id (.take now), some conn.id)
  | none => (p, none)

/-- `raises`: the constructor of the server throws, before the map is touched. -/
def acquireConnection (cfg : ConnectionPoolConfig) (now : Time) (raises : Bool)
    (p : ConnectionPool) : ConnectionPool × Acquired :=
  match p.takeAvailable now with
  | (p', some id) => (p', .connection id)
  | (p', none) =>
    if p'.connections.length < cfg.maxConnections then
      if raises then (p', .failed)
      else ((p'.createConnection now).update p'.created .takeNew, .connection p'.created)
    else (p', .exhausted)

def releaseConnection (id : Nat) (now : Time) (p : ConnectionPool) : ConnectionPool :=
  p.update id (.release now)

/-- The loop over the entries; `size` is what the map holds when an entry is looked at. -/
def cleanup (cfg : ConnectionPoolConfig) (now : Time) :
    Nat → List PooledConnection → List PooledConnection
  | _, [] => []
  | size, conn :: conns =>
    if conn.inUse = false ∧ cfg.minConnections < size ∧
        (cfg.idleTimeoutMs < now - conn.lastUsed ∨ cfg.connectionTtlMs < now - conn.created) then
      cleanup cfg now (size - 1) conns
    else conn :: cleanup cfg now size conns

def cleanupIdleConnections (cfg : ConnectionPoolConfig) (now : Time) (p : ConnectionPool) :
    ConnectionPool :=
  { p with connections := cleanup cfg now p.connections.length p.connections }

/-! ## What the operations do to the marks -/

theorem mem_inUseIds {p : ConnectionPool} {id : Nat} :
    id ∈ p.inUseIds ↔ ∃ conn ∈ p.connections, conn.inUse = true ∧ conn.id = id := by
  simp [inUseIds, and_assoc]

theorem inUseIds_sublist (p : ConnectionPool) : p.inUseIds.Sublist p.ids :=
  List.filter_sublist.map _

@[simp] theorem created_update (p : ConnectionPool) (id : Nat)
    (f : PooledConnection → PooledConnection) : (p.update id f).created = p.created := rfl

@[simp] theorem length_update (p : ConnectionPool) (id : Nat)
    (f : PooledConnection → PooledConnection) :
    (p.update id f).connections.length = p.connections.length :=
  List.length_map _

theorem ids_update {p : ConnectionPool} {id : Nat} {f : PooledConnection → PooledConnection}
    (hf : ∀ c, (f c).id = c.id) : (p.update id f).ids = p.ids := by
  simp only [ids, update, List.map_map]
  refine List.map_congr_left fun c _ => ?_
  by_cases h : c.id = id
  · simp [h, hf]
  · simp [h]

theorem mem_inUseIds_mark {p : ConnectionPool} {id : Nat} (hin : id ∈ p.ids)
    (f : PooledConnection → PooledConnection) (hid : ∀ c, (f c).id = c.id)
    (huse : ∀ c, (f c).inUse = true) {x : Nat} :
    x ∈ (p.update id f).inUseIds ↔ x = id ∨ x ∈ p.inUseIds := by
  simp only [mem_inUseIds, update, List.mem_map]
  constructor
  · rintro ⟨_, ⟨c, hc, rfl⟩, hu, rfl⟩
    by_cases h : c.id = id
    · left
      rw [if_pos h, hid c, h]
    · rw [if_neg h] at hu ⊢
      exact .inr ⟨c, hc, hu, rfl⟩
  · rintro (rfl | ⟨c, hc, hu, rfl⟩)
    · obtain ⟨c, hc, rfl⟩ := List.mem_map.mp hin
      exact ⟨_, ⟨c, hc, rfl⟩, by rw [if_pos rfl, huse c], by rw [if_pos rfl, hid c]⟩
    · refine ⟨_, ⟨c, hc, rfl⟩, ?_, ?_⟩
      · split
        · exact huse c
        · exact hu
      · split
        · exact hid c
        · rfl

theorem mem_inUseIds_release {p : ConnectionPool} {id x : Nat} {now : Time} :
    x ∈ (p.releaseConnection id now).inUseIds ↔ x ≠ id ∧ x ∈ p.inUseIds := by
  simp only [mem_inUseIds, releaseConnection, update, List.mem_map]
  constructor
  · rintro ⟨_, ⟨c, hc, rfl⟩, huse, rfl⟩
    by_cases h : c.id = id
    · rw [if_pos h] at huse
      cases huse
    · rw [if_neg h] at huse ⊢
      exact ⟨h, c, hc, huse, rfl⟩
  · rintro ⟨hne, c, hc, huse, rfl⟩
    exact ⟨_, ⟨c, hc, rfl⟩, by rw [if_neg hne]; exact huse, by rw [if_neg hne]⟩

theorem releaseConnection_twice (id : Nat) (now : Time) (p : ConnectionPool) :
    (p.releaseConnection id now).releaseConnection id now = p.releaseConnection id now := by
  simp only [releaseConnection, update, List.map_map, ConnectionPool.mk.injEq, and_true]
  refine List.map_congr_left fun c _ => ?_
  by_cases h : c.id = id
  · simp [h, PooledConnection.release]
  · simp [h]

theorem cleanup_sublist (cfg : ConnectionPoolConfig) (now : Time) (size : Nat)
    (conns : List PooledConnection) : (cleanup cfg now size conns).Sublist conns := by
  induction conns generalizing size with
  | nil => exact .refl _
  | cons conn conns ih =>
    rw [cleanup]
    split
    · exact (ih _).cons _
    · exact (ih _).cons_cons _

theorem filter_cleanup (cfg : ConnectionPoolConfig) (now : Time) (size : Nat)
    (conns : List PooledConnection) :
    (cleanup cfg now size conns).filter (·.inUse) = conns.filter (·.inUse) := by
  induction conns generalizing size with
  | nil => rfl
  | cons conn conns ih =>
    rw [cleanup]
    split
    · rename_i h
      simp [h.1, ih]
    · simp [List.filter_cons, ih]

theorem inUseIds_cleanup (cfg : ConnectionPoolConfig) (now : Time) (p : ConnectionPool) :
    (p.cleanupIdleConnections cfg now).inUseIds = p.inUseIds := by
  rw [inUseIds, cleanupIdleConnections, filter_cleanup, inUseIds]

theorem le_length_cleanup {cfg : ConnectionPoolConfig} (now : Time) (rest : Nat)
    (conns : List PooledConnection) (h : cfg.minConnections ≤ rest + conns.length) :
    cfg.minConnections ≤ rest + (cleanup cfg now (rest + conns.length) conns).length := by
  induction conns generalizing rest with
  | nil => exact h
  | cons conn conns ih =>
    rw [List.length_cons] at h ⊢
    rw [cleanup]
    split
    · rename_i hc
      have hlt := hc.2.1
      rw [Nat.add_succ_sub_one]
      exact ih rest (by omega)
    · have hsize : rest + (conns.length + 1) = rest + 1 + conns.length := by omega
      rw [hsize] at h ⊢
      have := ih (rest + 1) h
      rw [List.length_cons]
      omega

/-! ## The operations of the gateway -/

inductive Operation where
  | getAccount
  | executeSettlement
  | getTransaction
  | submitTransaction
  deriving DecidableEq, Repr

/-- Where an operation is, or a run of the cleanup. -/
inductive PoolCall where
  | started (op : Operation)
  | waiting (op : Operation)
  | holding (op : Operation) (id : Nat)
  | cleanup
  deriving DecidableEq, Repr

inductive Ended where
  | returned
  | threw
  deriving DecidableEq, Repr

/-- What a step learns: the time, whether what it calls or awaits fails, and whether the code behind
the answer of the server throws. -/
structure Env where
  now : Time
  raises : Bool
  throws : Bool
  deriving DecidableEq, Repr

/-- From the answer of the server to the end of the operation, which is one synchronous step. -/
def afterAnswer (op : Operation) (env : Env) (id : Nat) (p : ConnectionPool) :
    ConnectionPool × Ended :=
  match op with
  | .getAccount =>
    if env.raises then (p.releaseConnection id env.now, .threw)
    else if env.throws then
      -- reading the balances fails behind the first release, and the `catch` block releases again
      ((p.releaseConnection id env.now).releaseConnection id env.now, .threw)
    else (p.releaseConnection id env.now, .returned)
  | .executeSettlement =>
    if env.raises || env.throws then (p.releaseConnection id env.now, .threw)
    else (p.releaseConnection id env.now, .returned)
  | .getTransaction | .submitTransaction =>
    if env.raises then (p.releaseConnection id env.now, .threw)
    else (p.releaseConnection id env.now, .returned)

def advance (cfg : ConnectionPoolConfig) (env : Env) (call : PoolCall) (p : ConnectionPool) :
    ConnectionPool × Task PoolCall Ended :=
  match call with
  | .started op =>
    match p.acquireConnection cfg env.now env.raises with
    | (p', .connection id) => (p', .running (.holding op id))
    | (p', .exhausted) => (p', .running (.waiting op))
    | (p', .failed) => (p', .done .threw)
  | .waiting op =>
    match p.takeAvailable env.now with
    | (p', some id) => (p', .running (.holding op id))
    | (p', none) => (p', .running (.waiting op))
  | .holding op id => ((afterAnswer op env id p).1, .done (afterAnswer op env id p).2)
  | .cleanup => (p.cleanupIdleConnections cfg env.now, .done .returned)

/-- A call is an operation of the gateway, or (`none`) the timer of the cleanup. -/
def proc (cfg : ConnectionPoolConfig) : Proc ConnectionPool Env (Option Operation) PoolCall Ended where
  start
    | some op => .started op
    | none => .cleanup
  adv := advance cfg

def PoolCall.holds : PoolCall → List Nat
  | .holding _ id => [id]
  | _ => []

theorem afterAnswer_pool (op : Operation) (env : Env) (id : Nat) (p : ConnectionPool) :
    (afterAnswer op env id p).1 = p.releaseConnection id env.now := by
  cases op with
  | getAccount =>
    simp only [afterAnswer]
    split
    · rfl
    split
    · exact releaseConnection_twice id env.now p
    · rfl
  | executeSettlement =>
    simp only [afterAnswer]
    split <;> rfl
  | getTransaction =>
    simp only [afterAnswer]
    split <;> rfl
  | submitTransaction =>
    simp only [afterAnswer]
    split <;> rfl

/-! ## The invariant -/

/-- What holds of the pool by itself. -/
structure Wf (cfg : ConnectionPoolConfig) (p : ConnectionPool) : Prop where
  nodup : p.ids.Nodup
  lt_created : ∀ id ∈ p.ids, id < p.created
  min_le : cfg.minConnections ≤ p.connections.length
  le_max : p.connections.length ≤ cfg.maxConnections

theorem Wf.nodup_inUseIds {cfg : ConnectionPoolConfig} {p : ConnectionPool} (h : Wf cfg p) :
    p.inUseIds.Nodup :=
  (inUseIds_sublist p).nodup h.nodup

theorem Wf.update {cfg : ConnectionPoolConfig} {p : ConnectionPool} (h : Wf cfg p) {id : Nat}
    {f : PooledConnection → PooledConnection} (hf : ∀ c, (f c).id = c.id) :
    Wf cfg (p.update id f) := by
  refine ⟨?_, ?_, ?_, ?_⟩
  · rw [ids_update hf]
    exact h.nodup
  · rw [ids_update hf]
    exact h.lt_created
  · rw [length_update]
    exact h.min_le
  · rw [length_update]
    exact h.le_max

theorem ids_createConnection (now : Time) (p : ConnectionPool) :
    (p.createConnection now).ids = p.ids ++ [p.created] := by
  simp [ids, createConnection]

theorem inUseIds_createConnection (now : Time) (p : ConnectionPool) :
    (p.createConnection now).inUseIds = p.inUseIds := by
  simp [inUseIds, createConnection]

theorem nodup_ids_createConnection (now : Time) {p : ConnectionPool} (hn : p.ids.Nodup)
    (hlt : ∀ id ∈ p.ids, id < p.created) :
    (p.createConnection now).ids.Nodup ∧
      ∀ id ∈ (p.createConnection now).ids, id < (p.createConnection now).created := by
  rw [ids_createConnection]
  constructor
  · refine List.nodup_append.mpr ⟨hn, List.nodup_singleton _, fun id hid id' hid' he => ?_⟩
    rw [he, List.mem_singleton.mp hid'] at hid
    exact Nat.lt_irrefl _ (hlt _ hid)
  · intro id hid
    rcases List.mem_append.mp hid with hid | hid
    · exact Nat.lt_succ_of_lt (hlt id hid)
    · rw [List.mem_singleton.mp hid]
      exact Nat.lt_succ_self _

theorem Wf.createConnection {cfg : ConnectionPoolConfig} {p : ConnectionPool} (h : Wf cfg p)
    (now : Time) (hroom : p.connections.length < cfg.maxConnections) :
    Wf cfg (p.createConnection now) := by
  obtain ⟨hn, hlt⟩ := nodup_ids_createConnection now h.nodup h.lt_created
  have hlen : (p.createConnection now).connections.length = p.connections.length + 1 :=
    List.length_append
  refine ⟨hn, hlt, ?_, ?_⟩
  · rw [hlen]
    exact Nat.le_succ_of_le h.min_le
  · rw [hlen]
    exact hroom

theorem createConnections_spec (now : Time) (n : Nat) {p : ConnectionPool} (hn : p.ids.Nodup)
    (hlt : ∀ id ∈ p.ids, id < p.created) :
    (createConnections now n p).ids.Nodup ∧
      (∀ id ∈ (createConnections now n p).ids, id < (createConnections now n p).created) ∧
      (createConnections now n p).connections.length = p.connections.length + n ∧
      (createConnections now n p).inUseIds = p.inUseIds := by
  induction n generalizing p with
  | zero => exact ⟨hn, hlt, rfl, rfl⟩
  | succ n ih =>
    obtain ⟨hn', hlt'⟩ := nodup_ids_createConnection now hn hlt
    obtain ⟨h1, h2, h3, h4⟩ := ih hn' hlt'
    refine ⟨h1, h2, ?_, ?_⟩
    · rw [createConnections, h3, ConnectionPool.createConnection, List.length_append,
        List.length_singleton]
      omega
    · rw [createConnections, h4, inUseIds_createConnection]

theorem Wf.initializePool {cfg : ConnectionPoolConfig}
    (hcfg : cfg.minConnections ≤ cfg.maxConnections) (now : Time) :
    Wf cfg (initializePool cfg now) ∧ (ConnectionPool.initializePool cfg now).inUseIds = [] := by
  obtain ⟨h1, h2, h3, h4⟩ :=
    @createConnections_spec now cfg.minConnections ⟨[], 0⟩ .nil nofun
  rw [List.length_nil, Nat.zero_add] at h3
  exact ⟨⟨h1, h2, Nat.le_of_eq h3.symm, by rw [ConnectionPool.initializePool, h3]; exact hcfg⟩, h4⟩

theorem Wf.cleanupIdleConnections {cfg : ConnectionPoolConfig} {p : ConnectionPool} (h : Wf cfg p)
    (now : Time) : Wf cfg (p.cleanupIdleConnections cfg now) := by
  have hsub := cleanup_sublist cfg now p.connections.length p.connections
  refine ⟨(hsub.map _).nodup h.nodup, ?_, ?_, ?_⟩
  · intro id hid
    exact h.lt_created id ((hsub.map _).subset hid)
  · have := le_length_cleanup now 0 p.connections (by rw [Nat.zero_add]; exact h.min_le)
    rw [Nat.zero_add, Nat.zero_add] at this
    exact this
  · exact Nat.le_trans hsub.length_le h.le_max

theorem takeAvailable_cases {cfg : ConnectionPoolConfig} {p : ConnectionPool} (h : Wf cfg p)
    (now : Time) :
    p.takeAvailable now = (p, none) ∨
    ∃ p' id, p.takeAvailable now = (p', some id) ∧ Wf cfg p' ∧ id ∉ p.inUseIds ∧
      ∀ x, x ∈ p'.inUseIds ↔ x = id ∨ x ∈ p.inUseIds := by
  unfold takeAvailable
  split
  · rename_i conn hfind
    have hin := List.mem_of_find?_eq_some hfind
    have hfree := List.find?_some hfind
    refine .inr ⟨_, _, rfl, h.update fun _ => rfl, ?_, fun x =>
      mem_inUseIds_mark (List.mem_map.mpr ⟨conn, hin, rfl⟩) (.take now) (fun _ => rfl) fun _ => rfl⟩
    intro hmem
    obtain ⟨conn', hin', huse, hid⟩ := mem_inUseIds.mp hmem
    rw [List.inj_on_of_nodup_map h.nodup hin' hin hid] at huse
    simp [huse] at hfree
  · exact .inl rfl

theorem acquireConnection_cases {cfg : ConnectionPoolConfig} {p : ConnectionPool} (h : Wf cfg p)
    (now : Time) (raises : Bool) :
    (p.acquireConnection cfg now raises).1 = p ∧
      (p.acquireConnection cfg now raises).2 ∈ [Acquired.exhausted, .failed] ∨
    ∃ p' id, p.acquireConnection cfg now raises = (p', .connection id) ∧ Wf cfg p' ∧
      id ∉ p.inUseIds ∧ ∀ x, x ∈ p'.inUseIds ↔ x = id ∨ x ∈ p.inUseIds := by
  unfold acquireConnection
  rcases takeAvailable_cases h now with htake | ⟨p', id, htake, hp'⟩
  · simp only [htake]
    split
    · rename_i hroom
      split
      · exact .inl ⟨rfl, by simp⟩
      · have hnew : p.created ∉ p.inUseIds := fun hmem =>
          Nat.lt_irrefl _ (h.lt_created _ ((inUseIds_sublist p).subset hmem))
        refine .inr ⟨_, _, rfl, (h.createConnection now hroom).update fun _ => rfl, hnew, fun x => ?_⟩
        have hin : p.created ∈ (p.createConnection now).ids := by simp [ids_createConnection]
        rw [mem_inUseIds_mark hin .takeNew (fun _ => rfl) fun _ => rfl, inUseIds_createConnection]
    · exact .inl ⟨rfl, by simp⟩
  · simp only [htake]
    exact .inr ⟨p', id, rfl, hp'⟩

structure Inv (cfg : ConnectionPoolConfig) (p : ConnectionPool) (ts : List (Task PoolCall Ended)) :
    Prop where
  wf : Wf cfg p
  held : Exclusive PoolCall.holds p.inUseIds ts

section Step

variable {cfg : ConnectionPoolConfig} {p p' : ConnectionPool} {pre post : List (Task PoolCall Ended)}
  {call : PoolCall} {t : Task PoolCall Ended} {id : Nat}

theorem Inv.keep (h : Inv cfg p (pre ++ .running call :: post)) (hwf : Wf cfg p')
    (huse : p'.inUseIds = p.inUseIds) (ht : t.gather PoolCall.holds = call.holds) :
    Inv cfg p' (pre ++ t :: post) :=
  ⟨hwf, huse ▸ h.held.keep ht⟩

theorem Inv.acquire (h : Inv cfg p (pre ++ .running call :: post)) (hcall : call.holds = [])
    (hwf : Wf cfg p') (hfree : id ∉ p.inUseIds)
    (huse : ∀ x, x ∈ p'.inUseIds ↔ x = id ∨ x ∈ p.inUseIds)
    (ht : t.gather PoolCall.holds = [id]) : Inv cfg p' (pre ++ t :: post) := by
  have hacq := h.held.acquire hcall hfree ht
  have hperm : p'.inUseIds.Perm (id :: p.inUseIds) :=
    (List.perm_ext_iff_of_nodup hwf.nodup_inUseIds hacq.nodup).mpr fun x => by
      rw [huse, List.mem_cons]
  exact ⟨hwf, hperm.trans hacq.perm, hwf.nodup_inUseIds⟩

theorem Inv.release (h : Inv cfg p (pre ++ .running call :: post)) (hcall : call.holds = [id])
    (now : Time) (ht : t.gather PoolCall.holds = []) :
    Inv cfg (p.releaseConnection id now) (pre ++ t :: post) := by
  have hwf : Wf cfg (p.releaseConnection id now) := h.wf.update fun _ => rfl
  have hrel := h.held.release hcall ht
  have hperm : (p.releaseConnection id now).inUseIds.Perm (p.inUseIds.erase id) :=
    (List.perm_ext_iff_of_nodup hwf.nodup_inUseIds hrel.nodup).mpr fun x => by
      rw [mem_inUseIds_release, h.wf.nodup_inUseIds.mem_erase_iff]
  exact ⟨hwf, hperm.trans hrel.perm, hwf.nodup_inUseIds⟩

theorem Inv.advance (env : Env) (h : Inv cfg p (pre ++ .running call :: post)) :
    Inv cfg (advance cfg env call p).1 (pre ++ (advance cfg env call p).2 :: post) := by
  cases call with
  | started op =>
    simp only [ConnectionPool.advance]
    rcases acquireConnection_cases h.wf env.now env.raises with
      ⟨hp, hres⟩ | ⟨p', id, hacq, hwf, hfree, huse⟩
    · generalize p.acquireConnection cfg env.now env.raises = r at hp hres ⊢
      obtain ⟨p', res⟩ := r
      subst hp
      cases res with
      | connection id => simp at hres
      | exhausted => exact h.keep h.wf rfl rfl
      | failed => exact h.keep h.wf rfl rfl
    · rw [hacq]
      exact h.acquire rfl hwf hfree huse rfl
  | waiting op =>
    simp only [ConnectionPool.advance]
    rcases takeAvailable_cases h.wf env.now with htake | ⟨p', id, htake, hwf, hfree, huse⟩
    · rw [htake]
      exact h.keep h.wf rfl rfl
    · rw [htake]
      exact h.acquire rfl hwf hfree huse rfl
  | holding op id =>
    simp only [ConnectionPool.advance, afterAnswer_pool]
    exact h.release rfl env.now rfl
  | cleanup => exact h.keep (h.wf.cleanupIdleConnections env.now) (inUseIds_cleanup _ _ _) rfl

end Step

theorem inv_run {cfg : ConnectionPoolConfig} (hcfg : cfg.minConnections ≤ cfg.maxConnections)
    (now : Time) (acts : List (Act Env (Option Operation))) :
    let c : Conf ConnectionPool PoolCall Ended :=
      run (proc cfg).step (.init (initializePool cfg now)) acts
    Inv cfg c.shared c.tasks := by
  obtain ⟨hwf, huse⟩ := Wf.initializePool hcfg now
  have h0 : Inv cfg (initializePool cfg now) [] := ⟨hwf, by rw [huse]; exact ⟨.nil, .nil⟩⟩
  have hspawn : ∀ (p : ConnectionPool) (ts : List (Task PoolCall Ended)) (x : Option Operation), True →
      Inv cfg p ts → Inv cfg p (ts ++ [Task.running ((proc cfg).start x)]) := by
    intro p ts x _ h
    have hnew : PoolCall.holds ((proc cfg).start x) = [] := by
      cases x <;> rfl
    exact ⟨h.wf, by rw [gather_spawn hnew]; exact h.held.perm, h.held.nodup⟩
  exact run_inv (I := fun c : Conf ConnectionPool PoolCall Ended => Inv cfg c.shared c.tasks)
    (step_inv (proc cfg) hspawn fun p pre call post env _ h => h.advance env) h0
    (along_of_spawns (proc cfg) (fun _ _ => trivial) _)

/-- In every interleaving of operations and cleanups: no two operations hold the same connection; a
held connection is in the pool, also behind a cleanup at any time; the marked connections are those
that are held; and the pool keeps to its bounds. -/
theorem pool_run (cfg : ConnectionPoolConfig) (hcfg : cfg.minConnections ≤ cfg.maxConnections)
    (now : Time) (acts : List (Act Env (Option Operation))) :
    let c : Conf ConnectionPool PoolCall Ended :=
      run (proc cfg).step (.init (initializePool cfg now)) acts
    (gather PoolCall.holds c.tasks).Nodup ∧
    (∀ id ∈ gather PoolCall.holds c.tasks, id ∈ c.shared.ids ∧
      ∀ now, id ∈ (c.shared.cleanupIdleConnections cfg now).ids) ∧
    (∀ conn ∈ c.shared.connections,
      conn.inUse = true ↔ conn.id ∈ gather PoolCall.holds c.tasks) ∧
    cfg.minConnections ≤ c.shared.connections.length ∧
    c.shared.connections.length ≤ cfg.maxConnections := by
  intro c
  have h : Inv cfg c.shared c.tasks := inv_run hcfg now acts
  have hmem : ∀ id, id ∈ gather PoolCall.holds c.tasks ↔ id ∈ c.shared.inUseIds := fun id =>
    h.held.perm.mem_iff.symm
  refine ⟨h.held.perm.nodup_iff.mp h.held.nodup, ?_, ?_, h.wf.min_le, h.wf.le_max⟩
  · intro id hid
    have huse := (hmem id).mp hid
    refine ⟨(inUseIds_sublist _).subset huse, fun now => ?_⟩
    rw [← inUseIds_cleanup cfg now] at huse
    exact (inUseIds_sublist _).subset huse
  · intro conn hconn
    rw [hmem, mem_inUseIds]
    constructor
    · intro huse
      exact ⟨conn, hconn, huse, rfl⟩
    · rintro ⟨conn', hconn', huse, hid⟩
      rwa [List.inj_on_of_nodup_map h.wf.nodup hconn' hconn hid] at huse

/-- Two operations on a pool of one connection: the second one waits, and gets it behind the release
of the first. -/
theorem pool_run_waiter :
    (gather PoolCall.holds (run (proc ⟨1, 1, 30000, 3600000⟩).step
      (.init (initializePool ⟨1, 1, 30000, 3600000⟩ 0))
      [.spawn (some .getAccount), .spawn (some .submitTransaction), .sched 0 ⟨0, false, false⟩,
        .sched 1 ⟨0, false, false⟩, .sched 0 ⟨50, false, false⟩,
        .sched 1 ⟨100, false, false⟩]).tasks).Nodup :=
  (pool_run ⟨1, 1, 30000, 3600000⟩ (by decide) 0 _).1

end ConnectionPool

end Gateway
end TradeCore
